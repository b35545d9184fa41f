import Fedi.FiClient.Types
import Fedi.Lib.Runs
import Fedi.Lib.Tasks

/-!
# Joining the formed federation (`bridge/src/fi_client.rs`, `bridge/src/full.rs`)

At each launch a task waits for the formation to be there, and joins its federation unless that
was done or suppressed before.  Leaving a federation suppresses it first.  Both hold the handoff
lock of the federation id, and can be dropped at every await; what is completed is in the database
and outlives a restart.

    auto-join:   status → lock → completed? → state? → join → complete
    leave:       lock → suppress → leave

    a federation that was joined so or left is not joined automatically again     (completed_stays)
-/

namespace FiClient

open Runs Tasks

/-- The invite code of a formation, and `FedimintInviteCode::from_str` with the id of its federation. -/
structure InviteApi where
  inviteCode : FormationSnapshot → Option String
  federationId : String → Option String

/-- `FederationState`, without the federations. -/
inductive FederationState
  | loading | ready | recovering | failed

inductive HandoffEntry
  | autoJoined (federationId : String)
  /-- The automatic join is over, or the user leaves. -/
  | completed (federationId : String)
deriving DecidableEq

structure Handoffs where
  /-- The handoff locks that are held. -/
  locks : List String
  /-- `FiFederationAutoJoinCompletedKey`. -/
  completed : List String
  log : List HandoffEntry

inductive HandoffTask
  | autoJoin
  | lockAutoJoin (inviteCode federationId : String)
  | checkCompleted (inviteCode federationId : String)
  | joinFederation (inviteCode federationId : String)
  | completeAutoJoin (federationId : String)
  | lockLeave (federationId : String)
  | suppressAutoJoin (federationId : String)
  | leaveFederation (federationId : String)
  | done

inductive HandoffCall
  /-- `start_fi_federation_auto_join`, at each launch. -/
  | start
  | leaveFederation (federationId : String)

structure HandoffInput where
  dropped : Bool
  status : FiStatus
  /-- `get_federation_state`. -/
  federationState : Option FederationState
  /-- Whether `join_federation` succeeds. -/
  joined : Bool

variable (invites : InviteApi)

def formedFederationInvite (status : FiStatus) : Option (String × String) :=
  match status with
  | .idle => none
  | .formation formation =>
    if formation.phase ≠ .formed ∨ formation.freshness ≠ .fresh then none
    else do
      let inviteCode ← invites.inviteCode formation
      let federationId ← invites.federationId inviteCode
      some (inviteCode, federationId)

/-- The federation id whose lock a task holds. -/
def HandoffTask.held : HandoffTask → Option String
  | .checkCompleted _ federationId => some federationId
  | .joinFederation _ federationId => some federationId
  | .completeAutoJoin federationId => some federationId
  | .suppressAutoJoin federationId => some federationId
  | .leaveFederation federationId => some federationId
  | _ => none

def Handoffs.release (s : Handoffs) (federationId : String) : Handoffs := { s with locks := s.locks.erase federationId }

/-- `complete_fi_federation_auto_join` and `suppress_fi_federation_auto_join`. -/
def Handoffs.complete (s : Handoffs) (federationId : String) : Handoffs :=
  { s with completed := federationId :: s.completed, log := s.log ++ [.completed federationId] }

/-- The lock, or the task stays where it is. -/
def Handoffs.lock (s : Handoffs) (federationId : String) (waits next : HandoffTask) : Handoffs × List HandoffTask :=
  if federationId ∈ s.locks then (s, [waits]) else ({ s with locks := federationId :: s.locks }, [next])

def checkCompleted (s : Handoffs) (inviteCode federationId : String) (input : HandoffInput) :
    Handoffs × List HandoffTask :=
  if federationId ∈ s.completed then (s.release federationId, [.done])
  else
    match input.federationState with
    | some .loading => (s.release federationId, [.done])
    | some _ => (s, [.completeAutoJoin federationId])
    | none => (s, [.joinFederation inviteCode federationId])

def pollHandoff (s : Handoffs) (t : HandoffTask) (input : HandoffInput) : Handoffs × List HandoffTask :=
  match t with
  | .autoJoin =>
    match formedFederationInvite invites input.status with
    | none => (s, [.autoJoin])
    | some (inviteCode, federationId) => (s, [.lockAutoJoin inviteCode federationId])
  | .lockAutoJoin inviteCode federationId =>
    s.lock federationId (.lockAutoJoin inviteCode federationId) (.checkCompleted inviteCode federationId)
  | .checkCompleted inviteCode federationId => checkCompleted s inviteCode federationId input
  | .joinFederation _ federationId =>
    if input.joined then
      ({ s with log := s.log ++ [.autoJoined federationId] }, [.completeAutoJoin federationId])
    else (s.release federationId, [.done])
  | .completeAutoJoin federationId => ((s.complete federationId).release federationId, [.done])
  | .lockLeave federationId => s.lock federationId (.lockLeave federationId) (.suppressAutoJoin federationId)
  | .suppressAutoJoin federationId => (s.complete federationId, [.leaveFederation federationId])
  | .leaveFederation federationId => (s.release federationId, [.done])
  | .done => (s, [.done])

/-- A task that is dropped releases its lock. -/
def runHandoff (s : Handoffs) (t : HandoffTask) (input : HandoffInput) : Handoffs × List HandoffTask :=
  if input.dropped then
    match t.held with
    | some federationId => (s.release federationId, [])
    | none => (s, [])
  else pollHandoff invites s t input

def HandoffCall.task : HandoffCall → HandoffTask
  | .start => .autoJoin
  | .leaveFederation federationId => .lockLeave federationId

def handoffs (es : List (Event HandoffCall HandoffInput)) : Pool Handoffs HandoffTask :=
  pool HandoffCall.task (runHandoff invites) ⟨⟨[], [], []⟩, []⟩ es

/-! ## Locks -/

/-- A lock is held by one task, where it is held. -/
def Locked (s : Handoffs) (ts : List HandoffTask) : Prop :=
  ∀ federationId, ts.countP (fun t => decide (t.held = some federationId)) = s.locks.count federationId ∧
    s.locks.count federationId ≤ 1

section
variable {invites : InviteApi} {s s' : Handoffs} {t : HandoffTask} {before after : List HandoffTask}
  {federationId : String} {input : HandoffInput}

/-- The locks of a task and of what it leaves. -/
def LockStep (s : Handoffs) (t : HandoffTask) (r : Handoffs × List HandoffTask) : Prop :=
  ∀ federationId, s.locks.count federationId ≤ 1 → (t.held = some federationId → s.locks.count federationId = 1) →
    r.1.locks.count federationId ≤ 1 ∧
      r.2.countP (fun x => decide (x.held = some federationId)) + s.locks.count federationId =
        r.1.locks.count federationId + if t.held = some federationId then 1 else 0

theorem Locked.step {r : Handoffs × List HandoffTask} (h : Locked s (before ++ t :: after)) (hstep : LockStep s t r) :
    Locked r.1 (before ++ r.2 ++ after) := by
  intro federationId
  obtain ⟨hcount, hle⟩ := h federationId
  rw [countP_task] at hcount
  simp only [decide_eq_true_eq] at hcount
  have hheld : t.held = some federationId → s.locks.count federationId = 1 := by
    intro hheld
    rw [if_pos hheld] at hcount
    omega
  obtain ⟨hle', hcount'⟩ := hstep federationId hle hheld
  rw [countP_next]
  exact ⟨by omega, hle'⟩

/-- The task goes on with its lock, or without one as before. -/
theorem lockStep_same {next : HandoffTask} (hlocks : s'.locks = s.locks) (hheld : next.held = t.held) :
    LockStep s t (s', [next]) := by
  intro federationId hle _
  rw [hlocks, List.countP_singleton, hheld]
  simp only [decide_eq_true_eq]
  exact ⟨hle, Nat.add_comm _ _⟩

theorem lockStep_release {ts : List HandoffTask} (ht : t.held = some federationId)
    (hlocks : s'.locks = s.locks.erase federationId) (hts : ∀ x ∈ ts, x.held = none) : LockStep s t (s', ts) := by
  intro other hle hheld
  have hnone : ts.countP (fun x => decide (x.held = some other)) = 0 := by
    refine List.countP_eq_zero.mpr fun x hx => ?_
    rw [hts x hx]
    simp
  rw [hlocks, hnone, ht]
  by_cases hsame : federationId = other
  · subst hsame
    rw [List.count_erase_self, if_pos rfl]
    have hone := hheld ht
    omega
  · rw [List.count_erase_of_ne (fun heq => hsame heq.symm),
      if_neg (fun heq => hsame (Option.some.inj heq)), Nat.zero_add, Nat.add_zero]
    exact ⟨hle, rfl⟩

theorem lockStep_lock {waits next : HandoffTask} (ht : t.held = none) (hwaits : waits.held = none)
    (hnext : next.held = some federationId) : LockStep s t (s.lock federationId waits next) := by
  unfold Handoffs.lock
  split_ifs with hmem
  · exact lockStep_same rfl (hwaits.trans ht.symm)
  · intro other hle _
    have hfree : s.locks.count federationId = 0 := List.count_eq_zero.mpr hmem
    rw [ht, List.countP_singleton, hnext]
    by_cases hsame : federationId = other
    · subst hsame
      simp [hfree]
    · rw [List.count_cons_of_ne (fun heq => hsame heq)]
      simp [hsame, hle]

theorem lockStep_checkCompleted (inviteCode : String) :
    LockStep s (.checkCompleted inviteCode federationId) (checkCompleted s inviteCode federationId input) := by
  have hends : LockStep s (.checkCompleted inviteCode federationId) (s.release federationId, [.done]) :=
    lockStep_release rfl rfl fun x hx => by rw [List.mem_singleton.mp hx]; rfl
  unfold checkCompleted
  split_ifs
  · exact hends
  · cases input.federationState with
    | none => exact lockStep_same rfl rfl
    | some state => cases state <;> first | exact hends | exact lockStep_same rfl rfl

theorem lockStep_run : LockStep s t (runHandoff invites s t input) := by
  have hdone : ∀ x ∈ [HandoffTask.done], x.held = none := fun x hx => by rw [List.mem_singleton.mp hx]; rfl
  unfold runHandoff
  split_ifs
  · cases ht : t.held with
    | some federationId => exact lockStep_release ht rfl fun x hx => by cases hx
    | none =>
      intro federationId hle _
      rw [ht]
      exact ⟨hle, Nat.zero_add _⟩
  · cases t with
    | autoJoin =>
      show LockStep s .autoJoin (match formedFederationInvite invites input.status with
        | none => (s, [.autoJoin])
        | some (inviteCode, federationId) => (s, [.lockAutoJoin inviteCode federationId]))
      cases formedFederationInvite invites input.status with
      | none => exact lockStep_same rfl rfl
      | some invite => exact lockStep_same rfl rfl
    | lockAutoJoin inviteCode federationId => exact lockStep_lock rfl rfl rfl
    | checkCompleted inviteCode federationId => exact lockStep_checkCompleted inviteCode
    | joinFederation inviteCode federationId =>
      unfold pollHandoff
      dsimp only
      split_ifs
      · exact lockStep_same rfl rfl
      · exact lockStep_release rfl rfl hdone
    | completeAutoJoin federationId => exact lockStep_release rfl rfl hdone
    | lockLeave federationId => exact lockStep_lock rfl rfl rfl
    | suppressAutoJoin federationId => exact lockStep_same rfl rfl
    | leaveFederation federationId => exact lockStep_release rfl rfl hdone
    | done => exact lockStep_same rfl rfl

/-! ## Joins and completions -/

def HandoffTask.joins : HandoffTask → Option String
  | .joinFederation _ federationId => some federationId
  | _ => none

theorem held_of_joins (h : t.joins = some federationId) : t.held = some federationId := by
  cases t <;> first | exact h | cases h

/-- What a step does to joins and completions. -/
inductive HandoffStep (s : Handoffs) (t : HandoffTask) (r : Handoffs × List HandoffTask) : Prop
  /-- A join may be about to begin, of a federation that is not completed. -/
  | goesOn : r.1.completed = s.completed → r.1.log = s.log →
    (∀ x ∈ r.2, ∀ federationId, x.joins = some federationId → federationId ∉ s.completed) → HandoffStep s t r
  | joined (federationId : String) : t.joins = some federationId → r.1.completed = s.completed →
    r.1.log = s.log ++ [.autoJoined federationId] → (∀ x ∈ r.2, x.joins = none) → HandoffStep s t r
  | completed (federationId : String) : t.held = some federationId →
    r.1.completed = federationId :: s.completed → r.1.log = s.log ++ [.completed federationId] →
    (∀ x ∈ r.2, x.joins = none) → HandoffStep s t r

theorem goesOn_quiet {r : Handoffs × List HandoffTask} (hcompleted : r.1.completed = s.completed)
    (hlog : r.1.log = s.log) (hts : ∀ x ∈ r.2, x.joins = none) : HandoffStep s t r := by
  refine .goesOn hcompleted hlog fun x hx federationId hjoins => ?_
  rw [hts x hx] at hjoins
  cases hjoins

theorem none_joins {next : HandoffTask} (h : next.joins = none) : ∀ x ∈ [next], x.joins = none := by
  intro x hx
  rw [List.mem_singleton.mp hx]
  exact h

theorem handoffStep_lock {waits next : HandoffTask} (hwaits : waits.joins = none) (hnext : next.joins = none) :
    HandoffStep s t (s.lock federationId waits next) := by
  unfold Handoffs.lock
  split_ifs
  · exact goesOn_quiet rfl rfl (none_joins hwaits)
  · exact goesOn_quiet rfl rfl (none_joins hnext)

theorem handoffStep_checkCompleted (inviteCode : String) :
    HandoffStep s t (checkCompleted s inviteCode federationId input) := by
  unfold checkCompleted
  split_ifs with hcompleted
  · exact goesOn_quiet rfl rfl (none_joins rfl)
  · cases input.federationState with
    | some state => cases state <;> exact goesOn_quiet rfl rfl (none_joins rfl)
    | none =>
      refine .goesOn rfl rfl fun x hx other hjoins => ?_
      rw [List.mem_singleton.mp hx] at hjoins
      cases hjoins
      exact hcompleted

theorem handoffStep_run : HandoffStep s t (runHandoff invites s t input) := by
  unfold runHandoff
  split_ifs
  · cases t.held with
    | some federationId => exact goesOn_quiet rfl rfl fun x hx => by cases hx
    | none => exact goesOn_quiet rfl rfl fun x hx => by cases hx
  · cases t with
    | autoJoin =>
      show HandoffStep s .autoJoin (match formedFederationInvite invites input.status with
        | none => (s, [.autoJoin])
        | some (inviteCode, federationId) => (s, [.lockAutoJoin inviteCode federationId]))
      cases formedFederationInvite invites input.status with
      | none => exact goesOn_quiet rfl rfl (none_joins rfl)
      | some invite => exact goesOn_quiet rfl rfl (none_joins rfl)
    | lockAutoJoin inviteCode federationId => exact handoffStep_lock rfl rfl
    | checkCompleted inviteCode federationId => exact handoffStep_checkCompleted inviteCode
    | joinFederation inviteCode federationId =>
      unfold pollHandoff
      dsimp only
      split_ifs
      · exact .joined federationId rfl rfl rfl (none_joins rfl)
      · exact goesOn_quiet rfl rfl (none_joins rfl)
    | completeAutoJoin federationId => exact .completed federationId rfl rfl rfl (none_joins rfl)
    | lockLeave federationId => exact handoffStep_lock rfl rfl
    | suppressAutoJoin federationId => exact .completed federationId rfl rfl rfl (none_joins rfl)
    | leaveFederation federationId => exact goesOn_quiet rfl rfl (none_joins rfl)
    | done => exact goesOn_quiet rfl rfl (none_joins rfl)

/-- Nobody else holds the lock. -/
theorem not_held_by_others (h : Locked s (before ++ t :: after)) (ht : t.held = some federationId) :
    ∀ x ∈ before ++ after, x.held ≠ some federationId := by
  intro x hx hheld
  obtain ⟨hcount, hle⟩ := h federationId
  rw [countP_task, if_pos (by rw [ht]; simp)] at hcount
  have hpos : 0 < (before ++ after).countP fun t => decide (t.held = some federationId) :=
    List.countP_pos_iff.mpr ⟨x, hx, by rw [hheld]; simp⟩
  omega

end

/-! ## Runs -/

/-- A join under way is of a federation that is not completed, and none comes after the completion. -/
structure JoinsOk (s : Handoffs) (ts : List HandoffTask) : Prop where
  locked : Locked s ts
  joins : ∀ t ∈ ts, ∀ federationId, t.joins = some federationId → federationId ∉ s.completed
  completed : ∀ federationId, .completed federationId ∈ s.log → federationId ∈ s.completed
  log : ∀ before e after, s.log = before ++ e :: after → ∀ federationId, e = .autoJoined federationId →
    .completed federationId ∉ before

section
variable {invites : InviteApi} {s : Handoffs} {t : HandoffTask} {before after : List HandoffTask}

theorem log_snoc {log : List HandoffEntry} {e : HandoffEntry}
    (h : ∀ before e after, log = before ++ e :: after → ∀ federationId, e = .autoJoined federationId →
      .completed federationId ∉ before)
    (he : ∀ federationId, e = .autoJoined federationId → .completed federationId ∉ log) :
    ∀ before e' after, log ++ [e] = before ++ e' :: after → ∀ federationId, e' = .autoJoined federationId →
      .completed federationId ∉ before := by
  intro before e' after hsplit federationId heq hbad
  have hbad' : ∃ before e' after, log ++ [e] = before ++ e' :: after ∧
      ∃ federationId, e' = .autoJoined federationId ∧ .completed federationId ∈ before :=
    ⟨before, e', after, hsplit, federationId, heq, hbad⟩
  rcases exists_split_snoc.mp hbad' with ⟨before', e'', after', hsplit', other, heq', hmem⟩ | ⟨other, heq', hmem⟩
  · exact h before' e'' after' hsplit' other heq' hmem
  · exact he other heq' hmem

theorem joinsOk_run (input : HandoffInput) (h : JoinsOk s (before ++ t :: after)) :
    JoinsOk (runHandoff invites s t input).1 (before ++ (runHandoff invites s t input).2 ++ after) := by
  have hlocked := h.locked.step (lockStep_run : LockStep s t (runHandoff invites s t input))
  have hstep : HandoffStep s t (runHandoff invites s t input) := handoffStep_run
  obtain ⟨htask, hothers⟩ := forall_task_iff.mp h.joins
  generalize runHandoff invites s t input = r at hlocked hstep ⊢
  cases hstep with
  | goesOn hcompleted hlog hnew =>
    refine ⟨hlocked, ?_, ?_, ?_⟩
    · rw [hcompleted]
      exact forall_next_iff.mpr ⟨hnew, hothers⟩
    · rw [hcompleted, hlog]
      exact h.completed
    · rw [hlog]
      exact h.log
  | joined federationId hjoins hcompleted hlog hnone =>
    refine ⟨hlocked, forall_next_iff.mpr ⟨fun x hx other hx' => ?_, ?_⟩, fun other hmem => ?_, ?_⟩
    · rw [hnone x hx] at hx'
      cases hx'
    · rw [hcompleted]
      exact hothers
    · rw [hlog] at hmem
      rw [hcompleted]
      rcases List.mem_append.mp hmem with hmem | hmem
      · exact h.completed other hmem
      · cases List.mem_singleton.mp hmem
    · rw [hlog]
      refine log_snoc h.log fun other heq hmem => ?_
      cases heq
      exact htask federationId hjoins (h.completed federationId hmem)
  | completed federationId hheld hcompleted hlog hnone =>
    refine ⟨hlocked, forall_next_iff.mpr ⟨fun x hx other hx' => ?_, fun x hx other hx' => ?_⟩, fun other hmem => ?_, ?_⟩
    · rw [hnone x hx] at hx'
      cases hx'
    · -- the lock keeps the others from joining this federation
      rw [hcompleted, List.mem_cons]
      rintro (rfl | hmem)
      · exact not_held_by_others h.locked hheld x hx (held_of_joins hx')
      · exact hothers x hx other hx' hmem
    · rw [hlog] at hmem
      rw [hcompleted, List.mem_cons]
      rcases List.mem_append.mp hmem with hmem | hmem
      · exact .inr (h.completed other hmem)
      · cases List.mem_singleton.mp hmem
        exact .inl rfl
    · rw [hlog]
      exact log_snoc h.log fun other heq => by cases heq

theorem joinsOk_handoffs (invites : InviteApi) (es : List (Event HandoffCall HandoffInput)) :
    JoinsOk (handoffs invites es).state (handoffs invites es).tasks := by
  refine pool_invariant (I := JoinsOk) ⟨fun _ => ⟨rfl, Nat.zero_le _⟩, fun t ht => ?_, fun _ hmem => ?_,
    fun before e after hsplit => ?_⟩ (fun s ts call h => ?_) (fun s before t after input h => joinsOk_run input h) es
  · cases ht
  · cases hmem
  · exact absurd hsplit.symm (List.append_ne_nil_of_right_ne_nil before (List.cons_ne_nil e after))
  · have hheld : call.task.held = none := by cases call <;> rfl
    refine ⟨fun federationId => ?_, fun x hx federationId hjoins => ?_, h.completed, h.log⟩
    · rw [List.countP_append, List.countP_singleton, hheld]
      exact h.locked federationId
    · rcases List.mem_append.mp hx with hx | hx
      · exact h.joins x hx federationId hjoins
      · rw [List.mem_singleton.mp hx] at hjoins
        have := held_of_joins hjoins
        rw [hheld] at this
        cases this

end

/-- However launches, automatic joins and leave calls interleave, and wherever they are dropped by a
shutdown: a federation whose automatic join is completed, as it is before the user leaves it, is
not joined automatically again. -/
theorem completed_stays (invites : InviteApi) (es : List (Event HandoffCall HandoffInput)) (federationId : String)
    (before after : List HandoffEntry)
    (hlog : (handoffs invites es).state.log = before ++ .completed federationId :: after) :
    .autoJoined federationId ∉ after := by
  intro hmem
  obtain ⟨between, rest, rfl⟩ := List.append_of_mem hmem
  have hsplit : (handoffs invites es).state.log =
      (before ++ .completed federationId :: between) ++ .autoJoined federationId :: rest := by
    rw [hlog, List.append_assoc, List.cons_append]
  exact (joinsOk_handoffs invites es).log _ _ rest hsplit federationId rfl
    (List.mem_append_right _ List.mem_cons_self)

def demoInvites : InviteApi := ⟨fun _ => some "invite", fun _ => some "fed"⟩

def demoHandoff : HandoffInput := ⟨false, .formation ⟨.formed, .fresh, none, none, ""⟩, none, true⟩

/-- A launch joins the federation, the user leaves it, and the app is launched again. -/
def demoLeft : List (Event HandoffCall HandoffInput) :=
  .call .start :: List.replicate 5 (.advance 0 demoHandoff) ++
    .call (.leaveFederation "fed") :: List.replicate 3 (.advance 1 demoHandoff) ++
    .call .start :: List.replicate 5 (.advance 2 demoHandoff)

theorem completed_stays_left : .autoJoined "fed" ∉ [HandoffEntry.completed "fed"] :=
  completed_stays demoInvites demoLeft "fed" [.autoJoined "fed"] [.completed "fed"] rfl

end FiClient
