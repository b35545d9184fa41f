import Fedi.FiClient.Handoff
import Fedi.Lib.Runs

/-!
# What is authorized, and what is dispatched

Along every run of the bridge:

    a command that spends an authorization carries the one approval of its preview id, made for
      a preview since the last durable abandonment, with a limit that is not zero and not below
      what was advertised                                                  (dispatched_authorized)
    a preview id whose payment has its final result is never dispatched again     (settled_final)
    `unreachable!()` is reached by the calls that name a stored preview whose approval has
      failed, and by no others                                                (unreachable_iff)
-/

namespace FiClient

open Runs Tasks

variable {api : FiApi}

/-! ## The log -/

/-- The preview is of this id and total, and no abandonment came after it. -/
def Offered (log : List (Entry api)) (k : Purpose) (previewId : String) (totalAdvertisedMsats : ℕ) : Prop :=
  ∃ before after, log = before ++ .previewed k previewId totalAdvertisedMsats :: after ∧ .invalidated ∉ after

/-- The approval was made for the preview, within bounds. -/
def Granted (log : List (Entry api)) (k : Purpose) (previewId : String) (approval : api.Approval k) : Prop :=
  .approved k previewId approval ∈ log ∧ 0 < api.maxTotalMsats approval ∧
    ∃ total, Offered log k previewId total ∧ total ≤ api.maxTotalMsats approval

/-- The preview that an entry says to be consumed. -/
def Entry.consumes : Entry api → Option (Purpose × String)
  | .approved k previewId _ => some (k, previewId)
  | .refused k previewId => some (k, previewId)
  | _ => none

/-- The preview id that a call has named with success. -/
def Entry.uses : Entry api → Option (Purpose × String)
  | .approved k previewId _ => some (k, previewId)
  | .refused k previewId => some (k, previewId)
  | .unreachable k previewId => some (k, previewId)
  | .authorized k previewId _ => some (k, previewId)
  | .dispatched k previewId _ => some (k, previewId)
  | .settled k previewId => some (k, previewId)
  | _ => none

/-- What an entry says about those before it. -/
def EntryOk (before : List (Entry api)) : Entry api → Prop
  | .approved k previewId _ => ∀ e ∈ before, e.consumes ≠ some (k, previewId)
  | .refused k previewId => ∀ e ∈ before, e.consumes ≠ some (k, previewId)
  | .unreachable k previewId => .refused k previewId ∈ before
  | .authorized .replacement previewId _ => .settled .replacement previewId ∉ before
  | .dispatched k previewId approval =>
    Granted before k previewId approval ∧ (k = .selection → .settled .selection previewId ∉ before)
  | _ => True

def LogOk (log : List (Entry api)) : Prop := ∀ before e after, log = before ++ e :: after → EntryOk before e

section
variable {log more : List (Entry api)} {k : Purpose} {previewId : String} {total : ℕ} {approval : api.Approval k}

theorem logOk_nil : LogOk ([] : List (Entry api)) := forall_splits_nil

theorem LogOk.snoc (h : LogOk log) {e : Entry api} (he : EntryOk log e) : LogOk (log ++ [e]) := by
  intro before e' after hsplit
  by_contra hbad
  rcases (exists_split_snoc (Q := fun before e => ¬ EntryOk before e)).mp ⟨before, e', after, hsplit, hbad⟩ with
    ⟨before', e'', after', hsplit', hbad'⟩ | hlast
  · exact hbad' (h before' e'' after' hsplit')
  · exact hlast he

theorem Offered.append (h : Offered log k previewId total) (hmore : .invalidated ∉ more) :
    Offered (log ++ more) k previewId total := by
  obtain ⟨before, after, rfl, hafter⟩ := h
  refine ⟨before, after ++ more, by rw [List.append_assoc, List.cons_append], ?_⟩
  rw [List.mem_append]
  exact not_or.mpr ⟨hafter, hmore⟩

theorem offered_last (log : List (Entry api)) (k : Purpose) (previewId : String) (total : ℕ) :
    Offered (log ++ [.previewed k previewId total]) k previewId total := ⟨log, [], rfl, List.not_mem_nil⟩

theorem Granted.append (h : Granted log k previewId approval) (hmore : .invalidated ∉ more) :
    Granted (log ++ more) k previewId approval := by
  obtain ⟨happroved, hpos, total, hoffered, hle⟩ := h
  exact ⟨List.mem_append_left _ happroved, hpos, total, hoffered.append hmore, hle⟩

theorem uses_of_consumes {e : Entry api} {x : Purpose × String} (h : e.consumes = some x) : e.uses = some x := by
  cases e <;> first | exact h | cases h

end

/-! ## What is stored -/

/-- A stored authorization is a preview, an approval, or what a failed approval leaves. -/
inductive StoredOk (log : List (Entry api)) (k : Purpose) (s : Stored api k) : Prop
  | offered (preview : api.Preview k) : s.preview = some preview → s.approval = none →
    Offered log k s.previewId (api.totalAdvertisedMsats preview) →
    (∀ e ∈ log, e.consumes ≠ some (k, s.previewId)) → StoredOk log k s
  | approved (approval : api.Approval k) : s.preview = none → s.approval = some approval →
    Granted log k s.previewId approval → .refused k s.previewId ∉ log → StoredOk log k s
  | refused : s.preview = none → s.approval = none → .refused k s.previewId ∈ log → StoredOk log k s

theorem StoredOk.append {log more : List (Entry api)} {k : Purpose} {s : Stored api k} (h : StoredOk log k s)
    (hvalid : .invalidated ∉ more) (hmore : ∀ e ∈ more, e.consumes ≠ some (k, s.previewId)) :
    StoredOk (log ++ more) k s := by
  cases h with
  | offered preview hpreview happroval hoffered hunused =>
    refine .offered preview hpreview happroval (hoffered.append hvalid) fun e he => ?_
    rcases List.mem_append.mp he with he | he
    · exact hunused e he
    · exact hmore e he
  | approved approval hpreview happroval hgranted hnot =>
    refine .approved approval hpreview happroval (hgranted.append hvalid) fun he => ?_
    rcases List.mem_append.mp he with he | he
    · exact hnot he
    · exact hmore _ he rfl
  | refused hpreview happroval hrefused => exact .refused hpreview happroval (List.mem_append_left _ hrefused)

/-! ## The state without the tasks -/

/-- One of the preview ids so far. -/
def Drawn (b : Bridge api) (previewId : String) : Prop := ∃ n < b.drawn, previewId = api.previewId n

theorem not_drawn (b : Bridge api) : ¬ Drawn b (api.previewId b.drawn) := by
  rintro ⟨n, hn, heq⟩
  exact (Nat.ne_of_gt hn) (api.previewId_injective heq)

/-- What holds of a store. -/
structure StoreOk (b : Bridge api) (k : Purpose) (s : Stored api k) : Prop where
  drawn : Drawn b s.previewId
  stored : StoredOk b.log k s
  unsettled : k = .replacement → .settled .replacement s.previewId ∉ b.log

structure Core (b : Bridge api) : Prop where
  stored : ∀ k s, b.formationState.stored k = some s → StoreOk b k s
  push : ∀ stored, b.formationState.formationPush = some stored → Drawn b stored.previewId ∧
    (b.driverGone = true ∨ .settled .selection stored.previewId ∉ b.log)
  log : LogOk b.log
  entries : ∀ e ∈ b.log, ∀ x, e.uses = some x → Drawn b x.2

/-- All that authorizations depend on is as it was. -/
structure Same (b b' : Bridge api) : Prop where
  selection : b'.formationState.selection = b.formationState.selection
  replacement : b'.formationState.replacement = b.formationState.replacement
  formationPush : b'.formationState.formationPush = b.formationState.formationPush
  drawn : b'.drawn = b.drawn
  log : b'.log = b.log
  gone : b.driverGone = true → b'.driverGone = true

section
variable {b b' : Bridge api} {k : Purpose} {previewId : String}

theorem Same.refl (b : Bridge api) : Same b b := ⟨rfl, rfl, rfl, rfl, rfl, id⟩

theorem Same.trans {b'' : Bridge api} (h : Same b b') (h' : Same b' b'') : Same b b'' where
  selection := h'.selection.trans h.selection
  replacement := h'.replacement.trans h.replacement
  formationPush := h'.formationPush.trans h.formationPush
  drawn := h'.drawn.trans h.drawn
  log := h'.log.trans h.log
  gone := fun hgone => h'.gone (h.gone hgone)

theorem Same.stored (h : Same b b') (k : Purpose) : b'.formationState.stored k = b.formationState.stored k := by
  cases k
  · exact h.selection
  · exact h.replacement

theorem Same.drawn_iff (h : Same b b') : Drawn b' previewId ↔ Drawn b previewId := by
  unfold Drawn
  rw [h.drawn]

theorem Core.same (h : Core b) (hsame : Same b b') : Core b' where
  stored := by
    intro k s hs
    rw [hsame.stored] at hs
    obtain ⟨hdrawn, hok, hunsettled⟩ := h.stored k s hs
    exact ⟨hsame.drawn_iff.mpr hdrawn, by rw [hsame.log]; exact hok, by rw [hsame.log]; exact hunsettled⟩
  push := by
    intro stored hstored
    rw [hsame.formationPush] at hstored
    rw [hsame.drawn_iff, hsame.log]
    obtain ⟨hdrawn, hfinal⟩ := h.push stored hstored
    exact ⟨hdrawn, hfinal.imp_left hsame.gone⟩
  log := by
    rw [hsame.log]
    exact h.log
  entries := by
    intro e he x hx
    rw [hsame.log] at he
    rw [hsame.drawn_iff]
    exact h.entries e he x hx

end

/-! ## The tasks -/

/-- What a task does for a preview id. -/
inductive Role (api : FiApi)
  | none
  /-- It has drawn a preview, and stores it. -/
  | offers (k : Purpose) (previewId : String) (totalAdvertisedMsats : ℕ)
  /-- The preview is stored, and its id goes to the push coordinator. -/
  | installs (previewId : String)
  /-- It has an approval; for a paid formation, `checked` says that the push coordinator has the id. -/
  | holds (k : Purpose) (previewId : String) (approval : api.Approval k) (checked : Bool)
  /-- The command is sent, and the result is not settled. -/
  | awaits (k : Purpose) (previewId : String)
  /-- An abandonment has emptied the selection, or the replacement too. -/
  | empties (both : Bool)

def Caller.holds : Caller api → Role api
  | .payAndCreate previewId _ approval _ _ => .holds .selection previewId approval true
  | .applyReplacements previewId approval => .holds .replacement previewId approval true
  | .other _ => .none

def Caller.awaits : Caller api → Role api
  | .payAndCreate previewId _ _ _ _ => .awaits .selection previewId
  | .applyReplacements previewId _ => .awaits .replacement previewId
  | .other _ => .none

def Task.role : Task api → Role api
  | .storeSelection previewId preview => .offers .selection previewId (api.totalAdvertisedMsats preview)
  | .installPreview previewId _ _ => .installs previewId
  | .storeReplacement previewId preview => .offers .replacement previewId (api.totalAdvertisedMsats preview)
  | .ensureHook previewId _ approval _ => .holds .selection previewId approval false
  | .createHook previewId _ approval _ => .holds .selection previewId approval true
  | .send caller => caller.holds
  | .receive caller _ => caller.awaits
  | .settlePush previewId _ _ _ => .awaits .selection previewId
  | .clearReplacement previewId _ => .awaits .replacement previewId
  | .invalidateReplacement _ _ _ _ _ => .empties false
  | .invalidatePush _ _ _ _ _ => .empties true
  | _ => .none

/-- The preview id that is not to be used yet. -/
def Role.fresh : Role api → Option (Purpose × String)
  | .offers k previewId _ => some (k, previewId)
  | .installs previewId => some (.selection, previewId)
  | _ => Option.none

def Role.awaited : Role api → Option (Purpose × String)
  | .awaits k previewId => some (k, previewId)
  | _ => Option.none

theorem Role.awaited_of_fresh {role : Role api} {x : Purpose × String} (h : role.fresh = some x) :
    role.awaited = Option.none := by
  cases role <;> first | rfl | cases h

def RoleOk (b : Bridge api) : Role api → Prop
  | .none => True
  | .offers k previewId total =>
    Drawn b previewId ∧ Offered b.log k previewId total ∧ ∀ e ∈ b.log, e.uses ≠ some (k, previewId)
  | .installs previewId => Drawn b previewId ∧ ∀ e ∈ b.log, e.uses ≠ some (.selection, previewId)
  | .holds k previewId approval checked => Drawn b previewId ∧ Granted b.log k previewId approval ∧
    (k = .selection → checked = true → b.driverGone = true ∨ .settled .selection previewId ∉ b.log)
  | .awaits _ previewId => Drawn b previewId
  | .empties both => b.formationState.selection = Option.none ∧
    (both = true → b.formationState.replacement = Option.none)

structure Sound (b : Bridge api) (ts : List (Task api)) : Prop where
  core : Core b
  roles : ∀ t ∈ ts, RoleOk b t.role
  /-- Nobody awaits the result of a preview id that is not used yet. -/
  apart : ∀ t ∈ ts, ∀ t' ∈ ts, ∀ x, t.role.fresh = some x → t'.role.awaited ≠ some x

section
variable {b b' : Bridge api} {t : Task api} {before after new : List (Task api)}

theorem RoleOk.same {role : Role api} (h : RoleOk b role) (hsame : Same b b') : RoleOk b' role := by
  have hlog := hsame.log
  cases role with
  | none => trivial
  | offers k previewId total => exact ⟨hsame.drawn_iff.mpr h.1, by rw [hlog]; exact h.2⟩
  | installs previewId => exact ⟨hsame.drawn_iff.mpr h.1, by rw [hlog]; exact h.2⟩
  | holds k previewId approval checked =>
    refine ⟨hsame.drawn_iff.mpr h.1, by rw [hlog]; exact h.2.1, fun hk hchecked => ?_⟩
    rw [hlog]
    exact (h.2.2 hk hchecked).imp_left hsame.gone
  | awaits k previewId => exact hsame.drawn_iff.mpr h
  | empties both =>
    exact ⟨hsame.selection.trans h.1, fun hboth => hsame.replacement.trans (h.2 hboth)⟩

/-- A call without the claim awaits a result, or has no role. -/
theorem role_of_unclaimed (h : t.holdsClaim = false) : t.role = .none ∨ ∃ k previewId, t.role = .awaits k previewId := by
  cases t <;> first | exact .inl rfl | exact .inr ⟨_, _, rfl⟩ | cases h
  case receive caller channel =>
    cases caller <;> first | exact .inl rfl | exact .inr ⟨_, _, rfl⟩

theorem fresh_of_unclaimed (h : t.holdsClaim = false) : t.role.fresh = none := by
  rcases role_of_unclaimed h with hrole | ⟨k, previewId, hrole⟩ <;> rw [hrole] <;> rfl

/-- The other tasks have no claim when one has. -/
theorem alone (h : Claimed b (before ++ t :: after)) (ht : t.holdsClaim = true) :
    ∀ x ∈ before ++ after, x.holdsClaim = false := by
  intro x hx
  unfold Claimed claimsOf at h
  rw [countP_task, ht, if_pos rfl] at h
  have hle := Bool.toNat_le b.operationActive
  have hnone : (before ++ after).countP Task.holdsClaim = 0 := by omega
  exact Bool.eq_false_of_not_eq_true (List.countP_eq_zero.mp hnone x hx)

/-- A step that leaves authorizations alone; the task keeps its role or lays it down. -/
theorem Sound.quiet (h : Sound b (before ++ t :: after)) (hsame : Same b b')
    (hnew : ∀ x ∈ new, x.role = .none ∨ x.role = t.role) : Sound b' (before ++ new ++ after) := by
  have hmem : ∀ x ∈ before ++ new ++ after, x.role = .none ∨ ∃ y ∈ before ++ t :: after, x.role = y.role :=
    forall_next_iff.mpr ⟨fun x hx => (hnew x hx).imp_right fun heq =>
        ⟨t, List.mem_append_right _ List.mem_cons_self, heq⟩,
      fun x hx => .inr ⟨x, by
        rcases List.mem_append.mp hx with hx | hx
        · exact List.mem_append_left _ hx
        · exact List.mem_append_right _ (List.mem_cons_of_mem _ hx), rfl⟩⟩
  refine ⟨h.core.same hsame, fun x hx => ?_, fun x hx x' hx' p hp hawaited => ?_⟩
  · rcases hmem x hx with hrole | ⟨y, hy, hrole⟩
    · rw [hrole]
      trivial
    · rw [hrole]
      exact (h.roles y hy).same hsame
  · rcases hmem x hx with hrole | ⟨y, hy, hrole⟩
    · rw [hrole] at hp
      cases hp
    · rcases hmem x' hx' with hrole' | ⟨y', hy', hrole'⟩
      · rw [hrole'] at hawaited
        cases hawaited
      · rw [hrole] at hp
        rw [hrole'] at hawaited
        exact h.apart y hy y' hy' p hp hawaited

/-- A step of the task with the claim: the others only await results. -/
theorem Sound.claimed (h : Sound b (before ++ t :: after)) (hclaimed : Claimed b (before ++ t :: after))
    (ht : t.holdsClaim = true) {next : Task api} (hcore : Core b') (hdrawn : b.drawn ≤ b'.drawn)
    (hrole : RoleOk b' next.role)
    (hfresh : ∀ x, next.role.fresh = some x → t.role.fresh = some x ∨ ¬ Drawn b x.2) :
    Sound b' (before ++ [next] ++ after) := by
  have hothers := alone hclaimed ht
  have hbefore := (forall_task_iff.mp h.roles).2
  refine ⟨hcore, forall_next_iff.mpr ⟨fun x hx => ?_, fun x hx => ?_⟩, ?_⟩
  · rw [List.mem_singleton.mp hx]
    exact hrole
  · rcases role_of_unclaimed (hothers x hx) with hnone | ⟨k, previewId, hawaits⟩
    · rw [hnone]
      trivial
    · have hold := hbefore x hx
      rw [hawaits] at hold ⊢
      obtain ⟨n, hn, heq⟩ := hold
      exact ⟨n, Nat.lt_of_lt_of_le hn hdrawn, heq⟩
  · -- only what follows may have a fresh id
    have hsplit : ∀ x ∈ before ++ [next] ++ after, x = next ∨ x ∈ before ++ after :=
      forall_next_iff.mpr ⟨fun x hx => .inl (List.mem_singleton.mp hx), fun x hx => .inr hx⟩
    intro x hx x' hx' p hp hawaited
    rcases hsplit x hx with rfl | hx
    · rcases hsplit x' hx' with rfl | hx'
      · rw [Role.awaited_of_fresh hp] at hawaited
        cases hawaited
      · have hmem' : x' ∈ before ++ t :: after := by
          rcases List.mem_append.mp hx' with hx' | hx'
          · exact List.mem_append_left _ hx'
          · exact List.mem_append_right _ (List.mem_cons_of_mem _ hx')
        rcases hfresh p hp with hsame | hnew
        · exact h.apart t (List.mem_append_right _ List.mem_cons_self) x' hmem' p hsame hawaited
        · have hrole' := hbefore x' hx'
          rcases role_of_unclaimed (hothers x' hx') with hnone | ⟨k, previewId, hawaits⟩
          · rw [hnone] at hawaited
            cases hawaited
          · rw [hawaits] at hrole' hawaited
            cases hawaited
            exact hnew hrole'
    · rw [fresh_of_unclaimed (hothers x hx)] at hp
      cases hp

end

/-! ## Steps that leave authorizations alone -/

section
variable {b : Bridge api}

theorem same_active (active : Bool) : Same b { b with operationActive := active } := ⟨rfl, rfl, rfl, rfl, rfl, id⟩

theorem same_noteLiquidity (entries : List LiquidityEntry) : Same b (b.noteLiquidity entries) :=
  ⟨rfl, rfl, rfl, rfl, rfl, id⟩

theorem same_dropClaimIf (owned : Bool) : Same b (b.dropClaimIf owned) := by
  cases owned
  · exact Same.refl b
  · exact same_active false

theorem same_setChannel (channel : ℕ) (state : Oneshot) : Same b (b.setChannel channel state) :=
  ⟨rfl, rfl, rfl, rfl, rfl, id⟩

theorem same_respond (channel : ℕ) (completion : FiDriverCompletion) : Same b (b.respond channel completion) := by
  unfold Bridge.respond
  cases b.channels[channel]? with
  | none => exact same_dropClaimIf _
  | some state =>
    cases state with
    | waiting => exact same_setChannel _ _
    | sent c => exact same_dropClaimIf _
    | closed => exact same_dropClaimIf _
    | failed => exact same_dropClaimIf _

theorem same_closeChannel (channel : ℕ) : Same b (b.closeChannel channel) := by
  unfold Bridge.closeChannel
  cases b.channels[channel]? with
  | none => exact Same.refl b
  | some state =>
    cases state with
    | waiting => exact same_setChannel _ _
    | sent completion => exact (same_setChannel channel .closed).trans (same_dropClaimIf _)
    | closed => exact Same.refl b
    | failed => exact Same.refl b

theorem same_dropCommand (command : FiDriverCommand api) : Same b (b.dropCommand command) := by
  unfold Bridge.dropCommand
  cases b.channels[command.response]? with
  | none => exact same_active false
  | some state =>
    cases state with
    | waiting => exact (same_setChannel command.response .failed).trans (same_active false)
    | sent c => exact same_active false
    | closed => exact same_active false
    | failed => exact same_active false

theorem same_dropCommands (commands : List (FiDriverCommand api)) :
    ∀ b : Bridge api, Same b (commands.foldl Bridge.dropCommand b) := by
  induction commands with
  | nil => exact Same.refl
  | cons command commands ih => exact fun b => (same_dropCommand command).trans (ih _)

theorem same_dropTask (t : Task api) : Same b (b.dropTask t) := by
  unfold Bridge.dropTask
  by_cases hdriver : t.isDriver = true
  · rw [if_pos hdriver]
    have hgone : Same b ({ b with driverGone := true, queue := [] } : Bridge api) := ⟨rfl, rfl, rfl, rfl, rfl, fun _ => rfl⟩
    exact (hgone.trans (same_dropClaimIf t.holdsClaim)).trans (same_dropCommands _ _)
  · rw [if_neg hdriver]
    cases t
    case receive caller channel => exact same_closeChannel channel
    case createHook => exact ⟨rfl, rfl, rfl, rfl, rfl, id⟩
    all_goals exact same_dropClaimIf _

/-- What a quiet step leaves: tasks with the role of the one that runs, or with none. -/
structure QuietStep (b : Bridge api) (t : Task api) (r : Step api) : Prop where
  same : Same b r.1
  roles : ∀ x ∈ r.2, x.role = .none ∨ x.role = t.role

variable {t : Task api} {input : Input api}

theorem quiet_to {b' : Bridge api} {next : Task api} (hsame : Same b b') (hrole : next.role = .none ∨ next.role = t.role) :
    QuietStep b t (b', [next]) where
  same := hsame
  roles := fun x hx => by
    rw [List.mem_singleton.mp hx]
    exact hrole

theorem quiet_end {b' : Bridge api} (hsame : Same b b') : QuietStep b t (b', []) where
  same := hsame
  roles := fun x hx => by cases hx

theorem quiet_claimOr {busy : Reply} {next : Bridge api → Step api}
    (hnext : QuietStep b t (next { b with operationActive := true })) : QuietStep b t (b.claimOr busy next) := by
  unfold Bridge.claimOr
  rcases tryClaimOperation_cases (b := b) with ⟨-, hclaim⟩ | ⟨-, hclaim⟩
  · rw [hclaim]
    exact quiet_to (Same.refl b) (.inl rfl)
  · rw [hclaim]
    exact hnext

theorem quiet_afterSettled (previewId : String) (result : RpcFiOperationResult) (retainedClaim : Bool) :
    QuietStep b t (afterSettled b previewId result retainedClaim input) := by
  unfold afterSettled
  refine quiet_to (same_dropClaimIf _) (.inl ?_)
  split_ifs <;> rfl

theorem quiet_afterResponse {caller : Caller api} (ht : t.role = caller.awaits)
    (response : Except RpcFiOperationError FiDriverResponse) (retainedClaim : Bool) :
    QuietStep b t (afterResponse b caller response retainedClaim input) := by
  cases caller with
  | other request => exact quiet_to (same_dropClaimIf _) (.inl rfl)
  | payAndCreate previewId intent approval paymentFederationId completionCallback =>
    exact quiet_to (Same.refl b) (.inr ht.symm)
  | applyReplacements previewId approval =>
    unfold afterResponse
    refine quiet_to (same_dropClaimIf _) ?_
    split_ifs
    · exact .inl rfl
    · exact .inr ht.symm

theorem quiet_finishCommand (d : DriverState) (command : FiDriverCommand api) (before after : FiStatus)
    (response : FiDriverResponse) : QuietStep b t (finishCommand b d command before after response) :=
  quiet_to (((same_noteLiquidity _).trans (same_dropClaimIf _)).trans (same_respond _ _)) (.inl rfl)

theorem quiet_driverSelect (d : DriverState) (select : Select) : QuietStep b t (driverSelect b d select input) := by
  unfold driverSelect
  cases b.queue with
  | cons command queue => exact quiet_to ⟨rfl, rfl, rfl, rfl, rfl, id⟩ (.inl rfl)
  | nil =>
    dsimp only
    split_ifs
    · cases select with
      | command => exact quiet_to (Same.refl b) (.inl rfl)
      | formation =>
        unfold startResume
        rcases tryClaimOperation_cases (b := b) with ⟨-, hclaim⟩ | ⟨-, hclaim⟩
        · rw [hclaim]
          exact quiet_to (Same.refl b) (.inl rfl)
        · rw [hclaim]
          exact quiet_to (same_active true) (.inl rfl)
      | liquidity =>
        unfold startReconcile
        rcases d.liquidityRecovery.nextStep with ⟨step, recovery⟩
        cases step with
        | none => exact quiet_to (Same.refl b) (.inl rfl)
        | some step =>
          cases step with
          | readCurrent => exact quiet_to (Same.refl b) (.inl rfl)
          | resume operationId =>
            rcases tryClaimOperation_cases (b := b) with ⟨-, hclaim⟩ | ⟨-, hclaim⟩
            · rw [hclaim]
              exact quiet_to (same_noteLiquidity _) (.inl rfl)
            · rw [hclaim]
              exact quiet_to ((same_active true).trans (same_noteLiquidity _)) (.inl rfl)
    · exact quiet_to (Same.refl b) (.inl rfl)

theorem quiet_driverReadCurrent (d : DriverState) : QuietStep b t (driverReadCurrent b d input) := by
  unfold driverReadCurrent
  cases input.currentOperation with
  | ok operation => exact quiet_to (same_noteLiquidity _) (.inl rfl)
  | error error => exact quiet_to (same_noteLiquidity _) (.inl rfl)

theorem quiet_driverResumeLiquidity (d : DriverState) : QuietStep b t (driverResumeLiquidity b d input) := by
  unfold driverResumeLiquidity
  cases input.liquidityResult with
  | ok operation => exact quiet_to ((same_noteLiquidity _).trans (same_active false)) (.inl rfl)
  | error error => exact quiet_to ((same_noteLiquidity _).trans (same_active false)) (.inl rfl)

end

/-! ## Steps that authorize, dispatch, settle or invalidate -/

section
variable {b b' : Bridge api} {k : Purpose} {previewId : String} {more : List (Entry api)}

theorem Drawn.mono (h : Drawn b previewId) (hdrawn : b.drawn ≤ b'.drawn) : Drawn b' previewId := by
  obtain ⟨n, hn, heq⟩ := h
  exact ⟨n, Nat.lt_of_lt_of_le hn hdrawn, heq⟩

theorem stored_setStored (v : Option (Stored api k)) : (b.setStored k v).formationState.stored k = v := by
  cases k <;> rfl

theorem stored_setStored_ne (v : Option (Stored api k)) {k' : Purpose} (h : k' ≠ k) :
    (b.setStored k v).formationState.stored k' = b.formationState.stored k' := by
  cases k <;> cases k' <;> first | rfl | exact absurd rfl h

theorem StoreOk.next {s : Stored api k} (h : StoreOk b k s) (hlog : b'.log = b.log ++ more)
    (hdrawn : b.drawn ≤ b'.drawn) (hvalid : .invalidated ∉ more)
    (hconsumes : ∀ e ∈ more, e.consumes ≠ some (k, s.previewId))
    (hsettled : k = .replacement → .settled .replacement s.previewId ∉ more) : StoreOk b' k s where
  drawn := h.drawn.mono hdrawn
  stored := by
    rw [hlog]
    exact h.stored.append hvalid hconsumes
  unsettled := by
    intro hk
    rw [hlog, List.mem_append]
    exact not_or.mpr ⟨h.unsettled hk, hsettled hk⟩

/-- Entries are added, and stores change. -/
theorem Core.next (h : Core b) (hlog : b'.log = b.log ++ more) (hdrawn : b.drawn ≤ b'.drawn)
    (hgone : b.driverGone = true → b'.driverGone = true)
    (hstored : ∀ k s, b'.formationState.stored k = some s → StoreOk b' k s)
    (hpush : ∀ stored, b'.formationState.formationPush = some stored →
      (∃ old, b.formationState.formationPush = some old ∧ stored.previewId = old.previewId) ∧
          .settled .selection stored.previewId ∉ more ∨
        Drawn b' stored.previewId ∧ .settled .selection stored.previewId ∉ b'.log)
    (hok : LogOk b'.log) (huses : ∀ e ∈ more, ∀ x, e.uses = some x → Drawn b x.2) : Core b' where
  stored := hstored
  push := by
    intro stored hnow
    rcases hpush stored hnow with ⟨⟨old, hold, hid⟩, hmore⟩ | ⟨hnew, hunsettled⟩
    · obtain ⟨hold, hfinal⟩ := h.push old hold
      rw [hid] at hmore ⊢
      refine ⟨hold.mono hdrawn, hfinal.imp hgone fun hnot => ?_⟩
      rw [hlog, List.mem_append]
      exact not_or.mpr ⟨hnot, hmore⟩
    · exact ⟨hnew, .inr hunsettled⟩
  log := hok
  entries := by
    intro e he x hx
    rw [hlog] at he
    rcases List.mem_append.mp he with he | he
    · exact (h.entries e he x hx).mono hdrawn
    · exact (huses e he x hx).mono hdrawn

/-- Nothing is known of an id that is not drawn yet. -/
theorem Core.unused (h : Core b) : ∀ e ∈ b.log, e.uses ≠ some (k, api.previewId b.drawn) :=
  fun e he heq => not_drawn b (h.entries e he _ heq)

theorem core_draw (h : Core b) (preview : api.Preview k) : Core (b.draw preview) := by
  refine h.next rfl (Nat.le_succ _) id (fun k' s hs => ?_) (fun stored hstored => .inl ⟨⟨stored, hstored, rfl⟩, ?_⟩)
    (h.log.snoc trivial) fun e he x hx => ?_
  · refine (h.stored k' s hs).next rfl (Nat.le_succ _) ?_ (fun e he heq => ?_) fun _ hmem => ?_
    · rintro (_ | ⟨_, ⟨⟩⟩)
    · rw [List.mem_singleton.mp he] at heq
      cases heq
    · cases List.mem_singleton.mp hmem
  · intro hmem
    cases List.mem_singleton.mp hmem
  · rw [List.mem_singleton.mp he] at hx
    cases hx

theorem roleOk_draw (h : Core b) (preview : api.Preview k) :
    RoleOk (b.draw preview) (.offers k (api.previewId b.drawn) (api.totalAdvertisedMsats preview)) := by
  refine ⟨⟨b.drawn, Nat.lt_succ_self _, rfl⟩, offered_last _ _ _ _, fun e he => ?_⟩
  rcases List.mem_append.mp he with he | he
  · exact h.unused e he
  · rw [List.mem_singleton.mp he]
    exact fun heq => by cases heq

/-- The entry is of a call with this preview id, and settles nothing. -/
structure Entry.Of (k : Purpose) (previewId : String) (e : Entry api) : Prop where
  valid : e ≠ .invalidated
  settles : ∀ k' id, e ≠ .settled k' id
  uses : ∀ x, e.uses = some x → x = (k, previewId)

/-- One of the stores changes, with entries about one of its preview ids. -/
theorem core_store (h : Core b) {v : Option (Stored api k)} (hmore : ∀ e ∈ more, e.Of k previewId)
    (hdrawn : more = [] ∨ Drawn b previewId) (hok : LogOk (b.log ++ more))
    (hv : ∀ s, v = some s → StoreOk ((b.setStored k v).note more) k s) : Core ((b.setStored k v).note more) := by
  have hlog : ((b.setStored k v).note more).log = b.log ++ more := by cases k <;> rfl
  have hsame : ((b.setStored k v).note more).drawn = b.drawn := by cases k <;> rfl
  have hunsettled : ∀ k' id, .settled k' id ∉ more := fun k' id hmem => (hmore _ hmem).settles k' id rfl
  refine h.next hlog (le_of_eq hsame.symm) (fun hgone => ?_) (fun k' s hs => ?_) (fun stored hstored => ?_)
    (hlog ▸ hok) fun e he x hx => ?_
  · cases k <;> exact hgone
  · by_cases hk : k' = k
    · subst hk
      exact hv s ((stored_setStored v).symm.trans hs)
    · have hold : b.formationState.stored k' = some s := (stored_setStored_ne v hk).symm.trans hs
      refine (h.stored k' s hold).next hlog (le_of_eq hsame.symm) (fun hmem => (hmore _ hmem).valid rfl)
        (fun e he heq => ?_) fun _ => hunsettled _ _
      exact hk (congrArg Prod.fst ((hmore e he).uses _ (uses_of_consumes heq)))
  · refine .inl ⟨⟨stored, ?_, rfl⟩, hunsettled _ _⟩
    cases k <;> exact hstored
  · rcases hdrawn with rfl | hdrawn
    · cases he
    · rw [(hmore e he).uses x hx]
      exact hdrawn

/-! ### Authorizing -/

/-- How `authorize` ends, by what is stored. -/
inductive AuthorizeSpec (stored : Option (Stored api k)) (previewId : String) (maxTotalMsats : ℕ) :
    Option (Stored api k) × Authorization api k → Prop
  | rejected (error : RpcFiOperationError) : AuthorizeSpec stored previewId maxTotalMsats (stored, .rejected error)
  | stored (s : Stored api k) (approval : api.Approval k) : stored = some s → s.previewId = previewId →
    s.approval = some approval → AuthorizeSpec stored previewId maxTotalMsats (stored, .stored approval)
  | unreachable (s : Stored api k) : stored = some s → s.previewId = previewId → s.approval = none →
    s.preview = none → AuthorizeSpec stored previewId maxTotalMsats (stored, .unreachable)
  | refused (s : Stored api k) (preview : api.Preview k) (error : RpcFiOperationError) : stored = some s →
    s.previewId = previewId → s.approval = none → s.preview = some preview →
    AuthorizeSpec stored previewId maxTotalMsats (some ⟨s.previewId, none, none⟩, .refused error)
  | approved (s : Stored api k) (preview : api.Preview k) (approval : api.Approval k) : stored = some s →
    s.previewId = previewId → s.approval = none → s.preview = some preview → 0 < maxTotalMsats →
    api.totalAdvertisedMsats preview ≤ maxTotalMsats → api.maxTotalMsats approval = maxTotalMsats →
    AuthorizeSpec stored previewId maxTotalMsats (some ⟨s.previewId, none, some approval⟩, .approved approval)

theorem authorize_spec (stored : Option (Stored api k)) (previewId : String) (maxTotalMsats : ℕ) :
    AuthorizeSpec stored previewId maxTotalMsats (authorize stored previewId maxTotalMsats) := by
  unfold authorize
  cases stored with
  | none => exact .rejected _
  | some s =>
    dsimp only
    split_ifs with hid
    · exact .rejected _
    · have hid : s.previewId = previewId := not_not.mp hid
      cases happroval : s.approval with
      | some approval =>
        dsimp only
        split_ifs
        · exact .rejected _
        · exact .stored s approval rfl hid happroval
      | none =>
        cases hpreview : s.preview with
        | none => exact .unreachable s rfl hid happroval hpreview
        | some preview =>
          dsimp only
          split_ifs with hlimit
          · exact .rejected _
          · obtain ⟨hpos, hle⟩ := not_or.mp hlimit
            cases hresult : api.approve preview maxTotalMsats with
            | error error => exact .refused s preview _ rfl hid happroval hpreview
            | ok approval =>
              exact .approved s preview approval rfl hid happroval hpreview (Nat.pos_of_ne_zero hpos)
                (Nat.le_of_not_lt hle) (api.maxTotalMsats_of_approve preview maxTotalMsats approval hresult)

theorem entries_of (authorization : Authorization api k) (previewId : String) :
    ∀ e ∈ authorization.entries previewId, e.Of k previewId := by
  have hof : ∀ e : Entry api, e ≠ .invalidated → (∀ k' id, e ≠ .settled k' id) → e.uses = some (k, previewId) →
      e.Of k previewId := by
    intro e hvalid hsettles huses
    exact ⟨hvalid, hsettles, fun x hx => Option.some.inj (hx.symm.trans huses)⟩
  intro e he
  cases authorization with
  | rejected error => cases he
  | stored approval =>
    rw [List.mem_singleton.mp he]
    exact hof _ (fun h => by cases h) (fun _ _ h => by cases h) rfl
  | approved approval =>
    rcases List.mem_pair.mp he with rfl | rfl
    · exact hof _ (fun h => by cases h) (fun _ _ h => by cases h) rfl
    · exact hof _ (fun h => by cases h) (fun _ _ h => by cases h) rfl
  | refused error =>
    rw [List.mem_singleton.mp he]
    exact hof _ (fun h => by cases h) (fun _ _ h => by cases h) rfl
  | unreachable =>
    rw [List.mem_singleton.mp he]
    exact hof _ (fun h => by cases h) (fun _ _ h => by cases h) rfl

/-- An approval is given out after a look at the store. -/
theorem entryOk_authorized {log : List (Entry api)} (approval : api.Approval k)
    (h : k = .replacement → .settled .replacement previewId ∉ log) : EntryOk log (.authorized k previewId approval) := by
  cases k
  · trivial
  · exact h rfl

variable {maxTotalMsats : ℕ}

/-- What a call with an approval may rely on. -/
def Authorization.Granting (log : List (Entry api)) (previewId : String) : Authorization api k → Prop
  | .stored approval => Granted log k previewId approval
  | .approved approval => Granted log k previewId approval
  | _ => True

/-- The entries of an approval that is made now. -/
theorem granted_approved {log : List (Entry api)} {preview : api.Preview k} {approval : api.Approval k}
    (hoffered : Offered log k previewId (api.totalAdvertisedMsats preview)) (hpos : 0 < maxTotalMsats)
    (hle : api.totalAdvertisedMsats preview ≤ maxTotalMsats) (hlimit : api.maxTotalMsats approval = maxTotalMsats) :
    Granted (log ++ [.approved k previewId approval, .authorized k previewId approval]) k previewId approval := by
  refine ⟨List.mem_append_right _ List.mem_cons_self, by omega, _, hoffered.append ?_, by omega⟩
  rintro (_ | ⟨_, _ | ⟨_, ⟨⟩⟩⟩)

/-- What is stored with an approval grants it. -/
theorem StoredOk.granted {log : List (Entry api)} {s : Stored api k} {approval : api.Approval k} (h : StoredOk log k s)
    (happroval : s.approval = some approval) : Granted log k s.previewId approval := by
  cases h with
  | offered preview _ hnone _ _ =>
    rw [hnone] at happroval
    cases happroval
  | approved approval' _ hsome hgranted _ =>
    rw [hsome] at happroval
    cases happroval
    exact hgranted
  | refused _ hnone _ =>
    rw [hnone] at happroval
    cases happroval

/-- What is stored with a preview offers it. -/
theorem StoredOk.of_preview {log : List (Entry api)} {s : Stored api k} {preview : api.Preview k} (h : StoredOk log k s)
    (hpreview : s.preview = some preview) : Offered log k s.previewId (api.totalAdvertisedMsats preview) ∧
      ∀ e ∈ log, e.consumes ≠ some (k, s.previewId) := by
  cases h with
  | offered preview' hsome _ hoffered hunused =>
    rw [hsome] at hpreview
    cases hpreview
    exact ⟨hoffered, hunused⟩
  | approved _ hnone _ _ _ =>
    rw [hnone] at hpreview
    cases hpreview
  | refused hnone _ _ =>
    rw [hnone] at hpreview
    cases hpreview

/-- What is stored with neither is what a failed approval has left. -/
theorem StoredOk.refused_mem {log : List (Entry api)} {s : Stored api k} (h : StoredOk log k s)
    (hpreview : s.preview = none) (happroval : s.approval = none) : .refused k s.previewId ∈ log := by
  cases h with
  | offered preview hsome _ _ _ =>
    rw [hsome] at hpreview
    cases hpreview
  | approved _ _ hsome _ _ =>
    rw [hsome] at happroval
    cases happroval
  | refused _ _ hrefused => exact hrefused

theorem core_authorization (h : Core b) {r : Option (Stored api k) × Authorization api k}
    (hr : AuthorizeSpec (b.formationState.stored k) previewId maxTotalMsats r) :
    Core ((b.setStored k r.1).note (r.2.entries previewId)) ∧
      r.2.Granting (b.log ++ r.2.entries previewId) previewId := by
  have hof := entries_of r.2 previewId
  have hlog : ((b.setStored k r.1).note (r.2.entries previewId)).log = b.log ++ r.2.entries previewId := by
    cases k <;> rfl
  have hdrawn : b.drawn ≤ ((b.setStored k r.1).note (r.2.entries previewId)).drawn := by
    cases k <;> exact le_refl _
  have hvalid : .invalidated ∉ r.2.entries previewId := fun hmem => (hof _ hmem).valid rfl
  have hsettles : ∀ id, .settled .replacement id ∉ r.2.entries previewId := fun id hmem => (hof _ hmem).settles _ id rfl
  -- a store that stays, where nothing is consumed
  have hkept : (∀ e ∈ r.2.entries previewId, e.consumes = none) → ∀ s, b.formationState.stored k = some s →
      StoreOk ((b.setStored k r.1).note (r.2.entries previewId)) k s := by
    intro hnone s hs
    refine (h.stored k s hs).next hlog hdrawn hvalid (fun e he => ?_) fun _ => hsettles _
    rw [hnone e he]
    exact fun heq => by cases heq
  have hnew : ∀ s' s, b.formationState.stored k = some s' → s.previewId = s'.previewId →
      StoredOk (b.log ++ r.2.entries previewId) k s → StoreOk ((b.setStored k r.1).note (r.2.entries previewId)) k s := by
    intro s' s hs' hid hok
    obtain ⟨hd, -, hunsettled⟩ := h.stored k s' hs'
    rw [← hid] at hd hunsettled
    refine ⟨hd.mono hdrawn, by rw [hlog]; exact hok, fun hk => ?_⟩
    rw [hlog, List.mem_append]
    exact not_or.mpr ⟨hunsettled hk, hsettles _⟩
  cases hr with
  | rejected error =>
    refine ⟨core_store h hof (.inl rfl) ?_ (hkept fun e he => by cases he), trivial⟩
    exact (List.append_nil b.log).symm ▸ h.log
  | stored s approval hs hid happroval =>
    obtain ⟨hd, hok, hunsettled⟩ := h.stored k s hs
    rw [hid] at hd hunsettled
    refine ⟨core_store h hof (.inr hd) (h.log.snoc (entryOk_authorized approval hunsettled)) (hkept fun e he => ?_), ?_⟩
    · rw [List.mem_singleton.mp he]
      rfl
    · exact (hid ▸ hok.granted happroval).append hvalid
  | unreachable s hs hid happroval hpreview =>
    obtain ⟨hd, hok, -⟩ := h.stored k s hs
    rw [hid] at hd
    have hrefused := hok.refused_mem hpreview happroval
    rw [hid] at hrefused
    refine ⟨core_store h hof (.inr hd) (h.log.snoc hrefused) (hkept fun e he => ?_), trivial⟩
    rw [List.mem_singleton.mp he]
    rfl
  | refused s preview error hs hid happroval hpreview =>
    obtain ⟨hd, hok, -⟩ := h.stored k s hs
    obtain ⟨-, hunused⟩ := hok.of_preview hpreview
    rw [hid] at hd hunused
    refine ⟨core_store h hof (.inr hd) (h.log.snoc hunused) fun s' hs' => ?_, trivial⟩
    cases hs'
    exact hnew s _ hs rfl (.refused rfl rfl (by rw [hid]; exact List.mem_append_right _ List.mem_cons_self))
  | approved s preview approval hs hid happroval hpreview hpos hle hlimit =>
    obtain ⟨hd, hok, hunsettled⟩ := h.stored k s hs
    obtain ⟨hoffered, hunused⟩ := hok.of_preview hpreview
    rw [hid] at hd hunused hunsettled hoffered
    have hgranted := granted_approved hoffered hpos hle hlimit
    refine ⟨core_store h hof (.inr hd) ?_ fun s' hs' => ?_, hgranted⟩
    · have happroved : LogOk (b.log ++ [.approved k previewId approval]) := h.log.snoc hunused
      have hnot : k = .replacement →
          .settled .replacement previewId ∉ b.log ++ [(.approved k previewId approval : Entry api)] := by
        intro hk
        rw [List.mem_append]
        refine not_or.mpr ⟨hunsettled hk, fun hmem => ?_⟩
        cases List.mem_singleton.mp hmem
      have hboth := happroved.snoc (entryOk_authorized approval hnot)
      rw [List.append_assoc] at hboth
      exact hboth
    · cases hs'
      refine hnew s _ hs rfl (.approved approval rfl rfl (by rw [hid]; exact hgranted) ?_)
      rw [hid, List.mem_append]
      refine not_or.mpr ⟨fun hmem => hunused _ hmem rfl, ?_⟩
      rintro (_ | ⟨_, _ | ⟨_, ⟨⟩⟩⟩)

theorem drawn_of_granted (h : Core b) {approval : api.Approval k} (hgranted : Granted b.log k previewId approval) :
    Drawn b previewId := h.entries _ hgranted.1 (k, previewId) rfl

/-! ### Storing, settling and invalidating -/

theorem StoreOk.transfer {s : Stored api k} (h : StoreOk b k s) (hlog : b'.log = b.log) (hdrawn : b'.drawn = b.drawn) :
    StoreOk b' k s where
  drawn := h.drawn.mono (le_of_eq hdrawn.symm)
  stored := by
    rw [hlog]
    exact h.stored
  unsettled := by
    rw [hlog]
    exact h.unsettled

theorem core_setStored (h : Core b) (k : Purpose) {v : Option (Stored api k)}
    (hv : ∀ s, v = some s → StoreOk b k s) : Core (b.setStored k v) where
  stored := by
    intro k' s hs
    have hok : StoreOk b k' s := by
      by_cases hk : k' = k
      · subst hk
        exact hv s ((stored_setStored v).symm.trans hs)
      · exact h.stored k' s ((stored_setStored_ne v hk).symm.trans hs)
    cases k <;> exact hok.transfer rfl rfl
  push := by cases k <;> exact h.push
  log := by cases k <;> exact h.log
  entries := by cases k <;> exact h.entries

/-- A preview is stored right after it is drawn. -/
theorem storeOk_offered (preview : api.Preview k) (hdrawn : Drawn b previewId)
    (hoffered : Offered b.log k previewId (api.totalAdvertisedMsats preview))
    (hunused : ∀ e ∈ b.log, e.uses ≠ some (k, previewId)) : StoreOk b k ⟨previewId, some preview, none⟩ where
  drawn := hdrawn
  stored := .offered preview rfl rfl hoffered fun e he heq => hunused e he (uses_of_consumes heq)
  unsettled := by
    rintro rfl hmem
    exact hunused _ hmem rfl

theorem clearStored_eq_some {stored : Option (Stored api k)} {s : Stored api k}
    (h : clearStored stored previewId = some s) : stored = some s ∧ s.previewId ≠ previewId := by
  unfold clearStored at h
  split_ifs at h with hany
  subst h
  rw [Option.any_some, decide_eq_true_eq] at hany
  exact ⟨rfl, hany⟩

theorem core_setFormationPush (h : Core b) {v : Option (StoredFormationPush api)}
    (hv : ∀ stored, v = some stored → Drawn b stored.previewId ∧
      (b.driverGone = true ∨ .settled .selection stored.previewId ∉ b.log)) : Core (b.setFormationPush v) where
  stored := fun k s hs => by
    cases k <;> exact (h.stored _ s hs).transfer rfl rfl
  push := hv
  log := h.log
  entries := h.entries

/-- A result is taken; what is stored has another preview id, or the driver is gone. -/
theorem core_settled (h : Core b) (hdrawn : Drawn b previewId)
    (hstored : k = .replacement → ∀ s, b.formationState.replacement = some s → s.previewId ≠ previewId)
    (hpush : k = .selection → b.driverGone = true ∨
      ∀ stored, b.formationState.formationPush = some stored → stored.previewId ≠ previewId) :
    Core (b.note [.settled k previewId]) where
  stored := by
    intro k' s hs
    refine (h.stored k' s hs).next rfl (le_refl _) ?_ (fun e he heq => ?_) fun hk hmem => ?_
    · rintro (_ | ⟨_, ⟨⟩⟩)
    · rw [List.mem_singleton.mp he] at heq
      cases heq
    · subst hk
      cases List.mem_singleton.mp hmem
      exact hstored rfl s hs rfl
  push := by
    intro stored hs
    obtain ⟨hd, hfinal⟩ := h.push stored hs
    refine ⟨hd, ?_⟩
    rcases hfinal with hgone | hnot
    · exact .inl hgone
    · by_cases hk : k = .selection ∧ stored.previewId = previewId
      · rcases hpush hk.1 with hgone | hother
        · exact .inl hgone
        · exact absurd hk.2 (hother stored hs)
      · refine .inr fun hmem => ?_
        rcases List.mem_append.mp hmem with hmem | hmem
        · exact hnot hmem
        · cases List.mem_singleton.mp hmem
          exact hk ⟨rfl, rfl⟩
  log := h.log.snoc trivial
  entries := by
    intro e he x hx
    rcases List.mem_append.mp he with he | he
    · exact h.entries e he x hx
    · rw [List.mem_singleton.mp he] at hx
      cases hx
      exact hdrawn

/-- An abandonment has emptied everything. -/
theorem core_invalidated (h : Core b) (hselection : b.formationState.selection = none)
    (hreplacement : b.formationState.replacement = none) : Core ((b.setFormationPush none).note [.invalidated]) where
  stored := by
    intro k s hs
    cases k
    · rw [show b.formationState.selection = some s from hs] at hselection
      cases hselection
    · rw [show b.formationState.replacement = some s from hs] at hreplacement
      cases hreplacement
  push := fun stored hs => by cases hs
  log := h.log.snoc trivial
  entries := by
    intro e he x hx
    rcases List.mem_append.mp he with he | he
    · exact h.entries e he x hx
    · rw [List.mem_singleton.mp he] at hx
      cases hx

/-- A command goes into the queue. -/
theorem core_push (h : Core b) {caller : Caller api} (hgone : b.driverGone = false) (hrole : RoleOk b caller.holds) :
    Core (b.push caller) := by
  have hdispatched : ∀ {k : Purpose} {previewId : String} {approval : api.Approval k},
      RoleOk b (.holds k previewId approval true) → caller.entries = [.dispatched k previewId approval] →
        Core (b.push caller) := by
    intro k previewId approval ⟨hdrawn, hgranted, hfinal⟩ hentries
    have hlog : (b.push caller).log = b.log ++ [.dispatched k previewId approval] := congrArg (b.log ++ ·) hentries
    have hnew : EntryOk b.log (.dispatched k previewId approval) := by
      refine ⟨hgranted, fun hk => ?_⟩
      rcases hfinal hk rfl with hgone' | hnot
      · rw [hgone] at hgone'
        cases hgone'
      · exact hnot
    have hsettled : ∀ k' id, .settled k' id ∉ [(.dispatched k previewId approval : Entry api)] := by
      intro k' id hmem
      cases List.mem_singleton.mp hmem
    refine h.next hlog (le_refl _) id (fun k' s hs => ?_) (fun stored hs => .inl ⟨⟨stored, hs, rfl⟩, hsettled _ _⟩)
      (hlog ▸ h.log.snoc hnew) fun e he x hx => ?_
    · refine (h.stored k' s hs).next hlog (le_refl _) ?_ (fun e he heq => ?_) fun _ => hsettled _ _
      · rintro (_ | ⟨_, ⟨⟩⟩)
      · rw [List.mem_singleton.mp he] at heq
        cases heq
    · rw [List.mem_singleton.mp he] at hx
      cases hx
      exact hdrawn
  cases caller with
  | payAndCreate previewId intent approval paymentFederationId completionCallback => exact hdispatched hrole rfl
  | applyReplacements previewId approval => exact hdispatched hrole rfl
  | other request => exact h.same ⟨rfl, rfl, rfl, rfl, List.append_nil _, id⟩

end

/-! ## One step -/

section
variable {b b' : Bridge api} {t : Task api} {before after new : List (Task api)} {input : Input api}

theorem mem_others {x : Task api} (hx : x ∈ before ++ after) : x ∈ before ++ t :: after := by
  rcases List.mem_append.mp hx with hx | hx
  · exact List.mem_append_left _ hx
  · exact List.mem_append_right _ (List.mem_cons_of_mem _ hx)

theorem mem_self : t ∈ before ++ t :: after := List.mem_append_right _ List.mem_cons_self

/-- A call takes its result; what is stored is at most cleared. -/
theorem Sound.settles {more : List (Entry api)} (h : Sound b (before ++ t :: after)) (hcore : Core b')
    (hdrawn : b'.drawn = b.drawn) (hgone : b'.driverGone = b.driverGone) (hlog : b'.log = b.log ++ more)
    (hmore : ∀ e ∈ more, ∃ k previewId, t.role = .awaits k previewId ∧ e = .settled k previewId ∧
      (k = .selection → b.driverGone = true))
    (hempty : ∀ k, b.formationState.stored k = none → b'.formationState.stored k = none)
    (hnew : ∀ x ∈ new, x.role = .none) : Sound b' (before ++ new ++ after) := by
  have hvalid : .invalidated ∉ more := by
    intro hmem
    obtain ⟨k, previewId, -, heq, -⟩ := hmore _ hmem
    cases heq
  have hunused : ∀ x ∈ before ++ after, ∀ p, x.role.fresh = some p → (∀ e ∈ b.log, e.uses ≠ some p) →
      ∀ e ∈ b'.log, e.uses ≠ some p := by
    intro x hx p hp hold e he heq
    rw [hlog] at he
    rcases List.mem_append.mp he with he | he
    · exact hold e he heq
    · obtain ⟨k, previewId, hrole, rfl, -⟩ := hmore e he
      cases heq
      exact h.apart x (mem_others hx) t mem_self _ hp (by rw [hrole]; rfl)
  have hothers := (forall_task_iff.mp h.roles).2
  have hsplit : ∀ x ∈ before ++ new ++ after, x.role = .none ∨ x ∈ before ++ after :=
    forall_next_iff.mpr ⟨fun x hx => .inl (hnew x hx), fun x hx => .inr hx⟩
  refine ⟨hcore, fun x hx => ?_, fun x hx x' hx' p hp hawaited => ?_⟩
  · rcases hsplit x hx with hnone | hx
    · rw [hnone]
      trivial
    · have hold := hothers x hx
      have hfresh := hunused x hx
      cases hrole : x.role with
      | none => trivial
      | offers k previewId total =>
        rw [hrole] at hold hfresh
        obtain ⟨hd, hoffered, hnot⟩ := hold
        refine ⟨hd.mono (le_of_eq hdrawn.symm), ?_, hfresh _ rfl hnot⟩
        rw [hlog]
        exact hoffered.append hvalid
      | installs previewId =>
        rw [hrole] at hold hfresh
        exact ⟨hold.1.mono (le_of_eq hdrawn.symm), hfresh _ rfl hold.2⟩
      | holds k previewId approval checked =>
        rw [hrole] at hold
        obtain ⟨hd, hgranted, hfinal⟩ := hold
        refine ⟨hd.mono (le_of_eq hdrawn.symm), by rw [hlog]; exact hgranted.append hvalid, fun hk hchecked => ?_⟩
        rw [hgone, hlog]
        by_cases hdriver : b.driverGone = true
        · exact .inl hdriver
        · refine .inr fun hmem => ?_
          rcases List.mem_append.mp hmem with hmem | hmem
          · rcases hfinal hk hchecked with hgone' | hnot
            · exact hdriver hgone'
            · exact hnot hmem
          · obtain ⟨k', previewId', -, heq, hselection⟩ := hmore _ hmem
            cases heq
            exact hdriver (hselection rfl)
      | awaits k previewId =>
        rw [hrole] at hold
        exact Drawn.mono hold (le_of_eq hdrawn.symm)
      | empties both =>
        rw [hrole] at hold
        exact ⟨hempty .selection hold.1, fun hboth => hempty .replacement (hold.2 hboth)⟩
  · rcases hsplit x hx with hnone | hx
    · rw [hnone] at hp
      cases hp
    · rcases hsplit x' hx' with hnone | hx'
      · rw [hnone] at hawaited
        cases hawaited
      · exact h.apart x (mem_others hx) x' (mem_others hx') p hp hawaited

/-- The run of a call with the claim ends, or goes on to what has no preview id. -/
theorem Sound.ends (h : Sound b (before ++ t :: after)) (hclaimed : Claimed b (before ++ t :: after))
    (ht : t.holdsClaim = true) {next : Task api} (hcore : Core b') (hdrawn : b.drawn ≤ b'.drawn)
    (hrole : next.role = .none) : Sound b' (before ++ [next] ++ after) := by
  refine h.claimed hclaimed ht hcore hdrawn ?_ fun x hx => ?_
  · rw [hrole]
    trivial
  · rw [hrole] at hx
    cases hx

theorem Sound.step {r : Step api} (h : Sound b (before ++ t :: after)) (hstep : QuietStep b t r) :
    Sound r.1 (before ++ r.2 ++ after) := h.quiet hstep.same hstep.roles

theorem sound_previewed {k : Purpose} (h : Sound b (before ++ t :: after)) (hclaimed : Claimed b (before ++ t :: after))
    (ht : t.holdsClaim = true) (preview : api.Preview k) {next : Task api}
    (hrole : next.role = .offers k (api.previewId b.drawn) (api.totalAdvertisedMsats preview)) :
    Sound (b.draw preview) (before ++ [next] ++ after) := by
  refine h.claimed hclaimed ht (core_draw h.core preview) (Nat.le_succ _) ?_ fun x hx => ?_
  · rw [hrole]
    exact roleOk_draw h.core preview
  · rw [hrole] at hx
    cases hx
    exact .inr (not_drawn b)

theorem sound_storeSelection {previewId : String} {preview : api.Preview .selection}
    (h : Sound b (before ++ .storeSelection previewId preview :: after))
    (hclaimed : Claimed b (before ++ .storeSelection previewId preview :: after)) :
    Sound (storeSelection b previewId preview input).1
      (before ++ (storeSelection b previewId preview input).2 ++ after) := by
  obtain ⟨hdrawn, hoffered, hunused⟩ := h.roles _ mem_self
  have hcore : Core (b.setStored .selection (some ⟨previewId, some preview, none⟩)) := by
    refine core_setStored h.core .selection fun s hs => ?_
    cases hs
    exact storeOk_offered preview hdrawn hoffered hunused
  exact h.claimed hclaimed rfl hcore (le_refl _) ⟨hdrawn, hunused⟩ fun x hx => .inl hx

theorem sound_installPreview {previewId : String} {preview : api.Preview .selection} {formationStarted : Bool}
    (h : Sound b (before ++ .installPreview previewId preview formationStarted :: after))
    (hclaimed : Claimed b (before ++ .installPreview previewId preview formationStarted :: after)) :
    Sound (installPreview b previewId preview formationStarted).1
      (before ++ (installPreview b previewId preview formationStarted).2 ++ after) := by
  obtain ⟨hdrawn, hunused⟩ := h.roles _ mem_self
  have hcore : Core (b.setFormationPush (some ⟨previewId, none⟩)) := by
    refine core_setFormationPush h.core fun stored hstored => ?_
    cases hstored
    exact ⟨hdrawn, .inr fun hmem => hunused _ hmem rfl⟩
  unfold installPreview
  dsimp only
  split_ifs
  · exact h.step (quiet_to (Same.refl b) (.inr rfl))
  · exact h.ends hclaimed rfl hcore (le_refl _) rfl
  · exact h.ends hclaimed rfl (hcore.same (same_active false)) (le_refl _) rfl

theorem sound_storeReplacement {previewId : String} {preview : api.Preview .replacement}
    (h : Sound b (before ++ .storeReplacement previewId preview :: after))
    (hclaimed : Claimed b (before ++ .storeReplacement previewId preview :: after)) :
    Sound (storeReplacement b previewId preview).1 (before ++ (storeReplacement b previewId preview).2 ++ after) := by
  obtain ⟨hdrawn, hoffered, hunused⟩ := h.roles _ mem_self
  have hcore : Core (b.setStored .replacement (some ⟨previewId, some preview, none⟩)) := by
    refine core_setStored h.core .replacement fun s hs => ?_
    cases hs
    exact storeOk_offered preview hdrawn hoffered hunused
  exact h.ends hclaimed rfl (hcore.same (same_active false)) (le_refl _) rfl

theorem sound_authorize {k : Purpose} (h : Sound b (before ++ t :: after))
    (hclaimed : Claimed b (before ++ t :: after)) (ht : t.holdsClaim = true) (previewId : String) (maxTotalMsats : ℕ)
    {next : api.Approval k → Task api}
    (hnext : ∀ approval, ∃ checked, (next approval).role = .holds k previewId approval checked ∧
      (k = .selection → checked = false)) :
    Sound (afterAuthorization (b.authorize k previewId maxTotalMsats).1 (b.authorize k previewId maxTotalMsats).2 next).1
      (before ++ (afterAuthorization (b.authorize k previewId maxTotalMsats).1
        (b.authorize k previewId maxTotalMsats).2 next).2 ++ after) := by
  obtain ⟨hcore, hgranting⟩ :=
    core_authorization h.core (authorize_spec (b.formationState.stored k) previewId maxTotalMsats)
  have hlog : (b.authorize k previewId maxTotalMsats).1.log =
      b.log ++ (b.authorize k previewId maxTotalMsats).2.entries previewId := by cases k <;> rfl
  have hsame : b.drawn ≤ (b.authorize k previewId maxTotalMsats).1.drawn := by cases k <;> exact le_refl _
  have hcore : Core (b.authorize k previewId maxTotalMsats).1 := hcore
  have hgoes : ∀ approval, Granted (b.authorize k previewId maxTotalMsats).1.log k previewId approval →
      Sound (b.authorize k previewId maxTotalMsats).1 (before ++ [next approval] ++ after) := by
    intro approval hgranted
    obtain ⟨checked, hrole, hchecked⟩ := hnext approval
    refine h.claimed hclaimed ht hcore hsame ?_ fun x hx => ?_
    · rw [hrole]
      refine ⟨drawn_of_granted hcore hgranted, hgranted, fun hk htrue => ?_⟩
      rw [hchecked hk] at htrue
      cases htrue
    · rw [hrole] at hx
      cases hx
  have hends : Core (b.authorize k previewId maxTotalMsats).1.dropClaim := hcore.same (same_active false)
  have hgranting : (b.authorize k previewId maxTotalMsats).2.Granting
      (b.authorize k previewId maxTotalMsats).1.log previewId := by
    rw [hlog]
    exact hgranting
  cases hr : (b.authorize k previewId maxTotalMsats).2 with
  | rejected error => exact h.ends hclaimed ht hends hsame rfl
  | refused error => exact h.ends hclaimed ht hends hsame rfl
  | unreachable =>
    have hdone : Sound (b.authorize k previewId maxTotalMsats).1.dropClaim
        (before ++ [.done (.operation .success)] ++ after) := h.ends hclaimed ht hends hsame rfl
    rw [List.append_assoc] at hdone
    exact hdone.step (quiet_end (Same.refl _))
  | stored approval =>
    rw [hr] at hgranting
    exact hgoes approval hgranting
  | approved approval =>
    rw [hr] at hgranting
    exact hgoes approval hgranting

/-- The task holds on to its approval. -/
theorem Sound.holding {k : Purpose} {previewId : String} {approval : api.Approval k} {checked : Bool}
    (h : Sound b (before ++ t :: after)) (hclaimed : Claimed b (before ++ t :: after)) (ht : t.holdsClaim = true)
    {next : Task api} (hcore : Core b') (hdrawn : b.drawn ≤ b'.drawn)
    (hnext : next.role = .holds k previewId approval checked) (hrole : RoleOk b' (.holds k previewId approval checked)) :
    Sound b' (before ++ [next] ++ after) := by
  refine h.claimed hclaimed ht hcore hdrawn ?_ fun x hx => ?_
  · rw [hnext]
    exact hrole
  · rw [hnext] at hx
    cases hx

theorem sound_ensureHook {previewId : String} {intent : api.FormationIntent} {approval : api.Approval .selection}
    {paymentFederationId : String}
    (h : Sound b (before ++ .ensureHook previewId intent approval paymentFederationId :: after))
    (hclaimed : Claimed b (before ++ .ensureHook previewId intent approval paymentFederationId :: after)) :
    Sound (ensureHook b previewId intent approval paymentFederationId).1
      (before ++ (ensureHook b previewId intent approval paymentFederationId).2 ++ after) := by
  obtain ⟨hdrawn, hgranted, -⟩ := h.roles _ mem_self
  unfold ensureHook
  split_ifs
  · exact h.step (quiet_to (Same.refl b) (.inr rfl))
  · cases hpush : b.formationState.formationPush.filter fun stored => decide (stored.previewId = previewId) with
    | none => exact h.step (quiet_to (same_active false) (.inl rfl))
    | some stored =>
      obtain ⟨hstored, hid⟩ := Option.filter_eq_some_iff.mp hpush
      rw [decide_eq_true_eq] at hid
      obtain ⟨-, hfinal⟩ := h.core.push stored hstored
      rw [hid] at hfinal
      -- the push coordinator has the id, so nobody has settled it
      have hrole : RoleOk b (.holds .selection previewId approval true) := ⟨hdrawn, hgranted, fun _ _ => hfinal⟩
      dsimp only
      split_ifs
      · have hlocked : Same b (b.setFormationPushLocked true) := ⟨rfl, rfl, rfl, rfl, rfl, id⟩
        exact h.holding hclaimed rfl (h.core.same hlocked) (le_refl _) rfl (hrole.same hlocked)
      · exact h.holding hclaimed rfl h.core (le_refl _) rfl hrole

theorem sound_createHook {previewId : String} {intent : api.FormationIntent} {approval : api.Approval .selection}
    {paymentFederationId : String}
    (h : Sound b (before ++ .createHook previewId intent approval paymentFederationId :: after))
    (hclaimed : Claimed b (before ++ .createHook previewId intent approval paymentFederationId :: after)) :
    Sound (createHook b previewId intent approval paymentFederationId input).1
      (before ++ (createHook b previewId intent approval paymentFederationId input).2 ++ after) := by
  have hcore : Core (b.setFormationPush (b.formationState.formationPush.map fun stored =>
      { stored with hook := stored.hook.or input.hook })) := by
    refine core_setFormationPush h.core fun stored hstored => ?_
    obtain ⟨old, hold, rfl⟩ := Option.map_eq_some_iff.mp hstored
    exact h.core.push old hold
  have hlocked : ∀ b : Bridge api, Same b (b.setFormationPushLocked false) := fun b => ⟨rfl, rfl, rfl, rfl, rfl, id⟩
  exact h.holding hclaimed rfl (hcore.same (hlocked _)) (le_refl _) rfl (h.roles _ mem_self)

theorem awaits_of_holds {caller : Caller api} (h : RoleOk b caller.holds) (hdrawn : b'.drawn = b.drawn) :
    RoleOk b' caller.awaits := by
  cases caller with
  | payAndCreate previewId intent approval paymentFederationId completionCallback =>
    exact Drawn.mono h.1 (le_of_eq hdrawn.symm)
  | applyReplacements previewId approval => exact Drawn.mono h.1 (le_of_eq hdrawn.symm)
  | other request => trivial

theorem fresh_awaits (caller : Caller api) : caller.awaits.fresh = none := by
  cases caller <;> rfl

theorem sound_sendCommand {caller : Caller api} (h : Sound b (before ++ .send caller :: after))
    (hclaimed : Claimed b (before ++ .send caller :: after)) :
    Sound (sendCommand b caller input).1 (before ++ (sendCommand b caller input).2 ++ after) := by
  have hrole : RoleOk b caller.holds := h.roles _ mem_self
  have hfresh : ∀ channel x, (Task.receive caller channel).role.fresh = some x →
      (Task.send caller).role.fresh = some x ∨ ¬ Drawn b x.2 := by
    intro channel x hx
    rw [show (Task.receive caller channel).role.fresh = none from fresh_awaits caller] at hx
    cases hx
  unfold sendCommand
  split_ifs with hgone hfull
  · -- no command is sent, and the call goes on as after an error
    have hreceives : Sound b (before ++ [.receive caller 0] ++ after) :=
      h.claimed hclaimed rfl h.core (le_refl _) (awaits_of_holds hrole rfl) (hfresh 0)
    rw [List.append_assoc] at hreceives
    have hstep : QuietStep b.dropClaim (.receive caller 0)
        (afterResponse b.dropClaim caller (.error driverUnavailableError) false input) := quiet_afterResponse rfl _ _
    exact hreceives.step ⟨(same_active false).trans hstep.same, hstep.roles⟩
  · exact h.step (quiet_to (Same.refl b) (.inr rfl))
  · have hcore := core_push h.core (Bool.eq_false_of_not_eq_true hgone) hrole
    exact h.claimed hclaimed rfl hcore (le_refl _) (awaits_of_holds hrole rfl) (hfresh _)

theorem sound_settlePush {previewId : String} {result : RpcFiOperationResult} {retainedClaim formationStarted : Bool}
    (h : Sound b (before ++ .settlePush previewId result retainedClaim formationStarted :: after))
    (hclaimed : Claimed b (before ++ .settlePush previewId result retainedClaim formationStarted :: after))
    (hgone : retainedClaim = false → b.driverGone = true) :
    Sound (settlePush b previewId result retainedClaim formationStarted input).1
      (before ++ (settlePush b previewId result retainedClaim formationStarted input).2 ++ after) := by
  have hdrawn : Drawn b previewId := h.roles _ mem_self
  have hsettled : ∀ stored : Option (StoredFormationPush api),
      (∀ s, stored = some s → b.formationState.formationPush = some s ∧ s.previewId ≠ previewId) →
      ∀ next : Task api, next.role = .none → Sound ((b.setFormationPush stored).note [.settled .selection previewId])
        (before ++ [next] ++ after) := by
    intro stored hstored next hnext
    have hcleared : Core (b.setFormationPush stored) :=
      core_setFormationPush h.core fun s hs => h.core.push s (hstored s hs).1
    have hcore : Core ((b.setFormationPush stored).note [.settled .selection previewId]) :=
      core_settled hcleared hdrawn (fun hk => by cases hk) fun _ => .inr fun s hs => (hstored s hs).2
    cases retainedClaim with
    | true => exact h.ends hclaimed rfl hcore (le_refl _) hnext
    | false =>
      -- without the claim others may be under way, but they cannot send any more
      refine h.settles hcore rfl rfl rfl (fun e he => ?_) (fun k hk => hk) fun x hx => ?_
      · exact ⟨.selection, previewId, rfl, List.mem_singleton.mp he, fun _ => hgone rfl⟩
      · rw [List.mem_singleton.mp hx]
        exact hnext
  have howned : ∀ s, (if b.formationState.formationPush.any fun stored => decide (stored.previewId = previewId) then none
      else b.formationState.formationPush) = some s → b.formationState.formationPush = some s ∧ s.previewId ≠ previewId := by
    intro s hs
    split_ifs at hs with hany
    rw [hs, Option.any_some, decide_eq_true_eq] at hany
    exact ⟨hs, hany⟩
  have hafter : ∀ stored : Option (StoredFormationPush api),
      (∀ s, stored = some s → b.formationState.formationPush = some s ∧ s.previewId ≠ previewId) →
      Sound (afterSettled ((b.setFormationPush stored).note [.settled .selection previewId]) previewId result
        retainedClaim input).1 (before ++ (afterSettled ((b.setFormationPush stored).note
          [.settled .selection previewId]) previewId result retainedClaim input).2 ++ after) := by
    intro stored hstored
    have hrevoked := hsettled stored hstored (.revokeSettled previewId result retainedClaim) rfl
    rw [List.append_assoc] at hrevoked
    exact hrevoked.step (quiet_afterSettled previewId result retainedClaim)
  unfold settlePush
  dsimp only
  generalize (if b.formationState.formationPush.any fun stored => decide (stored.previewId = previewId) then none
    else b.formationState.formationPush) = stored at howned ⊢
  generalize (if b.formationState.formationPush.any fun stored => decide (stored.previewId = previewId) then
    b.formationState.formationPush.bind StoredFormationPush.hook else none) = removed
  split_ifs
  · exact h.step (quiet_to (Same.refl b) (.inr rfl))
  · exact hsettled stored howned _ rfl
  · exact hafter stored howned
  · exact h.step (quiet_afterSettled previewId result retainedClaim)

theorem sound_clearSelection {previewId : String} {result : RpcFiOperationResult}
    (h : Sound b (before ++ .clearSelection previewId result :: after)) :
    Sound (clearSelection b previewId result).1 (before ++ (clearSelection b previewId result).2 ++ after) := by
  have hcore : Core (b.setStored .selection (clearStored b.formationState.selection previewId)) :=
    core_setStored h.core .selection fun s hs => h.core.stored .selection s (clearStored_eq_some hs).1
  refine h.settles hcore rfl rfl (List.append_nil b.log).symm (fun e he => by cases he) (fun k hk => ?_)
    fun x hx => ?_
  · cases k with
    | replacement => exact hk
    | selection =>
      show clearStored b.formationState.selection previewId = none
      rw [show b.formationState.selection = none from hk]
      rfl
  · rw [List.mem_singleton.mp hx]
    rfl

theorem sound_clearReplacement {previewId : String} {result : RpcFiOperationResult}
    (h : Sound b (before ++ .clearReplacement previewId result :: after)) :
    Sound (clearReplacement b previewId result).1 (before ++ (clearReplacement b previewId result).2 ++ after) := by
  have hdrawn : Drawn b previewId := h.roles _ mem_self
  have hcleared : Core (b.setStored .replacement (clearStored b.formationState.replacement previewId)) :=
    core_setStored h.core .replacement fun s hs => h.core.stored .replacement s (clearStored_eq_some hs).1
  have hcore := core_settled (k := .replacement) hcleared hdrawn
    (fun _ s hs => (clearStored_eq_some hs).2) fun hk => by cases hk
  refine h.settles hcore rfl rfl rfl (fun e he => ?_) (fun k hk => ?_) fun x hx => ?_
  · exact ⟨.replacement, previewId, rfl, List.mem_singleton.mp he, fun hk => by cases hk⟩
  · cases k with
    | selection => exact hk
    | replacement =>
      show clearStored b.formationState.replacement previewId = none
      rw [show b.formationState.replacement = none from hk]
      rfl
  · rw [List.mem_singleton.mp hx]
    rfl

theorem sound_invalidate {k : Purpose} {both : Bool} (h : Sound b (before ++ t :: after))
    (hclaimed : Claimed b (before ++ t :: after)) (ht : t.holdsClaim = true) {next : Task api}
    (hnext : next.role = .empties both) (hselection : (b.setStored k none).formationState.selection = none)
    (hreplacement : both = true → (b.setStored k none).formationState.replacement = none) :
    Sound (b.setStored k none) (before ++ [next] ++ after) := by
  have hcore : Core (b.setStored k none) := core_setStored h.core k fun s hs => by cases hs
  have hsame : b.drawn ≤ (b.setStored k none).drawn := by cases k <;> exact le_refl _
  refine h.claimed hclaimed ht hcore hsame ?_ fun x hx => ?_
  · rw [hnext]
    exact ⟨hselection, hreplacement⟩
  · rw [hnext] at hx
    cases hx

theorem sound_invalidatePush {d : DriverState} {command : FiDriverCommand api} {status status' : FiStatus}
    {response : FiDriverResponse} (h : Sound b (before ++ .invalidatePush d command status status' response :: after))
    (hclaimed : Claimed b (before ++ .invalidatePush d command status status' response :: after)) :
    Sound (invalidatePush b d command status status' response).1
      (before ++ (invalidatePush b d command status status' response).2 ++ after) := by
  obtain ⟨hselection, hreplacement⟩ := h.roles _ mem_self
  have hcore := core_invalidated h.core hselection (hreplacement rfl)
  have hcleared : Sound ((b.setFormationPush none).note [.invalidated])
      (before ++ [.revokeAbandoned d command status status' response] ++ after) :=
    h.ends hclaimed rfl hcore (le_refl _) rfl
  unfold invalidatePush
  dsimp only
  split_ifs
  · exact h.step (quiet_to (Same.refl b) (.inr rfl))
  · exact hcleared
  · rw [List.append_assoc] at hcleared
    exact hcleared.step (quiet_finishCommand d command status status' response)

theorem sound_poll (h : Sound b (before ++ t :: after)) (hclaimed : Claimed b (before ++ t :: after))
    (hgone : t.unclaimed = true → b.driverGone = true) :
    Sound (poll b t input).1 (before ++ (poll b t input).2 ++ after) := by
  cases t with
  | previewSelection request =>
    refine h.step (quiet_claimOr ?_)
    cases api.selectionRequestFromRpc request with
    | some error => exact quiet_to ((same_active true).trans (same_active false)) (.inl rfl)
    | none => exact quiet_to (same_active true) (.inl rfl)
  | previewFmanSelection =>
    show Sound (FiClient.previewFmanSelection b input).1 (before ++ (FiClient.previewFmanSelection b input).2 ++ after)
    unfold FiClient.previewFmanSelection
    cases input.selectionPreview with
    | error error => exact h.step (quiet_to (same_active false) (.inl rfl))
    | ok preview => exact sound_previewed h hclaimed rfl preview rfl
  | storeSelection previewId preview => exact sound_storeSelection h hclaimed
  | installPreview previewId preview formationStarted => exact sound_installPreview h hclaimed
  | revokeReplaced previewId preview => exact h.step (quiet_to (same_active false) (.inl rfl))
  | previewReplacements => exact h.step (quiet_claimOr (quiet_to (same_active true) (.inl rfl)))
  | previewFmanReplacements =>
    show Sound (FiClient.previewFmanReplacements b input).1
      (before ++ (FiClient.previewFmanReplacements b input).2 ++ after)
    unfold FiClient.previewFmanReplacements
    cases input.replacementPreview with
    | error error => exact h.step (quiet_to (same_active false) (.inl rfl))
    | ok preview => exact sound_previewed h hclaimed rfl preview rfl
  | storeReplacement previewId preview => exact sound_storeReplacement h hclaimed
  | applyReplacements previewId maxTotalMsats =>
    exact h.step (quiet_claimOr (quiet_to (same_active true) (.inl rfl)))
  | authorizeReplacement previewId maxTotalMsats =>
    exact sound_authorize h hclaimed rfl previewId maxTotalMsats fun _ => ⟨true, rfl, fun hk => by cases hk⟩
  | payAndCreate previewId intent paymentFederationId maxTotalMsats =>
    refine h.step (quiet_claimOr ?_)
    cases api.formationIntentFromRpc intent with
    | error error => exact quiet_to ((same_active true).trans (same_active false)) (.inl rfl)
    | ok intent => exact quiet_to (same_active true) (.inl rfl)
  | authorizeSelection previewId intent paymentFederationId maxTotalMsats =>
    exact sound_authorize h hclaimed rfl previewId maxTotalMsats fun _ => ⟨false, rfl, fun _ => rfl⟩
  | ensureHook previewId intent approval paymentFederationId => exact sound_ensureHook h hclaimed
  | createHook previewId intent approval paymentFederationId => exact sound_createHook h hclaimed
  | request request => exact h.step (quiet_claimOr (quiet_to (same_active true) (.inl rfl)))
  | send caller => exact sound_sendCommand h hclaimed
  | receive caller channel =>
    show Sound (FiClient.receiveResponse b caller channel input).1
      (before ++ (FiClient.receiveResponse b caller channel input).2 ++ after)
    unfold FiClient.receiveResponse
    cases b.channels[channel]? with
    | none => exact h.step (quiet_to (Same.refl b) (.inr rfl))
    | some state =>
      cases state with
      | waiting => exact h.step (quiet_to (Same.refl b) (.inr rfl))
      | closed => exact h.step (quiet_to (Same.refl b) (.inr rfl))
      | failed => exact h.step (quiet_afterResponse rfl _ _)
      | sent completion =>
        have hstep : QuietStep (b.setChannel channel .closed) (.receive caller channel)
            (afterResponse (b.setChannel channel .closed) caller (.ok completion.response) completion.retainedClaim input) :=
          quiet_afterResponse rfl _ _
        exact h.step ⟨(same_setChannel channel .closed).trans hstep.same, hstep.roles⟩
  | settlePush previewId result retainedClaim formationStarted =>
    refine sound_settlePush h hclaimed fun hretained => hgone ?_
    rw [hretained]
    rfl
  | revokeSettled previewId result retainedClaim => exact h.step (quiet_afterSettled previewId result retainedClaim)
  | clearSelection previewId result => exact sound_clearSelection h
  | clearReplacement previewId result => exact sound_clearReplacement h
  | done reply => exact h.step (quiet_to (Same.refl b) (.inl rfl))
  | driverLoop d => exact h.step (quiet_to (Same.refl b) (.inl rfl))
  | driverSelect d select => exact h.step (quiet_driverSelect d select)
  | driverResume d status => exact h.step (quiet_to (same_active false) (.inl rfl))
  | driverReadCurrent d => exact h.step (quiet_driverReadCurrent d)
  | driverResumeLiquidity d operationId => exact h.step (quiet_driverResumeLiquidity d)
  | driverExecute d command status =>
    show Sound (FiClient.driverExecute b d command status input).1
      (before ++ (FiClient.driverExecute b d command status input).2 ++ after)
    unfold FiClient.driverExecute
    dsimp only
    split_ifs
    · exact h.step (quiet_to (Same.refl b) (.inl rfl))
    · exact h.step (quiet_finishCommand d command status input.status _)
  | invalidateSelection d command status status' response =>
    exact sound_invalidate (k := .selection) h hclaimed rfl rfl rfl fun hboth => by cases hboth
  | invalidateReplacement d command status status' response =>
    obtain ⟨hselection, -⟩ := h.roles _ mem_self
    exact sound_invalidate (k := .replacement) h hclaimed rfl rfl hselection fun _ => rfl
  | invalidatePush d command status status' response => exact sound_invalidatePush h hclaimed
  | revokeAbandoned d command status status' response =>
    exact h.step (quiet_finishCommand d command status status' response)

theorem sound_run (h : Sound b (before ++ t :: after)) (hclaimed : Claimed b (before ++ t :: after))
    (hlinked : Linked b (before ++ t :: after)) :
    Sound (runTask b t input).1 (before ++ (runTask b t input).2 ++ after) := by
  obtain ⟨paid, -, hts⟩ := hlinked
  unfold runTask
  split_ifs
  · exact h.step (quiet_end (same_dropTask t))
  · exact sound_poll h hclaimed (hts t mem_self).unclaimed

end

/-! ## Runs -/

/-- All three invariants; a step needs the other two for the third. -/
structure Reached (b : Bridge api) (ts : List (Task api)) : Prop where
  claimed : Claimed b ts
  linked : Linked b ts
  sound : Sound b ts

theorem sound_call {b : Bridge api} {ts : List (Task api)} (h : Sound b ts) (call : Call api) :
    Sound b (ts ++ [call.start]) := by
  have hstart : call.start.role = .none := by cases call <;> rfl
  have hsplit : ∀ x ∈ ts ++ [call.start], x ∈ ts ∨ x.role = .none := by
    intro x hx
    rcases List.mem_append.mp hx with hx | hx
    · exact .inl hx
    · exact .inr (by rw [List.mem_singleton.mp hx, hstart])
  refine ⟨h.core, fun x hx => ?_, fun x hx x' hx' p hp hawaited => ?_⟩
  · rcases hsplit x hx with hx | hnone
    · exact h.roles x hx
    · rw [hnone]
      trivial
  · rcases hsplit x hx with hx | hnone
    · rcases hsplit x' hx' with hx' | hnone
      · exact h.apart x hx x' hx' p hp hawaited
      · rw [hnone] at hawaited
        cases hawaited
    · rw [hnone] at hp
      cases hp

theorem core_initial : Core (Bridge.initial api) where
  stored := fun k s hs => by cases k <;> cases hs
  push := fun stored hs => by cases hs
  log := logOk_nil
  entries := fun e he => by cases he

theorem reached_bridge (es : List (Event (Call api) (Input api))) : Reached (bridge es).state (bridge es).tasks := by
  refine pool_invariant (I := Reached) ⟨claimed_initial, linked_initial, core_initial, fun t ht => ?_,
    fun t ht t' _ x hx => ?_⟩ (fun b ts call h => ?_) (fun b before t after input h => ?_) es
  · rw [List.mem_singleton.mp ht]
    trivial
  · rw [List.mem_singleton.mp ht] at hx
    cases hx
  · exact ⟨claimed_call h.claimed call, linked_call h.linked call, sound_call h.sound call⟩
  · exact ⟨claimed_run input h.claimed, linked_run input h.linked, sound_run h.sound h.claimed h.linked⟩

/-- The entries that consume a preview id are one at most. -/
theorem LogOk.consumed_once {log : List (Entry api)} (h : LogOk log) {before after : List (Entry api)}
    {e : Entry api} {k : Purpose} {previewId : String} (hlog : log = before ++ e :: after)
    (he : e.consumes = some (k, previewId)) : ∀ e' ∈ before, e'.consumes ≠ some (k, previewId) := by
  have hok := h before e after hlog
  cases e <;> cases he <;> exact hok

theorem LogOk.approved_once {log : List (Entry api)} (h : LogOk log) {k : Purpose} {previewId : String}
    {approval approval' : api.Approval k} (hmem : .approved k previewId approval ∈ log)
    (hmem' : .approved k previewId approval' ∈ log) : approval' = approval := by
  obtain ⟨before, after, rfl⟩ := List.append_of_mem hmem
  rcases List.mem_append.mp hmem' with hbefore | hafter
  · exact absurd rfl (h.consumed_once rfl rfl _ hbefore)
  · rcases List.mem_cons.mp hafter with heq | hafter
    · cases heq
      rfl
    · obtain ⟨between, rest, rfl⟩ := List.append_of_mem hafter
      have hsplit : before ++ .approved k previewId approval :: (between ++ .approved k previewId approval' :: rest) =
          (before ++ .approved k previewId approval :: between) ++ .approved k previewId approval' :: rest := by
        rw [List.append_assoc, List.cons_append]
      exact absurd rfl (h.consumed_once hsplit rfl _ (List.mem_append_right _ List.mem_cons_self))

/-! ## Results -/

/-- Previews and approvals that are their amounts. -/
def demoApi : FiApi where
  Preview := fun _ => ℕ
  Approval := fun _ => ℕ
  totalAdvertisedMsats := id
  approve := fun _ limit => .ok limit
  maxTotalMsats := id
  maxTotalMsats_of_approve := fun _ _ _ h => (Except.ok.inj h).symm
  SelectionRequest := Unit
  selectionRequestFromRpc := fun _ => none
  RpcFormationIntent := Unit
  FormationIntent := Unit
  formationIntentFromRpc := .ok
  pushGateway := false
  Hook := Unit
  previewId := fun n => String.ofList (List.replicate n 'a')
  previewId_injective := fun m n h => by
    have hlist := congrArg List.length (String.ofList_injective h)
    rw [List.length_replicate, List.length_replicate] at hlist
    exact hlist

def demoInput : Input demoApi where
  dropped := false
  status := .idle
  selectionPreview := .ok (5 : ℕ)
  replacementPreview := .ok (5 : ℕ)
  hook := none
  slept := true
  formationResult := .ok ()
  liquidityResult := .error (.selectionReauthorizationRequired .previewExpired)
  currentOperation := .ok none

/-- A preview of 5, approved for 7, and paid. -/
def demoPaid : List (Event (Call demoApi) (Input demoApi)) :=
  .call (.previewSelection ()) :: List.replicate 4 (.advance 1 demoInput) ++
    .call (.payAndCreate "" () "" 7) :: List.replicate 5 (.advance 2 demoInput) ++
    List.replicate 3 (.advance 0 demoInput) ++ List.replicate 3 (.advance 2 demoInput)

/-- A command that spends an authorization carries the approval of its preview id.  The approval was
made once, for a preview that no durable abandonment has invalidated since, and its limit is not
zero and covers what was advertised. -/
theorem dispatched_authorized (es : List (Event (Call api) (Input api))) (k : Purpose) (previewId : String)
    (approval : api.Approval k) (before after : List (Entry api))
    (hlog : (bridge es).state.log = before ++ .dispatched k previewId approval :: after) :
    (∀ approval', .approved k previewId approval' ∈ (bridge es).state.log ↔ approval' = approval) ∧
      0 < api.maxTotalMsats approval ∧
      ∃ total, Offered before k previewId total ∧ total ≤ api.maxTotalMsats approval := by
  have hok := (reached_bridge es).sound.core.log
  obtain ⟨⟨happroved, hbounds⟩, -⟩ := hok before _ after hlog
  have hmem : .approved k previewId approval ∈ (bridge es).state.log := by
    rw [hlog]
    exact List.mem_append_left _ happroved
  refine ⟨fun approval' => ⟨fun hmem' => hok.approved_once hmem hmem', ?_⟩, hbounds⟩
  rintro rfl
  exact hmem

theorem dispatched_authorized_paid :
    (∀ approval', .approved .selection "" approval' ∈ (bridge demoPaid).state.log ↔ approval' = (7 : ℕ)) ∧ 0 < 7 ∧
      ∃ total, Offered [.previewed .selection "" 5, .approved .selection "" (7 : ℕ),
        (.authorized .selection "" (7 : ℕ) : Entry demoApi)] .selection "" total ∧ total ≤ 7 :=
  dispatched_authorized demoPaid .selection "" (7 : ℕ) _ [.settled .selection ""] rfl

/-- Once a call has taken the final result of a paid formation, no command with that preview id is
sent any more; once one has taken that of replacements, no call gets their approval any more.  (A
call that got it before may still send it: the claim is dropped before the result is taken.) -/
theorem settled_final (es : List (Event (Call api) (Input api))) (k : Purpose) (previewId : String)
    (before after : List (Entry api))
    (hlog : (bridge es).state.log = before ++ .settled k previewId :: after) :
    (k = .selection → ∀ approval, .dispatched k previewId approval ∉ after) ∧
      (k = .replacement → ∀ approval, .authorized k previewId approval ∉ after) := by
  have hok := (reached_bridge es).sound.core.log
  have hlater : ∀ e ∈ after, ∃ between rest, (bridge es).state.log =
      (before ++ .settled k previewId :: between) ++ e :: rest := by
    intro e he
    obtain ⟨between, rest, rfl⟩ := List.append_of_mem he
    exact ⟨between, rest, by rw [hlog, List.append_assoc, List.cons_append]⟩
  have hmem : ∀ between : List (Entry api), .settled k previewId ∈ before ++ .settled k previewId :: between :=
    fun _ => List.mem_append_right _ List.mem_cons_self
  constructor
  · rintro rfl approval hafter
    obtain ⟨between, rest, hsplit⟩ := hlater _ hafter
    obtain ⟨-, hnot⟩ := hok _ _ rest hsplit
    exact hnot rfl (hmem between)
  · rintro rfl approval hafter
    obtain ⟨between, rest, hsplit⟩ := hlater _ hafter
    exact hok _ _ rest hsplit (hmem between)

/-- The preview id is named again, to no avail; the next preview is paid. -/
def demoPaidAgain : List (Event (Call demoApi) (Input demoApi)) :=
  demoPaid ++ .call (.payAndCreate "" () "" 7) :: List.replicate 3 (.advance 3 demoInput) ++
    .call (.previewSelection ()) :: List.replicate 4 (.advance 4 demoInput) ++
    .call (.payAndCreate "a" () "" 7) :: List.replicate 4 (.advance 5 demoInput)

/-- What comes after the settlement. -/
def paidAgain : List (Entry demoApi) :=
  [.previewed .selection "a" 5, .approved .selection "a" (7 : ℕ), .authorized .selection "a" (7 : ℕ),
    .dispatched .selection "a" (7 : ℕ)]

theorem settled_final_paid :
    (Purpose.selection = .selection → ∀ approval : ℕ, (.dispatched .selection "" approval : Entry demoApi) ∉ paidAgain) ∧
      (Purpose.selection = .replacement →
        ∀ approval : ℕ, (.authorized .selection "" approval : Entry demoApi) ∉ paidAgain) :=
  settled_final demoPaidAgain .selection "" [.previewed .selection "" 5, .approved .selection "" (7 : ℕ),
    .authorized .selection "" (7 : ℕ), .dispatched .selection "" (7 : ℕ)] paidAgain rfl

/-- The `unreachable!()` of an authorization without a preview and an approval is reached exactly by
a call that names the stored preview after its approval has failed. -/
theorem unreachable_iff (es : List (Event (Call api) (Input api))) (k : Purpose) (previewId : String)
    (maxTotalMsats : ℕ) :
    ((bridge es).state.authorize k previewId maxTotalMsats).2 = .unreachable ↔
      (∃ s, (bridge es).state.formationState.stored k = some s ∧ s.previewId = previewId) ∧
        .refused k previewId ∈ (bridge es).state.log := by
  have hcore := (reached_bridge es).sound.core
  generalize (bridge es).state = b at hcore ⊢
  constructor
  · intro hunreachable
    have hspec := authorize_spec (b.formationState.stored k) previewId maxTotalMsats
    change (authorize (b.formationState.stored k) previewId maxTotalMsats).2 = .unreachable at hunreachable
    generalize authorize (b.formationState.stored k) previewId maxTotalMsats = r at hspec hunreachable
    cases hspec with
    | unreachable s hs hid happroval hpreview =>
      have hrefused := (hcore.stored k s hs).stored.refused_mem hpreview happroval
      rw [hid] at hrefused
      exact ⟨⟨s, hs, hid⟩, hrefused⟩
    | rejected error => cases hunreachable
    | stored s approval _ _ _ => cases hunreachable
    | refused s preview error _ _ _ _ => cases hunreachable
    | approved s preview approval _ _ _ _ _ _ _ => cases hunreachable
  · rintro ⟨⟨s, hs, rfl⟩, hrefused⟩
    have hnone : s.preview = none ∧ s.approval = none := by
      cases (hcore.stored k s hs).stored with
      | offered preview _ _ _ hunused => exact absurd rfl (hunused _ hrefused)
      | approved approval _ _ _ hnot => exact absurd hrefused hnot
      | refused hpreview happroval _ => exact ⟨hpreview, happroval⟩
    unfold Bridge.authorize authorize
    rw [hs]
    simp [hnone.1, hnone.2]

end FiClient
