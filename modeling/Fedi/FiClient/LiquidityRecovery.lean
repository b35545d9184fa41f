import Fedi.FiClient.Types

/-!
# The recovery of liquidity operations (`LiquidityLaunchRecovery`)

The driver reads the current operation and resumes it, one step at a time, between commands and
with a growing delay.  What happened to it so far decides its state (`replay`):

    what it resumes next was read last, as the current operation and live        (replay_pending)
    it rests only when the last it saw was no live operation                       (replay_rests)
    after n attempts on an operation that stays as it is, the delay is at least 2 ^ (n - 1)
      seconds; it is never more than five minutes                      (replay_delay, replay_cap)
-/

namespace FiClient

structure LiquidityLaunchRecovery where
  readCurrent : Bool
  pending : Option String
  lastSnapshot : Option LiquidityOperationSnapshot
  retryDelay : ℕ

inductive LiquidityRecoveryStep
  | readCurrent
  | resume (operationId : String)

namespace LiquidityLaunchRecovery

def new : LiquidityLaunchRecovery := ⟨true, none, none, 0⟩

def hasWork (r : LiquidityLaunchRecovery) : Bool := r.readCurrent || r.pending.isSome

def nextDelay (r : LiquidityLaunchRecovery) : ℕ := if r.pending.isSome then 0 else r.retryDelay

def nextStep (r : LiquidityLaunchRecovery) : Option LiquidityRecoveryStep × LiquidityLaunchRecovery :=
  match r.pending with
  | some operationId => (some (.resume operationId), { r with pending := none })
  | none => if r.readCurrent then (some .readCurrent, { r with readCurrent := false }) else (none, r)

def finish (r : LiquidityLaunchRecovery) : LiquidityLaunchRecovery :=
  { r with readCurrent := false, pending := none, lastSnapshot := none, retryDelay := 0 }

/-- `previous` is there and differs. -/
def changed (r : LiquidityLaunchRecovery) (operation : LiquidityOperationSnapshot) : Bool :=
  r.lastSnapshot.any fun previous => decide (previous ≠ operation)

def recordCurrent (r : LiquidityLaunchRecovery) (operation : Option LiquidityOperationSnapshot) :
    LiquidityLaunchRecovery :=
  match operation.filter shouldResumeLiquidityOnLaunch with
  | none => r.finish
  | some operation =>
    { r with
      retryDelay := if r.changed operation then 0 else r.retryDelay
      pending := some operation.operationId
      lastSnapshot := some operation }

def recordFailure (r : LiquidityLaunchRecovery) : LiquidityLaunchRecovery :=
  { r with pending := none, readCurrent := true, retryDelay := nextRetryDelay r.retryDelay false }

def recordResumeSuccess (r : LiquidityLaunchRecovery) (operation : LiquidityOperationSnapshot) :
    LiquidityLaunchRecovery :=
  if shouldResumeLiquidityOnLaunch operation then
    { r with
      lastSnapshot := some operation
      pending := none
      readCurrent := true
      retryDelay := nextRetryDelay r.retryDelay (r.changed operation) }
  else r.finish

def rearmAfterMutation (r : LiquidityLaunchRecovery) : LiquidityLaunchRecovery :=
  { r with readCurrent := true, pending := none, lastSnapshot := none, retryDelay := 0 }

end LiquidityLaunchRecovery

/-! ## What the recovery has seen -/

inductive LiquidityEntry
  | read (operation : Option LiquidityOperationSnapshot)
  | resumed (operationId : String)
  | returned (operation : LiquidityOperationSnapshot)
  /-- A read or a resumption has failed, or another operation was under way. -/
  | failed
  | rearmed

def LiquidityLaunchRecovery.see (r : LiquidityLaunchRecovery) : LiquidityEntry → LiquidityLaunchRecovery
  | .read operation => { r with readCurrent := false }.recordCurrent operation
  | .resumed _ => { r with pending := none }
  | .returned operation => r.recordResumeSuccess operation
  | .failed => r.recordFailure
  | .rearmed => r.rearmAfterMutation

def replay (log : List LiquidityEntry) : LiquidityLaunchRecovery := log.foldl LiquidityLaunchRecovery.see .new

theorem replay_snoc (log : List LiquidityEntry) (e : LiquidityEntry) : replay (log ++ [e]) = (replay log).see e :=
  List.foldl_append ..

/-- The operation is there and may be resumed. -/
def Live (operation : Option LiquidityOperationSnapshot) : Prop :=
  ∃ o, operation = some o ∧ shouldResumeLiquidityOnLaunch o = true

section
variable {r : LiquidityLaunchRecovery} {log : List LiquidityEntry} {operationId : String}

theorem recordCurrent_cases (operation : Option LiquidityOperationSnapshot) :
    (¬ Live operation ∧ r.recordCurrent operation = r.finish) ∨
      ∃ o, operation = some o ∧ shouldResumeLiquidityOnLaunch o = true ∧ r.recordCurrent operation =
        { r with
          retryDelay := if r.changed o then 0 else r.retryDelay
          pending := some o.operationId
          lastSnapshot := some o } := by
  unfold LiquidityLaunchRecovery.recordCurrent
  cases operation with
  | none => exact .inl ⟨fun ⟨_, h, _⟩ => (by cases h), rfl⟩
  | some o =>
    by_cases hlive : shouldResumeLiquidityOnLaunch o = true
    · refine .inr ⟨o, rfl, hlive, ?_⟩
      rw [Option.filter_some_pos hlive]
    · refine .inl ⟨?_, ?_⟩
      · rintro ⟨o', h, hlive'⟩
        cases h
        exact hlive hlive'
      · rw [Option.filter_some_neg (Bool.eq_false_of_not_eq_true hlive)]

theorem recordResumeSuccess_cases (o : LiquidityOperationSnapshot) :
    (shouldResumeLiquidityOnLaunch o = false ∧ r.recordResumeSuccess o = r.finish) ∨
      (shouldResumeLiquidityOnLaunch o = true ∧ r.recordResumeSuccess o =
        { r with
          lastSnapshot := some o
          pending := none
          readCurrent := true
          retryDelay := nextRetryDelay r.retryDelay (r.changed o) }) := by
  unfold LiquidityLaunchRecovery.recordResumeSuccess
  cases hlive : shouldResumeLiquidityOnLaunch o with
  | false => exact .inl ⟨rfl, rfl⟩
  | true => exact .inr ⟨rfl, rfl⟩

/-- What is pending was read last. -/
theorem replay_pending (h : (replay log).pending = some operationId) :
    ∃ before o, log = before ++ [.read (some o)] ∧ o.operationId = operationId ∧
      shouldResumeLiquidityOnLaunch o = true := by
  rcases List.eq_nil_or_concat' log with rfl | ⟨before, e, rfl⟩
  · cases h
  · rw [replay_snoc] at h
    cases e with
    | read operation =>
      rcases recordCurrent_cases (r := { replay before with readCurrent := false }) operation with
        ⟨-, hfinish⟩ | ⟨o, rfl, hlive, hpending⟩
      · rw [LiquidityLaunchRecovery.see, hfinish] at h
        cases h
      · rw [LiquidityLaunchRecovery.see, hpending] at h
        exact ⟨before, o, rfl, Option.some.inj h, hlive⟩
    | resumed id => cases h
    | returned o =>
      rcases recordResumeSuccess_cases (r := replay before) o with ⟨-, hfinish⟩ | ⟨-, hagain⟩
      · rw [LiquidityLaunchRecovery.see, hfinish] at h
        cases h
      · rw [LiquidityLaunchRecovery.see, hagain] at h
        cases h
    | failed => cases h
    | rearmed => cases h

/-- Between two steps without work, the last that was seen is no live operation. -/
theorem replay_rests (h : (replay log).hasWork = false) :
    ∃ before e, log = before ++ [e] ∧ ((∃ operation, e = .read operation ∧ ¬ Live operation) ∨
      (∃ o, e = .returned o ∧ shouldResumeLiquidityOnLaunch o = false) ∨ ∃ operationId, e = .resumed operationId) := by
  rcases List.eq_nil_or_concat' log with rfl | ⟨before, e, rfl⟩
  · cases h
  · rw [replay_snoc] at h
    refine ⟨before, e, rfl, ?_⟩
    cases e with
    | read operation =>
      rcases recordCurrent_cases (r := { replay before with readCurrent := false }) operation with
        ⟨hdead, -⟩ | ⟨o, rfl, hlive, hpending⟩
      · exact .inl ⟨operation, rfl, hdead⟩
      · rw [LiquidityLaunchRecovery.see, hpending] at h
        cases h
    | resumed id => exact .inr (.inr ⟨id, rfl⟩)
    | returned o =>
      rcases recordResumeSuccess_cases (r := replay before) o with ⟨hdead, -⟩ | ⟨-, hagain⟩
      · exact .inr (.inl ⟨o, rfl, hdead⟩)
      · rw [LiquidityLaunchRecovery.see, hagain] at h
        cases h
    | failed => cases h
    | rearmed => cases h

/-! ## Delays -/

theorem nextRetryDelay_le (previous : ℕ) (progress : Bool) : nextRetryDelay previous progress ≤ fiResumeMaxBackoff := by
  unfold nextRetryDelay
  split_ifs
  · decide
  · exact Nat.min_le_right _ _
  · exact Nat.min_le_right _ _

/-- The delay after this many attempts that changed nothing. -/
def backoff (attempts : ℕ) : ℕ := if attempts = 0 then 0 else min (2 ^ (attempts - 1)) fiResumeMaxBackoff

theorem backoff_succ_le {attempts previous : ℕ} (h : backoff attempts ≤ previous) :
    backoff (attempts + 1) ≤ nextRetryDelay previous false := by
  unfold backoff at h ⊢
  unfold nextRetryDelay
  rw [if_neg (Nat.succ_ne_zero _), Nat.add_sub_cancel, Bool.false_or]
  by_cases hfirst : attempts = 0
  · subst hfirst
    split_ifs with hzero
    · decide
    · have hpos : 0 < previous := Nat.pos_of_ne_zero fun h0 => hzero (decide_eq_true h0)
      unfold fiResumeMaxBackoff
      omega
    · decide
  · obtain ⟨n, rfl⟩ := Nat.exists_eq_succ_of_ne_zero hfirst
    rw [if_neg hfirst, Nat.succ_sub_one] at h
    have hpow : 0 < 2 ^ n := Nat.two_pow_pos n
    rw [Nat.pow_succ]
    unfold fiResumeMaxBackoff at h ⊢
    split_ifs with hzero
    · rw [decide_eq_true_eq] at hzero
      omega
    · omega
    · omega

/-- A resumption that is over. -/
def LiquidityEntry.isAttempt : LiquidityEntry → Bool
  | .returned _ => true
  | .failed => true
  | _ => false

/-- The operation is live, and nothing else is seen of it. -/
def LiquidityEntry.Unchanged (o : LiquidityOperationSnapshot) : LiquidityEntry → Prop
  | .read operation => operation = some o
  | .returned operation => operation = o
  | .rearmed => False
  | _ => True

theorem see_unchanged {o : LiquidityOperationSnapshot} {e : LiquidityEntry} (hlive : shouldResumeLiquidityOnLaunch o = true)
    (he : e.Unchanged o) (hseen : r.lastSnapshot = some o) :
    (r.see e).lastSnapshot = some o ∧
      (r.see e).retryDelay = if e.isAttempt then nextRetryDelay r.retryDelay false else r.retryDelay := by
  have hsame : r.changed o = false := by
    unfold LiquidityLaunchRecovery.changed
    rw [hseen, Option.any_some]
    exact decide_eq_false fun h => h rfl
  cases e with
  | read operation =>
    obtain rfl : operation = some o := he
    rcases recordCurrent_cases (r := { r with readCurrent := false }) (some o) with
      ⟨hdead, -⟩ | ⟨o', ho, -, hpending⟩
    · exact absurd ⟨o, rfl, hlive⟩ hdead
    · cases ho
      rw [LiquidityLaunchRecovery.see, hpending]
      refine ⟨rfl, ?_⟩
      show (if r.changed o then 0 else r.retryDelay) = r.retryDelay
      rw [hsame]
      rfl
  | returned operation =>
    obtain rfl : operation = o := he
    rcases recordResumeSuccess_cases (r := r) operation with ⟨hdead, -⟩ | ⟨-, hagain⟩
    · rw [hlive] at hdead
      cases hdead
    · rw [LiquidityLaunchRecovery.see, hagain, hsame]
      exact ⟨rfl, rfl⟩
  | resumed operationId => exact ⟨hseen, rfl⟩
  | failed => exact ⟨hseen, rfl⟩
  | rearmed => exact he.elim

/-- An operation that stays as it is is attempted with growing delays. -/
theorem replay_delay {o : LiquidityOperationSnapshot} {first : LiquidityEntry} {rest : List LiquidityEntry}
    (hlive : shouldResumeLiquidityOnLaunch o = true) (hfirst : first = .read (some o) ∨ first = .returned o)
    (hrest : ∀ e ∈ rest, e.Unchanged o) :
    backoff (rest.countP LiquidityEntry.isAttempt) ≤ (replay (log ++ first :: rest)).retryDelay := by
  suffices hseen : (replay (log ++ first :: rest)).lastSnapshot = some o ∧
      backoff (rest.countP LiquidityEntry.isAttempt) ≤ (replay (log ++ first :: rest)).retryDelay from hseen.2
  induction rest using List.reverseRecOn with
  | nil =>
    refine ⟨?_, Nat.zero_le _⟩
    rw [replay_snoc]
    rcases hfirst with rfl | rfl
    · rcases recordCurrent_cases (r := { replay log with readCurrent := false }) (some o) with
        ⟨hdead, -⟩ | ⟨o', ho, -, hpending⟩
      · exact absurd ⟨o, rfl, hlive⟩ hdead
      · cases ho
        rw [LiquidityLaunchRecovery.see, hpending]
    · rcases recordResumeSuccess_cases (r := replay log) o with ⟨hdead, -⟩ | ⟨-, hagain⟩
      · rw [hlive] at hdead
        cases hdead
      · rw [LiquidityLaunchRecovery.see, hagain]
  | append_singleton rest e ih =>
    obtain ⟨hseen, hdelay⟩ := ih fun e' he' => hrest e' (List.mem_append_left _ he')
    obtain ⟨hseen', hnext⟩ := see_unchanged hlive (hrest e (List.mem_append_right _ List.mem_cons_self)) hseen
    rw [← List.cons_append, ← List.append_assoc, replay_snoc]
    refine ⟨hseen', ?_⟩
    rw [hnext, List.countP_append, List.countP_singleton]
    cases e.isAttempt with
    | false => exact hdelay
    | true => exact backoff_succ_le hdelay

theorem replay_cap (log : List LiquidityEntry) : (replay log).retryDelay ≤ fiResumeMaxBackoff := by
  induction log using List.reverseRecOn with
  | nil => exact Nat.zero_le _
  | append_singleton log e ih =>
    rw [replay_snoc]
    cases e with
    | read operation =>
      rcases recordCurrent_cases (r := { replay log with readCurrent := false }) operation with
        ⟨-, hfinish⟩ | ⟨o, -, -, hpending⟩
      · rw [LiquidityLaunchRecovery.see, hfinish]
        exact Nat.zero_le _
      · rw [LiquidityLaunchRecovery.see, hpending]
        dsimp only
        split_ifs
        · exact Nat.zero_le _
        · exact ih
    | resumed operationId => exact ih
    | returned o =>
      rcases recordResumeSuccess_cases (r := replay log) o with ⟨-, hfinish⟩ | ⟨-, hagain⟩
      · rw [LiquidityLaunchRecovery.see, hfinish]
        exact Nat.zero_le _
      · rw [LiquidityLaunchRecovery.see, hagain]
        exact nextRetryDelay_le _ _
    | failed => exact nextRetryDelay_le _ _
    | rearmed => exact Nat.zero_le _

end

end FiClient
