import Fedi.Spv2Sweeper.Service
import Fedi.StabilityPool.Releases

/-!
# What a sweep withdraws, and how many there are

A sweep never asks for locked balance exactly as long as every sweep that consensus takes is
covered by what is staged then; and while the process does not stop between a submission and
the note of its operation id, one sweep at most is unresolved (`sweeps_of_run`).

The amount of a sweep is a fiat amount from a sync response, so prices and balances may have
moved when it is taken.
-/

namespace Spv2Sweeper

open BTreeMaps KeyedLogs Runs StabilityPool

/-! ## What is promised -/

/-- No sweep holds an unlock request or removed locked balance. -/
def IdleOnly (s : System) : Prop := ∀ sweep ∈ s.sweeps, s.ledger.db.SparesLocks sweep.unlock.txid

/-- No two sweeps are unresolved. -/
def OneAtATime (s : System) : Prop :=
  ∀ (i j : ℕ) (first second : Sweep), s.sweeps[i]? = some first → s.sweeps[j]? = some second →
    first.state.resolved = false → second.state.resolved = false → i = j

section

variable (C : Crypto) (cfg : StabilityPoolConfigConsensus) (seeker : PublicKey)

/-! ## The conditions -/

/-- What is staged covers a sweep that consensus takes, or both balances together do not. -/
def Covered (s : System) : Event → Prop
  | .settle i false => ∀ sweep, s.sweeps[i]? = some sweep → sweep.unlock.accepted = none →
      s.ledger.db.StagedCovers .seek ((ourAccount seeker).id C) sweep.fiatAmount
  | _ => True

/-- The process does not stop while an unresolved withdrawal is submitted and not noted. -/
def Recorded (s : System) : Event → Prop
  | .crash => ∀ operationId, s.phase = .recording operationId → s.subscribed operationId = true
  | _ => True

variable {C cfg seeker} {s : System}

/-! ## Steps of the federation -/

theorem serve_cases (e : StabilityPool.Event) :
    (∃ ledger, applyEvent C cfg s.ledger e = .ok ledger ∧
      s.serve C cfg e = ({ s with ledger := ledger, transactions := (eventTxid e).toList ++ s.transactions }, true)) ∨
      s.serve C cfg e = (s, false) := by
  unfold System.serve
  cases happly : applyEvent C cfg s.ledger e with
  | ok ledger => exact .inl ⟨ledger, rfl, rfl⟩
  | error _ => exact .inr rfl

/-- What stays of a sweep. -/
structure Sweep.Same (sweep' sweep : Sweep) : Prop where
  operationId : sweep'.operationId = sweep.operationId
  fiatAmount : sweep'.fiatAmount = sweep.fiatAmount
  txid : sweep'.unlock.txid = sweep.unlock.txid
  resolved : sweep.state.resolved = true → sweep'.state.resolved = true

/-- The sweeps are the same, one of them may have moved on. -/
def Progressed (sweeps sweeps' : List Sweep) : Prop := List.Forall₂ Sweep.Same sweeps' sweeps

theorem progressed_refl (sweeps : List Sweep) : Progressed sweeps sweeps :=
  List.forall₂_same.mpr fun _ _ => ⟨rfl, rfl, rfl, id⟩

theorem progressed_set {sweeps : List Sweep} {i : ℕ} {sweep sweep' : Sweep} (hget : sweeps[i]? = some sweep)
    (hsame : sweep'.Same sweep) : Progressed sweeps (sweeps.set i sweep') := by
  induction sweeps generalizing i with
  | nil => cases hget
  | cons first rest ih =>
    cases i with
    | zero =>
      cases hget
      exact .cons hsame (progressed_refl rest)
    | succ i => exact .cons ⟨rfl, rfl, rfl, id⟩ (ih hget)

theorem Progressed.mem {sweeps sweeps' : List Sweep} (h : Progressed sweeps sweeps') {sweep' : Sweep}
    (hmem : sweep' ∈ sweeps') : ∃ sweep ∈ sweeps, sweep'.Same sweep := by
  induction h with
  | nil => cases hmem
  | cons hsame _ ih =>
    rcases List.mem_cons.mp hmem with rfl | hmem
    · exact ⟨_, List.mem_cons_self, hsame⟩
    · obtain ⟨sweep, hsweep, hsame⟩ := ih hmem
      exact ⟨sweep, List.mem_cons_of_mem _ hsweep, hsame⟩

theorem Progressed.mem_left {sweeps sweeps' : List Sweep} (h : Progressed sweeps sweeps') {sweep : Sweep}
    (hmem : sweep ∈ sweeps) : ∃ sweep' ∈ sweeps', sweep'.Same sweep := by
  induction h with
  | nil => cases hmem
  | cons hsame _ ih =>
    rcases List.mem_cons.mp hmem with rfl | hmem
    · exact ⟨_, List.mem_cons_self, hsame⟩
    · obtain ⟨sweep', hsweep, hsame⟩ := ih hmem
      exact ⟨sweep', List.mem_cons_of_mem _ hsweep, hsame⟩

theorem Progressed.operationIds {sweeps sweeps' : List Sweep} (h : Progressed sweeps sweeps') :
    sweeps'.map Sweep.operationId = sweeps.map Sweep.operationId := by
  induction h with
  | nil => rfl
  | cons hsame _ ih => rw [List.map_cons, List.map_cons, hsame.operationId, ih]

/-! ## What is known throughout a run -/

theorem fromBtcAmountRoundtripSafe_lt {btcAmount price fiat : ℕ}
    (h : FiatAmount.fromBtcAmountRoundtripSafe btcAmount price = .ok fiat) : fiat < 2 ^ 64 := by
  obtain ⟨fiatAmount, hfiat, h⟩ := bind_eq_ok.mp h
  obtain ⟨back, hback, h⟩ := bind_eq_ok.mp h
  have hsmall : fiatAmount < 2 ^ 64 := by
    unfold FiatAmount.fromBtcAmount tryIntoU64 at hfiat
    split_ifs at hfiat with hlt
    cases hfiat
    exact hlt
  split_ifs at h <;> cases h <;> omega

/-- Fiat amounts are 64 bits wide. -/
structure Bounded (sweeps : List Sweep) (phase : Phase) : Prop where
  sweeps : ∀ sweep ∈ sweeps, sweep.fiatAmount < 2 ^ 64
  withdrawing : ∀ fiatAmount, phase = .withdrawing fiatAmount → fiatAmount < 2 ^ 64

theorem Bounded.progressed {sweeps sweeps' : List Sweep} {phase : Phase} (h : Bounded sweeps phase)
    (hprogressed : Progressed sweeps sweeps') : Bounded sweeps' phase where
  sweeps := fun sweep' hmem => by
    obtain ⟨sweep, hsweep, hsame⟩ := hprogressed.mem hmem
    rw [hsame.fiatAmount]
    exact h.sweeps sweep hsweep
  withdrawing := h.withdrawing

theorem Bounded.phase {sweeps : List Sweep} {phase phase' : Phase} (h : Bounded sweeps phase)
    (hphase : ∀ fiatAmount, phase' ≠ .withdrawing fiatAmount) : Bounded sweeps phase' :=
  ⟨h.sweeps, fun fiatAmount heq => absurd heq (hphase fiatAmount)⟩

/-- Submitted or refused, a withdrawal leaves the task with one of these. -/
theorem withdraw_cases (s : System) (fiatAmount : ℕ) (operationId : OperationId) (txid : TransactionId) :
    (s.unused txid = true ∧ (∀ sweep ∈ s.sweeps, sweep.operationId ≠ operationId) ∧
      s.withdraw fiatAmount operationId txid = { s with
        sweeps := s.sweeps ++ [⟨operationId, fiatAmount, ⟨txid, none⟩, .created⟩]
        phase := .recording operationId }) ∨
      s.withdraw fiatAmount operationId txid = { s with phase := .waiting } ∨
      s.withdraw fiatAmount operationId txid = s := by
  unfold System.withdraw
  split_ifs with hzero hunused
  · exact .inr (.inl rfl)
  · exact .inl ⟨hunused.1, hunused.2, rfl⟩
  · exact .inr (.inr rfl)

/-- The sweep of a sync response: what the task does next. -/
theorem sweepSpv2Inner_cases (s : System) (response : SyncResponse) :
    sweepSpv2Inner s response = .waiting ∨
      (∃ operationId, s.lastSweeperWithdrawal = some operationId ∧
        sweepSpv2Inner s response = .subscribing operationId) ∨
      ∃ fiatAmount, s.lastSweeperWithdrawal = none ∧ fiatAmount < 2 ^ 64 ∧
        sweepSpv2Inner s response = .withdrawing fiatAmount := by
  unfold sweepSpv2Inner
  split
  · exact .inl rfl
  · split
    · exact .inl rfl
    · split
      next operationId hnoted => exact .inr (.inl ⟨operationId, hnoted, rfl⟩)
      next hnone =>
        split
        next fiatAmount hfiat => exact .inr (.inr ⟨fiatAmount, hnone, fromBtcAmountRoundtripSafe_lt hfiat, rfl⟩)
        · exact .inl rfl

/-! ## What a step does -/

/-- The step leaves the ledger, the transactions and the sweeps. -/
structure Kept (s s' : System) : Prop where
  ledger : s'.ledger = s.ledger
  transactions : s'.transactions = s.transactions
  sweeps : s'.sweeps = s.sweeps

/-- The step leaves the task and its note, and the sweeps but for their progress. -/
structure Beside (s s' : System) : Prop where
  progressed : Progressed s.sweeps s'.sweeps
  noted : s'.lastSweeperWithdrawal = s.lastSweeperWithdrawal
  phase : s'.phase = s.phase

/-- Every way a step moves the ledger, the sweeps, the task and its note. -/
inductive Moves (C : Crypto) (cfg : StabilityPoolConfigConsensus) (seeker : PublicKey) (s s' : System) : Event → Prop
  | quiet (e : Event) (hledger : s'.ledger = s.ledger) (htransactions : s'.transactions = s.transactions)
    (hbeside : Beside s s') : Moves C cfg seeker s s' e
  | served (e : Event) (event : StabilityPool.Event) (happly : applyEvent C cfg s.ledger event = .ok s'.ledger)
    (htransactions : s'.transactions = (eventTxid event).toList ++ s.transactions)
    (hforeign : ∀ sweep ∈ s.sweeps, ¬ event.Unlocks sweep.unlock.txid) (hbeside : Beside s s') :
    Moves C cfg seeker s s' e
  | unlocked (i : ℕ) (sweep : Sweep) (hget : s.sweeps[i]? = some sweep) (hpending : sweep.unlock.accepted = none)
    (happly : applyEvent C cfg s.ledger (.input sweep.unlock.txid (unlockInput seeker sweep)) = .ok s'.ledger)
    (htransactions : s'.transactions = sweep.unlock.txid :: s.transactions) (hbeside : Beside s s') :
    Moves C cfg seeker s s' (.settle i false)
  | idled (e : Event) (hkept : Kept s s') (hnoted : s'.lastSweeperWithdrawal = s.lastSweeperWithdrawal)
    (hphase : s'.phase = .waiting) (hfrom : ∀ operationId, s.phase ≠ .recording operationId) :
    Moves C cfg seeker s s' e
  | began (e : Event) (fiatAmount : ℕ) (hkept : Kept s s') (hnone : s.lastSweeperWithdrawal = none)
    (hnoted : s'.lastSweeperWithdrawal = none) (hfrom : s.phase = .waiting)
    (hphase : s'.phase = .withdrawing fiatAmount) (hsmall : fiatAmount < 2 ^ 64) : Moves C cfg seeker s s' e
  | resumed (e : Event) (operationId : OperationId) (hkept : Kept s s')
    (hnoted : s'.lastSweeperWithdrawal = some operationId) (hphase : s'.phase = .subscribing operationId)
    (hfrom : s.phase = .waiting ∧ s.lastSweeperWithdrawal = some operationId ∨ s.phase = .recording operationId) :
    Moves C cfg seeker s s' e
  | submitted (e : Event) (fiatAmount : ℕ) (operationId : OperationId) (txid : TransactionId)
    (hfrom : s.phase = .withdrawing fiatAmount) (hunused : s.unused txid = true)
    (hfresh : ∀ sweep ∈ s.sweeps, sweep.operationId ≠ operationId)
    (hs' : s' = { s with
      sweeps := s.sweeps ++ [⟨operationId, fiatAmount, ⟨txid, none⟩, .created⟩]
      phase := .recording operationId }) : Moves C cfg seeker s s' e
  | returned (e : Event) (operationId : OperationId) (hkept : Kept s s')
    (hnoted : s'.lastSweeperWithdrawal = s.lastSweeperWithdrawal) (hfrom : s.phase = .subscribing operationId)
    (hsubscribed : s.subscribed operationId = true) (hphase : s'.phase = .clearing) : Moves C cfg seeker s s' e
  | cleared (e : Event) (hkept : Kept s s') (hnoted : s'.lastSweeperWithdrawal = none) (hfrom : s.phase = .clearing)
    (hphase : s'.phase = .waiting) : Moves C cfg seeker s s' e
  | crashed (hkept : Kept s s') (hnoted : s'.lastSweeperWithdrawal = s.lastSweeperWithdrawal)
    (hphase : s'.phase = .waiting) : Moves C cfg seeker s s' .crash

theorem beside_refl (s : System) : Beside s s := ⟨progressed_refl _, rfl, rfl⟩

theorem moves_refl (e : Event) : Moves C cfg seeker s s e := .quiet e rfl rfl (beside_refl s)

theorem withdrawal_not_unlocks {txid other : TransactionId} {amount : ℕ} :
    ¬ (StabilityPool.Event.input txid (withdrawalInput seeker amount)).Unlocks other := by
  rintro ⟨unlock, heq⟩
  simp [withdrawalInput] at heq

theorem settle_moves (i : ℕ) (refused : Bool) :
    Moves C cfg seeker s (s.settle C cfg seeker i refused) (.settle i refused) := by
  unfold System.settle
  split
  · exact moves_refl _
  next sweep hget =>
    split
    next hpending =>
      have hset (accepted : Bool) : Progressed s.sweeps
          (s.sweeps.set i { sweep with unlock := { sweep.unlock with accepted := some accepted } }) :=
        progressed_set hget ⟨rfl, rfl, rfl, id⟩
      cases refused with
      | true => exact .quiet _ rfl rfl ⟨hset false, rfl, rfl⟩
      | false =>
        rcases @serve_cases C cfg s (.input sweep.unlock.txid (unlockInput seeker sweep)) with
          ⟨ledger, happly, hserve⟩ | hserve
        · simp only [Bool.false_eq_true, if_false, hserve]
          exact .unlocked i sweep hget hpending happly rfl ⟨hset true, rfl, rfl⟩
        · simp only [Bool.false_eq_true, if_false, hserve]
          exact .quiet _ rfl rfl ⟨hset false, rfl, rfl⟩
    next accepted withdrawal amount hdone hstate =>
      split
      next hpending =>
        have hset (accepted : Bool) : Progressed s.sweeps (s.sweeps.set i
            { sweep with state := .processed { withdrawal with accepted := some accepted } amount }) :=
          progressed_set hget ⟨rfl, rfl, rfl, fun h => by rw [hstate] at h; exact h⟩
        cases refused with
        | true => exact .quiet _ rfl rfl ⟨hset false, rfl, rfl⟩
        | false =>
          rcases @serve_cases C cfg s (.input withdrawal.txid (withdrawalInput seeker amount)) with
            ⟨ledger, happly, hserve⟩ | hserve
          · simp only [Bool.false_eq_true, if_false, hserve]
            refine .served _ _ happly rfl ?_ ⟨hset true, rfl, rfl⟩
            exact fun other _ => withdrawal_not_unlocks
          · simp only [Bool.false_eq_true, if_false, hserve]
            exact .quiet _ rfl rfl ⟨hset false, rfl, rfl⟩
      · exact moves_refl _
    · exact moves_refl _

/-- A resolved withdrawal stays as it is. -/
theorem nextState_resolved {sweep : Sweep} {txid : TransactionId} {issued : Bool} (h : sweep.state.resolved = true) :
    s.nextState C seeker sweep txid issued = sweep.state := by
  unfold System.nextState
  cases hstate : sweep.state <;> rw [hstate] at h <;> first | rfl | cases h

theorem advance_moves (i : ℕ) (txid : TransactionId) (issued : Bool) :
    Moves C cfg seeker s (s.advance C seeker i txid issued) (.advance i txid issued) := by
  unfold System.advance
  split
  · exact moves_refl _
  next sweep hget =>
    refine .quiet _ rfl rfl ⟨progressed_set hget ⟨rfl, rfl, rfl, fun h => ?_⟩, rfl, rfl⟩
    dsimp only
    rw [nextState_resolved h]
    exact h

theorem federation_moves (event : StabilityPool.Event) :
    Moves C cfg seeker s (step C cfg seeker s (.federation event)) (.federation event) := by
  unfold step
  dsimp only
  split
  next hforeign =>
    rcases @serve_cases C cfg s event with ⟨ledger, happly, hserve⟩ | hserve
    · rw [hserve]
      refine .served _ event happly rfl ?_ ⟨progressed_refl _, rfl, rfl⟩
      rintro sweep hsweep ⟨unlock, rfl⟩
      have hnotin := List.all_eq_true.mp hforeign sweep hsweep
      exact of_decide_eq_true hnotin List.mem_cons_self
    · rw [hserve]
      exact moves_refl _
  · exact moves_refl _

theorem sweep_moves (operationId : OperationId) (txid : TransactionId) (fails : Bool) :
    Moves C cfg seeker s (s.sweep operationId txid fails) (.sweep operationId txid fails) := by
  unfold System.sweep
  split
  next hphase =>
    split
    next response hcached hunseen =>
      have hfrom : ∀ operationId, s.phase ≠ .recording operationId := fun _ h => by
        rw [hphase] at h
        cases h
      rcases sweepSpv2Inner_cases s response with hnext | ⟨noted, hnoted, hnext⟩ | ⟨fiatAmount, hnone, hsmall, hnext⟩
      · exact .idled _ ⟨rfl, rfl, rfl⟩ rfl hnext hfrom
      · exact .resumed _ noted ⟨rfl, rfl, rfl⟩ hnoted hnext (.inl ⟨hphase, hnoted⟩)
      · exact .began _ fiatAmount ⟨rfl, rfl, rfl⟩ hnone hnone hphase hnext hsmall
    · exact moves_refl _
  next fiatAmount hphase =>
    have hfrom : ∀ operationId, s.phase ≠ .recording operationId := fun _ h => by
      rw [hphase] at h
      cases h
    split
    · exact .idled _ ⟨rfl, rfl, rfl⟩ rfl rfl hfrom
    · rcases withdraw_cases s fiatAmount operationId txid with ⟨hunused, hfresh, heq⟩ | heq | heq
      · exact .submitted _ fiatAmount operationId txid hphase hunused hfresh heq
      · rw [heq]
        exact .idled _ ⟨rfl, rfl, rfl⟩ rfl rfl hfrom
      · rw [heq]
        exact moves_refl _
  next noted hphase => exact .resumed _ noted ⟨rfl, rfl, rfl⟩ rfl rfl (.inr hphase)
  next noted hphase =>
    split
    next hsubscribed => exact .returned _ noted ⟨rfl, rfl, rfl⟩ rfl hphase hsubscribed rfl
    · exact moves_refl _
  next hphase => exact .cleared _ ⟨rfl, rfl, rfl⟩ rfl hphase rfl

theorem step_moves (C : Crypto) (cfg : StabilityPoolConfigConsensus) (seeker : PublicKey) (s : System) (e : Event) :
    Moves C cfg seeker s (step C cfg seeker s e) e := by
  cases e with
  | federation event => exact federation_moves event
  | settle i refused => exact settle_moves i refused
  | advance i txid issued => exact advance_moves i txid issued
  | fetch =>
    unfold step System.fetch
    dsimp only
    split
    · exact .quiet _ rfl rfl ⟨progressed_refl _, rfl, rfl⟩
    · exact moves_refl _
  | publish =>
    unfold step System.publish
    dsimp only
    split
    · exact moves_refl _
    · exact .quiet _ rfl rfl ⟨progressed_refl _, rfl, rfl⟩
  | noteDeposit =>
    unfold step System.noteDeposit
    dsimp only
    split
    · exact moves_refl _
    · exact .quiet _ rfl rfl ⟨progressed_refl _, rfl, rfl⟩
  | sweep operationId txid fails => exact sweep_moves operationId txid fails
  | crash => exact .crashed ⟨rfl, rfl, rfl⟩ rfl rfl

/-! ## Bounds -/

theorem bounded_step {s' : System} {e : Event} (h : Bounded s.sweeps s.phase) (hmove : Moves C cfg seeker s s' e) :
    Bounded s'.sweeps s'.phase := by
  cases hmove with
  | quiet _ _ _ hbeside => exact hbeside.phase ▸ h.progressed hbeside.progressed
  | served _ _ _ _ _ hbeside => exact hbeside.phase ▸ h.progressed hbeside.progressed
  | unlocked _ _ _ _ _ _ hbeside => exact hbeside.phase ▸ h.progressed hbeside.progressed
  | idled _ hkept _ hphase _ =>
    rw [hkept.sweeps, hphase]
    exact h.phase fun _ heq => by cases heq
  | began _ fiatAmount hkept _ _ _ hphase hsmall =>
    rw [hkept.sweeps, hphase]
    refine ⟨h.sweeps, ?_⟩
    rintro _ ⟨⟩
    exact hsmall
  | resumed _ _ hkept _ hphase _ =>
    rw [hkept.sweeps, hphase]
    exact h.phase fun _ heq => by cases heq
  | submitted _ fiatAmount operationId txid hfrom _ _ hs' =>
    rw [hs']
    refine ⟨fun sweep hmem => ?_, fun _ heq => by cases heq⟩
    rcases List.mem_append.mp hmem with hmem | hmem
    · exact h.sweeps sweep hmem
    · rw [List.mem_singleton.mp hmem]
      exact h.withdrawing fiatAmount hfrom
  | returned _ _ hkept _ _ _ hphase =>
    rw [hkept.sweeps, hphase]
    exact h.phase fun _ heq => by cases heq
  | cleared _ hkept _ _ hphase =>
    rw [hkept.sweeps, hphase]
    exact h.phase fun _ heq => by cases heq
  | crashed hkept _ hphase =>
    rw [hkept.sweeps, hphase]
    exact h.phase fun _ heq => by cases heq

/-! ## Sweeps spare the locks -/

/-- Requests and releases belong to transactions that consensus took, and to none of the sweeps. -/
structure IdleAgree (db : Db) (transactions : List TransactionId) (sweeps : List Sweep) : Prop where
  requested : ∀ txid, db.RequestsUnlock txid → txid ∈ transactions
  released : ∀ txid, db.ReleasedLocked txid → txid ∈ transactions
  spared : ∀ sweep ∈ sweeps, db.SparesLocks sweep.unlock.txid

theorem IdleAgree.progressed {db : Db} {transactions : List TransactionId} {sweeps sweeps' : List Sweep}
    (h : IdleAgree db transactions sweeps) (hprogressed : Progressed sweeps sweeps') :
    IdleAgree db transactions sweeps' where
  requested := h.requested
  released := h.released
  spared := fun sweep' hmem => by
    obtain ⟨sweep, hsweep, hsame⟩ := hprogressed.mem hmem
    rw [hsame.txid]
    exact h.spared sweep hsweep

/-- A step of the ledger that registers only under transactions that are none of the sweeps'. -/
theorem IdleAgree.release {db db' : Db} {registers : TransactionId → Prop} {transactions added : List TransactionId}
    {sweeps : List Sweep} (h : IdleAgree db transactions sweeps) (hrelease : ReleaseStep db db' registers)
    (hadded : ∀ txid, registers txid → txid ∈ added)
    (hforeign : ∀ sweep ∈ sweeps, ¬ registers sweep.unlock.txid) :
    IdleAgree db' (added ++ transactions) sweeps where
  requested := fun txid hrequest => by
    rcases hrelease.requestsUnlock hrequest with hold | hnew
    · exact List.mem_append_right _ (h.requested txid hold)
    · exact List.mem_append_left _ (hadded txid hnew)
  released := fun txid hreleased => by
    rcases hrelease.releasedLocked hreleased with hold | hrequest
    · exact List.mem_append_right _ (h.released txid hold)
    · exact List.mem_append_right _ (h.requested txid hrequest)
  spared := fun sweep hsweep => hrelease.sparesLocks (h.spared sweep hsweep) (hforeign sweep hsweep)

theorem unlocks_txid {event : StabilityPool.Event} {txid : TransactionId} (h : event.Unlocks txid) :
    txid ∈ (eventTxid event).toList := by
  obtain ⟨unlock, rfl⟩ := h
  exact List.mem_singleton_self txid

/-- The unlock of a sweep, as consensus looks at it. -/
theorem unlock_input {txid : TransactionId} {sweep : Sweep} {st : Ledger} :
    applyEvent C cfg st (.input txid (unlockInput seeker sweep)) =
      (processUnlockInput C st.db txid ⟨ourAccount seeker, .fiat sweep.fiatAmount⟩ >>= fun r =>
        .ok { st with db := r.1, withdrawn := st.withdrawn + r.2.amount }) := rfl

/-- A covered sweep registers nothing. -/
theorem unlock_releaseStep {sweep : Sweep} {st st' : Ledger}
    (hcovered : st.db.StagedCovers .seek ((ourAccount seeker).id C) sweep.fiatAmount)
    (h : applyEvent C cfg st (.input sweep.unlock.txid (unlockInput seeker sweep)) = .ok st') :
    ReleaseStep st.db st'.db fun _ => False := by
  have hrelease := applyEvent_releaseStep h
  rw [unlock_input] at h
  obtain ⟨r, hr, hst'⟩ := bind_eq_ok.mp h
  cases hst'
  have hkept : r.1.unlockRequests = st.db.unlockRequests :=
    @processUnlockInput_covered C st.db _ ⟨ourAccount seeker, .fiat sweep.fiatAmount⟩ _ r rfl hcovered hr
  exact ⟨fun a req hget => .inl (hkept ▸ hget), hrelease.history⟩

theorem idleAgree_step {s' : System} {e : Event} (h : IdleAgree s.ledger.db s.transactions s.sweeps)
    (hcovered : Covered C seeker s e) (hmove : Moves C cfg seeker s s' e) :
    IdleAgree s'.ledger.db s'.transactions s'.sweeps := by
  have hkeeps {s' : System} (hkept : Kept s s') : IdleAgree s'.ledger.db s'.transactions s'.sweeps := by
    rw [hkept.ledger, hkept.transactions, hkept.sweeps]
    exact h
  cases hmove with
  | quiet _ hledger htransactions hbeside =>
    rw [hledger, htransactions]
    exact h.progressed hbeside.progressed
  | served _ event happly htransactions hforeign hbeside =>
    rw [htransactions]
    exact (h.release (applyEvent_releaseStep happly) (fun _ => unlocks_txid) hforeign).progressed hbeside.progressed
  | unlocked i sweep hget hpending happly htransactions hbeside =>
    rw [htransactions]
    have hrelease := unlock_releaseStep (hcovered sweep hget hpending) happly
    exact (@IdleAgree.release _ _ _ _ [sweep.unlock.txid] _ h hrelease (fun _ hfalse => hfalse.elim)
      fun _ _ => id).progressed hbeside.progressed
  | idled _ hkept => exact hkeeps hkept
  | began _ _ hkept => exact hkeeps hkept
  | resumed _ _ hkept => exact hkeeps hkept
  | submitted _ fiatAmount operationId txid _ hunused _ hs' =>
    rw [hs']
    refine ⟨h.requested, h.released, fun sweep hmem => ?_⟩
    rcases List.mem_append.mp hmem with hmem | hmem
    · exact h.spared sweep hmem
    · -- the transaction is new
      have hnew : txid ∉ s.transactions := by
        unfold System.unused at hunused
        exact of_decide_eq_true (Bool.and_eq_true _ _ ▸ hunused).1
      rw [List.mem_singleton.mp hmem]
      exact ⟨fun hrequest => hnew (h.requested txid hrequest), fun hreleased => hnew (h.released txid hreleased)⟩
  | returned _ _ hkept => exact hkeeps hkept
  | cleared _ hkept => exact hkeeps hkept
  | crashed hkept => exact hkeeps hkept

/-- Consensus takes the unlock of a sweep. -/
theorem settle_unlock {i : ℕ} {sweep : Sweep} {ledger : Ledger} (hget : s.sweeps[i]? = some sweep)
    (hpending : sweep.unlock.accepted = none)
    (happly : applyEvent C cfg s.ledger (.input sweep.unlock.txid (unlockInput seeker sweep)) = .ok ledger) :
    (s.settle C cfg seeker i false).ledger = ledger ∧
      ∃ sweep' ∈ (s.settle C cfg seeker i false).sweeps, sweep'.unlock.txid = sweep.unlock.txid := by
  unfold System.settle System.serve
  rw [hget]
  dsimp only
  split
  · simp only [Bool.false_eq_true, if_false, happly]
    have hset := @progressed_set s.sweeps i sweep
      { sweep with unlock := { sweep.unlock with accepted := some true } } hget ⟨rfl, rfl, rfl, id⟩
    obtain ⟨sweep', hmem, hsame⟩ := hset.mem_left (List.mem_of_getElem? hget)
    exact ⟨rfl, sweep', hmem, hsame.txid⟩
  next hdone _ =>
    rw [hpending] at hdone
    cases hdone
  next hdone _ =>
    rw [hpending] at hdone
    cases hdone

/-- A sweep that is not covered asks for locked balance. -/
theorem covered_of_idleOnly {e : Event} (h : Bounded s.sweeps s.phase) (hidle : IdleOnly (step C cfg seeker s e)) :
    Covered C seeker s e := by
  unfold Covered
  split
  next i =>
    intro sweep hget hpending
    by_contra huncovered
    have hsmall := h.sweeps sweep (List.mem_of_getElem? hget)
    obtain ⟨r, hr, hrequest⟩ := @processUnlockInput_uncovered C s.ledger.db sweep.unlock.txid
      ⟨ourAccount seeker, .fiat sweep.fiatAmount⟩ sweep.fiatAmount seeker rfl hsmall rfl huncovered
    have happly := @unlock_input C cfg seeker sweep.unlock.txid sweep s.ledger
    rw [hr, ok_bind] at happly
    obtain ⟨hledger, sweep', hmem, htxid⟩ := settle_unlock hget hpending happly
    have hspares := hidle sweep' hmem
    unfold step at hspares
    dsimp only at hspares
    rw [hledger, htxid] at hspares
    exact hspares.unrequested hrequest
  · trivial

/-! ## One sweep at a time -/

/-- An unresolved sweep is noted, or about to be. -/
structure Guarded (sweeps : List Sweep) (noted : Option OperationId) (phase : Phase) : Prop where
  distinct : (sweeps.map Sweep.operationId).Nodup
  unresolved : ∀ sweep ∈ sweeps, sweep.state.resolved = false →
    noted = some sweep.operationId ∨ phase = .recording sweep.operationId
  withdrawing : ∀ fiatAmount, phase = .withdrawing fiatAmount → noted = none
  recording : ∀ operationId, phase = .recording operationId → noted = none
  subscribing : ∀ operationId, phase = .subscribing operationId → noted = some operationId
  clearing : phase = .clearing → ∀ sweep ∈ sweeps, sweep.state.resolved = true

theorem Sweep.Same.unresolved {sweep' sweep : Sweep} (h : sweep'.Same sweep) (hopen : sweep'.state.resolved = false) :
    sweep.state.resolved = false := by
  cases hresolved : sweep.state.resolved with
  | false => rfl
  | true =>
    rw [h.resolved hresolved] at hopen
    cases hopen

theorem Guarded.progressed {sweeps sweeps' : List Sweep} {noted : Option OperationId} {phase : Phase}
    (h : Guarded sweeps noted phase) (hprogressed : Progressed sweeps sweeps') : Guarded sweeps' noted phase where
  distinct := hprogressed.operationIds ▸ h.distinct
  unresolved := fun sweep' hmem hopen => by
    obtain ⟨sweep, hsweep, hsame⟩ := hprogressed.mem hmem
    rw [hsame.operationId]
    exact h.unresolved sweep hsweep (hsame.unresolved hopen)
  withdrawing := h.withdrawing
  recording := h.recording
  subscribing := h.subscribing
  clearing := fun hphase sweep' hmem => by
    obtain ⟨sweep, hsweep, hsame⟩ := hprogressed.mem hmem
    exact hsame.resolved (h.clearing hphase sweep hsweep)

/-- The task may wait once every unresolved sweep is noted. -/
theorem guarded_waiting {sweeps : List Sweep} {noted : Option OperationId}
    (hdistinct : (sweeps.map Sweep.operationId).Nodup)
    (hnoted : ∀ sweep ∈ sweeps, sweep.state.resolved = false → noted = some sweep.operationId) :
    Guarded sweeps noted .waiting where
  distinct := hdistinct
  unresolved := fun sweep hmem hopen => .inl (hnoted sweep hmem hopen)
  withdrawing := fun _ h => by cases h
  recording := fun _ h => by cases h
  subscribing := fun _ h => by cases h
  clearing := fun h => by cases h

theorem subscribed_resolved {operationId : OperationId} (h : s.subscribed operationId = true) {sweep : Sweep}
    (hmem : sweep ∈ s.sweeps) (hid : sweep.operationId = operationId) : sweep.state.resolved = true :=
  of_decide_eq_true (List.all_eq_true.mp h sweep hmem) hid

theorem guarded_step {s' : System} {e : Event} (h : Guarded s.sweeps s.lastSweeperWithdrawal s.phase)
    (hrecorded : Recorded s e) (hmove : Moves C cfg seeker s s' e) :
    Guarded s'.sweeps s'.lastSweeperWithdrawal s'.phase := by
  have hbesides {s' : System} (hbeside : Beside s s') : Guarded s'.sweeps s'.lastSweeperWithdrawal s'.phase := by
    rw [hbeside.noted, hbeside.phase]
    exact h.progressed hbeside.progressed
  cases hmove with
  | quiet _ _ _ hbeside => exact hbesides hbeside
  | served _ _ _ _ _ hbeside => exact hbesides hbeside
  | unlocked _ _ _ _ _ _ hbeside => exact hbesides hbeside
  | idled _ hkept hnoted hphase hfrom =>
    rw [hkept.sweeps, hnoted, hphase]
    exact guarded_waiting h.distinct fun sweep hmem hopen =>
      (h.unresolved sweep hmem hopen).resolve_right (hfrom sweep.operationId)
  | began _ fiatAmount hkept hnone hnoted hfrom hphase _ =>
    rw [hkept.sweeps, hnoted, hphase]
    refine ⟨h.distinct, fun sweep hmem hopen => ?_, fun _ _ => rfl, fun _ heq => (by cases heq),
      fun _ heq => (by cases heq), fun heq => (by cases heq)⟩
    rcases h.unresolved sweep hmem hopen with hsome | hrecording
    · rw [hnone] at hsome
      cases hsome
    · rw [hfrom] at hrecording
      cases hrecording
  | resumed _ operationId hkept hnoted hphase hfrom =>
    rw [hkept.sweeps, hnoted, hphase]
    refine ⟨h.distinct, fun sweep hmem hopen => .inl ?_, fun _ heq => (by cases heq), fun _ heq => (by cases heq),
      ?_, fun heq => (by cases heq)⟩
    · rcases hfrom with ⟨hwaiting, hsome⟩ | hrecording
      · rcases h.unresolved sweep hmem hopen with hold | hold
        · rw [← hsome, hold]
        · rw [hwaiting] at hold
          cases hold
      · rcases h.unresolved sweep hmem hopen with hold | hold
        · rw [h.recording operationId hrecording] at hold
          cases hold
        · rw [hrecording] at hold
          cases hold
          rfl
    · rintro _ ⟨⟩
      rfl
  | submitted _ fiatAmount operationId txid hfrom _ hfresh hs' =>
    rw [hs']
    have hnone := h.withdrawing fiatAmount hfrom
    refine ⟨?_, fun sweep hmem hopen => ?_, fun _ heq => (by cases heq), fun _ _ => hnone,
      fun _ heq => (by cases heq), fun heq => (by cases heq)⟩
    · dsimp only
      rw [List.map_append, List.map_singleton, List.nodup_append]
      refine ⟨h.distinct, List.nodup_singleton _, ?_⟩
      rintro _ hid _ hnew rfl
      obtain ⟨sweep, hsweep, rfl⟩ := List.mem_map.mp hid
      exact hfresh sweep hsweep (List.mem_singleton.mp hnew)
    · rcases List.mem_append.mp hmem with hmem | hmem
      · -- nothing else is unresolved
        rcases h.unresolved sweep hmem hopen with hold | hold
        · rw [hnone] at hold
          cases hold
        · rw [hfrom] at hold
          cases hold
      · rw [List.mem_singleton.mp hmem]
        exact .inr rfl
  | returned _ operationId hkept hnoted hfrom hsubscribed hphase =>
    rw [hkept.sweeps, hnoted, hphase]
    have hnotedId := h.subscribing operationId hfrom
    have hresolved : ∀ sweep ∈ s.sweeps, sweep.state.resolved = true := by
      intro sweep hmem
      by_contra hopen
      rw [Bool.not_eq_true] at hopen
      rcases h.unresolved sweep hmem hopen with hold | hold
      · rw [hnotedId] at hold
        cases hold
        rw [subscribed_resolved hsubscribed hmem rfl] at hopen
        cases hopen
      · rw [hfrom] at hold
        cases hold
    refine ⟨h.distinct, fun sweep hmem hopen => ?_, fun _ heq => (by cases heq), fun _ heq => (by cases heq),
      fun _ heq => (by cases heq), fun _ => hresolved⟩
    rw [hresolved sweep hmem] at hopen
    cases hopen
  | cleared _ hkept hnoted hfrom hphase =>
    rw [hkept.sweeps, hnoted, hphase]
    refine guarded_waiting h.distinct fun sweep hmem hopen => ?_
    rw [h.clearing hfrom sweep hmem] at hopen
    cases hopen
  | crashed hkept hnoted hphase =>
    rw [hkept.sweeps, hnoted, hphase]
    refine guarded_waiting h.distinct fun sweep hmem hopen => ?_
    refine (h.unresolved sweep hmem hopen).resolve_right fun hrecording => ?_
    rw [subscribed_resolved (hrecorded sweep.operationId hrecording) hmem rfl] at hopen
    cases hopen

theorem Guarded.oneAtATime (h : Guarded s.sweeps s.lastSweeperWithdrawal s.phase) : OneAtATime s := by
  intro i j first second hfirst hsecond hopen hopen'
  have hid : first.operationId = second.operationId := by
    rcases h.unresolved first (List.mem_of_getElem? hfirst) hopen with hnoted | hrecording
    · rcases h.unresolved second (List.mem_of_getElem? hsecond) hopen' with hnoted' | hrecording'
      · exact Option.some.inj (hnoted.symm.trans hnoted')
      · rw [h.recording _ hrecording'] at hnoted
        cases hnoted
    · rcases h.unresolved second (List.mem_of_getElem? hsecond) hopen' with hnoted' | hrecording'
      · rw [h.recording _ hrecording] at hnoted'
        cases hnoted'
      · exact Phase.recording.inj (hrecording.symm.trans hrecording')
  obtain ⟨hi, -⟩ := List.getElem?_eq_some_iff.mp hfirst
  refine (List.getElem?_inj (by rwa [List.length_map]) h.distinct).mp ?_
  rw [List.getElem?_map, List.getElem?_map, hfirst, hsecond, Option.map_some, Option.map_some, hid]

/-! ## Runs -/

theorem bounded_of_run (es : List Event) (n : ℕ) :
    Bounded (sweeper C cfg seeker (es.take n)).sweeps (sweeper C cfg seeker (es.take n)).phase :=
  moments_induction (P := fun s => Bounded s.sweeps s.phase) (Q := fun _ _ => True)
    ⟨fun _ h => (by cases h), fun _ h => (by cases h)⟩
    (fun s e h _ => bounded_step h (step_moves C cfg seeker s e)) (fun _ _ _ => trivial) n

theorem idleAgree_initial : IdleAgree System.initial.ledger.db System.initial.transactions System.initial.sweeps where
  requested := by
    rintro txid ⟨a, req, hget, -⟩
    cases hget
  released := by
    rintro txid ⟨a, item, ⟨i, hget⟩, -⟩
    cases hget
  spared := fun _ h => by cases h

theorem guarded_initial :
    Guarded System.initial.sweeps System.initial.lastSweeperWithdrawal System.initial.phase :=
  guarded_waiting List.nodup_nil fun _ h => by cases h

/-- The sweeps of a run never ask for locked balance exactly when each is covered as consensus takes it; and one at
most is unresolved at any moment when none is submitted without being noted. -/
theorem sweeps_of_run (C : Crypto) (cfg : StabilityPoolConfigConsensus) (seeker : PublicKey) (es : List Event) :
    ((∀ n, IdleOnly (sweeper C cfg seeker (es.take n))) ↔
      ∀ n e, es[n]? = some e → Covered C seeker (sweeper C cfg seeker (es.take n)) e) ∧
    ((∀ n e, es[n]? = some e → Recorded (sweeper C cfg seeker (es.take n)) e) →
      ∀ n, OneAtATime (sweeper C cfg seeker (es.take n))) := by
  refine ⟨⟨fun hidle n e he => ?_, fun hcovered n => ?_⟩, fun hrecorded n => ?_⟩
  · have hnext := hidle (n + 1)
    unfold sweeper at hnext
    rw [foldl_take_succ he] at hnext
    exact covered_of_idleOnly (bounded_of_run es n) hnext
  · have hagree := moments_induction (P := fun s => IdleAgree s.ledger.db s.transactions s.sweeps)
      idleAgree_initial (fun s e h hq => idleAgree_step h hq (step_moves C cfg seeker s e)) hcovered n
    exact hagree.spared
  · have hguarded := moments_induction (P := fun s => Guarded s.sweeps s.lastSweeperWithdrawal s.phase)
      guarded_initial (fun s e h hq => guarded_step h hq (step_moves C cfg seeker s e)) hrecorded n
    exact hguarded.oneAtATime

end

/-- What the federation does by itself. -/
def demoFederation (events : List StabilityPool.Event) : List Event := events.map .federation

/-- The process stops between the submission of a sweep and the note of its operation id, and sweeps again. -/
def stoppedBeforeNote : List Event :=
  demoFederation (demoVotes 0 1000 10000000) ++ [.fetch, .publish, .noteDeposit] ++
    demoFederation (.output 1 (.v0 (.depositToSeek ⟨demoSeeker.id demoCrypto, 100000⟩)) ::
      (demoVotes 1 2000 10000000 ++ demoVotes 2 3000 10000000 ++ demoVotes 3 4000 10000000)) ++
    [.fetch, .publish, .sweep 0 0 false, .sweep 1 2 false, .crash, .sweep 0 0 false, .sweep 2 3 false]

/-- Two sweeps are unresolved. -/
theorem stoppedBeforeNote_sweepsTwice :
    ¬ ∀ (es : List Event) (n : ℕ), IdleOnly (sweeper demoCrypto demoConfig 7 (es.take n)) ∧
      OneAtATime (sweeper demoCrypto demoConfig 7 (es.take n)) := by
  intro h
  have hone := (h stoppedBeforeNote stoppedBeforeNote.length).2
  rw [List.take_length] at hone
  have hopen : (sweeper demoCrypto demoConfig 7 stoppedBeforeNote).sweeps.map (·.state.resolved) = [false, false] := by
    decide +kernel
  obtain ⟨first, rest, hsweeps, hfirst, hrest⟩ := List.map_eq_cons_iff.mp hopen
  obtain ⟨second, rest, rfl, hsecond, -⟩ := List.map_eq_cons_iff.mp hrest
  have hsame := hone 0 1 first second (by rw [hsweeps]; rfl) (by rw [hsweeps]; rfl) hfirst hsecond
  cases hsame

end Spv2Sweeper
