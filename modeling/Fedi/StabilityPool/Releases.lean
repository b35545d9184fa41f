import Fedi.StabilityPool.SettledLocks
import Fedi.StabilityPool.StagedLedger

/-!
# Who releases locked balance

An unlock request is registered by an unlock input only, under the input's transaction, and
only a turnover moves locked deposits to the idle balance, under the transaction of a request
(`applyEvent_sparesLocks`).

An unlock of a fiat amount registers a request exactly when it is accepted and what is staged
does not cover it at the price of the current cycle (`StagedCovers`).
-/

namespace StabilityPool

open BTreeMaps KeyedLogs Runs

/-! ## Requests and removals of a transaction -/

/-- An unlock request of the transaction is registered. -/
def Db.RequestsUnlock (db : Db) (txid : TransactionId) : Prop :=
  ∃ a req, db.unlockRequests.get? a = some req ∧ req.txid = txid

/-- Locked deposits were moved to the idle balance under the transaction. -/
def Db.ReleasedLocked (db : Db) (txid : TransactionId) : Prop :=
  ∃ a item, Row db.accountHistory a item ∧ item.kind = .lockedToIdle ∧ item.txid = txid

/-- The transaction neither holds an unlock request nor removed locked balance. -/
structure Db.SparesLocks (db : Db) (txid : TransactionId) : Prop where
  unrequested : ¬ db.RequestsUnlock txid
  unreleased : ¬ db.ReleasedLocked txid

/-- An unlock input of the transaction. -/
def Event.Unlocks (e : Event) (txid : TransactionId) : Prop :=
  ∃ unlock, e = .input txid (.v0 (.unlockForWithdrawal unlock))

/-- What one event adds to the requests and to the rows of released locks. -/
structure ReleaseStep (db db' : Db) (registers : TransactionId → Prop) : Prop where
  requests : ∀ a req, db'.unlockRequests.get? a = some req →
    db.unlockRequests.get? a = some req ∨ registers req.txid
  history : ∃ log, db'.accountHistory = postAll db.accountHistory log ∧
    ∀ p ∈ log, p.2.kind = .lockedToIdle → db.RequestsUnlock p.2.txid

section

variable {db db' : Db} {registers : TransactionId → Prop} {txid : TransactionId}

theorem ReleaseStep.requestsUnlock (h : ReleaseStep db db' registers) (hrequest : db'.RequestsUnlock txid) :
    db.RequestsUnlock txid ∨ registers txid := by
  obtain ⟨a, req, hget, rfl⟩ := hrequest
  exact (h.requests a req hget).imp_left fun hold => ⟨a, req, hold, rfl⟩

theorem ReleaseStep.releasedLocked (h : ReleaseStep db db' registers) (hreleased : db'.ReleasedLocked txid) :
    db.ReleasedLocked txid ∨ db.RequestsUnlock txid := by
  obtain ⟨a, item, hrow, hkind, rfl⟩ := hreleased
  obtain ⟨log, hlog, hposted⟩ := h.history
  rw [hlog] at hrow
  rcases row_postAll hrow with hrow | hmem
  · exact .inl ⟨a, item, hrow, hkind, rfl⟩
  · exact .inr (hposted _ hmem hkind)

theorem ReleaseStep.sparesLocks (h : ReleaseStep db db' registers) (hspares : db.SparesLocks txid)
    (hother : ¬ registers txid) : db'.SparesLocks txid where
  unrequested := fun hrequest => (h.requestsUnlock hrequest).elim hspares.unrequested hother
  unreleased := fun hreleased => (h.releasedLocked hreleased).elim hspares.unreleased hspares.unrequested

/-- A step that leaves both tables as they are. -/
theorem releaseStep_of_eq (hrequests : db'.unlockRequests = db.unlockRequests)
    (hhistory : db'.accountHistory = db.accountHistory) : ReleaseStep db db' registers where
  requests := fun a req hget => .inl (hrequests ▸ hget)
  history := ⟨[], hhistory, fun _ hp => (by cases hp)⟩

end

/-! ## What each event does -/

section

variable {C : Crypto} {cfg : StabilityPoolConfigConsensus} {db db' : Db} {txid : TransactionId}

theorem processUnlockInput_releaseStep {input : UnlockForWithdrawalInput} {r : Db × InputMeta}
    (h : processUnlockInput C db txid input = .ok r) : ReleaseStep db r.1 (· = txid) := by
  obtain ⟨cycle, kept, drained, hmove, -, hrequested, -⟩ := processUnlockInput_ok h
  constructor
  · intro a req hget
    generalize r.1.unlockRequests = reqs at hrequested hget
    cases hrequested with
    | settled => exact .inl hget
    | pending req' htxid hlocked =>
      rw [BTreeMap.get?_insert] at hget
      split_ifs at hget with ha
      · cases hget
        exact .inr htxid
      · exact .inl hget
  · refine ⟨_, hmove.history, fun p hp hkind => ?_⟩
    simp only [List.mem_map] at hp
    obtain ⟨_, ⟨d, -, rfl⟩, rfl⟩ := hp
    cases hkind

theorem stageDeposit_releaseStep {s : Side} {cycle : Cycle} {a : AccountId} {amount : ℕ} {metadata : s.Meta}
    {kind : AccountHistoryItemKind} (hkind : kind ≠ .lockedToIdle) {registers : TransactionId → Prop} :
    ReleaseStep db (stageDeposit s db cycle txid a amount metadata kind) registers := by
  rw [stageDeposit_eq]
  constructor
  · intro a' req hget
    refine .inl ?_
    simpa using hget
  · refine ⟨_, rfl, fun p hp hreleases => ?_⟩
    rw [List.mem_singleton.mp hp] at hreleases
    exact absurd hreleases hkind

theorem TransferStep.releaseStep {signed : SignedTransferRequest} {s : Side} {cycle : Cycle} {metadata : s.Meta}
    {staged locked : TransferParts s.Meta} (h : TransferStep C db txid signed s cycle metadata staged locked db')
    {registers : TransactionId → Prop} : ReleaseStep db db' registers where
  requests := fun a req hget => .inl (h.requests ▸ hget)
  history := by
    refine ⟨_, h.move.history, fun p hp hkind => ?_⟩
    simp only [transferLog, transferOuts, transferIns, List.map_append, List.map_map, List.mem_append,
      List.mem_map] at hp
    rcases hp with (⟨d, -, rfl⟩ | ⟨d, -, rfl⟩) | (⟨d, -, rfl⟩ | ⟨d, -, rfl⟩) <;> cases hkind

theorem DepositAllowed.kind_ne {s : Side} {a : AccountId} {metadata : s.Meta} {kind : AccountHistoryItemKind}
    (h : DepositAllowed cfg s a metadata kind) : kind ≠ .lockedToIdle := by
  cases h <;> exact fun hkind => by cases hkind

theorem lockPosting_kind {M : Type} {info : CycleInfo}
    {e : (AccountId ×ₗ ℕ) × (Option (Deposit M) × Option (Deposit M))} {p : Posting}
    (h : lockPosting info e = some p) : p.2.kind ≠ .lockedToIdle := by
  unfold lockPosting at h
  split_ifs at h <;> cases h <;> exact fun hkind => by cases hkind

/-- A turnover releases under the transactions of the requests, and leaves none that is new. -/
theorem TurnoverStep.releaseStep {ratio : CollateralRatio} {info : CycleInfo} {middle : Db} {remaining : Locks}
    {log : List Posting} {seeks charged : List AccountSeek} {provides : List AccountProvide} {feeRate feePool : ℕ}
    (h : TurnoverStep ratio db info db' middle remaining log seeks charged provides feeRate feePool)
    {registers : TransactionId → Prop} : ReleaseStep db db' registers where
  requests := by
    intro a req hget
    have hmiddle : db'.unlockRequests = middle.unlockRequests := by
      have heq := congrArg Db.unlockRequests h.written.db_eq
      exact heq
    rw [hmiddle, h.settled.requests] at hget
    split_ifs at hget with hcycle
    exact .inl hget
  history := by
    refine ⟨_, h.history, fun p hp hkind => ?_⟩
    unfold turnoverLog at hp
    rcases List.mem_append.mp hp with hp | hp
    · obtain ⟨-, -, -, req, hreq, htxid⟩ := h.settled.log_mem p hp
      exact ⟨p.1, req, hreq, htxid.symm⟩
    · rcases List.mem_append.mp hp with hp | hp
      · obtain ⟨o, n, -, -, hposting⟩ := mem_lockLog hp
        exact absurd hkind (lockPosting_kind hposting)
      · obtain ⟨o, n, -, -, hposting⟩ := mem_lockLog hp
        exact absurd hkind (lockPosting_kind hposting)

theorem processInput_releaseStep {i : StabilityPoolInput} {r : Db × InputMeta}
    (h : processInput C db txid i = .ok r) : ReleaseStep db r.1 (Event.input txid i).Unlocks := by
  rcases processInput_ok h with ⟨u, rfl, hu⟩ | ⟨w, -, hw⟩
  · obtain ⟨hrequests, hhistory⟩ := processUnlockInput_releaseStep hu
    exact ⟨fun a req hget => (hrequests a req hget).imp_right fun htxid => ⟨u, by rw [htxid]⟩, hhistory⟩
  · obtain ⟨-, -, hr⟩ := processWithdrawalInput_ok hw
    rw [hr]
    exact releaseStep_of_eq rfl rfl

theorem processOutput_releaseStep {o : StabilityPoolOutput} {r : OutputResult}
    (h : processOutput C cfg db txid o = .ok r) {registers : TransactionId → Prop} :
    ReleaseStep db r.1 registers := by
  rcases processOutput_ok h with ⟨s, cycle, a, metadata, kind, -, hallowed, -, hr⟩ | ⟨t, -, -, ht⟩
  · rw [hr]
    exact stageDeposit_releaseStep hallowed.kind_ne
  · obtain ⟨-, -, cycle, s, metadata, staged, locked, -, -, -, hstep⟩ := processTransferOutput_ok ht
    exact hstep.releaseStep

theorem processConsensusItem_releaseStep {item : StabilityPoolConsensusItem} {peerId : PeerId}
    (h : processConsensusItem cfg db item peerId = .ok db') {registers : TransactionId → Prop} :
    ReleaseStep db db' registers := by
  cases processConsensusItem_ok h with
  | version version => exact releaseStep_of_eq rfl rfl
  | vote vote => exact releaseStep_of_eq rfl rfl
  | turnover vote _ info _ hnext hfirst hmany hinfo hturn =>
    obtain ⟨_, _, _, _, _, _, _, _, hstep⟩ := turnover_ok hturn
    have hrelease : ReleaseStep (recordVote db peerId vote) db' registers := hstep.releaseStep
    exact ⟨hrelease.requests, hrelease.history⟩

theorem applyEvent_releaseStep {st st' : Ledger} {e : Event} (h : applyEvent C cfg st e = .ok st') :
    ReleaseStep st.db st'.db e.Unlocks := by
  cases e with
  | consensusItem peerId item =>
    simp only [applyEvent, bind_eq_ok, pure_eq_ok] at h
    obtain ⟨db', h1, rfl⟩ := h
    exact processConsensusItem_releaseStep h1
  | input txid i =>
    simp only [applyEvent, bind_eq_ok, pure_eq_ok] at h
    obtain ⟨r, h1, rfl⟩ := h
    exact processInput_releaseStep h1
  | output txid o =>
    simp only [applyEvent, bind_eq_ok, pure_eq_ok] at h
    obtain ⟨r, h1, rfl⟩ := h
    exact processOutput_releaseStep h1

/-- A transaction spares the locks as long as none of its own inputs unlocks. -/
theorem applyEvent_sparesLocks {st st' : Ledger} {e : Event} (h : applyEvent C cfg st e = .ok st')
    (hspares : st.db.SparesLocks txid) (hother : ¬ e.Unlocks txid) : st'.db.SparesLocks txid :=
  (applyEvent_releaseStep h).sparesLocks hspares hother

end

/-! ## An unlock of a fiat amount -/

/-- Where the unlock is looked at, what is staged covers it, or both balances together do not. -/
def Db.StagedCovers (db : Db) (s : Side) (a : AccountId) (fiat : ℕ) : Prop :=
  db.unlockRequests.get? a = none → ∀ cycle msats, db.currentCycle = some cycle →
    FiatAmount.toBtcAmount fiat cycle.startPrice = .ok msats →
    msats ≤ amountSum ((db.staged s).getD a []) ∨
      amountSum ((db.staged s).getD a []) + amountSum ((cycle.locked s).getD a []) < msats

section

variable {s : Side} {db : Db} {txid : TransactionId} {a : AccountId} {fiat lockedSum price : ℕ}

theorem subP_ok {a b c : ℕ} (h : subP a b = .ok c) : c = a - b := by
  unfold subP at h
  split_ifs at h
  cases h
  rfl

theorem subP_of_le {a b : ℕ} (h : b ≤ a) : subP a b = .ok (a - b) := if_neg (not_lt.mpr h)

/-- A covered unlock leaves the requests as they are. -/
theorem unlockFiat_requests {r : Db × List (Deposit s.Meta)}
    (hcovers : ∀ msats, FiatAmount.toBtcAmount fiat price = .ok msats →
      msats ≤ amountSum ((db.staged s).getD a []) ∨ amountSum ((db.staged s).getD a []) + lockedSum < msats)
    (h : unlockFiat s db txid a fiat lockedSum price = .ok r) : r.1.unlockRequests = db.unlockRequests := by
  simp only [unlockFiat, bind_eq_ok, mapErr_eq_ok] at h
  obtain ⟨amount, hamount, h⟩ := h
  have hle := hcovers amount hamount
  have hsum := amountSum_drainInReverse ((db.staged s).getD a []) amount
  split_ifs at h with hlow hstaged
  · obtain ⟨needed, hneeded, h⟩ := bind_eq_ok.mp h
    have hzero : needed = 0 := by
      have heq := subP_ok hneeded
      rw [List.isEmpty_iff.mp hstaged] at hle hlow
      simp only [amountSum_nil] at hle hlow
      omega
    rw [if_neg (not_not.mpr hzero), pure_eq_ok] at h
    rw [← h]
  · obtain ⟨needed, hneeded, h⟩ := bind_eq_ok.mp h
    have hzero : needed = 0 := by
      have heq := subP_ok hneeded
      omega
    rw [if_neg (not_not.mpr hzero), pure_eq_ok] at h
    rw [← h, setStaged_unlockRequests]

/-- The leftover of an amount that converts is a fiat amount. -/
theorem fromBtcAmount_of_le {msats needed : ℕ} (hfiat : fiat < 2 ^ 64)
    (hmsats : FiatAmount.toBtcAmount fiat price = .ok msats) (hle : needed ≤ msats) :
    ∃ leftover, FiatAmount.fromBtcAmount needed price = .ok leftover := by
  obtain ⟨quotient, hdiv, hquotient⟩ := bind_eq_ok.mp hmsats
  unfold divP at hdiv
  split_ifs at hdiv with hprice
  cases hdiv
  have heq : msats = fiat * MSATS_PER_BTC / price := (FiatAmount.tryIntoU64_ok_iff.mp hquotient).1
  have hback : price * needed ≤ fiat * MSATS_PER_BTC := calc
    price * needed ≤ price * (fiat * MSATS_PER_BTC / price) := Nat.mul_le_mul_left _ (heq ▸ hle)
    _ ≤ fiat * MSATS_PER_BTC := Nat.mul_div_le _ _
  have hsmall : price * needed / MSATS_PER_BTC ≤ fiat := by
    refine Nat.div_le_of_le_mul ?_
    rwa [Nat.mul_comm MSATS_PER_BTC]
  exact (FiatAmount.tryIntoU64_succeeds_iff _).mpr (lt_of_le_of_lt hsmall hfiat)

/-- An unlock that needs locked balance registers a request for the rest. -/
theorem unlockFiat_registers {msats : ℕ} (hfiat : fiat < 2 ^ 64)
    (hmsats : FiatAmount.toBtcAmount fiat price = .ok msats) (hlow : amountSum ((db.staged s).getD a []) < msats)
    (htotal : msats ≤ amountSum ((db.staged s).getD a []) + lockedSum) :
    ∃ r req, unlockFiat s db txid a fiat lockedSum price = .ok r ∧ req.txid = txid ∧
      r.1.unlockRequests = db.unlockRequests.insert a req := by
  have hsum := amountSum_drainInReverse ((db.staged s).getD a []) msats
  unfold unlockFiat
  dsimp only
  rw [mapErr_eq_ok.mpr hmsats, ok_bind, if_neg (not_lt.mpr htotal)]
  by_cases hstaged : ((db.staged s).getD a []).isEmpty
  · rw [List.isEmpty_iff.mp hstaged] at hlow ⊢
    simp only [amountSum_nil] at hlow
    obtain ⟨leftover, hleftover⟩ := fromBtcAmount_of_le hfiat hmsats le_rfl
    simp only [List.isEmpty_nil, if_true, amountSum_nil]
    rw [subP_of_le (Nat.zero_le _), ok_bind, Nat.sub_zero, if_pos (Nat.ne_of_gt hlow), mapErr_eq_ok.mpr hleftover]
    exact ⟨_, ⟨txid, fiat, .fiat leftover⟩, rfl, rfl, rfl⟩
  · have hdrained : amountSum (drainInReverse ((db.staged s).getD a []) msats).2 ≤ msats := by omega
    obtain ⟨leftover, hleftover⟩ := fromBtcAmount_of_le hfiat hmsats
      (Nat.sub_le msats (amountSum (drainInReverse ((db.staged s).getD a []) msats).2))
    simp only [if_neg hstaged]
    rw [subP_of_le hdrained, ok_bind, if_pos (by omega), mapErr_eq_ok.mpr hleftover]
    refine ⟨_, ⟨txid, fiat, .fiat leftover⟩, rfl, rfl, ?_⟩
    dsimp only
    rw [setStaged_unlockRequests]

end

section

variable {C : Crypto} {db : Db} {txid : TransactionId} {input : UnlockForWithdrawalInput} {fiat : ℕ}

/-- A covered unlock registers nothing. -/
theorem processUnlockInput_covered {r : Db × InputMeta} (hfiat : input.amount = .fiat fiat)
    (hcovers : db.StagedCovers input.account.accType.side (input.account.id C) fiat)
    (h : processUnlockInput C db txid input = .ok r) : r.1.unlockRequests = db.unlockRequests := by
  unfold processUnlockInput at h
  cases hc : db.currentCycle with
  | none =>
    rw [hc] at h
    cases h
  | some cycle =>
    rw [hc] at h
    simp only [processUnlockInputInner, hfiat] at h
    split_ifs at h with hrequest
    obtain ⟨u, hu, h⟩ := bind_eq_ok.mp h
    obtain ⟨key, -, h⟩ := bind_eq_ok.mp h
    rw [pure_eq_ok] at h
    have hkept := unlockFiat_requests (hcovers (by simpa using hrequest) cycle · hc) hu
    obtain ⟨idle, hcredit, -⟩ := creditIdleBalance_of_ne u.1 (input.account.id C) (amountSum u.2)
    rw [hcredit, addAccountHistoryItems_eq] at h
    rw [← h, ← hkept]

/-- An unlock that is not covered registers a request. -/
theorem processUnlockInput_uncovered {key : PublicKey} (hamount : input.amount = .fiat fiat) (hfiat : fiat < 2 ^ 64)
    (hsingle : input.account.asSingle = some key)
    (huncovered : ¬ db.StagedCovers input.account.accType.side (input.account.id C) fiat) :
    ∃ r, processUnlockInput C db txid input = .ok r ∧ r.1.RequestsUnlock txid := by
  simp only [Db.StagedCovers, not_forall, not_or, not_le, not_lt] at huncovered
  obtain ⟨hrequest, cycle, msats, hc, hmsats, hlow, htotal⟩ := huncovered
  obtain ⟨u, req, hu, htxid, hinsert⟩ := @unlockFiat_registers _ db txid _ fiat _ _ msats hfiat hmsats hlow htotal
  obtain ⟨idle, hcredit, -⟩ := creditIdleBalance_of_ne u.1 (input.account.id C) (amountSum u.2)
  unfold processUnlockInput
  rw [hc]
  dsimp only
  unfold processUnlockInputInner
  dsimp only
  rw [hrequest, hamount]
  simp only [Option.isSome_none, Bool.false_eq_true, if_false, unlockStaged]
  rw [hu, ok_bind, hcredit, addAccountHistoryItems_eq]
  unfold singleKey
  rw [hsingle]
  refine ⟨_, rfl, input.account.id C, req, ?_, htxid⟩
  dsimp only
  rw [hinsert, BTreeMap.get?_insert_self]

end

end StabilityPool
