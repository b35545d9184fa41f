import Fedi.StabilityPool.History

/-!
# What an input or an output does to the database

Every successful deposit, unlock and transfer is one `AccountMove`: deposits
leave a sender's staged and locked lists, new ones are appended to a recipient's,
the sender's idle balance is credited, and a list of postings goes to the
history.

    processInput C db txid i = .ok r → InputStep C db txid i r        (processInput_ok)
    processOutput C cfg db txid o = .ok r → OutputStep C cfg db txid o r (processOutput_ok)

Everything later about inputs and outputs is derived from these.
-/

namespace StabilityPool

open BTreeMaps KeyedLogs Runs

/-! ## Account moves -/

/-- The effect of a deposit, an unlock or a transfer on the database. -/
structure AccountMove (db db' : Db) (txid : TransactionId) (cycle : Cycle) (s : Side)
    (sender recipient : AccountId) (keptStaged drainedStaged newStaged keptLocked drainedLocked
      newLocked : List (Deposit s.Meta)) (credit : ℕ) (log : List Posting) : Prop where
  current : db.currentCycle = some cycle
  locked : ∃ t, db'.currentCycle = some (cycle.setLocked s t) ∧
    Moved (cycle.locked s) t sender recipient keptLocked drainedLocked newLocked
  staged : Moved (db.staged s) (db'.staged s) sender recipient keptStaged drainedStaged newStaged
  staged_side : ∀ s', s' ≠ s → db'.staged s' = db.staged s'
  idle : ∀ a, db'.idleBalance.getD a 0 = db.idleBalance.getD a 0 + if a = sender then credit else 0
  history : db'.accountHistory = postAll db.accountHistory log
  debit : ∀ w, postedWeight AccountHistoryItemKind.stagedDebit w log = weigh (w sender) drainedStaged
  posted : ∀ w, postedWeight AccountHistoryItemKind.stagedCredit w log = weigh (w recipient) newStaged
  fresh : ∀ d ∈ newStaged ++ newLocked, d.txid = txid ∧ d.sequence = db.depositSequence.getD 0
  newStaged_length : newStaged.length ≤ 1
  newLocked_length : newLocked.length ≤ 1
  counter : newStaged ++ newLocked = [] ∧ db'.depositSequence.getD 0 = db.depositSequence.getD 0 ∨
    db'.depositSequence.getD 0 = db.depositSequence.getD 0 + 1
  pastCycle : db'.pastCycle = db.pastCycle
  seekLifetimeFee : db'.seekLifetimeFee = db.seekLifetimeFee
  votes : db'.cycleChangeVote = db.cycleChangeVote
  versions : db'.consensusVersionVote = db.consensusVersionVote

theorem setStaged_self (db : Db) (s : Side) : db.setStaged s (db.staged s) = db := by
  cases s <;> rfl

theorem setLocked_self (c : Cycle) (s : Side) : c.setLocked s (c.locked s) = c := by
  cases s <;> rfl

theorem locked_of_current {db : Db} {c : Cycle} (h : db.currentCycle = some c) (s : Side) :
    db.locked s = c.locked s := by rw [Db.locked, h]

/-- A rewritten own list is a move without incoming deposits. -/
theorem moved_insert_self {M : Type} {t : DepositTable M} {a : AccountId}
    {kept drained : List (Deposit M)} (h : Splits (t.getD a []) kept drained) :
    Moved t (t.insert a kept) a a kept drained [] where
  splits := h
  getD_eq a' := by
    rw [BTreeMap.getD_insert]
    by_cases h : a' = a <;> simp [h]

theorem moved_erase_self {M : Type} (t : DepositTable M) (a : AccountId) :
    Moved t (t.erase a) a a [] (t.getD a []) [] where
  splits := splits_all _
  getD_eq a' := by
    rw [BTreeMap.getD_erase]
    by_cases h : a' = a <;> simp [h]

/-- An appended deposit is a move that takes nothing. -/
theorem moved_append {M : Type} (t : DepositTable M) (a : AccountId) (d : Deposit M) :
    Moved t (t.insert a (t.getD a [] ++ [d])) a a (t.getD a []) [] [d] where
  splits := splits_none _
  getD_eq a' := by
    rw [BTreeMap.getD_insert]
    by_cases h : a' = a <;> simp [h]

/-! ## Unlocks -/

/-- What `FiatOrAll` leaves in the unlock requests. -/
inductive Requested (a : AccountId) (txid : TransactionId) (lockedSum : ℕ)
    (reqs : BTreeMap AccountId UnlockRequest) : BTreeMap AccountId UnlockRequest → Prop where
  | settled : Requested a txid lockedSum reqs reqs
  | pending (req : UnlockRequest) (htxid : req.txid = txid) (hlocked : lockedSum ≠ 0) :
    Requested a txid lockedSum reqs (reqs.insert a req)

theorem mapErr_eq_ok {α : Type} {f : String → Fault} {x : Res α} {a : α} :
    mapErr f x = .ok a ↔ x = .ok a := by
  cases x with
  | ok b => rfl
  | error e => cases e <;> simp [mapErr]

theorem unlockFiat_ok {s : Side} {db : Db} {txid : TransactionId} {a : AccountId}
    {fiat lockedSum price : ℕ} {r : Db × List (Deposit s.Meta)}
    (h : unlockFiat s db txid a fiat lockedSum price = .ok r) :
    ∃ t reqs, r.1 = { db.setStaged s t with unlockRequests := reqs } ∧
      Moved (db.staged s) t a a (t.getD a []) r.2 [] ∧
      Requested a txid lockedSum db.unlockRequests reqs := by
  simp only [unlockFiat, bind_eq_ok, mapErr_eq_ok] at h
  obtain ⟨amount, -, h⟩ := h
  split_ifs at h with hlow hstaged
  · -- nothing is staged, so nothing is drained
    obtain ⟨needed, hneeded, h⟩ := bind_eq_ok.mp h
    have hlocked : needed ≠ 0 → lockedSum ≠ 0 := by
      simp only [subP] at hneeded
      split_ifs at hneeded with hu
      cases hneeded
      rw [List.isEmpty_iff.mp hstaged, amountSum_nil] at hlow
      simp only [amountSum_nil]
      omega
    split_ifs at h with hz
    · obtain ⟨leftover, -, h⟩ := bind_eq_ok.mp h
      rw [pure_eq_ok] at h
      subst h
      exact ⟨db.staged s, _, by rw [setStaged_self], moved_refl _ a a,
        .pending ⟨txid, fiat, .fiat leftover⟩ rfl (hlocked hz)⟩
    · rw [pure_eq_ok] at h
      subst h
      exact ⟨db.staged s, _, by rw [setStaged_self], moved_refl _ a a, .settled⟩
  · obtain ⟨needed, hneeded, h⟩ := bind_eq_ok.mp h
    have hmoved := moved_insert_self (drainInReverse_splits ((db.staged s).getD a []) amount)
    have hlocked : needed ≠ 0 → lockedSum ≠ 0 := by
      have hsum := amountSum_drainInReverse ((db.staged s).getD a []) amount
      simp only [subP] at hneeded
      split_ifs at hneeded with hu
      cases hneeded
      omega
    split_ifs at h with hz
    · obtain ⟨leftover, -, h⟩ := bind_eq_ok.mp h
      rw [pure_eq_ok] at h
      subst h
      refine ⟨_, _, ?_, by rwa [BTreeMap.getD_insert_self],
        .pending ⟨txid, fiat, .fiat leftover⟩ rfl (hlocked hz)⟩
      cases s <;> rfl
    · rw [pure_eq_ok] at h
      subst h
      refine ⟨_, _, ?_, by rwa [BTreeMap.getD_insert_self], .settled⟩
      cases s <;> rfl

theorem unlockAll_ok {s : Side} {db : Db} {txid : TransactionId} {a : AccountId}
    {lockedSum price : ℕ} {r : Db × List (Deposit s.Meta)}
    (h : unlockAll s db txid a lockedSum price = .ok r) :
    ∃ t reqs, r.1 = { db.setStaged s t with unlockRequests := reqs } ∧
      Moved (db.staged s) t a a (t.getD a []) r.2 [] ∧
      Requested a txid lockedSum db.unlockRequests reqs := by
  simp only [unlockAll] at h
  have hmoved : ∃ t, (if ((db.staged s).getD a []).isEmpty then db
        else db.setStaged s ((db.staged s).erase a)) = db.setStaged s t ∧
      Moved (db.staged s) t a a (t.getD a []) ((db.staged s).getD a []) [] := by
    by_cases hstaged : ((db.staged s).getD a []).isEmpty
    · refine ⟨db.staged s, by rw [if_pos hstaged, setStaged_self], ?_⟩
      have := moved_refl (db.staged s) a a
      rw [List.isEmpty_iff.mp hstaged] at this ⊢
      exact this
    · refine ⟨_, if_neg hstaged, ?_⟩
      have := moved_erase_self (db.staged s) a
      rwa [BTreeMap.getD_erase, if_pos rfl]
  obtain ⟨t, ht, hmoved⟩ := hmoved
  rw [ht] at h
  split_ifs at h with hlow hlocked
  · obtain ⟨total, -, h⟩ := bind_eq_ok.mp h
    rw [pure_eq_ok] at h
    subst h
    refine ⟨t, _, ?_, hmoved, .pending ⟨txid, total, .all⟩ rfl hlocked⟩
    cases s <;> rfl
  · rw [pure_eq_ok] at h
    subst h
    refine ⟨t, _, ?_, hmoved, .settled⟩
    cases s <;> rfl

/-- The history item of a deposit that moved. -/
def moveItem {M : Type} (info : CycleInfo) (txid : TransactionId) (kind : AccountHistoryItemKind)
    (d : Deposit M) : AccountHistoryItem :=
  { cycle := info, kind := kind, txid := txid, depositSequence := d.sequence, amount := d.amount }

theorem creditIdleBalance_getD (db : Db) (a a' : AccountId) (x : ℕ) :
    (creditIdleBalance db a x).idleBalance.getD a' 0 =
      db.idleBalance.getD a' 0 + if a' = a then x else 0 := by
  rw [creditIdleBalance, BTreeMap.getD_insert]
  by_cases h : a' = a <;> simp [h]

/-- A credit of nothing writes nothing, which reads the same. -/
theorem creditIdleBalance_of_ne (db : Db) (a : AccountId) (x : ℕ) :
    ∃ idle, (if x ≠ 0 then creditIdleBalance db a x else db) = { db with idleBalance := idle } ∧
      ∀ a', idle.getD a' 0 = db.idleBalance.getD a' 0 + if a' = a then x else 0 := by
  by_cases h : x ≠ 0
  · exact ⟨_, if_pos h, fun a' => creditIdleBalance_getD db a a' x⟩
  · refine ⟨db.idleBalance, if_neg h, fun a' => ?_⟩
    rw [not_not.mp h]
    simp

/-- An unlock moves staged deposits to the idle balance, and may leave a request. -/
theorem processUnlockInput_ok {C : Crypto} {db : Db} {txid : TransactionId}
    {input : UnlockForWithdrawalInput} {r : Db × InputMeta}
    (h : processUnlockInput C db txid input = .ok r) :
    ∃ (cycle : Cycle) (kept drained : List (Deposit input.account.accType.side.Meta)),
      AccountMove db r.1 txid cycle input.account.accType.side (input.account.id C)
        (input.account.id C) kept drained []
        ((cycle.locked input.account.accType.side).getD (input.account.id C) []) [] []
        (amountSum drained) ((drained.map (moveItem cycle.info txid .stagedToIdle)).map (input.account.id C, ·)) ∧
      db.unlockRequests.get? (input.account.id C) = none ∧
      Requested (input.account.id C) txid
        (amountSum ((cycle.locked input.account.accType.side).getD (input.account.id C) []))
        db.unlockRequests r.1.unlockRequests ∧
      r.1.transferRequests = db.transferRequests ∧ r.1.depositSequence = db.depositSequence ∧
      r.1.currentCycle = some cycle ∧ r.2.amount = 0 := by
  unfold processUnlockInput at h
  cases hc : db.currentCycle with
  | none => rw [hc] at h; cases h
  | some cycle =>
    rw [hc] at h
    simp only [processUnlockInputInner] at h
    generalize input.account.accType.side = s at h ⊢
    generalize input.account.id C = a at h ⊢
    split_ifs at h with hreq
    obtain ⟨u, hu, h⟩ := bind_eq_ok.mp h
    obtain ⟨key, -, h⟩ := bind_eq_ok.mp h
    rw [pure_eq_ok] at h
    have hstep : ∃ t reqs, u.1 = { db.setStaged s t with unlockRequests := reqs } ∧
        Moved (db.staged s) t a a (t.getD a []) u.2 [] ∧
        Requested a txid (amountSum ((cycle.locked s).getD a [])) db.unlockRequests reqs := by
      cases hamt : input.amount with
      | fiat fiat =>
        rw [hamt] at hu
        exact unlockFiat_ok hu
      | all =>
        rw [hamt] at hu
        exact unlockAll_ok hu
    obtain ⟨t, reqs, hu1, hmoved, hrequested⟩ := hstep
    obtain ⟨idle, hcredit, hidle⟩ := creditIdleBalance_of_ne u.1 a (amountSum u.2)
    rw [hcredit, hu1, addAccountHistoryItems_eq] at h
    rw [hu1] at hidle
    subst h
    have hposted : ∀ p w, p AccountHistoryItemKind.stagedToIdle = true → postedWeight p w
        ((u.2.map (moveItem cycle.info txid .stagedToIdle)).map (a, ·)) = weigh (w a) u.2 := fun p w hp =>
      postedWeight_deposits p w (fun _ => hp) (fun _ => rfl) (fun _ => rfl) u.2
    refine ⟨cycle, t.getD a [], u.2, ?_, by simpa using hreq, hrequested, ?_, ?_, ?_, rfl⟩
    · exact {
        current := hc
        locked := ⟨cycle.locked s, by simp [setLocked_self, hc], moved_refl _ a a⟩
        staged := by
          cases s <;> exact hmoved
        staged_side := fun s' hs => by
          rw [← staged_setStaged_ne db s t hs]
          cases s' <;> rfl
        idle := fun a' => by simpa using hidle a'
        history := by simp; rfl
        debit := fun w => hposted _ w rfl
        posted := fun w => postedWeight_eq_zero _ w fun e he => by
          simp only [List.mem_map] at he
          obtain ⟨_, ⟨d, -, rfl⟩, rfl⟩ := he
          rfl
        fresh := by simp
        newStaged_length := by simp
        newLocked_length := by simp
        counter := by simp
        pastCycle := by simp
        seekLifetimeFee := by simp
        votes := by simp
        versions := by simp }
    · simp
    · simp
    · simpa using hc

/-! ## Withdrawals -/

theorem processWithdrawalInput_ok {C : Crypto} {db : Db} {input : WithdrawalInput} {r : Db × InputMeta}
    (h : processWithdrawalInput C db input = .ok r) :
    input.amount ≤ db.idleBalance.getD (input.account.id C) 0 ∧ r.2.amount = input.amount ∧
      r.1 = { db with
        idleBalance := db.idleBalance.insert (input.account.id C)
          (db.idleBalance.getD (input.account.id C) 0 - input.amount) } := by
  simp only [processWithdrawalInput] at h
  split_ifs at h with h1 h2
  obtain ⟨key, -, h⟩ := bind_eq_ok.mp h
  rw [pure_eq_ok] at h
  subst h
  exact ⟨not_lt.mp h2, rfl, rfl⟩

theorem processInput_ok {C : Crypto} {db : Db} {txid : TransactionId} {i : StabilityPoolInput}
    {r : Db × InputMeta} (h : processInput C db txid i = .ok r) :
    (∃ u, i = .v0 (.unlockForWithdrawal u) ∧ processUnlockInput C db txid u = .ok r) ∨
      ∃ w, i = .v0 (.withdrawal w) ∧ processWithdrawalInput C db w = .ok r := by
  unfold processInput at h
  cases i with
  | default variant => cases h
  | v0 v0 =>
    simp only at h
    split_ifs at h
    cases v0 with
    | unlockForWithdrawal u => exact Or.inl ⟨u, rfl, h⟩
    | withdrawal w => exact Or.inr ⟨w, rfl, h⟩

/-! ## Deposits -/

/-- The new deposit of `stageDeposit`. -/
def newDeposit {M : Type} (db : Db) (txid : TransactionId) (amount : ℕ) (metadata : M) : Deposit M :=
  { sequence := db.depositSequence.getD 0, amount := amount, metadata := metadata, txid := txid }

def depositItem (db : Db) (cycle : Cycle) (txid : TransactionId) (amount : ℕ)
    (kind : AccountHistoryItemKind) : AccountHistoryItem :=
  { cycle := cycle.info, kind := kind, txid := txid, depositSequence := db.depositSequence.getD 0,
    amount := amount }

theorem stageDeposit_eq (s : Side) (db : Db) (cycle : Cycle) (txid : TransactionId) (a : AccountId)
    (amount : ℕ) (metadata : s.Meta) (kind : AccountHistoryItemKind) :
    stageDeposit s db cycle txid a amount metadata kind =
      { db.setStaged s ((db.staged s).insert a
          ((db.staged s).getD a [] ++ [newDeposit db txid amount metadata])) with
        depositSequence := some (db.depositSequence.getD 0 + 1)
        accountHistory := postAll db.accountHistory [(a, depositItem db cycle txid amount kind)] } := by
  rw [stageDeposit, addAccountHistoryItems_eq]
  cases s <;> rfl

theorem stageDeposit_move {s : Side} {db : Db} {cycle : Cycle} (hc : db.currentCycle = some cycle)
    (txid : TransactionId) (a : AccountId) (amount : ℕ) (metadata : s.Meta)
    {kind : AccountHistoryItemKind} (hcredit : kind.stagedCredit = true) (hdebit : kind.stagedDebit = false) :
    AccountMove db (stageDeposit s db cycle txid a amount metadata kind) txid cycle s a a
      ((db.staged s).getD a []) [] [newDeposit db txid amount metadata]
      ((cycle.locked s).getD a []) [] [] 0 [(a, depositItem db cycle txid amount kind)] where
  current := hc
  locked := by
    rw [stageDeposit_eq]
    exact ⟨cycle.locked s, by simp [setLocked_self, hc], moved_refl _ a a⟩
  staged := by
    rw [stageDeposit_eq]
    have := moved_append (db.staged s) a (newDeposit db txid amount metadata)
    cases s <;> exact this
  staged_side := fun s' hs => by
    rw [stageDeposit_eq, ← staged_setStaged_ne db s ((db.staged s).insert a
      ((db.staged s).getD a [] ++ [newDeposit db txid amount metadata])) hs]
    cases s' <;> rfl
  idle := by simp [stageDeposit_eq]
  history := by rw [stageDeposit_eq]
  debit := by simp [depositItem, hdebit]
  posted := by simp [depositItem, hcredit, newDeposit]
  fresh := by simp [newDeposit]
  newStaged_length := by simp
  newLocked_length := by simp
  counter := by simp [stageDeposit_eq]
  pastCycle := by simp [stageDeposit_eq]
  seekLifetimeFee := by simp [stageDeposit_eq]
  votes := by simp [stageDeposit_eq]
  versions := by simp [stageDeposit_eq]

/-- Which deposits an account may receive from an output. -/
inductive DepositAllowed (cfg : StabilityPoolConfigConsensus) :
    (s : Side) → AccountId → s.Meta → AccountHistoryItemKind → Prop where
  | seek {a : AccountId} (ha : a.accType = .seeker) : DepositAllowed cfg .seek a () .depositToStaged
  | btcBalance {a : AccountId} (ha : a.accType = .btcDepositor) (metadata : List UInt8) :
    DepositAllowed cfg .seek a () (.depositToBtcBalance metadata)
  | provide {a : AccountId} {fee : FeeRate} (ha : a.accType = .provider)
    (hfee : fee.ppb ≤ cfg.maxAllowedProvideFeeRatePpb) :
    DepositAllowed cfg .provide a fee .depositToStaged

theorem DepositAllowed.credit {cfg : StabilityPoolConfigConsensus} {s : Side} {a : AccountId}
    {metadata : s.Meta} {kind : AccountHistoryItemKind} (h : DepositAllowed cfg s a metadata kind) :
    kind.stagedCredit = true ∧ kind.stagedDebit = false := by
  cases h <;> exact ⟨rfl, rfl⟩

theorem addStagedSeekDeposit_ok {cfg : StabilityPoolConfigConsensus} {db db' : Db}
    {txid : TransactionId} {a : AccountId} {amount : ℕ} {kind : AccountHistoryItemKind}
    (h : addStagedSeekDeposit cfg db txid a amount kind = .ok db') :
    ∃ cycle, db.currentCycle = some cycle ∧ db' = stageDeposit .seek db cycle txid a amount () kind := by
  unfold addStagedSeekDeposit at h
  split_ifs at h
  cases hc : db.currentCycle with
  | none =>
    rw [hc] at h
    cases h
  | some cycle =>
    rw [hc] at h
    cases h
    exact ⟨cycle, rfl, rfl⟩

theorem processDepositToSeekOutput_ok {cfg : StabilityPoolConfigConsensus} {db : Db}
    {txid : TransactionId} {o : DepositToSeekOutput} {r : OutputResult}
    (h : processDepositToSeekOutput cfg db txid o = .ok r) :
    ∃ cycle, db.currentCycle = some cycle ∧
      r.1 = stageDeposit .seek db cycle txid o.accountId r.2 () .depositToStaged := by
  obtain ⟨db', hdb, h⟩ := bind_eq_ok.mp h
  rw [pure_eq_ok] at h
  subst h
  exact addStagedSeekDeposit_ok hdb

theorem processBtcBalanceOutput_ok {cfg : StabilityPoolConfigConsensus} {db : Db}
    {txid : TransactionId} {o : DepositToBtcBalanceOutput} {r : OutputResult}
    (h : processBtcBalanceOutput cfg db txid o = .ok r) :
    ∃ cycle, db.currentCycle = some cycle ∧
      r.1 = stageDeposit .seek db cycle txid o.accountId r.2 () (.depositToBtcBalance o.metadata) := by
  obtain ⟨version, -, h⟩ := bind_eq_ok.mp h
  split_ifs at h
  obtain ⟨db', hdb, h⟩ := bind_eq_ok.mp h
  rw [pure_eq_ok] at h
  subst h
  exact addStagedSeekDeposit_ok hdb

theorem processDepositToProvideOutput_ok {cfg : StabilityPoolConfigConsensus} {db : Db}
    {txid : TransactionId} {o : DepositToProvideOutput} {r : OutputResult}
    (h : processDepositToProvideOutput cfg db txid o = .ok r) :
    ∃ cycle, db.currentCycle = some cycle ∧
      o.provideRequest.minFeeRate.ppb ≤ cfg.maxAllowedProvideFeeRatePpb ∧
      r.1 = stageDeposit .provide db cycle txid o.accountId r.2 o.provideRequest.minFeeRate
        .depositToStaged := by
  unfold processDepositToProvideOutput at h
  split_ifs at h with hlow hfee
  cases hc : db.currentCycle with
  | none =>
    rw [hc] at h
    cases h
  | some cycle =>
    rw [hc] at h
    cases h
    exact ⟨cycle, rfl, not_lt.mp hfee, rfl⟩

/-- A deposit of `r.2` msats for an account without a pending unlock request. -/
def DepositStep (cfg : StabilityPoolConfigConsensus) (db : Db) (txid : TransactionId)
    (r : OutputResult) : Prop :=
  ∃ (s : Side) (cycle : Cycle) (a : AccountId) (metadata : s.Meta) (kind : AccountHistoryItemKind),
    db.currentCycle = some cycle ∧ DepositAllowed cfg s a metadata kind ∧
      db.unlockRequests.get? a = none ∧ r.1 = stageDeposit s db cycle txid a r.2 metadata kind

/-- A successful output is a deposit or a transfer, of an account without a
pending unlock request. -/
theorem processOutput_ok {C : Crypto} {cfg : StabilityPoolConfigConsensus} {db : Db}
    {txid : TransactionId} {o : StabilityPoolOutput} {r : OutputResult}
    (h : processOutput C cfg db txid o = .ok r) :
    DepositStep cfg db txid r ∨
    ∃ t, (o = .v0 (.transfer t) ∨ o = .v1 (.transfer t)) ∧
      db.unlockRequests.get? (t.signedRequest.transferRequest.sender.id C) = none ∧
      processTransferOutput C cfg db txid t = .ok r := by
  obtain ⟨a, ha, h⟩ := bind_eq_ok.mp h
  split_ifs at h with hreq
  have hreq : db.unlockRequests.get? a = none := by simpa using hreq
  have hseek : ∀ d : DepositToSeekOutput, a = d.accountId →
      (if a.accType = .seeker then processDepositToSeekOutput cfg db txid d
        else .error (.output .invalidAccountTypeForOperation)) = .ok r →
      DepositStep cfg db txid r := by
    intro d had hd
    split_ifs at hd with htype
    subst had
    obtain ⟨cycle, hc, hr⟩ := processDepositToSeekOutput_ok hd
    exact ⟨.seek, cycle, d.accountId, (), _, hc, .seek htype, hreq, hr⟩
  have hprovide : ∀ d : DepositToProvideOutput, a = d.accountId →
      (if a.accType = .provider then processDepositToProvideOutput cfg db txid d
        else .error (.output .invalidAccountTypeForOperation)) = .ok r →
      DepositStep cfg db txid r := by
    intro d had hd
    split_ifs at hd with htype
    subst had
    obtain ⟨cycle, hc, hfee, hr⟩ := processDepositToProvideOutput_ok hd
    exact ⟨.provide, cycle, d.accountId, _, _, hc, .provide htype hfee, hreq, hr⟩
  rcases o with v0 | v1 | variant
  · rcases v0 with d | d | t <;> cases ha
    · exact Or.inl (hseek d rfl h)
    · exact Or.inl (hprovide d rfl h)
    · exact Or.inr ⟨t, Or.inl rfl, hreq, h⟩
  · rcases v1 with d | d | t | d <;> cases ha
    · exact Or.inl (hseek d rfl h)
    · exact Or.inl (hprovide d rfl h)
    · exact Or.inr ⟨t, Or.inr rfl, hreq, h⟩
    · left
      simp only [dispatchOutput] at h
      split_ifs at h with htype
      obtain ⟨cycle, hc, hr⟩ := processBtcBalanceOutput_ok h
      exact ⟨.seek, cycle, d.accountId, (), _, hc, .btcBalance htype d.metadata, hreq, hr⟩
  · cases ha

theorem processOutput_transfer_ok {C : Crypto} {cfg : StabilityPoolConfigConsensus} {db : Db}
    {txid : TransactionId} {o : StabilityPoolOutput} {t : TransferOutput} {r : OutputResult}
    (ho : o = .v0 (.transfer t) ∨ o = .v1 (.transfer t)) (h : processOutput C cfg db txid o = .ok r) :
    db.unlockRequests.get? (t.signedRequest.transferRequest.sender.id C) = none ∧
      processTransferOutput C cfg db txid t = .ok r := by
  obtain ⟨a, ha, h⟩ := bind_eq_ok.mp h
  split_ifs at h with hreq
  have hreq : db.unlockRequests.get? a = none := by simpa using hreq
  rcases ho with rfl | rfl <;> cases ha <;> exact ⟨hreq, h⟩

/-! ## Transfers -/

/-- Msats of a transfer at the cycle's price. -/
def transferTotal (r : TransferRequest) (cycle : Cycle) : ℕ :=
  r.transferAmount * MSATS_PER_BTC / cycle.startPrice

/-- What a transfer takes of a list, and the deposit it makes of it. -/
structure TransferParts (M : Type) where
  kept : List (Deposit M)
  drained : List (Deposit M)
  incoming : List (Deposit M)

def transferPart {M : Type} (items : List (Deposit M)) (amount sequence : ℕ) (metadata : M)
    (txid : TransactionId) : TransferParts M :=
  let drain := drainInReverse items amount
  { kept := drain.1
    drained := drain.2
    incoming := if drain.2.isEmpty then []
      else [{ sequence := sequence, amount := amountSum drain.2, metadata := metadata, txid := txid }] }

/-- The history items of a transfer: the drained deposits, then the new ones. -/
def transferOuts {M : Type} (r : TransferRequest) (info : CycleInfo) (txid : TransactionId)
    (staged locked : TransferParts M) : List AccountHistoryItem :=
  staged.drained.map (moveItem info txid (.stagedTransferOut r.recipient r.metadata)) ++
    locked.drained.map (moveItem info txid (.lockedTransferOut r.recipient r.metadata))

def transferIns {M : Type} (C : Crypto) (r : TransferRequest) (info : CycleInfo) (txid : TransactionId)
    (staged locked : TransferParts M) : List AccountHistoryItem :=
  staged.incoming.map (moveItem info txid (.stagedTransferIn (r.sender.id C) r.metadata)) ++
    locked.incoming.map (moveItem info txid (.lockedTransferIn (r.sender.id C) r.metadata))

def transferLog {M : Type} (C : Crypto) (r : TransferRequest) (info : CycleInfo) (txid : TransactionId)
    (staged locked : TransferParts M) : List Posting :=
  (transferOuts r info txid staged locked).map (r.sender.id C, ·) ++
    (transferIns C r info txid staged locked).map (r.recipient, ·)

theorem transferPart_amountSum {M : Type} (items : List (Deposit M)) (amount sequence : ℕ) (metadata : M)
    (txid : TransactionId) :
    amountSum (transferPart items amount sequence metadata txid).incoming =
      amountSum (transferPart items amount sequence metadata txid).drained := by
  simp only [transferPart]
  split_ifs with h
  · rw [List.isEmpty_iff.mp h]
  · simp

theorem transferPart_drained_sum {M : Type} (items : List (Deposit M)) (amount sequence : ℕ)
    (metadata : M) (txid : TransactionId) :
    amountSum (transferPart items amount sequence metadata txid).drained =
      min amount (amountSum items) := amountSum_drainInReverse _ _

theorem transferPart_fresh {M : Type} (items : List (Deposit M)) (amount sequence : ℕ) (metadata : M)
    (txid : TransactionId) {d : Deposit M}
    (hd : d ∈ (transferPart items amount sequence metadata txid).incoming) :
    d.txid = txid ∧ d.sequence = sequence ∧ d.metadata = metadata := by
  simp only [transferPart] at hd
  split_ifs at hd
  · cases hd
  · rw [List.mem_singleton.mp hd]
    exact ⟨rfl, rfl, rfl⟩

theorem transferPart_length {M : Type} (items : List (Deposit M)) (amount sequence : ℕ) (metadata : M)
    (txid : TransactionId) : (transferPart items amount sequence metadata txid).incoming.length ≤ 1 := by
  simp only [transferPart]
  split_ifs <;> simp

theorem postedWeight_moveItem {M : Type} (p : AccountHistoryItemKind → Bool) (w : AccountId → ℕ → ℕ)
    (a : AccountId) (info : CycleInfo) (txid : TransactionId) (kind : AccountHistoryItemKind)
    (ds : List (Deposit M)) :
    postedWeight p w ((ds.map (moveItem info txid kind)).map (a, ·)) =
      if p kind then weigh (w a) ds else 0 := by
  split_ifs with h
  · exact postedWeight_deposits p w (fun _ => h) (fun _ => rfl) (fun _ => rfl) ds
  · refine postedWeight_eq_zero p w fun e he => ?_
    simp only [List.mem_map] at he
    obtain ⟨_, ⟨d, -, rfl⟩, rfl⟩ := he
    show p kind = false
    simpa using h

theorem postedWeight_transferLog {M : Type} (C : Crypto) (r : TransferRequest) (info : CycleInfo)
    (txid : TransactionId) (staged locked : TransferParts M) (w : AccountId → ℕ → ℕ) :
    postedWeight AccountHistoryItemKind.stagedDebit w (transferLog C r info txid staged locked) =
        weigh (w (r.sender.id C)) staged.drained ∧
      postedWeight AccountHistoryItemKind.stagedCredit w (transferLog C r info txid staged locked) =
        weigh (w r.recipient) staged.incoming := by
  simp only [transferLog, transferOuts, transferIns, List.map_append, postedWeight_append,
    postedWeight_moveItem]
  simp [AccountHistoryItemKind.stagedDebit, AccountHistoryItemKind.stagedCredit]

/-- Everything a successful transfer did. -/
structure TransferStep (C : Crypto) (db : Db) (txid : TransactionId) (signed : SignedTransferRequest)
    (s : Side) (cycle : Cycle) (metadata : s.Meta) (staged locked : TransferParts s.Meta) (db' : Db) :
    Prop where
  signatures : signed.validateSignatures C = .ok ()
  unused : db.transferRequests.get? (signed.transferRequest.id C) = none
  logged : db'.transferRequests = db.transferRequests.insert (signed.transferRequest.id C) ()
  price : cycle.startPrice ≠ 0
  covered : transferTotal signed.transferRequest cycle ≤
    amountSum ((db.staged s).getD (signed.transferRequest.sender.id C) []) +
      amountSum ((cycle.locked s).getD (signed.transferRequest.sender.id C) [])
  staged_eq : staged = transferPart ((db.staged s).getD (signed.transferRequest.sender.id C) [])
    (transferTotal signed.transferRequest cycle) (db.depositSequence.getD 0) metadata txid
  locked_eq : locked = transferPart ((cycle.locked s).getD (signed.transferRequest.sender.id C) [])
    (transferTotal signed.transferRequest cycle - amountSum staged.drained)
    (db.depositSequence.getD 0) metadata txid
  move : AccountMove db db' txid cycle s (signed.transferRequest.sender.id C)
    signed.transferRequest.recipient staged.kept staged.drained staged.incoming locked.kept
    locked.drained locked.incoming 0 (transferLog C signed.transferRequest cycle.info txid staged locked)
  idle : db'.idleBalance = db.idleBalance
  requests : db'.unlockRequests = db.unlockRequests

/-- The staged part of a transfer, also when nothing staged is drained. -/
theorem transferStaged_part (C : Crypto) (s : Side) (db : Db) (txid : TransactionId)
    (r : TransferRequest) (info : CycleInfo) (amount sequence : ℕ) (metadata : s.Meta) :
    ∃ t, (if (drainInReverse ((db.staged s).getD (r.sender.id C) []) amount).2.isEmpty then (db, [], [])
        else transferStaged C s db txid r info sequence metadata
          (drainInReverse ((db.staged s).getD (r.sender.id C) []) amount).1
          (drainInReverse ((db.staged s).getD (r.sender.id C) []) amount).2) =
      (db.setStaged s t,
        (transferPart ((db.staged s).getD (r.sender.id C) []) amount sequence metadata txid).drained.map
          (moveItem info txid (.stagedTransferOut r.recipient r.metadata)),
        (transferPart ((db.staged s).getD (r.sender.id C) []) amount sequence metadata txid).incoming.map
          (moveItem info txid (.stagedTransferIn (r.sender.id C) r.metadata))) ∧
      Moved (db.staged s) t (r.sender.id C) r.recipient
        (transferPart ((db.staged s).getD (r.sender.id C) []) amount sequence metadata txid).kept
        (transferPart ((db.staged s).getD (r.sender.id C) []) amount sequence metadata txid).drained
        (transferPart ((db.staged s).getD (r.sender.id C) []) amount sequence metadata txid).incoming := by
  have hsplits := drainInReverse_splits ((db.staged s).getD (r.sender.id C) []) amount
  simp only [transferPart]
  split_ifs with h
  · have hnil := List.isEmpty_iff.mp h
    refine ⟨db.staged s, by rw [setStaged_self, hnil]; rfl, ?_⟩
    rw [hnil, drainInReverse_kept_of_nil hnil]
    exact moved_refl _ _ _
  · refine ⟨_, ?_, moved_insert hsplits⟩
    simp only [transferStaged, staged_setStaged, List.map_cons, List.map_nil]
    cases s <;> rfl

/-- The locked part of a transfer, also when nothing is left to transfer. -/
theorem transferLocked_part {M : Type} (C : Crypto) (lockedDepositsMap : DepositTable M)
    (txid : TransactionId) (r : TransferRequest) (info : CycleInfo) {amount : ℕ} (sequence : ℕ)
    (metadata : M) (hle : amount ≤ amountSum (lockedDepositsMap.getD (r.sender.id C) [])) :
    ∃ t, (if amount = 0 then (lockedDepositsMap, [], [])
        else transferLocked C lockedDepositsMap txid r info sequence metadata amount) =
      (t,
        (transferPart (lockedDepositsMap.getD (r.sender.id C) []) amount sequence metadata txid).drained.map
          (moveItem info txid (.lockedTransferOut r.recipient r.metadata)),
        (transferPart (lockedDepositsMap.getD (r.sender.id C) []) amount sequence metadata txid).incoming.map
          (moveItem info txid (.lockedTransferIn (r.sender.id C) r.metadata))) ∧
      Moved lockedDepositsMap t (r.sender.id C) r.recipient
        (transferPart (lockedDepositsMap.getD (r.sender.id C) []) amount sequence metadata txid).kept
        (transferPart (lockedDepositsMap.getD (r.sender.id C) []) amount sequence metadata txid).drained
        (transferPart (lockedDepositsMap.getD (r.sender.id C) []) amount sequence metadata txid).incoming := by
  have hsplits := drainInReverse_splits (lockedDepositsMap.getD (r.sender.id C) []) amount
  have hsum := amountSum_drainInReverse (lockedDepositsMap.getD (r.sender.id C) []) amount
  simp only [transferPart]
  split_ifs with h h' h'
  · subst h
    refine ⟨_, rfl, ?_⟩
    rw [drainInReverse_zero]
    exact moved_refl _ _ _
  · subst h
    exact absurd (by rw [drainInReverse_zero]; rfl) h'
  · rw [List.isEmpty_iff.mp h', amountSum_nil] at hsum
    omega
  · cases hg : lockedDepositsMap.get? (r.sender.id C) with
    | none =>
      rw [BTreeMap.getD_of_none hg, amountSum_nil] at hle
      omega
    | some ds =>
      refine ⟨_, ?_, moved_insert hsplits⟩
      simp only [transferLocked, hg]
      rfl

/-- What `moveTransfer` does, in the parts it took. -/
structure TransferMove (C : Crypto) (db : Db) (txid : TransactionId) (r : TransferRequest) (s : Side)
    (cycle : Cycle) (staged locked : TransferParts s.Meta) (db' : Db) (t : DepositTable s.Meta) : Prop where
  staged : ∃ t', db' = { db.setStaged s t' with
      depositSequence := some (db.depositSequence.getD 0 + 1)
      accountHistory := postAll db.accountHistory (transferLog C r cycle.info txid staged locked) } ∧
    Moved (db.staged s) t' (r.sender.id C) r.recipient staged.kept staged.drained staged.incoming
  locked : Moved (cycle.locked s) t (r.sender.id C) r.recipient locked.kept locked.drained locked.incoming

theorem moveTransfer_ok {C : Crypto} {s : Side} {db : Db} {txid : TransactionId} {r : TransferRequest}
    {cycle : Cycle} {metadata : s.Meta} {total : ℕ} {u : Db × DepositTable s.Meta}
    (hle : total ≤ amountSum ((db.staged s).getD (r.sender.id C) []) +
      amountSum ((cycle.locked s).getD (r.sender.id C) []))
    (h : moveTransfer C s db txid r cycle.info (cycle.locked s) metadata total = .ok u) :
    ∃ staged locked, staged = transferPart ((db.staged s).getD (r.sender.id C) []) total
        (db.depositSequence.getD 0) metadata txid ∧
      locked = transferPart ((cycle.locked s).getD (r.sender.id C) [])
        (total - amountSum staged.drained) (db.depositSequence.getD 0) metadata txid ∧
      TransferMove C db txid r s cycle staged locked u.1 u.2 := by
  obtain ⟨left, hleft, h⟩ := bind_eq_ok.mp h
  have hsum := amountSum_drainInReverse ((db.staged s).getD (r.sender.id C) []) total
  simp only [subP] at hleft
  split_ifs at hleft with hunder
  cases hleft
  refine ⟨_, _, rfl, rfl, ?_⟩
  have hseq : (nextDepositSequence db).1 = db.depositSequence.getD 0 := rfl
  have hstagedDb : ((nextDepositSequence db).2).staged s = db.staged s := by cases s <;> rfl
  obtain ⟨t', ht', hmoved'⟩ := transferStaged_part C s (nextDepositSequence db).2 txid r cycle.info total
    (db.depositSequence.getD 0) metadata
  obtain ⟨t, ht, hmoved⟩ := transferLocked_part C (cycle.locked s) txid r cycle.info
    (db.depositSequence.getD 0) metadata (show total - amountSum
      (drainInReverse ((db.staged s).getD (r.sender.id C) []) total).2 ≤ _ by omega)
  rw [hstagedDb] at ht' hmoved'
  rw [hseq, ht', ht, pure_eq_ok] at h
  subst h
  refine ⟨⟨t', ?_, hmoved'⟩, hmoved⟩
  rw [transferLog, postAll_append, addAccountHistoryItems_eq, addAccountHistoryItems_eq]
  cases s <;> rfl

theorem transferOnSide_ok {C : Crypto} {s : Side} {db : Db} {txid : TransactionId}
    {signed : SignedTransferRequest} {cycle : Cycle} {metadata : s.Meta} {r : OutputResult}
    (hc : db.currentCycle = some cycle)
    (h : transferOnSide C s db txid signed cycle metadata = .ok r) :
    r.2 = 0 ∧ ∃ staged locked, TransferStep C db txid signed s cycle metadata staged locked r.1 := by
  obtain ⟨u, hu, h⟩ := bind_eq_ok.mp h
  rw [pure_eq_ok] at h
  subst h
  refine ⟨rfl, ?_⟩
  simp only [processTransferOutputInner, bind_eq_ok, mapErr_eq_ok] at hu
  obtain ⟨_, hsig, db1, hdb1, total, htotal, hu⟩ := hu
  simp only [ensureUniqueTransferRequestAndLog, ensure, bind_eq_ok, pure_eq_ok] at hdb1
  obtain ⟨_, hunused, rfl⟩ := hdb1
  split_ifs at hunused hu with hun hlow
  simp only [FiatAmount.toBtcAmount, divP, tryIntoU64, bind_eq_ok] at htotal
  obtain ⟨msats, hmsats, htotal⟩ := htotal
  split_ifs at hmsats htotal with hprice hbound
  cases hmsats
  cases htotal
  obtain ⟨staged, locked, hs, hl, ⟨t', ht', hmoved'⟩, hmoved⟩ := moveTransfer_ok (not_lt.mp hlow) hu
  refine ⟨staged, locked, ?_⟩
  have hstaged : ({ db with
      transferRequests := db.transferRequests.insert (signed.transferRequest.id C) () } : Db).staged s =
      db.staged s := by cases s <;> rfl
  rw [hstaged] at hs hmoved' hlow
  have hweights := postedWeight_transferLog C signed.transferRequest cycle.info txid staged locked
  exact {
    signatures := hsig
    unused := hun
    logged := by rw [ht']; simp
    price := hprice
    covered := not_lt.mp hlow
    staged_eq := hs
    locked_eq := hl
    move := {
      current := hc
      locked := ⟨u.2, rfl, hmoved⟩
      staged := by
        rw [ht']
        cases s <;> exact hmoved'
      staged_side := fun s' hs' => by
        rw [ht', ← staged_setStaged_ne db s t' hs']
        cases s <;> cases s' <;> rfl
      idle := by rw [ht']; simp
      history := by rw [ht']
      debit := fun w => (hweights w).1
      posted := fun w => (hweights w).2
      fresh := fun d hd => by
        rw [hs, hl] at hd
        rcases List.mem_append.mp hd with hd | hd
        · exact ⟨(transferPart_fresh _ _ _ _ _ hd).1, (transferPart_fresh _ _ _ _ _ hd).2.1⟩
        · exact ⟨(transferPart_fresh _ _ _ _ _ hd).1, (transferPart_fresh _ _ _ _ _ hd).2.1⟩
      newStaged_length := by rw [hs]; exact transferPart_length _ _ _ _ _
      newLocked_length := by rw [hl]; exact transferPart_length _ _ _ _ _
      counter := by rw [ht']; exact Or.inr rfl
      pastCycle := by rw [ht']; simp
      seekLifetimeFee := by rw [ht']; simp
      votes := by rw [ht']; simp
      versions := by rw [ht']; simp }
    idle := by rw [ht']; simp
    requests := by rw [ht']; simp }

/-- The fee of a provider's new deposit is bounded; seeks have none. -/
def metadataAllowed (cfg : StabilityPoolConfigConsensus) : (s : Side) → s.Meta → Prop
  | .seek, _ => True
  | .provide, fee => fee.ppb ≤ cfg.maxAllowedProvideFeeRatePpb

/-- A transfer in the current cycle, of the sender's side, before its expiry. -/
def TransferDone (C : Crypto) (cfg : StabilityPoolConfigConsensus) (db : Db) (txid : TransactionId)
    (signed : SignedTransferRequest) (db' : Db) : Prop :=
  ∃ (cycle : Cycle) (s : Side) (metadata : s.Meta) (staged locked : TransferParts s.Meta),
    s = signed.transferRequest.sender.accType.side ∧ metadataAllowed cfg s metadata ∧
      cycle.index ≤ signed.transferRequest.validUntilCycle ∧
      TransferStep C db txid signed s cycle metadata staged locked db'

theorem processTransferOutput_ok {C : Crypto} {cfg : StabilityPoolConfigConsensus} {db : Db}
    {txid : TransactionId} {o : TransferOutput} {r : OutputResult}
    (h : processTransferOutput C cfg db txid o = .ok r) :
    r.2 = 0 ∧ o.signedRequest.transferRequest.sender.accType =
        o.signedRequest.transferRequest.recipient.accType ∧
      TransferDone C cfg db txid o.signedRequest r.1 := by
  simp only [processTransferOutput] at h
  split_ifs at h with htype
  rw [not_not] at htype
  cases hc : db.currentCycle with
  | none =>
    rw [hc] at h
    cases h
  | some cycle =>
    rw [hc] at h
    simp only at h
    split_ifs at h with hexp
    have hside : ∀ (s : Side) (metadata : s.Meta),
        s = o.signedRequest.transferRequest.sender.accType.side → metadataAllowed cfg s metadata →
        transferOnSide C s db txid o.signedRequest cycle metadata = .ok r →
        r.2 = 0 ∧ TransferDone C cfg db txid o.signedRequest r.1 := by
      intro s metadata hs hallowed hr
      obtain ⟨hr2, staged, locked, hstep⟩ := transferOnSide_ok hc hr
      exact ⟨hr2, cycle, s, metadata, staged, locked, hs, hallowed, not_lt.mp hexp, hstep⟩
    cases hsender : o.signedRequest.transferRequest.sender.accType with
    | seeker =>
      rw [hsender] at h hside htype
      obtain ⟨h1, h2⟩ := hside .seek () rfl trivial h
      exact ⟨h1, htype, h2⟩
    | btcDepositor =>
      rw [hsender] at h hside htype
      obtain ⟨h1, h2⟩ := hside .seek () rfl trivial h
      exact ⟨h1, htype, h2⟩
    | provider =>
      rw [hsender] at h hside htype
      cases hfee : o.signedRequest.transferRequest.newFeeRate with
      | none =>
        rw [hfee] at h
        cases h
      | some fee =>
        rw [hfee] at h
        simp only at h
        split_ifs at h with hmax
        obtain ⟨h1, h2⟩ := hside .provide fee rfl (not_lt.mp hmax) h
        exact ⟨h1, htype, h2⟩

end StabilityPool
