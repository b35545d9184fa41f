import Fedi.FediFee.Accrual

/-!
# Remittance of guardian fees (`fedi_fee/guardian.rs`)

`planGuardianFeeRemittance` divides the outstanding breakdown among the recipients,
`reserveGuardianFeeRemittanceDbtx` takes the planned slice off the ledger under the marker of its
operation, and a callback of that operation settles the marker or restores the slice.

    reserve : outstanding' + amount = outstanding,  breakdown' + Σ snapshot = breakdown
    restore : outstanding' = outstanding + amount,  breakdown' = breakdown + Σ snapshot
-/

namespace FediFee

open BTreeMaps StabilityPool Runs

/-! ## Plan -/

def maxGuardianFeeRecipients : ℕ := 32

/-- The checks of the recipients in order; the account before, and the weights so far. -/
def validateRecipients (C : Crypto) : Option AccountId → ℕ → List FediGuardianFeeRecipient → Res ℕ
  | _, totalWeight, [] => .ok totalWeight
  | previous, totalWeight, recipient :: recipients => do
    ensure (recipient.account.accType = .btcDepositor)
      "guardian fee remittance account must be a btc-balance account"
    ensure (recipient.account.asSingle.isSome = true) "guardian fee remittance account must be single-sig"
    ensure (recipient.weight ≠ 0) "guardian fee recipient weight must be positive"
    let accountId := recipient.account.id C
    ensure (∀ last ∈ previous, last < accountId) "guardian fee recipients must be unique and sorted by account id"
    let totalWeight ← checked (totalWeight + recipient.weight) "guardian fee recipient weights overflow"
    validateRecipients C (some accountId) totalWeight recipients

/-- The total weight of a valid policy. -/
def validateGuardianFeeRecipients (C : Crypto) (recipients : List FediGuardianFeeRecipient) : Res ℕ := do
  ensure (recipients ≠ [] ∧ recipients.length ≤ maxGuardianFeeRecipients)
    "guardian fee recipient count must be between 1 and 32"
  validateRecipients C none 0 recipients

/-- A recipient with its amount and its breakdown so far. -/
abbrev RecipientShare := FediGuardianFeeRecipient × ℕ × Snapshot

/-- One item of the breakdown adds `unit * weight` to a recipient. -/
def addShare (txType : TxType) (unit : ℕ) (r : RecipientShare) : Res RecipientShare := do
  let share ← checked (unit * r.1.weight) "guardian fee recipient share overflow"
  let amount ← checkedAmountAdd r.2.1 share
  .ok (r.1, amount, r.2.2 ++ [⟨txType, share⟩])

/-- The loop over the outstanding breakdown. -/
def splitBreakdown (totalWeight : ℕ) :
    Snapshot → List RecipientShare → List GuardianFeeRemittanceBreakdownItem →
      Res (Snapshot × List RecipientShare)
  | remittance, shares, [] => .ok (remittance, shares)
  | remittance, shares, item :: items =>
    let unit := item.amount / totalWeight
    if unit = 0 then splitBreakdown totalWeight remittance shares items
    else do
      let remitted ← checked (unit * totalWeight) "guardian fee remittance amount overflow"
      let shares ← shares.mapM (addShare item.txType unit)
      splitBreakdown totalWeight (remittance ++ [⟨item.txType, remitted⟩]) shares items

def recipientRemittance (r : RecipientShare) : Res GuardianFeeRecipientRemittance := do
  let total ← checkedAmountSum 0 (r.2.2.map fun item => item.amount)
  ensure (total = r.2.1) "guardian fee recipient breakdown mismatch"
  .ok ⟨r.1.account, r.2.1, r.2.2⟩

/-- The plan of a split, once its totals agree. -/
def planOfSplit (remittance : Snapshot) (shares : List RecipientShare) : Res GuardianFeeRemittancePlan := do
  let remittances ← shares.mapM recipientRemittance
  let remittanceAmount ← checkedAmountSum 0 (remittance.map fun item => item.amount)
  let total ← checkedAmountSum 0 (remittances.map fun r => r.amount)
  ensure (total = remittanceAmount) "guardian fee remittance plan does not conserve millisatoshis"
  .ok ⟨remittanceAmount, remittance, remittances⟩

def planGuardianFeeRemittance (C : Crypto) (outstandingBreakdown : List GuardianFeeRemittanceBreakdownItem)
    (recipients : List FediGuardianFeeRecipient) (minimum : ℕ) : Res (Option GuardianFeeRemittancePlan) := do
  let totalWeight ← validateGuardianFeeRecipients C recipients
  let split ← splitBreakdown totalWeight [] (recipients.map fun r => (r, 0, [])) outstandingBreakdown
  if split.1 = [] ∨ ∃ r ∈ split.2, r.2.1 < minimum then .ok none
  else planOfSplit split.1 split.2 >>= fun plan => .ok (some plan)

/-! ## Reserve, settle, restore -/

/-- Write rows in order. -/
def writeRows (rows : BTreeMap TxType ℕ) (l : List (TxType × ℕ)) : BTreeMap TxType ℕ :=
  l.foldl (fun rows e => rows.insert e.1 e.2) rows

/-- What a reservation leaves of a row. -/
def remainingRow (rows : BTreeMap TxType ℕ) (item : GuardianFeeRemittanceBreakdownItem) : Res (TxType × ℕ) :=
  let current := rows.getD item.txType 0
  if item.amount ≤ current then .ok (item.txType, current - item.amount)
  else .error (.bail "guardian fee breakdown reservation underflow")

def reserveGuardianFeeRemittanceDbtx (dbtx : FediFeeDb) (operationId : OperationId) (amount : ℕ)
    (snapshot : Snapshot) : Res FediFeeDb := do
  let outstanding := dbtx.guardian.outstanding
  if amount ≤ outstanding then
    let remainingBreakdown ← snapshot.mapM (remainingRow dbtx.guardian.outstandingPerTxType)
    .ok { dbtx with
      guardian := { dbtx.guardian with
        outstanding := outstanding - amount
        outstandingPerTxType := writeRows dbtx.guardian.outstandingPerTxType remainingBreakdown }
      currentGuardianFeeRemittanceOperation := some operationId }
  else .error (.bail "guardian fee reservation exceeds outstanding")

/-- Whether the callback was that of the operation in flight. -/
def settleGuardianFeeRemittanceDbtx (dbtx : FediFeeDb) (operationId : OperationId) (nextDueAt : ℕ) :
    FediFeeDb × Bool :=
  if dbtx.currentGuardianFeeRemittanceOperation = some operationId then
    ({ dbtx with
        guardian := { dbtx.guardian with nextRemittanceDueAt := some nextDueAt }
        currentGuardianFeeRemittanceOperation := none }, true)
  else (dbtx, false)

/-- A row with the slice of a rejected operation. -/
def restoredRow (rows : BTreeMap TxType ℕ) (item : GuardianFeeRemittanceBreakdownItem) : Res (TxType × ℕ) :=
  checkedAmountAdd (rows.getD item.txType 0) item.amount >>= fun restored => .ok (item.txType, restored)

def restoreGuardianFeeRemittanceDbtx (dbtx : FediFeeDb) (operationId : OperationId) (amount : ℕ)
    (snapshot : Snapshot) : Res (FediFeeDb × Bool) :=
  if dbtx.currentGuardianFeeRemittanceOperation = some operationId then do
    let restoredOutstanding ← checkedAmountAdd dbtx.guardian.outstanding amount
    let restoredBreakdown ← snapshot.mapM (restoredRow dbtx.guardian.outstandingPerTxType)
    .ok ({ dbtx with
      guardian := { dbtx.guardian with
        outstanding := restoredOutstanding
        outstandingPerTxType := writeRows dbtx.guardian.outstandingPerTxType restoredBreakdown }
      currentGuardianFeeRemittanceOperation := none }, true)
  else .ok (dbtx, false)

/-! ## Submission -/

/-- The client database: the fee rows, and the amount and snapshot in the metadata of each remittance. -/
structure ClientDb where
  fees : FediFeeDb
  operationLog : BTreeMap OperationId (ℕ × Snapshot)

inductive SubmissionResult where
  | noop
  | submitted (operationId : OperationId)
deriving DecidableEq

/-- What the client needs for a submission: a new operation id, the clock, the due time to seed, the
recipients, the minimum of a deposit, and whether the deposits can be encrypted and funded. -/
structure Submission where
  operationId : OperationId
  now : ℕ
  nextDueAt : ℕ
  recipients : List FediGuardianFeeRecipient
  minAllowedSeek : ℕ
  funded : Bool

/-- The deposits of a plan are one transaction of a new operation. -/
def depositToBtcBalancesDbtx (C : Crypto) (operationLog : BTreeMap OperationId (ℕ × Snapshot))
    (x : Submission) (plan : GuardianFeeRemittancePlan) : Res (BTreeMap OperationId (ℕ × Snapshot)) := do
  ensure (plan.recipients ≠ []) "btc-balance deposit batch is empty"
  ensure ((plan.recipients.map fun r => r.account.id C).Nodup)
    "btc-balance deposit batch contains duplicate accounts"
  ensure (∀ r ∈ plan.recipients, r.account.accType = .btcDepositor)
    "DepositToBtcBalance requires a btc-balance account"
  let amount ← checkedAmountSum 0 (plan.recipients.map fun r => r.amount)
  ensure (operationLog.get? x.operationId = none ∧ x.funded = true) "failed to submit transaction"
  .ok (operationLog.insert x.operationId (amount, plan.snapshot))

/-- The breakdown with its zero rows dropped. -/
def outstandingBreakdown (l : StreamLedger) : List GuardianFeeRemittanceBreakdownItem :=
  (l.outstandingPerTxType.entries.map fun e => ⟨e.1, e.2⟩).filter fun item => decide (item.amount ≠ 0)

/-- A due remittance, in one transaction. -/
def submitPlan (C : Crypto) (client : ClientDb) (x : Submission) : Res (ClientDb × SubmissionResult) := do
  let outstanding := client.fees.guardian.outstanding
  let breakdown := outstandingBreakdown client.fees.guardian
  let breakdownTotal ← checkedAmountSum 0 (breakdown.map fun item => item.amount)
  ensure (breakdownTotal = outstanding)
    s!"guardian outstanding total mismatch: total={outstanding} breakdown={breakdownTotal}"
  let plan ← planGuardianFeeRemittance C breakdown x.recipients x.minAllowedSeek
  match plan with
  | none => .ok (client, .noop)
  | some plan =>
    let operationLog ← depositToBtcBalancesDbtx C client.operationLog x plan
    let fees ← reserveGuardianFeeRemittanceDbtx client.fees x.operationId plan.amount plan.snapshot
    .ok (⟨fees, operationLog⟩, .submitted x.operationId)

/-- The transaction of `maybe_schedule_guardian_fee_remittance`. -/
def maybeScheduleGuardianFeeRemittance (C : Crypto) (client : ClientDb) (x : Submission) :
    Res (ClientDb × SubmissionResult) :=
  if client.fees.currentGuardianFeeRemittanceOperation.isSome = true then .ok (client, .noop)
  else if client.fees.guardian.outstanding = 0 then .ok (client, .noop)
  else
    match client.fees.guardian.nextRemittanceDueAt with
    | none =>
      .ok ({ client with
        fees := { client.fees with
          guardian := { client.fees.guardian with nextRemittanceDueAt := some x.nextDueAt } } }, .noop)
    | some nextDueAt => if x.now < nextDueAt then .ok (client, .noop) else submitPlan C client x

/-- A definitive rejection restores the slice in the metadata of the operation. -/
def handleGuardianFeeRemittanceFailure (client : ClientDb) (operationId : OperationId) : Res (ClientDb × Bool) :=
  match client.operationLog.get? operationId with
  | none => .ok (client, false)
  | some (amount, snapshot) =>
    restoreGuardianFeeRemittanceDbtx client.fees operationId amount snapshot >>= fun r =>
      .ok ({ client with fees := r.1 }, r.2)

def handleGuardianFeeRemittanceSuccess (client : ClientDb) (operationId : OperationId) (nextDueAt : ℕ) :
    ClientDb × Bool :=
  let r := settleGuardianFeeRemittanceDbtx client.fees operationId nextDueAt
  ({ client with fees := r.1 }, r.2)

/-! ## The slice of a plan -/

/-- Total of a snapshot. -/
def total (snapshot : Snapshot) : ℕ := (snapshot.map fun item => item.amount).sum

theorem total_cons (item : GuardianFeeRemittanceBreakdownItem) (breakdown : Snapshot) :
    total (item :: breakdown) = item.amount + total breakdown := rfl

/-- Zero rows count for nothing. -/
theorem total_filter (items : List GuardianFeeRemittanceBreakdownItem) :
    total (items.filter fun item => decide (item.amount ≠ 0)) = total items := by
  induction items with
  | nil => rfl
  | cons item items ih =>
    by_cases hzero : item.amount = 0
    · rw [List.filter_cons_of_neg (by simp [hzero]), ih, total_cons, hzero, Nat.zero_add]
    · rw [List.filter_cons_of_pos (by simp [hzero]), total_cons, total_cons, ih]

theorem total_outstandingBreakdown (l : StreamLedger) : total (outstandingBreakdown l) = l.breakdownTotal := by
  unfold outstandingBreakdown
  rw [total_filter, total, List.map_map]
  rfl

/-- What a plan takes off the breakdown: one positive row for each of some rows of it. -/
theorem splitBreakdown_keys {totalWeight : ℕ} {items : List GuardianFeeRemittanceBreakdownItem}
    {remittance remittance' : Snapshot} {shares shares' : List RecipientShare}
    (h : splitBreakdown totalWeight remittance shares items = .ok (remittance', shares')) :
    ∃ slice, remittance' = remittance ++ slice ∧
      (slice.map fun item => item.txType).Sublist (items.map fun item => item.txType) := by
  induction items generalizing remittance shares with
  | nil =>
    cases h
    exact ⟨[], (List.append_nil _).symm, .slnil⟩
  | cons item items ih =>
    unfold splitBreakdown at h
    dsimp only at h
    split at h
    · obtain ⟨slice, hslice, hsub⟩ := ih h
      exact ⟨slice, hslice, hsub.cons item.txType⟩
    · obtain ⟨remitted, -, h⟩ := bind_eq_ok.mp h
      obtain ⟨shares1, -, h⟩ := bind_eq_ok.mp h
      obtain ⟨slice, hslice, hsub⟩ := ih h
      refine ⟨⟨item.txType, remitted⟩ :: slice, ?_, hsub.cons_cons item.txType⟩
      rw [hslice, List.append_assoc]
      rfl

/-- What a plan says, besides the recipients' breakdowns. -/
structure PlanFits (breakdown : List GuardianFeeRemittanceBreakdownItem) (plan : GuardianFeeRemittancePlan) :
    Prop where
  amount : plan.amount = total plan.snapshot
  recipients : (plan.recipients.map fun r => r.amount).sum = plan.amount
  keys : (plan.snapshot.map fun item => item.txType).Sublist (breakdown.map fun item => item.txType)

theorem planGuardianFeeRemittance_fits {C : Crypto} {breakdown : List GuardianFeeRemittanceBreakdownItem}
    {recipients : List FediGuardianFeeRecipient} {minimum : ℕ} {plan : GuardianFeeRemittancePlan}
    (h : planGuardianFeeRemittance C breakdown recipients minimum = .ok (some plan)) : PlanFits breakdown plan := by
  obtain ⟨totalWeight, -, h⟩ := bind_eq_ok.mp h
  obtain ⟨split, hsplit, h⟩ := bind_eq_ok.mp h
  split at h
  · cases h
  · obtain ⟨plan', hplan, h⟩ := bind_eq_ok.mp h
    cases h
    obtain ⟨remittances, -, h⟩ := bind_eq_ok.mp hplan
    obtain ⟨remittanceAmount, hamount, h⟩ := bind_eq_ok.mp h
    obtain ⟨recipientTotal, hrecipients, h⟩ := bind_eq_ok.mp h
    obtain ⟨_, hconserves, h⟩ := bind_eq_ok.mp h
    cases h
    obtain ⟨slice, hslice, hsub⟩ := splitBreakdown_keys hsplit
    rw [List.nil_append] at hslice
    refine ⟨?_, ?_, ?_⟩
    · rw [checkedAmountSum_eq hamount, Nat.zero_add]
      rfl
    · rw [checkedAmountSum_eq hrecipients, Nat.zero_add] at hconserves
      exact ensure_eq_ok.mp hconserves
    · rw [hslice]
      exact hsub

/-- The breakdown of the ledger has a row a key. -/
theorem outstandingBreakdown_keys (l : StreamLedger) :
    ((outstandingBreakdown l).map fun item => item.txType).Nodup := by
  have hkeys : (l.outstandingPerTxType.entries.map fun e =>
      (⟨e.1, e.2⟩ : GuardianFeeRemittanceBreakdownItem)).map (fun item => item.txType) =
        l.outstandingPerTxType.keys := by
    rw [List.map_map]
    rfl
  unfold outstandingBreakdown
  refine List.Nodup.sublist (List.filter_sublist.map _) ?_
  rw [hkeys]
  exact l.outstandingPerTxType.keys_nodup

/-! ## What a reservation moves -/

/-- Rows with distinct keys are replaced. -/
theorem writeRows_total (rows : BTreeMap TxType ℕ) {l : List (TxType × ℕ)} (hkeys : (l.map Prod.fst).Nodup) :
    (writeRows rows l).sumBy (fun _ amount => amount) + (l.map fun e => rows.getD e.1 0).sum =
      rows.sumBy (fun _ amount => amount) + (l.map Prod.snd).sum := by
  induction l generalizing rows with
  | nil => rfl
  | cons e l ih =>
    rw [List.map_cons, List.nodup_cons] at hkeys
    have hrest := ih (rows.insert e.1 e.2) hkeys.2
    have hsame : (l.map fun e' => (rows.insert e.1 e.2).getD e'.1 0) = l.map fun e' => rows.getD e'.1 0 := by
      refine List.map_congr_left fun e' he' => BTreeMap.getD_insert_ne _ _ _ fun heq => ?_
      exact hkeys.1 (heq ▸ List.mem_map_of_mem he')
    have hinsert := BTreeMap.sumBy_insert_getD (f := fun _ (amount : ℕ) => amount) rows e.1 e.2 rfl
    rw [hsame] at hrest
    unfold writeRows at hrest ⊢
    rw [List.foldl_cons, List.map_cons, List.map_cons, List.sum_cons, List.sum_cons]
    omega

theorem remainingRows {rows : BTreeMap TxType ℕ} {snapshot : Snapshot} {l : List (TxType × ℕ)}
    (h : snapshot.mapM (remainingRow rows) = .ok l) :
    l.map Prod.fst = snapshot.map (fun item => item.txType) ∧
      (l.map Prod.snd).sum + total snapshot = (l.map fun e => rows.getD e.1 0).sum := by
  induction snapshot generalizing l with
  | nil =>
    cases h
    exact ⟨rfl, rfl⟩
  | cons item snapshot ih =>
    rw [List.mapM_cons] at h
    obtain ⟨row, hrow, h⟩ := bind_eq_ok.mp h
    obtain ⟨rest, hrest, h⟩ := bind_eq_ok.mp h
    cases h
    obtain ⟨hkeys, hsum⟩ := ih hrest
    unfold remainingRow at hrow
    dsimp only at hrow
    split at hrow
    · cases hrow
      unfold total at hsum ⊢
      simp only [List.map_cons, List.sum_cons, hkeys, true_and]
      omega
    · cases hrow

theorem restoredRows {rows : BTreeMap TxType ℕ} {snapshot : Snapshot} {l : List (TxType × ℕ)}
    (h : snapshot.mapM (restoredRow rows) = .ok l) :
    l.map Prod.fst = snapshot.map (fun item => item.txType) ∧
      (l.map Prod.snd).sum = (l.map fun e => rows.getD e.1 0).sum + total snapshot := by
  induction snapshot generalizing l with
  | nil =>
    cases h
    exact ⟨rfl, rfl⟩
  | cons item snapshot ih =>
    rw [List.mapM_cons] at h
    obtain ⟨row, hrow, h⟩ := bind_eq_ok.mp h
    obtain ⟨rest, hrest, h⟩ := bind_eq_ok.mp h
    cases h
    obtain ⟨hkeys, hsum⟩ := ih hrest
    obtain ⟨restored, hadd, hrow⟩ := bind_eq_ok.mp hrow
    cases hrow
    have hexact := (checked_eq_ok.mp hadd).2
    unfold total at hsum ⊢
    simp only [List.map_cons, List.sum_cons, hkeys, true_and]
    omega

/-- An amount leaves the outstanding fees and their breakdown. -/
structure Reserves (l l' : StreamLedger) (amount : ℕ) : Prop where
  outstanding : l'.outstanding + amount = l.outstanding
  breakdown : l'.breakdownTotal + amount = l.breakdownTotal
  success : l'.successFees = l.successFees

theorem reserve_spec {dbtx dbtx' : FediFeeDb} {operationId : OperationId} {amount : ℕ} {snapshot : Snapshot}
    (h : reserveGuardianFeeRemittanceDbtx dbtx operationId amount snapshot = .ok dbtx')
    (hamount : amount = total snapshot) (hkeys : (snapshot.map fun item => item.txType).Nodup) :
    Reserves dbtx.guardian dbtx'.guardian amount ∧
      dbtx'.currentGuardianFeeRemittanceOperation = some operationId := by
  unfold reserveGuardianFeeRemittanceDbtx at h
  dsimp only at h
  split at h
  next hle =>
    obtain ⟨rows, hrows, h⟩ := bind_eq_ok.mp h
    cases h
    obtain ⟨hfst, hsum⟩ := remainingRows hrows
    rw [← hfst] at hkeys
    have hwrite := writeRows_total dbtx.guardian.outstandingPerTxType hkeys
    refine ⟨⟨Nat.sub_add_cancel hle, ?_, rfl⟩, rfl⟩
    unfold StreamLedger.breakdownTotal
    dsimp only
    omega
  next => cases h

/-- A callback of another operation changes nothing; that of the operation in flight puts the slice back. -/
theorem restore_spec {dbtx dbtx' : FediFeeDb} {operationId : OperationId} {amount : ℕ} {snapshot : Snapshot}
    {restored : Bool} (h : restoreGuardianFeeRemittanceDbtx dbtx operationId amount snapshot = .ok (dbtx', restored))
    (hsnapshot : dbtx.currentGuardianFeeRemittanceOperation = some operationId →
      amount = total snapshot ∧ (snapshot.map fun item => item.txType).Nodup) :
    (restored = false ∧ dbtx' = dbtx) ∨
      (restored = true ∧ dbtx.currentGuardianFeeRemittanceOperation = some operationId ∧
        Reserves dbtx'.guardian dbtx.guardian amount ∧ dbtx'.currentGuardianFeeRemittanceOperation = none) := by
  unfold restoreGuardianFeeRemittanceDbtx at h
  split at h
  next hcurrent =>
    obtain ⟨hamount, hkeys⟩ := hsnapshot hcurrent
    obtain ⟨outstanding, hadd, h⟩ := bind_eq_ok.mp h
    obtain ⟨rows, hrows, h⟩ := bind_eq_ok.mp h
    cases h
    obtain ⟨hfst, hsum⟩ := restoredRows hrows
    rw [← hfst] at hkeys
    have hwrite := writeRows_total dbtx.guardian.outstandingPerTxType hkeys
    refine .inr ⟨rfl, hcurrent, ⟨(checked_eq_ok.mp hadd).2.symm, ?_, rfl⟩, rfl⟩
    unfold StreamLedger.breakdownTotal
    dsimp only
    omega
  next =>
    cases h
    exact .inl ⟨rfl, rfl⟩

/-- Settling moves no fee. -/
theorem settle_spec {dbtx dbtx' : FediFeeDb} {operationId : OperationId} {nextDueAt : ℕ} {settled : Bool}
    (h : settleGuardianFeeRemittanceDbtx dbtx operationId nextDueAt = (dbtx', settled)) :
    (settled = false ∧ dbtx' = dbtx) ∨
      (settled = true ∧ dbtx.currentGuardianFeeRemittanceOperation = some operationId ∧
        Reserves dbtx'.guardian dbtx.guardian 0 ∧ dbtx'.currentGuardianFeeRemittanceOperation = none) := by
  unfold settleGuardianFeeRemittanceDbtx at h
  split at h
  next hcurrent =>
    cases h
    exact .inr ⟨rfl, hcurrent, ⟨rfl, rfl, rfl⟩, rfl⟩
  next =>
    cases h
    exact .inl ⟨rfl, rfl⟩

end FediFee
