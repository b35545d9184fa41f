import Fedi.FiPayments.Journal

/-!
# Funding transactions of the seat payments (`fi_payments/funding.rs`)

`submitSeatPayment` finalizes the transaction, consumes the hold and writes the journal in one
commit.  `awaitRejectedInputRefunds` follows the states of an operation until every input of its
rejected transaction has come back:

    restored outpoints → inputs of the accepted refunds = inputs of the rejected payment   (restored_spec)
-/

namespace FiPayments

open BTreeMaps Optimistic Runs FiFunding

section

variable (operationIdOf : QuoteId → OperationId) (txHash : Transaction ↪ TransactionId)

/-! ## Submission -/

structure SeatFundingPlan where
  mintModule : ModuleInstanceId
  quotedMsats : ℕ
  outputCount : ℕ
  issuanceHash : ℕ
  generation : MintGeneration
deriving DecidableEq

/-- The client knows its mint and the quoted outputs with their fees. -/
def seatFundingPlan (mintModule : ModuleInstanceId) (quotedMsats : ℕ) (parsed : ParsedPaidQuote) : SeatFundingPlan where
  mintModule := mintModule
  quotedMsats := quotedMsats
  outputCount := parsed.len
  issuanceHash := parsed.paymentHash
  generation := parsed.generation

/-- What the client makes of the quoted outputs: a balanced transaction, and where its change is. -/
structure Finalized where
  transaction : Transaction
  changeStart : ℕ
  changeCount : ℕ
deriving DecidableEq

/-- `finalize_and_submit_transaction_dbtx`: the operation is new, and its submission starts with
the commit. -/
def finalizeAndSubmit (quoteId : QuoteId) (finalized : Option Finalized) (dbtx : PaymentDb) :
    Except PaymentError (OutPointRange × List RowWrite) :=
  match dbtx.operations.get? (operationIdOf quoteId) with
  | some _ => .error .operationExists
  | none =>
    match finalized with
    | none => .error .fundingFailed
    | some tx =>
      let change : OutPointRange := ⟨txHash tx.transaction, tx.changeStart, tx.changeCount⟩
      .ok (change,
        [.operation (operationIdOf quoteId) ⟨FI_SEAT_PAYMENT_OPERATION_TYPE,
          some ⟨FI_SEAT_PAYMENT_OPERATION_META_VERSION, quoteId, change.txid, change⟩⟩,
         .submission (operationIdOf quoteId) (.created tx.transaction)])

/-- The amount of an item of the generation's mint. -/
def itemAmount (wrongType unsupported : DebitError) : MintGeneration → MintItem → Except DebitError ℕ
  | .mintV1, .v1 amountMsats _ => .ok amountMsats
  | .mintV1, .unsupportedV1 _ => .error unsupported
  | .mintV2, .v2 amountMsats _ => .ok amountMsats
  | .mintV2, .unsupportedV2 _ => .error unsupported
  | _, _ => .error wrongType

/-- `try_fold` with `checked_add` over items of one module. -/
def sumItems (otherModule wrongType unsupported overflowed : DebitError) (mintModule : ModuleInstanceId)
    (generation : MintGeneration) : ℕ → List TransactionItem → Except DebitError ℕ
  | sum, [] => .ok sum
  | sum, i :: items =>
    if i.moduleInstanceId = mintModule then
      match itemAmount wrongType unsupported generation i.item with
      | .error e => .error e
      | .ok amountMsats =>
        if sum + amountMsats < 2 ^ 64 then
          sumItems otherModule wrongType unsupported overflowed mintModule generation (sum + amountMsats) items
        else .error overflowed
    else .error otherModule

/-- Selected inputs less returned change. -/
def walletDebitFromFinalizedTransaction (transaction : Transaction) (changeRange : OutPointRange)
    (mintModule : ModuleInstanceId) (generation : MintGeneration) : Except DebitError ℕ :=
  if txHash transaction = changeRange.txid then do
    let inputTotal ← sumItems .inputModule .inputType .inputVersion .inputOverflowed mintModule generation 0
      transaction.inputs
    let change := (transaction.outputs.drop changeRange.startIdx).take changeRange.count
    let changeTotal ← sumItems .changeModule .changeType .changeVersion .changeOverflowed mintModule generation 0 change
    if change.length = changeRange.count then
      if changeTotal ≤ inputTotal then .ok (inputTotal - changeTotal) else .error .changeExceedsInputs
    else .error .changeOutOfRange
  else .error .otherTransaction

/-- The transaction of the submission that was just written. -/
def createdTransaction (operationId : OperationId) (submissions : List (OperationId × TxSubmissionState)) :
    Option Transaction :=
  submissions.findSome? fun
    | (operationId', .created transaction) => if operationId' = operationId then some transaction else none
    | _ => none

/-- The hold's row and the total, when the hold was there to be consumed. -/
def consumedWrites (token : Token) : Bool × FundingDb → List RowWrite
  | (false, _) => []
  | (true, funding) =>
    (funding.reservations.get? token).toList.map (.reservation token) ++ funding.reservedTotal.toList.map .reservedTotal

def newJournal (plan : SeatFundingPlan) (txid : TransactionId) : FiSeatPaymentJournal where
  version := FI_SEAT_PAYMENT_JOURNAL_VERSION
  generation := mintGenerationCode plan.generation
  mintModule := plan.mintModule
  txid := txid
  outputCount := plan.outputCount
  issuanceHash := plan.issuanceHash
  paymentSignatures := none
  claimedRefundIssuanceHash := none
  creditedRefundIssuanceHash := none

/-- The closure of `submit_seat_payment`. -/
def submitSeatPayment (token : Token) (quoteId : QuoteId) (plan : SeatFundingPlan) (virtualBalance : ℕ)
    (finalized : Option Finalized) : Closure FiSeatPaymentJournal := fun dbtx => do
  let (changeRange, writes) ← finalizeAndSubmit operationIdOf txHash quoteId finalized dbtx
  match createdTransaction (operationIdOf quoteId) (paymentRows.writeAll writes dbtx).submissions with
  | none => .error .submissionMissing
  | some transaction =>
    match walletDebitFromFinalizedTransaction txHash transaction changeRange plan.mintModule plan.generation with
    | .error e => .error (.debit e)
    | .ok exactDebit =>
      if exactDebit ≤ virtualBalance then
        match consumeMemberDbtx token quoteId exactDebit dbtx.funding with
        | (.error e, _) => .error (.hold e)
        | (.ok changed, funding) =>
          let journal := newJournal plan changeRange.txid
          .ok (journal, writes ++ consumedWrites token (changed, funding) ++ [.journal quoteId journal])
      else .error .debitExceedsBalance

/-- The balance that the spend guard's owner may spend, before the closure. -/
def checkSeatBalance (availableBalance : ℕ) (token : Token) (plan : SeatFundingPlan) (db : PaymentDb) :
    Except PaymentError ℕ :=
  match balanceIncludingReservation availableBalance token db.funding with
  | .error e => .error (.hold e)
  | .ok virtualBalance => if plan.quotedMsats ≤ virtualBalance then .ok virtualBalance else .error .insufficientBalance

/-! ## Outcomes -/

inductive SeatPaymentTxStatus where
  | accepted
  | rejected
  | pending
deriving DecidableEq

/-- The first terminal state of the transaction among the updates that came in time. -/
def seatPaymentTxStatus (txid : TransactionId) : List TxSubmissionState → SeatPaymentTxStatus
  | [] => .pending
  | .accepted txid' :: updates => if txid' = txid then .accepted else seatPaymentTxStatus txid updates
  | .rejected txid' :: updates => if txid' = txid then .rejected else seatPaymentTxStatus txid updates
  | _ :: updates => seatPaymentTxStatus txid updates

/-- How many times each note is an input. -/
def countPayerNotes (transaction : Transaction) (mintModule : ModuleInstanceId) :
    Except RefundError (Multiset TransactionItem) :=
  if ∀ input ∈ transaction.inputs, input.moduleInstanceId = mintModule then
    if ∀ input ∈ transaction.inputs, transaction.inputs.count input < 2 ^ 64 then .ok transaction.inputs
    else .error .noteCountOverflowed
  else .error .nonPayerInput

structure RefundTracker where
  transactions : BTreeMap TransactionId Transaction
  accepted : BTreeMap TransactionId Unit
  rejected : BTreeMap TransactionId Unit
  counted : BTreeMap TransactionId Unit
  originalInputs : Option (Multiset TransactionItem)
  recovered : Multiset TransactionItem
  refundOutpoints : List OutPoint

def RefundTracker.empty : RefundTracker := ⟨.empty, .empty, .empty, .empty, none, 0, []⟩

inductive RefundStep where
  | more (t : RefundTracker)
  | restored (outpoints : List OutPoint)

namespace RefundTracker

def record (originalTxid : TransactionId) (mintModule : ModuleInstanceId) (t : RefundTracker) :
    TxSubmissionState → Except RefundError RefundTracker
  | .created transaction =>
    if txHash transaction = originalTxid then
      match countPayerNotes transaction mintModule with
      | .error e => .error e
      | .ok inputs =>
        if inputs = 0 then .error .noPayerInputs
        else .ok { t with originalInputs := some inputs,
                          transactions := t.transactions.insert (txHash transaction) transaction }
    else .ok { t with transactions := t.transactions.insert (txHash transaction) transaction }
  | .accepted txid =>
    if t.rejected.get? txid = none then .ok { t with accepted := t.accepted.insert txid () }
    else .error .contradictoryStates
  | .rejected txid =>
    if t.accepted.get? txid = none then .ok { t with rejected := t.rejected.insert txid () }
    else .error .contradictoryStates
  | .nonRetryableError => .ok t

/-- The accepted transactions that were not counted yet and whose body is known. -/
def ready (originalTxid : TransactionId) (t : RefundTracker) : List (TransactionId × Transaction) :=
  (t.accepted.keys.filter fun txid => decide (txid ≠ originalTxid ∧ t.counted.get? txid = none)).filterMap
    fun txid => (t.transactions.get? txid).map fun transaction => (txid, transaction)

def outpoints (txid : TransactionId) (transaction : Transaction) : List OutPoint :=
  (List.range transaction.outputs.length).map fun outIdx => ⟨txid, outIdx⟩

def count (t : RefundTracker) (txid : TransactionId) (transaction : Transaction) : RefundTracker :=
  { t with recovered := t.recovered + transaction.inputs,
           refundOutpoints := t.refundOutpoints ++ outpoints txid transaction,
           counted := t.counted.insert txid () }

def countRefunds (mintModule : ModuleInstanceId) (originalInputs : Multiset TransactionItem) (t : RefundTracker) :
    List (TransactionId × Transaction) → Except RefundError RefundStep
  | [] => .ok (.more t)
  | (txid, transaction) :: ready =>
    match countPayerNotes transaction mintModule with
    | .error e => .error e
    | .ok candidateInputs =>
      if candidateInputs ≠ 0 ∧ candidateInputs ≤ originalInputs then
        if transaction.outputs ≠ [] ∧ ∀ output ∈ transaction.outputs, output.moduleInstanceId = mintModule then
          if t.recovered + candidateInputs ≤ originalInputs then
            if t.recovered + candidateInputs = originalInputs then
              .ok (.restored (t.count txid transaction).refundOutpoints)
            else countRefunds mintModule originalInputs (t.count txid transaction) ready
          else .error .refundsOverlap
        else .error .outputModule
      else .error .notARefund

end RefundTracker

/-- One update of the operation's stream. -/
def trackRefund (operationId : OperationId) (originalTxid : TransactionId) (mintModule : ModuleInstanceId)
    (t : RefundTracker) (update : OperationId × TxSubmissionState) : Except RefundError RefundStep :=
  if update.1 = operationId then
    match t.record txHash originalTxid mintModule update.2 with
    | .error e => .error e
    | .ok t =>
      match t.originalInputs with
      | none => .ok (.more t)
      | some originalInputs => t.countRefunds mintModule originalInputs (t.ready originalTxid)
  else .error .otherOperation

/-- `await_rejected_input_refunds` over the updates that came in time. -/
def awaitRejectedInputRefunds (operationId : OperationId) (originalTxid : TransactionId)
    (mintModule : ModuleInstanceId) :
    RefundTracker → List (OperationId × TxSubmissionState) → Except RefundError (Option (List OutPoint))
  | _, [] => .ok none
  | t, update :: updates =>
    match trackRefund txHash operationId originalTxid mintModule t update with
    | .error e => .error e
    | .ok (.restored outpoints) => .ok (some outpoints)
    | .ok (.more t) => awaitRejectedInputRefunds operationId originalTxid mintModule t updates

/-! ## What a finished refund has seen -/

section

variable (operationId : OperationId) (originalTxid : TransactionId) (mintModule : ModuleInstanceId)

/-- An accepted sibling of the rejected payment. -/
structure IsSibling (seen : List (OperationId × TxSubmissionState)) (r : TransactionId × Transaction) : Prop where
  other : r.1 ≠ originalTxid
  txid : txHash r.2 = r.1
  created : (operationId, .created r.2) ∈ seen
  accepted : (operationId, .accepted r.1) ∈ seen

/-- A sibling that pays the mint alone. -/
structure IsRefund (seen : List (OperationId × TxSubmissionState)) (r : TransactionId × Transaction) : Prop
    extends IsSibling txHash operationId originalTxid seen r where
  outputs : r.2.outputs ≠ [] ∧ ∀ output ∈ r.2.outputs, output.moduleInstanceId = mintModule

/-- Distinct accepted refunds spend just the inputs of the rejected payment, each as often as it did. -/
def Restores (seen : List (OperationId × TxSubmissionState)) (outpoints : List OutPoint) : Prop :=
  ∃ (transaction : Transaction) (refunds : List (TransactionId × Transaction)),
    (operationId, .created transaction) ∈ seen ∧ txHash transaction = originalTxid ∧
      (refunds.map Prod.fst).Nodup ∧ (∀ r ∈ refunds, IsRefund txHash operationId originalTxid mintModule seen r) ∧
      (refunds.map fun r => (r.2.inputs : Multiset TransactionItem)).sum = transaction.inputs ∧
      outpoints = refunds.flatMap fun r => RefundTracker.outpoints r.1 r.2

/-- The tracker knows what it saw, and counted each refund once. -/
structure Tracks (seen : List (OperationId × TxSubmissionState)) (t : RefundTracker)
    (refunds : List (TransactionId × Transaction)) : Prop where
  transactions : ∀ txid transaction, t.transactions.get? txid = some transaction →
    txHash transaction = txid ∧ (operationId, .created transaction) ∈ seen
  accepted : ∀ txid, t.accepted.get? txid = some () → (operationId, .accepted txid) ∈ seen
  original : ∀ inputs, t.originalInputs = some inputs →
    ∃ transaction : Transaction, (operationId, .created transaction) ∈ seen ∧ txHash transaction = originalTxid ∧
      inputs = transaction.inputs
  counted : ∀ txid, t.counted.get? txid = none → txid ∉ refunds.map Prod.fst
  nodup : (refunds.map Prod.fst).Nodup
  areRefunds : ∀ r ∈ refunds, IsRefund txHash operationId originalTxid mintModule seen r
  recovered : t.recovered = (refunds.map fun r => (r.2.inputs : Multiset TransactionItem)).sum
  outpoints : t.refundOutpoints = refunds.flatMap fun r => RefundTracker.outpoints r.1 r.2

end

section

variable {operationIdOf txHash} {operationId : OperationId} {originalTxid : TransactionId}
  {mintModule : ModuleInstanceId} {seen : List (OperationId × TxSubmissionState)} {t t' : RefundTracker}
  {refunds : List (TransactionId × Transaction)}

theorem IsRefund.mono {r : TransactionId × Transaction} {seen' : List (OperationId × TxSubmissionState)}
    (h : IsRefund txHash operationId originalTxid mintModule seen r) (hsub : seen ⊆ seen') :
    IsRefund txHash operationId originalTxid mintModule seen' r :=
  ⟨⟨h.other, h.txid, hsub h.created, hsub h.accepted⟩, h.outputs⟩

theorem tracks_empty : Tracks txHash operationId originalTxid mintModule [] .empty [] :=
  ⟨fun _ _ h => (by cases h), fun _ h => (by cases h), fun _ h => (by cases h), fun _ _ => (by simp), by simp,
    fun _ h => (by cases h), rfl, rfl⟩

theorem Tracks.mono (h : Tracks txHash operationId originalTxid mintModule seen t refunds)
    {seen' : List (OperationId × TxSubmissionState)} (hsub : seen ⊆ seen') :
    Tracks txHash operationId originalTxid mintModule seen' t refunds where
  transactions txid transaction hget := (h.transactions txid transaction hget).imp_right fun hmem => hsub hmem
  accepted txid hget := hsub (h.accepted txid hget)
  original inputs heq :=
    let ⟨transaction, hcreated, hrest⟩ := h.original inputs heq
    ⟨transaction, hsub hcreated, hrest⟩
  counted := h.counted
  nodup := h.nodup
  areRefunds r hr := (h.areRefunds r hr).mono hsub
  recovered := h.recovered
  outpoints := h.outpoints

theorem countPayerNotes_spec {transaction : Transaction} {inputs : Multiset TransactionItem}
    (h : countPayerNotes transaction mintModule = .ok inputs) : inputs = transaction.inputs := by
  unfold countPayerNotes at h
  split at h
  · split at h
    · cases h
      rfl
    · cases h
  · cases h

/-- A transaction whose body is seen becomes known. -/
theorem Tracks.insertTransaction (h : Tracks txHash operationId originalTxid mintModule seen t refunds)
    {transaction : Transaction} (hcreated : (operationId, .created transaction) ∈ seen) :
    Tracks txHash operationId originalTxid mintModule seen
      { t with transactions := t.transactions.insert (txHash transaction) transaction } refunds where
  transactions txid transaction' hget := by
    rw [BTreeMap.get?_insert] at hget
    split at hget
    next heq =>
      cases hget
      exact ⟨heq.symm, hcreated⟩
    next => exact h.transactions txid transaction' hget
  accepted := h.accepted
  original := h.original
  counted := h.counted
  nodup := h.nodup
  areRefunds := h.areRefunds
  recovered := h.recovered
  outpoints := h.outpoints

theorem Tracks.record (h : Tracks txHash operationId originalTxid mintModule seen t refunds)
    {state : TxSubmissionState} (hmem : (operationId, state) ∈ seen)
    (hrecord : t.record txHash originalTxid mintModule state = .ok t') :
    Tracks txHash operationId originalTxid mintModule seen t' refunds := by
  unfold RefundTracker.record at hrecord
  split at hrecord
  next transaction =>
    split at hrecord
    next horiginal =>
      split at hrecord
      · cases hrecord
      next inputs hinputs =>
        split at hrecord
        · cases hrecord
        · cases hrecord
          have hknown := h.insertTransaction hmem
          refine ⟨hknown.transactions, h.accepted, fun inputs' heq => ?_, h.counted, h.nodup, h.areRefunds, h.recovered,
            h.outpoints⟩
          cases heq
          exact ⟨transaction, hmem, horiginal, countPayerNotes_spec hinputs⟩
    next =>
      cases hrecord
      exact h.insertTransaction hmem
  next txid =>
    split at hrecord
    · cases hrecord
      refine ⟨h.transactions, fun txid' hget => ?_, h.original, h.counted, h.nodup, h.areRefunds, h.recovered,
        h.outpoints⟩
      dsimp only at hget
      rw [BTreeMap.get?_insert] at hget
      split at hget
      next heq =>
        subst heq
        exact hmem
      next => exact h.accepted txid' hget
    · cases hrecord
  next txid =>
    split at hrecord
    · cases hrecord
      exact ⟨h.transactions, h.accepted, h.original, h.counted, h.nodup, h.areRefunds, h.recovered, h.outpoints⟩
    · cases hrecord
  · cases hrecord
    exact h

/-- One more refund is counted. -/
theorem Tracks.count (h : Tracks txHash operationId originalTxid mintModule seen t refunds)
    {r : TransactionId × Transaction} (hr : IsRefund txHash operationId originalTxid mintModule seen r)
    (hnew : t.counted.get? r.1 = none) :
    Tracks txHash operationId originalTxid mintModule seen (t.count r.1 r.2) (refunds ++ [r]) where
  transactions := h.transactions
  accepted := h.accepted
  original := h.original
  counted txid hget := by
    unfold RefundTracker.count at hget
    dsimp only at hget
    rw [BTreeMap.get?_insert] at hget
    split at hget
    · cases hget
    next hne =>
      have hcounted := h.counted txid hget
      rw [List.map_append, List.mem_append, not_or]
      exact ⟨hcounted, by simpa using hne⟩
  nodup := by
    rw [List.map_append, List.nodup_append]
    exact ⟨h.nodup, by simp, fun a ha b hb heq => h.counted r.1 hnew (by
      rw [List.map_singleton, List.mem_singleton] at hb
      rw [← hb, ← heq]
      exact ha)⟩
  areRefunds r' hr' := by
    rcases List.mem_append.mp hr' with hr' | hr'
    · exact h.areRefunds r' hr'
    · rw [List.mem_singleton.mp hr']
      exact hr
  recovered := by
    unfold RefundTracker.count
    dsimp only
    rw [h.recovered, List.map_append, List.sum_append, List.map_singleton, List.sum_singleton]
  outpoints := by
    unfold RefundTracker.count
    dsimp only
    rw [h.outpoints, List.flatMap_append, List.flatMap_singleton]

/-- Counting the ready refunds keeps the account, or completes it. -/
theorem countRefunds_spec {originalInputs : Multiset TransactionItem} {ready : List (TransactionId × Transaction)}
    (h : Tracks txHash operationId originalTxid mintModule seen t refunds)
    (hready : ∀ r ∈ ready, IsSibling txHash operationId originalTxid seen r)
    (hnew : ∀ r ∈ ready, t.counted.get? r.1 = none) (hnodup : (ready.map Prod.fst).Nodup)
    (horiginal : t.originalInputs = some originalInputs) {step : RefundStep}
    (hstep : t.countRefunds mintModule originalInputs ready = .ok step) :
    (∀ t', step = .more t' → ∃ refunds', Tracks txHash operationId originalTxid mintModule seen t' refunds') ∧
      ∀ outpoints, step = .restored outpoints →
        Restores txHash operationId originalTxid mintModule seen outpoints := by
  induction ready generalizing t refunds with
  | nil =>
    cases hstep
    refine ⟨fun t' heq => ?_, fun _ heq => (by cases heq)⟩
    cases heq
    exact ⟨refunds, h⟩
  | cons r ready ih =>
    unfold RefundTracker.countRefunds at hstep
    split at hstep
    · cases hstep
    next candidateInputs hinputs =>
      have hcandidate := countPayerNotes_spec hinputs
      subst hcandidate
      split at hstep
      · split at hstep
        next houtputs =>
          have hcount := h.count ⟨hready r List.mem_cons_self, houtputs⟩ (hnew r List.mem_cons_self)
          split at hstep
          · split at hstep
            next hcomplete =>
              cases hstep
              refine ⟨fun _ heq => (by cases heq), fun outpoints heq => ?_⟩
              cases heq
              obtain ⟨transaction, hcreated, htxid, hinputs⟩ := h.original originalInputs horiginal
              refine ⟨transaction, refunds ++ [r], hcreated, htxid, hcount.nodup, hcount.areRefunds, ?_, hcount.outpoints⟩
              rw [← hcount.recovered, ← hinputs]
              exact hcomplete
            next =>
              rw [List.map_cons, List.nodup_cons] at hnodup
              refine ih hcount (fun r' hr' => hready r' (List.mem_cons_of_mem _ hr')) (fun r' hr' => ?_) hnodup.2
                horiginal hstep
              have hne : r'.1 ≠ r.1 := fun heq => hnodup.1 (heq ▸ List.mem_map_of_mem hr')
              show (t.counted.insert r.1 ()).get? r'.1 = none
              rw [BTreeMap.get?_insert_ne _ _ hne]
              exact hnew r' (List.mem_cons_of_mem _ hr')
          · cases hstep
        · cases hstep
      · cases hstep

theorem mem_ready_iff {r : TransactionId × Transaction} : r ∈ t.ready originalTxid ↔
    t.accepted.get? r.1 = some () ∧ r.1 ≠ originalTxid ∧ t.counted.get? r.1 = none ∧
      t.transactions.get? r.1 = some r.2 := by
  constructor
  · intro h
    obtain ⟨txid, hmem, hbody⟩ := List.mem_filterMap.mp h
    obtain ⟨transaction, hget, rfl⟩ := Option.map_eq_some_iff.mp hbody
    obtain ⟨hkey, hnew⟩ := List.mem_filter.mp hmem
    obtain ⟨⟨⟩, haccepted⟩ := BTreeMap.mem_keys.mp hkey
    exact ⟨haccepted, (of_decide_eq_true hnew).1, (of_decide_eq_true hnew).2, hget⟩
  · rintro ⟨haccepted, hother, hnew, hbody⟩
    refine List.mem_filterMap.mpr ⟨r.1, List.mem_filter.mpr ⟨?_, decide_eq_true ⟨hother, hnew⟩⟩, ?_⟩
    · exact BTreeMap.mem_keys.mpr ⟨(), haccepted⟩
    · rw [hbody]
      rfl

theorem ready_nodup (t : RefundTracker) (originalTxid : TransactionId) :
    ((t.ready originalTxid).map Prod.fst).Nodup := by
  have hkeys := (t.accepted.keys_nodup).filter fun txid => decide (txid ≠ originalTxid ∧ t.counted.get? txid = none)
  refine (hkeys.sublist ?_ : _)
  unfold RefundTracker.ready
  rw [List.map_filterMap]
  generalize t.accepted.keys.filter _ = keys
  induction keys with
  | nil => exact .slnil
  | cons txid keys ih =>
    rw [List.filterMap_cons]
    cases hget : t.transactions.get? txid with
    | none => exact .cons _ ih
    | some transaction => exact .cons_cons _ ih

/-- One update keeps the account, or completes it. -/
theorem trackRefund_spec (h : Tracks txHash operationId originalTxid mintModule seen t refunds)
    {update : OperationId × TxSubmissionState} {step : RefundStep}
    (hstep : trackRefund txHash operationId originalTxid mintModule t update = .ok step) :
    (∀ t', step = .more t' → ∃ refunds', Tracks txHash operationId originalTxid mintModule (seen ++ [update]) t' refunds') ∧
      ∀ outpoints, step = .restored outpoints →
        Restores txHash operationId originalTxid mintModule (seen ++ [update]) outpoints := by
  unfold trackRefund at hstep
  split at hstep
  next hoperation =>
    split at hstep
    · cases hstep
    next t' hrecord =>
      have hmem : (operationId, update.2) ∈ seen ++ [update] := by
        rw [← hoperation]
        exact List.mem_append_right seen List.mem_cons_self
      have htracks := (h.mono (List.subset_append_left seen [update])).record hmem hrecord
      split at hstep
      · cases hstep
        refine ⟨fun t'' heq => ?_, fun _ heq => (by cases heq)⟩
        cases heq
        exact ⟨refunds, htracks⟩
      next originalInputs horiginal =>
        refine countRefunds_spec htracks (fun r hr => ?_) (fun r hr => (mem_ready_iff.mp hr).2.2.1)
          (ready_nodup t' originalTxid) horiginal hstep
        obtain ⟨haccepted, hother, -, hbody⟩ := mem_ready_iff.mp hr
        obtain ⟨htxid, hcreated⟩ := htracks.transactions r.1 r.2 hbody
        exact ⟨hother, htxid, hcreated, htracks.accepted r.1 haccepted⟩
  · cases hstep

theorem Restores.mono {seen' : List (OperationId × TxSubmissionState)} {outpoints : List OutPoint}
    (h : Restores txHash operationId originalTxid mintModule seen outpoints) (hsub : seen ⊆ seen') :
    Restores txHash operationId originalTxid mintModule seen' outpoints := by
  obtain ⟨transaction, refunds, hcreated, htxid, hnodup, hrefunds, hsum, houtpoints⟩ := h
  exact ⟨transaction, refunds, hsub hcreated, htxid, hnodup, fun r hr => (hrefunds r hr).mono hsub, hsum, houtpoints⟩

theorem awaitRefunds_spec (h : Tracks txHash operationId originalTxid mintModule seen t refunds)
    {updates : List (OperationId × TxSubmissionState)} {outpoints : List OutPoint}
    (hrestored : awaitRejectedInputRefunds txHash operationId originalTxid mintModule t updates = .ok (some outpoints)) :
    Restores txHash operationId originalTxid mintModule (seen ++ updates) outpoints := by
  induction updates generalizing seen t refunds with
  | nil => cases hrestored
  | cons update updates ih =>
    unfold awaitRejectedInputRefunds at hrestored
    have happend : seen ++ update :: updates = (seen ++ [update]) ++ updates := by simp
    rw [happend]
    split at hrestored
    · cases hrestored
    next outpoints' hstep =>
      cases hrestored
      exact ((trackRefund_spec h hstep).2 _ rfl).mono (List.subset_append_left _ _)
    next t' hstep =>
      obtain ⟨refunds', htracks⟩ := (trackRefund_spec h hstep).1 t' rfl
      exact ih htracks hrestored

/-- A finished wait has seen every input of the rejected payment come back once. -/
theorem restored_spec {updates : List (OperationId × TxSubmissionState)} {outpoints : List OutPoint}
    (h : awaitRejectedInputRefunds txHash operationId originalTxid mintModule .empty updates = .ok (some outpoints)) :
    Restores txHash operationId originalTxid mintModule updates outpoints := by
  have hspec := awaitRefunds_spec tracks_empty h
  rwa [List.nil_append] at hspec

end

end

end FiPayments
