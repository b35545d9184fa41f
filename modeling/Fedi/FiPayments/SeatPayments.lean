import Fedi.FiPayments.Records

/-!
# Seat payments (`fi_payments.rs`)

`create_seat_payment` and `recover_seat_payment` run next to each other, to the writers of the journal
and to the rest of the wallet, and any of them may be cut short by a crash.  The federation's verdict on
a transaction is final, and an operation's submission runs once its transaction has committed.  Then

    at most one funding transaction a quote; its journal, operation and consumed hold exist
    together or not at all; recovery says NotStarted only before it, and Rejected only after the
    federation did and every input is back                                  (paidOnce_of_run)
    a refund issuance settles one quote, and a quote one issuance           (refundClaims_of_run)
-/

namespace FiPayments

open BTreeMaps Optimistic Runs FiFunding

/-! ## Calls -/

inductive SeatCallKind where
  | recover
  | create (reservationFederation : String)
deriving DecidableEq

/-- A call with the terms that its quote parses to. -/
structure SeatCall where
  kind : SeatCallKind
  token : Token
  quoteId : QuoteId
  terms : Option ParsedPaidQuote
deriving DecidableEq

/-- Where a call waits; each phase reads the database, or commits to it, once. -/
inductive Phase where
  | begun
  | probing (parsed : ParsedPaidQuote)
  | funding (parsed : ParsedPaidQuote)
  | planned (plan : SeatFundingPlan) (virtualBalance : ℕ)
  | committing (plan : SeatFundingPlan) (virtualBalance : ℕ) (attempt : Attempt PaymentDb)
  | watching (journal : FiSeatPaymentJournal)
  | settling (journal : FiSeatPaymentJournal)
  | refunding (journal : FiSeatPaymentJournal)
  | proving (journal : FiSeatPaymentJournal)
  | caching (attempt : Attempt PaymentDb) (signatures : List (List UInt8))

structure Task where
  call : SeatCall
  phase : Phase

inductive Answer where
  | notStarted
  | prepared (signatures : List (List UInt8))
  | rejected
  | failed (e : PaymentError)
deriving DecidableEq

/-- The writers of a journal, called on their own. -/
inductive WriterCall where
  | guardRefundSettlement (quoteId : QuoteId) (issuanceHash : RefundIssuanceHash)
  | recordRefundCreditCompleted (quoteId : QuoteId) (issuanceHash : RefundIssuanceHash)
  | persistJournalSignatures (quoteId : QuoteId) (paymentSignatures : List (List UInt8))
deriving DecidableEq

def WriterCall.closure : WriterCall → Closure Unit
  | .guardRefundSettlement quoteId issuanceHash => FiPayments.guardRefundSettlement quoteId issuanceHash
  | .recordRefundCreditCompleted quoteId issuanceHash => FiPayments.recordRefundCreditCompleted quoteId issuanceHash
  | .persistJournalSignatures quoteId paymentSignatures => FiPayments.persistJournalSignatures quoteId paymentSignatures

def WriterCall.attempts : WriterCall → ℕ
  | .persistJournalSignatures _ _ => 1
  | _ => 100

structure Writer where
  call : WriterCall
  attempt : Attempt PaymentDb

/-- The wallet, what runs on it, and the federation. -/
structure System where
  db : PaymentDb
  tasks : List Task
  writers : List Writer
  /-- The funding transactions that were committed. -/
  fundings : List (QuoteId × Transaction)
  /-- The funding transactions that were handed to the federation. -/
  sent : List (QuoteId × Transaction)
  /-- The federation's verdicts. -/
  outcomes : BTreeMap TransactionId Bool
  /-- The outputs whose notes the wallet has. -/
  spendable : List OutPoint

def System.start : System := ⟨.empty, [], [], [], [], .empty, []⟩

/-- What a phase meets outside the database. -/
structure World where
  mint : Option (ModuleInstanceId × ℕ)
  availableBalance : ℕ
  finalized : Option Finalized
  refused : Bool
  updates : List (OperationId × TxSubmissionState)
  timedOut : Bool
  signatures : Option (List (List UInt8))

section

variable (operationIdOf : QuoteId → OperationId) (txHash : Transaction ↪ TransactionId) (federationId : String)

/-- `ensure_member`. -/
def ensureMember (token : Token) (quoteId : QuoteId) (db : PaymentDb) : Except FundingError MemberState :=
  match db.funding.reservations.get? token with
  | none => .error .reservationMissing
  | some r =>
    match r.find quoteId with
    | none => .error .quoteNotInReservation
    | some m => .ok m.state

/-- The checks before the journal is read. -/
def checkCall (call : SeatCall) (db : PaymentDb) : Except PaymentError ParsedPaidQuote :=
  match call.terms with
  | none => .error .termsInvalid
  | some parsed =>
    if parsed.federationId = federationId then
      if call.kind = .recover ∨ call.kind = .create parsed.federationId then
        match ensureMember call.token call.quoteId db with
        | .error e => .error (.reservationInvalid e)
        | .ok _ => .ok parsed
      else .error .otherFederation
    else .error .federationUnavailable

/-- The next phase of a call, or its answer. -/
def advance (w : World) (s : System) (t : Task) : System × (Phase ⊕ Answer) :=
  match t.phase with
  | .begun =>
    match checkCall federationId t.call s.db with
    | .error e => (s, .inr (.failed e))
    | .ok parsed => (s, .inl (.probing parsed))
  | .probing parsed =>
    match s.db.journals.get? t.call.quoteId with
    | some journal =>
      match validateJournal journal parsed with
      | .error e => (s, .inr (.failed e))
      | .ok () => (s, .inl (.watching journal))
    | none =>
      match t.call.kind with
      | .recover => (s, .inr .notStarted)
      | .create _ => (s, .inl (.funding parsed))
  | .funding parsed =>
    match w.mint with
    | none => (s, .inr (.failed .fundingFailed))
    | some (mintModule, quotedMsats) =>
      let plan := seatFundingPlan mintModule quotedMsats parsed
      match checkSeatBalance w.availableBalance t.call.token plan s.db with
      | .error e => (s, .inr (.failed e))
      | .ok virtualBalance => (s, .inl (.planned plan virtualBalance))
  | .planned plan virtualBalance => (s, .inl (.committing plan virtualBalance ⟨s.db, 100⟩))
  | .committing plan virtualBalance attempt =>
    match autocommit paymentRows
        (submitSeatPayment operationIdOf txHash t.call.token t.call.quoteId plan virtualBalance w.finalized)
        w.refused attempt s.db with
    | .committed journal db =>
      ({ s with
          db := db
          fundings := s.fundings ++ w.finalized.toList.map fun tx => (t.call.quoteId, tx.transaction) },
        .inl (.watching journal))
    | .retry attempt => (s, .inl (.committing plan virtualBalance attempt))
    | .closureError e => (s, .inr (.failed e))
    | .commitFailed => (s, .inr (.failed .commitFailed))
  | .watching journal =>
    match seatPaymentChangeRange operationIdOf s.db t.call.quoteId journal with
    | .error e => (s, .inr (.failed e))
    | .ok _ =>
      let updates := (w.updates.filter fun u => decide (u.1 = operationIdOf t.call.quoteId)).map Prod.snd
      match seatPaymentTxStatus journal.txid updates, t.call.kind with
      | .accepted, _ => (s, .inl (.settling journal))
      | .rejected, .create _ => (s, .inr (.failed .rejectedByConsensus))
      | .rejected, .recover => (s, .inl (.refunding journal))
      | .pending, .create _ => (s, .inr (.failed .notAccepted))
      | .pending, .recover => (s, .inr (.failed .notFinal))
  | .settling journal =>
    if w.timedOut then (s, .inr (.failed .changeNotSpendable)) else (s, .inl (.proving journal))
  | .refunding journal =>
    match awaitRejectedInputRefunds txHash (operationIdOf t.call.quoteId) journal.txid journal.mintModule .empty
        w.updates with
    | .error e => (s, .inr (.failed (.refund e)))
    | .ok none => (s, .inr (.failed .inputsNotSpendable))
    | .ok (some outpoints) =>
      if w.timedOut = false ∧ ∀ o ∈ outpoints, o ∈ s.spendable then (s, .inr .rejected)
      else (s, .inr (.failed .inputsNotSpendable))
  | .proving journal =>
    match journal.paymentSignatures, w.signatures with
    | some signatures, _ => (s, .inr (.prepared signatures))
    | none, none => (s, .inr (.failed .signaturesFailed))
    | none, some signatures => (s, .inl (.caching ⟨s.db, 1⟩ signatures))
  | .caching attempt signatures =>
    -- Whether the signatures were cached does not change the answer.
    match autocommit paymentRows (persistJournalSignatures t.call.quoteId signatures) w.refused attempt s.db with
    | .committed _ db => ({ s with db := db }, .inr (.prepared signatures))
    | _ => (s, .inr (.prepared signatures))

/-! ## Runs -/

inductive Event where
  | call (call : SeatCall)
  | advance (i : ℕ) (w : World)
  | write (call : WriterCall)
  | commit (i : ℕ) (refused : Bool)
  /-- The other operations on holds keep the spend guard until they have committed. -/
  | hold (call : HoldCall) (availableBalance : ℕ) (commits : Bool)
  | operation (operationId : OperationId) (entry : Operation)
  /-- A committed submission hands its transaction to the federation, perhaps again. -/
  | send (i : ℕ)
  | verdict (txid : TransactionId) (accepted : Bool)
  | submission (operationId : OperationId) (state : TxSubmissionState)
  | issued (o : OutPoint)
  | crash

/-- A submission reports the federation's verdicts; its client may create further transactions. -/
def System.Reports (s : System) : TxSubmissionState → Prop
  | .accepted txid => s.outcomes.get? txid = some true
  | .rejected txid => s.outcomes.get? txid = some false
  | _ => True

instance (s : System) (state : TxSubmissionState) : Decidable (s.Reports state) := by
  unfold System.Reports
  split <;> infer_instance

def step (s : System) : Event → System × Option (SeatCall × Answer)
  | .call call => ({ s with tasks := s.tasks ++ [⟨call, .begun⟩] }, none)
  | .advance i w =>
    match s.tasks[i]? with
    | none => (s, none)
    | some t =>
      if ∀ u ∈ w.updates, u ∈ s.db.submissions then
        match advance operationIdOf txHash federationId w s t with
        | (s, .inl phase) => ({ s with tasks := s.tasks.set i ⟨t.call, phase⟩ }, none)
        | (s, .inr answer) => ({ s with tasks := s.tasks.eraseIdx i }, some (t.call, answer))
      else (s, none)
  | .write call => ({ s with writers := s.writers ++ [⟨call, ⟨s.db, call.attempts⟩⟩] }, none)
  | .commit i refused =>
    match s.writers[i]? with
    | none => (s, none)
    | some writer =>
      match autocommit paymentRows writer.call.closure refused writer.attempt s.db with
      | .committed _ db => ({ s with db := db, writers := s.writers.eraseIdx i }, none)
      | .retry attempt => ({ s with writers := s.writers.set i ⟨writer.call, attempt⟩ }, none)
      | _ => ({ s with writers := s.writers.eraseIdx i }, none)
  | .hold call availableBalance commits =>
    ({ s with db := { s.db with
        funding := fundingStep s.db.funding ⟨[call.toCall availableBalance], commits⟩ } }, none)
  | .operation operationId entry =>
    if s.db.operations.get? operationId = none ∧ entry.moduleKind ≠ FI_SEAT_PAYMENT_OPERATION_TYPE then
      ({ s with db := { s.db with operations := s.db.operations.insert operationId entry } }, none)
    else (s, none)
  | .send i => ({ s with sent := s.sent ++ s.fundings[i]?.toList }, none)
  | .verdict txid accepted =>
    if s.outcomes.get? txid = none then ({ s with outcomes := s.outcomes.insert txid accepted }, none) else (s, none)
  | .submission operationId state =>
    if s.Reports state then
      ({ s with db := { s.db with submissions := s.db.submissions ++ [(operationId, state)] } }, none)
    else (s, none)
  | .issued o =>
    if s.outcomes.get? o.txid = some true then ({ s with spendable := s.spendable ++ [o] }, none) else (s, none)
  | .crash => ({ s with tasks := [], writers := [] }, none)

def seatPayments (es : List Event) : System :=
  es.foldl (fun s e => (step operationIdOf txHash federationId s e).1) .start

/-! ## What is promised -/

/-- Accepted refunds spend just the inputs of a transaction, and the wallet has the notes that they issue. -/
structure Refunded (s : System) (transaction : Transaction) (refunds : List Transaction) : Prop where
  distinct : refunds.Nodup
  accepted : ∀ r ∈ refunds, s.outcomes.get? (txHash r) = some true
  inputs : (refunds.map fun r => (r.inputs : Multiset TransactionItem)).sum = transaction.inputs
  spendable : ∀ r ∈ refunds, r.outputs ≠ [] ∧ ∀ outIdx, outIdx < r.outputs.length → ⟨txHash r, outIdx⟩ ∈ s.spendable

/-- One funding transaction at most was committed for a quote, and only that one is ever sent. -/
structure OneFunding (s : System) : Prop where
  once : (s.fundings.map Prod.fst).Nodup
  sent : ∀ quoteId transaction, (quoteId, transaction) ∈ s.sent → (quoteId, transaction) ∈ s.fundings

/-- The journal, the operation and one consumed hold of a quote exist together or not at all. -/
def Together (db : PaymentDb) : Prop :=
  ∀ quoteId, (db.journals.get? quoteId ≠ none ↔ HasOperation operationIdOf db quoteId) ∧
    (db.journals.get? quoteId ≠ none ↔ ∃! token, ConsumedIn db.funding token quoteId)

/-- What recovery may answer in a state. -/
def Truthful (s : System) (quoteId : QuoteId) : Answer → Prop
  | .notStarted => ∀ transaction, (quoteId, transaction) ∉ s.fundings ∧ (quoteId, transaction) ∉ s.sent
  | .rejected => ∃ transaction refunds, (quoteId, transaction) ∈ s.fundings ∧
      s.outcomes.get? (txHash transaction) = some false ∧ Refunded txHash s transaction refunds
  | _ => True

/-- Each issuance is claimed by one quote at most, each quote claims and credits one issuance at most,
and what it credits it has claimed. -/
structure ClaimsAgree (db : PaymentDb) : Prop where
  oneQuote : ∀ quoteId quoteId' journal journal' hash, db.journals.get? quoteId = some journal →
    db.journals.get? quoteId' = some journal' → journal.claimedRefundIssuanceHash = some hash →
    journal'.claimedRefundIssuanceHash = some hash → quoteId = quoteId'
  oneHash : ∀ quoteId hash hash', db.claims.get? hash = some quoteId → db.claims.get? hash' = some quoteId → hash = hash'
  tables : ∀ hash quoteId, db.claims.get? hash = some quoteId ↔
    ∃ journal, db.journals.get? quoteId = some journal ∧ journal.claimedRefundIssuanceHash = some hash
  credit : ∀ quoteId journal hash, db.journals.get? quoteId = some journal →
    journal.creditedRefundIssuanceHash = some hash → journal.claimedRefundIssuanceHash = some hash

end

/-! ## The invariant -/

section

variable (operationIdOf : QuoteId → OperationId) (txHash : Transaction ↪ TransactionId)

/-- What holds of the wallet and the federation, whatever runs. -/
structure WalletAgrees (s : System) : Prop where
  records : RecordsAgree operationIdOf txHash s.db
  funded : ∀ quoteId transaction, (quoteId, transaction) ∈ s.fundings →
    ∃ journal, s.db.journals.get? quoteId = some journal ∧ txHash transaction = journal.txid
  journaled : ∀ quoteId, s.db.journals.get? quoteId ≠ none → ∃ transaction, (quoteId, transaction) ∈ s.fundings
  funding : OneFunding s
  reported : ∀ operationId state, (operationId, state) ∈ s.db.submissions → s.Reports state

/-- A snapshot of an earlier state. -/
structure Earlier (s : System) (snapshot : PaymentDb) : Prop where
  agrees : RecordsAgree operationIdOf txHash snapshot
  later : Later snapshot s.db

/-- The payment of a journal is the one that the quote's row names. -/
def Journals (s : System) (quoteId : QuoteId) (journal : FiSeatPaymentJournal) : Prop :=
  ∃ journal', s.db.journals.get? quoteId = some journal' ∧ journal'.txid = journal.txid

/-- What a phase has learned. -/
def PhaseHolds (s : System) (quoteId : QuoteId) : Phase → Prop
  | .committing _ _ attempt => Earlier operationIdOf txHash s attempt.snapshot
  | .caching attempt _ => Earlier operationIdOf txHash s attempt.snapshot
  | .watching journal => Journals s quoteId journal
  | .settling journal => Journals s quoteId journal
  | .proving journal => Journals s quoteId journal
  | .refunding journal => Journals s quoteId journal ∧ s.outcomes.get? journal.txid = some false
  | _ => True

structure Inv (s : System) : Prop where
  wallet : WalletAgrees operationIdOf txHash s
  tasks : ∀ t ∈ s.tasks, PhaseHolds operationIdOf txHash s t.call.quoteId t.phase
  writers : ∀ w ∈ s.writers, Earlier operationIdOf txHash s w.attempt.snapshot

end

/-- Rows are kept, and verdicts are final. -/
structure Grows (s s' : System) : Prop where
  db : Later s.db s'.db
  outcomes : ∀ txid accepted, s.outcomes.get? txid = some accepted → s'.outcomes.get? txid = some accepted

section

variable {operationIdOf : QuoteId → OperationId} {txHash : Transaction ↪ TransactionId} {federationId : String}
  {s s' s'' : System} {quoteId : QuoteId}

theorem Grows.refl (s : System) : Grows s s := ⟨.refl _, fun _ _ h => h⟩

theorem Grows.trans (h : Grows s s') (h' : Grows s' s'') : Grows s s'' :=
  ⟨h.db.trans h'.db, fun txid accepted hget => h'.outcomes txid accepted (h.outcomes txid accepted hget)⟩

theorem Earlier.mono {snapshot : PaymentDb} (h : Earlier operationIdOf txHash s snapshot) (hgrows : Grows s s') :
    Earlier operationIdOf txHash s' snapshot :=
  ⟨h.agrees, h.later.trans hgrows.db⟩

theorem Journals.mono {journal : FiSeatPaymentJournal} (h : Journals s quoteId journal) (hgrows : Grows s s') :
    Journals s' quoteId journal := by
  obtain ⟨journal', hget, htxid⟩ := h
  obtain ⟨journal'', hget', hkeeps⟩ := hgrows.db.journals quoteId journal' hget
  exact ⟨journal'', hget', hkeeps.txid.trans htxid⟩

theorem PhaseHolds.mono {phase : Phase} (h : PhaseHolds operationIdOf txHash s quoteId phase) (hgrows : Grows s s') :
    PhaseHolds operationIdOf txHash s' quoteId phase := by
  cases phase with
  | committing => exact Earlier.mono h hgrows
  | caching => exact Earlier.mono h hgrows
  | watching => exact Journals.mono h hgrows
  | settling => exact Journals.mono h hgrows
  | proving => exact Journals.mono h hgrows
  | refunding => exact ⟨Journals.mono h.1 hgrows, hgrows.outcomes _ _ h.2⟩
  | begun => exact h
  | probing => exact h
  | funding => exact h
  | planned => exact h

theorem Reports.mono {state : TxSubmissionState} (h : s.Reports state) (hgrows : Grows s s') : s'.Reports state := by
  cases state with
  | accepted txid => exact hgrows.outcomes txid true h
  | rejected txid => exact hgrows.outcomes txid false h
  | created => trivial
  | nonRetryableError => trivial

/-- A commit that rewrites journals and claims, and submits nothing. -/
theorem WalletAgrees.write (h : WalletAgrees operationIdOf txHash s) {db : PaymentDb}
    (hagrees : RecordsAgree operationIdOf txHash db) (hlater : Later s.db db)
    (hjournals : ∀ quoteId, db.journals.get? quoteId ≠ none → s.db.journals.get? quoteId ≠ none)
    (hsubmissions : ∀ operationId state, (operationId, state) ∈ db.submissions → s.Reports state) :
    WalletAgrees operationIdOf txHash { s with db := db } where
  records := hagrees
  funded quoteId transaction hmem := by
    obtain ⟨journal, hget, htxid⟩ := h.funded quoteId transaction hmem
    obtain ⟨journal', hget', hkeeps⟩ := hlater.journals quoteId journal hget
    exact ⟨journal', hget', htxid.trans hkeeps.txid.symm⟩
  journaled quoteId hget := h.journaled quoteId (hjournals quoteId hget)
  funding := ⟨h.funding.once, h.funding.sent⟩
  reported := hsubmissions

theorem WriterCall.keeps (call : WriterCall) (operationIdOf : QuoteId → OperationId)
    (txHash : Transaction ↪ TransactionId) :
    Keeps paymentRows (RecordsAgree operationIdOf txHash) Later call.closure := by
  cases call with
  | guardRefundSettlement quoteId issuanceHash => exact keeps_guard operationIdOf txHash quoteId issuanceHash
  | recordRefundCreditCompleted quoteId issuanceHash => exact keeps_credit operationIdOf txHash quoteId issuanceHash
  | persistJournalSignatures quoteId paymentSignatures =>
    exact keeps_signatures operationIdOf txHash quoteId paymentSignatures

theorem WriterCall.rewritesOnly (call : WriterCall) {snapshot : PaymentDb} {writes : List RowWrite}
    (h : call.closure snapshot = .ok ((), writes)) : RewritesOnly snapshot writes := by
  cases call with
  | guardRefundSettlement => exact rewritesOnly_guard h
  | recordRefundCreditCompleted => exact rewritesOnly_credit h
  | persistJournalSignatures => exact rewritesOnly_signatures h

/-- A writer's commit. -/
theorem WalletAgrees.commit (h : WalletAgrees operationIdOf txHash s) (call : WriterCall) {refused : Bool}
    {attempt : Attempt PaymentDb} (hearlier : Earlier operationIdOf txHash s attempt.snapshot) {db : PaymentDb}
    (hcommit : autocommit paymentRows call.closure refused attempt s.db = .committed () db) :
    WalletAgrees operationIdOf txHash { s with db := db } ∧ Later s.db db := by
  obtain ⟨hagrees, hlater⟩ := autocommit_keeps (call.keeps operationIdOf txHash) hearlier.agrees h.records
    hearlier.later hcommit
  obtain ⟨writes, hclosure, hunchanged, rfl⟩ := autocommit_committed hcommit
  obtain ⟨hjournals, hsubmissions⟩ := (call.rewritesOnly hclosure).journals hunchanged
  refine ⟨h.write hagrees hlater hjournals fun operationId state hmem => ?_, hlater⟩
  rw [hsubmissions] at hmem
  exact h.reported operationId state hmem

/-- The commit of a funding transaction. -/
theorem WalletAgrees.fund (h : WalletAgrees operationIdOf txHash s) {token : Token} {plan : SeatFundingPlan}
    {virtualBalance : ℕ} {finalized : Option Finalized} {refused : Bool} {attempt : Attempt PaymentDb}
    (hearlier : Earlier operationIdOf txHash s attempt.snapshot) {journal : FiSeatPaymentJournal} {db : PaymentDb}
    (hcommit : autocommit paymentRows
      (submitSeatPayment operationIdOf txHash token quoteId plan virtualBalance finalized) refused attempt s.db =
        .committed journal db) :
    WalletAgrees operationIdOf txHash
        { s with db := db, fundings := s.fundings ++ finalized.toList.map fun tx => (quoteId, tx.transaction) } ∧
      Later s.db db ∧ db.journals.get? quoteId = some journal := by
  obtain ⟨hagrees, hlater⟩ := autocommit_keeps (keeps_submit operationIdOf txHash token quoteId plan virtualBalance
    finalized) hearlier.agrees h.records hearlier.later hcommit
  obtain ⟨writes, hclosure, hunchanged, rfl⟩ := autocommit_committed hcommit
  obtain ⟨tx, metadata, rfl, hnone, -, -, -, -, rfl, hsubmitted⟩ :=
    submitted_of_commit hearlier.agrees hclosure hunchanged
  have hfresh := h.records.no_journal hnone
  have hrow : (paymentRows.writeAll writes s.db).journals.get? quoteId = some (newJournal plan (txHash tx.transaction)) := by
    rw [hsubmitted.journals, BTreeMap.get?_insert_self]
  refine ⟨⟨hagrees, fun quoteId' transaction hmem => ?_, fun quoteId' hget => ?_, ⟨?_, fun quoteId' transaction hmem => ?_⟩,
    fun operationId state hmem => ?_⟩, hlater, hrow⟩
  · rcases List.mem_append.mp hmem with hmem | hmem
    · obtain ⟨journal', hget, htxid⟩ := h.funded quoteId' transaction hmem
      obtain ⟨journal'', hget', hkeeps⟩ := hlater.journals quoteId' journal' hget
      exact ⟨journal'', hget', htxid.trans hkeeps.txid.symm⟩
    · cases List.mem_singleton.mp hmem
      exact ⟨_, hrow, rfl⟩
  · dsimp only at hget
    rw [hsubmitted.journals, BTreeMap.get?_insert] at hget
    split at hget
    next heq => exact ⟨tx.transaction, List.mem_append_right _ (by rw [heq]; exact List.mem_cons_self)⟩
    next =>
      obtain ⟨transaction, hmem⟩ := h.journaled quoteId' hget
      exact ⟨transaction, List.mem_append_left _ hmem⟩
  · -- A quote that was funded before has a journal.
    show ((s.fundings ++ [(quoteId, tx.transaction)]).map Prod.fst).Nodup
    rw [List.map_append, List.nodup_append]
    refine ⟨h.funding.once, by simp, fun a ha b hb heq => ?_⟩
    rw [List.map_singleton, List.mem_singleton] at hb
    subst hb heq
    obtain ⟨⟨quoteId', transaction⟩, hmem, rfl⟩ := List.mem_map.mp ha
    obtain ⟨journal', hget, -⟩ := h.funded quoteId' transaction hmem
    rw [hfresh] at hget
    cases hget
  · exact List.mem_append_left _ (h.funding.sent quoteId' transaction hmem)
  · dsimp only at hmem
    rw [hsubmitted.submissions] at hmem
    rcases List.mem_append.mp hmem with hmem | hmem
    · exact Reports.mono (h.reported operationId state hmem) ⟨hlater, fun _ _ hget => hget⟩
    · cases List.mem_singleton.mp hmem
      trivial

/-! ## One phase -/

/-- What a phase leaves behind. -/
structure Advances (operationIdOf : QuoteId → OperationId) (txHash : Transaction ↪ TransactionId) (s : System)
    (quoteId : QuoteId) (r : System × (Phase ⊕ Answer)) : Prop where
  wallet : WalletAgrees operationIdOf txHash r.1
  grows : Grows s r.1
  tasks : r.1.tasks = s.tasks
  writers : r.1.writers = s.writers
  phase : ∀ phase, r.2 = .inl phase → PhaseHolds operationIdOf txHash r.1 quoteId phase
  answer : ∀ answer, r.2 = .inr answer → Truthful txHash s quoteId answer

theorem Advances.goOn (h : WalletAgrees operationIdOf txHash s) {phase : Phase}
    (hphase : PhaseHolds operationIdOf txHash s quoteId phase) :
    Advances operationIdOf txHash s quoteId (s, .inl phase) :=
  ⟨h, .refl s, rfl, rfl, fun _ heq => by cases heq; exact hphase, fun _ heq => (by cases heq)⟩

theorem Advances.answers (h : WalletAgrees operationIdOf txHash s) {answer : Answer}
    (htruthful : Truthful txHash s quoteId answer) : Advances operationIdOf txHash s quoteId (s, .inr answer) :=
  ⟨h, .refl s, rfl, rfl, fun _ heq => (by cases heq), fun _ heq => by cases heq; exact htruthful⟩

theorem Earlier.now (h : WalletAgrees operationIdOf txHash s) : Earlier operationIdOf txHash s s.db :=
  ⟨h.records, .refl s.db⟩

theorem seatPaymentTxStatus_rejected {txid : TransactionId} {updates : List TxSubmissionState}
    (h : seatPaymentTxStatus txid updates = .rejected) : .rejected txid ∈ updates := by
  induction updates with
  | nil => cases h
  | cons state updates ih =>
    cases state with
    | created _ => exact List.mem_cons_of_mem _ (ih h)
    | nonRetryableError => exact List.mem_cons_of_mem _ (ih h)
    | accepted txid' =>
      unfold seatPaymentTxStatus at h
      split at h
      · cases h
      · exact List.mem_cons_of_mem _ (ih h)
    | rejected txid' =>
      unfold seatPaymentTxStatus at h
      split at h
      next htxid =>
        rw [htxid]
        exact List.mem_cons_self
      next => exact List.mem_cons_of_mem _ (ih h)

/-- The refund of a rejected payment is complete. -/
theorem refunded_of_restored (h : WalletAgrees operationIdOf txHash s) {journal : FiSeatPaymentJournal}
    (hjournal : Journals s quoteId journal) (hrejected : s.outcomes.get? journal.txid = some false)
    {updates : List (OperationId × TxSubmissionState)} (hupdates : ∀ u ∈ updates, u ∈ s.db.submissions)
    {outpoints : List OutPoint} (hrestored : awaitRejectedInputRefunds txHash (operationIdOf quoteId) journal.txid
      journal.mintModule .empty updates = .ok (some outpoints)) (hspendable : ∀ o ∈ outpoints, o ∈ s.spendable) :
    Truthful txHash s quoteId .rejected := by
  obtain ⟨journal', hget, htxid'⟩ := hjournal
  obtain ⟨funding, hfunding⟩ := h.journaled quoteId (by rw [hget]; simp)
  obtain ⟨journal'', hget', hfunded⟩ := h.funded quoteId funding hfunding
  rw [hget] at hget'
  cases hget'
  obtain ⟨transaction, refunds, -, htxid, hnodup, hrefunds, hsum, rfl⟩ := restored_spec hrestored
  have hsame : transaction = funding := txHash.injective (by rw [htxid, hfunded, htxid'])
  subst hsame
  have hids : refunds.map Prod.fst = (refunds.map Prod.snd).map txHash := by
    rw [List.map_map]
    exact List.map_congr_left fun r hr => (hrefunds r hr).txid.symm
  refine ⟨transaction, refunds.map Prod.snd, hfunding, by rw [htxid]; exact hrejected, ?_, fun r hr => ?_, ?_,
    fun r hr => ?_⟩
  · rw [hids] at hnodup
    exact hnodup.of_map
  · obtain ⟨r', hr', rfl⟩ := List.mem_map.mp hr
    rw [(hrefunds r' hr').txid]
    exact h.reported _ _ (hupdates _ (hrefunds r' hr').accepted)
  · rw [List.map_map]
    exact hsum
  · obtain ⟨r', hr', rfl⟩ := List.mem_map.mp hr
    refine ⟨(hrefunds r' hr').outputs.1, fun outIdx hlt => ?_⟩
    rw [(hrefunds r' hr').txid]
    refine hspendable _ (List.mem_flatMap.mpr ⟨r', hr', ?_⟩)
    exact List.mem_map.mpr ⟨outIdx, List.mem_range.mpr hlt, rfl⟩

theorem advance_spec (h : WalletAgrees operationIdOf txHash s) (w : World) {t : Task}
    (hphase : PhaseHolds operationIdOf txHash s t.call.quoteId t.phase)
    (hupdates : ∀ u ∈ w.updates, u ∈ s.db.submissions) :
    Advances operationIdOf txHash s t.call.quoteId (advance operationIdOf txHash federationId w s t) := by
  obtain ⟨call, phase⟩ := t
  cases phase with
  | begun =>
    unfold advance
    dsimp only
    split
    · exact .answers h trivial
    · exact .goOn h trivial
  | probing parsed =>
    unfold advance
    dsimp only
    split
    next journal hget =>
      split
      · exact .answers h trivial
      · exact .goOn h ⟨journal, hget, rfl⟩
    next hnone =>
      split
      · -- No journal: nothing was ever committed for the quote.
        refine .answers h fun transaction => ?_
        have hunfunded : (call.quoteId, transaction) ∉ s.fundings := fun hmem => by
          obtain ⟨journal, hget, -⟩ := h.funded call.quoteId transaction hmem
          rw [hnone] at hget
          cases hget
        exact ⟨hunfunded, fun hsent => hunfunded (h.funding.sent _ _ hsent)⟩
      · exact .goOn h trivial
  | funding parsed =>
    unfold advance
    dsimp only
    split
    · exact .answers h trivial
    · split
      · exact .answers h trivial
      · exact .goOn h trivial
  | planned plan virtualBalance => exact .goOn h (Earlier.now h)
  | committing plan virtualBalance attempt =>
    unfold advance
    dsimp only
    split
    next journal db hcommit =>
      obtain ⟨hagrees, hlater, hget⟩ := @WalletAgrees.fund _ _ _ call.quoteId h _ _ _ _ _ _ hphase _ _ hcommit
      refine ⟨hagrees, ⟨hlater, fun _ _ hget => hget⟩, rfl, rfl, fun phase heq => ?_, fun _ heq => (by cases heq)⟩
      cases heq
      exact ⟨journal, hget, rfl⟩
    next attempt' hretry =>
      refine .goOn h ?_
      show Earlier operationIdOf txHash s attempt'.snapshot
      rw [autocommit_retry hretry]
      exact Earlier.now h
    · exact .answers h trivial
    · exact .answers h trivial
  | watching journal =>
    unfold advance
    dsimp only
    split
    · exact .answers h trivial
    · split
      · exact .goOn h hphase
      · exact .answers h trivial
      next hrejected _ =>
        have hmem := seatPaymentTxStatus_rejected hrejected
        obtain ⟨u, hu, hstate⟩ := List.mem_map.mp hmem
        have hreports := h.reported u.1 u.2 (hupdates u (List.mem_filter.mp hu).1)
        rw [hstate] at hreports
        exact .goOn h ⟨hphase, hreports⟩
      · exact .answers h trivial
      · exact .answers h trivial
  | settling journal =>
    unfold advance
    dsimp only
    split
    · exact .answers h trivial
    · exact .goOn h hphase
  | refunding journal =>
    unfold advance
    dsimp only
    split
    · exact .answers h trivial
    · exact .answers h trivial
    next outpoints hrestored =>
      split
      next hspendable =>
        exact .answers h (refunded_of_restored h hphase.1 hphase.2 hupdates hrestored hspendable.2)
      next => exact .answers h trivial
  | proving journal =>
    unfold advance
    dsimp only
    split
    · exact .answers h trivial
    · exact .answers h trivial
    · exact .goOn h (Earlier.now h)
  | caching attempt signatures =>
    unfold advance
    dsimp only
    split
    next db hcommit =>
      obtain ⟨hagrees, hlater⟩ := h.commit (.persistJournalSignatures call.quoteId signatures) hphase hcommit
      exact ⟨hagrees, ⟨hlater, fun _ _ hget => hget⟩, rfl, rfl, fun _ heq => (by cases heq),
        fun _ heq => by cases heq; trivial⟩
    · exact .answers h trivial

/-! ## One event -/

/-- An event that leaves the calls alone. -/
theorem Inv.keepCalls (h : Inv operationIdOf txHash s) (hgrows : Grows s s')
    (hwallet : WalletAgrees operationIdOf txHash s') (htasks : ∀ t ∈ s'.tasks, t ∈ s.tasks ∨ t.phase = .begun)
    (hwriters : ∀ w ∈ s'.writers, w ∈ s.writers ∨ w.attempt.snapshot = s'.db) : Inv operationIdOf txHash s' where
  wallet := hwallet
  tasks t ht := by
    rcases htasks t ht with ht | hbegun
    · exact (h.tasks t ht).mono hgrows
    · rw [hbegun]
      trivial
  writers w hw := by
    rcases hwriters w hw with hw | hnow
    · exact (h.writers w hw).mono hgrows
    · rw [hnow]
      exact Earlier.now hwallet

/-- Calls and writers may come, go and wait for something else. -/
theorem WalletAgrees.withCalls (h : WalletAgrees operationIdOf txHash s) {tasks : List Task} {writers : List Writer}
    (htasks : ∀ t ∈ tasks, PhaseHolds operationIdOf txHash s t.call.quoteId t.phase)
    (hwriters : ∀ w ∈ writers, Earlier operationIdOf txHash s w.attempt.snapshot) :
    Inv operationIdOf txHash { s with tasks := tasks, writers := writers } := by
  have hgrows : Grows s { s with tasks := tasks, writers := writers } := ⟨.refl _, fun _ _ hget => hget⟩
  exact ⟨⟨h.records, h.funded, h.journaled, ⟨h.funding.once, h.funding.sent⟩, h.reported⟩,
    fun t ht => (htasks t ht).mono hgrows, fun w hw => (hwriters w hw).mono hgrows⟩

/-- A step that changes rows outside the journals. -/
theorem WalletAgrees.frame (h : WalletAgrees operationIdOf txHash s) {db : PaymentDb} (hframes : Frames s.db db)
    (hsubmissions : ∀ operationId state, (operationId, state) ∈ db.submissions → s.Reports state) :
    WalletAgrees operationIdOf txHash { s with db := db } ∧ Grows s { s with db := db } :=
  ⟨h.write (h.records.frame hframes) hframes.later (fun quoteId hget => by rw [← hframes.journals]; exact hget)
    hsubmissions, hframes.later, fun _ _ hget => hget⟩

theorem frames_hold (call : HoldCall) (availableBalance : ℕ) (commits : Bool) (db : PaymentDb) :
    Frames db { db with funding := fundingStep db.funding ⟨[call.toCall availableBalance], commits⟩ } :=
  ⟨rfl, rfl, consumedIn_hold call availableBalance commits db.funding, fun _ _ h => h, fun _ _ h => h,
    List.Subset.refl _⟩

theorem frames_operation {db : PaymentDb} {operationId : OperationId} {entry : Operation}
    (hnew : db.operations.get? operationId = none) (hkind : entry.moduleKind ≠ FI_SEAT_PAYMENT_OPERATION_TYPE) :
    Frames db { db with operations := db.operations.insert operationId entry } := by
  refine ⟨rfl, rfl, fun _ _ => Iff.rfl, fun operationId' entry' hget => ?_, fun operationId' metadata hget => ?_,
    List.Subset.refl _⟩
  · dsimp only
    rw [BTreeMap.get?_insert_ne]
    · exact hget
    · rintro rfl
      rw [hnew] at hget
      cases hget
  · dsimp only at hget
    rw [BTreeMap.get?_insert] at hget
    split at hget
    · cases hget
      exact absurd rfl hkind
    · exact hget

theorem frames_submission (db : PaymentDb) (operationId : OperationId) (state : TxSubmissionState) :
    Frames db { db with submissions := db.submissions ++ [(operationId, state)] } :=
  ⟨rfl, rfl, fun _ _ => Iff.rfl, fun _ _ h => h, fun _ _ h => h, List.subset_append_left _ _⟩

/-- What an event leaves behind, and answers. -/
structure Steps (operationIdOf : QuoteId → OperationId) (txHash : Transaction ↪ TransactionId) (s : System)
    (r : System × Option (SeatCall × Answer)) : Prop where
  inv : Inv operationIdOf txHash r.1
  grows : Grows s r.1
  answer : ∀ call answer, r.2 = some (call, answer) → Truthful txHash s call.quoteId answer

theorem Steps.silent (h : Inv operationIdOf txHash s') (hgrows : Grows s s') :
    Steps operationIdOf txHash s (s', none) :=
  ⟨h, hgrows, fun _ _ heq => by cases heq⟩

theorem step_advance (h : Inv operationIdOf txHash s) (i : ℕ) (w : World) :
    Steps operationIdOf txHash s (step operationIdOf txHash federationId s (.advance i w)) := by
  unfold step
  dsimp only
  split
  · exact .silent h (.refl s)
  next t ht =>
    split
    next hupdates =>
      have hspec := @advance_spec _ _ federationId _ h.wallet w t (h.tasks t (List.mem_of_getElem? ht)) hupdates
      rcases hadvance : advance operationIdOf txHash federationId w s t with ⟨s', next⟩
      rw [hadvance] at hspec
      have htasks (t' : Task) (ht' : t' ∈ s.tasks) : PhaseHolds operationIdOf txHash s' t'.call.quoteId t'.phase :=
        (h.tasks t' ht').mono hspec.grows
      have hwriters (writer : Writer) (hw : writer ∈ s'.writers) :
          Earlier operationIdOf txHash s' writer.attempt.snapshot := by
        rw [show s'.writers = s.writers from hspec.writers] at hw
        exact (h.writers writer hw).mono hspec.grows
      have hsame : s'.tasks = s.tasks := hspec.tasks
      cases next with
      | inl phase =>
        refine .silent (@WalletAgrees.withCalls _ _ s' hspec.wallet (s'.tasks.set i ⟨t.call, phase⟩) s'.writers
          (fun t' ht' => ?_) hwriters) ⟨hspec.grows.db, hspec.grows.outcomes⟩
        rw [hsame] at ht'
        rcases List.mem_or_eq_of_mem_set ht' with ht' | rfl
        · exact htasks t' ht'
        · exact hspec.phase phase rfl
      | inr answer =>
        refine ⟨@WalletAgrees.withCalls _ _ s' hspec.wallet (s'.tasks.eraseIdx i) s'.writers (fun t' ht' => ?_) hwriters,
          ⟨hspec.grows.db, hspec.grows.outcomes⟩, fun call answer' heq => ?_⟩
        · rw [hsame] at ht'
          exact htasks t' (List.mem_of_mem_eraseIdx ht')
        · cases heq
          exact hspec.answer answer rfl
    next => exact .silent h (.refl s)

theorem step_commit (h : Inv operationIdOf txHash s) (i : ℕ) (refused : Bool) :
    Steps operationIdOf txHash s (step operationIdOf txHash federationId s (.commit i refused)) := by
  unfold step
  dsimp only
  split
  · exact .silent h (.refl s)
  next writer hwriter =>
    have hearlier := h.writers writer (List.mem_of_getElem? hwriter)
    split
    next db hcommit =>
      obtain ⟨hwallet, hlater⟩ := h.wallet.commit writer.call hearlier hcommit
      have hgrows : Grows s { s with db := db } := ⟨hlater, fun _ _ hget => hget⟩
      exact .silent (@WalletAgrees.withCalls _ _ { s with db := db } hwallet s.tasks (s.writers.eraseIdx i)
        (fun t ht => (h.tasks t ht).mono hgrows)
        fun w hw => (h.writers w (List.mem_of_mem_eraseIdx hw)).mono hgrows) ⟨hlater, fun _ _ hget => hget⟩
    next attempt hretry =>
      refine .silent (h.wallet.withCalls h.tasks fun w hw => ?_) ⟨.refl _, fun _ _ hget => hget⟩
      rcases List.mem_or_eq_of_mem_set hw with hw | rfl
      · exact h.writers w hw
      · show Earlier operationIdOf txHash s attempt.snapshot
        rw [autocommit_retry hretry]
        exact Earlier.now h.wallet
    · exact .silent (h.wallet.withCalls h.tasks fun w hw => h.writers w (List.mem_of_mem_eraseIdx hw))
        ⟨.refl _, fun _ _ hget => hget⟩

theorem step_spec (h : Inv operationIdOf txHash s) (e : Event) :
    Steps operationIdOf txHash s (step operationIdOf txHash federationId s e) := by
  cases e with
  | advance i w => exact step_advance h i w
  | commit i refused => exact step_commit h i refused
  | call call =>
    refine .silent (h.wallet.withCalls (fun t ht => ?_) h.writers) ⟨.refl _, fun _ _ hget => hget⟩
    rcases List.mem_append.mp ht with ht | ht
    · exact h.tasks t ht
    · cases List.mem_singleton.mp ht
      trivial
  | write call =>
    refine .silent (h.wallet.withCalls h.tasks fun w hw => ?_) ⟨.refl _, fun _ _ hget => hget⟩
    rcases List.mem_append.mp hw with hw | hw
    · exact h.writers w hw
    · cases List.mem_singleton.mp hw
      exact Earlier.now h.wallet
  | hold call availableBalance commits =>
    obtain ⟨hwallet, hgrows⟩ := h.wallet.frame (frames_hold call availableBalance commits s.db) h.wallet.reported
    exact .silent (h.keepCalls hgrows hwallet (fun t ht => .inl ht) fun w hw => .inl hw) hgrows
  | operation operationId entry =>
    unfold step
    dsimp only
    split
    next hnew =>
      obtain ⟨hwallet, hgrows⟩ := h.wallet.frame (frames_operation hnew.1 hnew.2) h.wallet.reported
      exact .silent (h.keepCalls hgrows hwallet (fun t ht => .inl ht) fun w hw => .inl hw) hgrows
    next => exact .silent h (.refl s)
  | send i =>
    have hgrows : Grows s { s with sent := s.sent ++ s.fundings[i]?.toList } := ⟨.refl _, fun _ _ hget => hget⟩
    refine .silent (h.keepCalls hgrows ⟨h.wallet.records, h.wallet.funded, h.wallet.journaled, ⟨h.wallet.funding.once,
      fun quoteId transaction hmem => ?_⟩, h.wallet.reported⟩ (fun t ht => .inl ht) fun w hw => .inl hw) hgrows
    rcases List.mem_append.mp hmem with hmem | hmem
    · exact h.wallet.funding.sent quoteId transaction hmem
    · exact List.mem_of_getElem? (Option.mem_toList.mp hmem)
  | verdict txid accepted =>
    unfold step
    dsimp only
    split
    next hnew =>
      have hgrows : Grows s { s with outcomes := s.outcomes.insert txid accepted } := by
        refine ⟨.refl _, fun txid' accepted' hget => ?_⟩
        dsimp only
        rw [BTreeMap.get?_insert_ne]
        · exact hget
        · rintro rfl
          rw [hnew] at hget
          cases hget
      refine .silent (h.keepCalls hgrows ⟨h.wallet.records, h.wallet.funded, h.wallet.journaled,
        ⟨h.wallet.funding.once, h.wallet.funding.sent⟩, fun operationId state hmem => ?_⟩ (fun t ht => .inl ht)
        fun w hw => .inl hw) hgrows
      exact Reports.mono (h.wallet.reported operationId state hmem) hgrows
    next => exact .silent h (.refl s)
  | submission operationId state =>
    unfold step
    dsimp only
    split
    next hreports =>
      obtain ⟨hwallet, hgrows⟩ := h.wallet.frame (frames_submission s.db operationId state)
        fun operationId' state' hmem => by
          rcases List.mem_append.mp hmem with hmem | hmem
          · exact h.wallet.reported operationId' state' hmem
          · cases List.mem_singleton.mp hmem
            exact hreports
      exact .silent (h.keepCalls hgrows hwallet (fun t ht => .inl ht) fun w hw => .inl hw) hgrows
    next => exact .silent h (.refl s)
  | issued o =>
    unfold step
    dsimp only
    split
    · have hgrows : Grows s { s with spendable := s.spendable ++ [o] } := ⟨.refl _, fun _ _ hget => hget⟩
      exact .silent (h.keepCalls hgrows ⟨h.wallet.records, h.wallet.funded, h.wallet.journaled, ⟨h.wallet.funding.once,
        h.wallet.funding.sent⟩, h.wallet.reported⟩ (fun t ht => .inl ht) fun w hw => .inl hw) hgrows
    · exact .silent h (.refl s)
  | crash =>
    exact .silent (h.wallet.withCalls (fun _ ht => by cases ht) fun _ hw => by cases hw) ⟨.refl _, fun _ _ hget => hget⟩

/-! ## Every run -/

theorem inv_start : Inv operationIdOf txHash .start where
  wallet :=
    { records := ⟨fun _ _ h => (by cases h), fun _ ⟨_, h, _⟩ => (by cases h), fun _ _ h => (by cases h),
        fun _ _ ⟨_, h, _⟩ => (by cases h), fun _ _ _ ⟨_, h, _⟩ => (by cases h),
        fun _ _ => ⟨fun h => (by cases h), fun ⟨_, h, _⟩ => (by cases h)⟩, fun _ _ _ h => (by cases h)⟩
      funded := fun _ _ h => by cases h
      journaled := fun _ h => absurd rfl h
      funding := ⟨List.nodup_nil, fun _ _ h => by cases h⟩
      reported := fun _ _ h => by cases h }
  tasks := fun _ h => by cases h
  writers := fun _ h => by cases h

theorem run_spec (h : Inv operationIdOf txHash s) (es : List Event) :
    Inv operationIdOf txHash (es.foldl (fun s e => (step operationIdOf txHash federationId s e).1) s) ∧
      Grows s (es.foldl (fun s e => (step operationIdOf txHash federationId s e).1) s) := by
  induction es generalizing s with
  | nil => exact ⟨h, .refl s⟩
  | cons e es ih =>
    have hstep := @step_spec _ _ federationId _ h e
    obtain ⟨hinv, hgrows⟩ := ih hstep.inv
    exact ⟨hinv, hstep.grows.trans hgrows⟩

theorem inv_of_run (es : List Event) : Inv operationIdOf txHash (seatPayments operationIdOf txHash federationId es) :=
  (run_spec inv_start es).1

theorem together_of_records {db : PaymentDb} (h : RecordsAgree operationIdOf txHash db) : Together operationIdOf db := by
  intro quoteId
  refine ⟨⟨fun hget => ?_, h.journaled quoteId⟩, fun hget => ?_, fun ⟨token, hconsumed, _⟩ => h.paid token quoteId hconsumed⟩
  · obtain ⟨journal, hget⟩ := Option.ne_none_iff_exists'.mp hget
    exact (h.funds quoteId journal hget).hasOperation
  · obtain ⟨journal, hget⟩ := Option.ne_none_iff_exists'.mp hget
    obtain ⟨token, hconsumed⟩ := h.consumed quoteId journal hget
    exact ⟨token, hconsumed, fun token' hconsumed' => h.once token' token quoteId hconsumed' hconsumed⟩

theorem claimsAgree_of_records {db : PaymentDb} (h : RecordsAgree operationIdOf txHash db) : ClaimsAgree db where
  oneQuote quoteId quoteId' journal journal' hash hget hget' hclaimed hclaimed' := by
    have hclaim := (h.claim hash quoteId).mpr ⟨journal, hget, hclaimed⟩
    rw [(h.claim hash quoteId').mpr ⟨journal', hget', hclaimed'⟩] at hclaim
    exact (Option.some.inj hclaim).symm
  oneHash quoteId hash hash' hclaim hclaim' := by
    obtain ⟨journal, hget, hclaimed⟩ := (h.claim hash quoteId).mp hclaim
    obtain ⟨journal', hget', hclaimed'⟩ := (h.claim hash' quoteId).mp hclaim'
    rw [hget] at hget'
    cases hget'
    rw [hclaimed] at hclaimed'
    exact Option.some.inj hclaimed'
  tables := h.claim
  credit := h.credit

end

section

variable (operationIdOf : QuoteId → OperationId) (txHash : Transaction ↪ TransactionId) (federationId : String)

/-- In every run at most one funding transaction is committed for a quote and no other is sent, its
records exist together or not at all, and recovery answers truthfully. -/
theorem paidOnce_of_run (es : List Event) :
    OneFunding (seatPayments operationIdOf txHash federationId es) ∧
      Together operationIdOf (seatPayments operationIdOf txHash federationId es).db ∧
      ∀ e call answer, (step operationIdOf txHash federationId
          (seatPayments operationIdOf txHash federationId es) e).2 = some (call, answer) →
        Truthful txHash (seatPayments operationIdOf txHash federationId es) call.quoteId answer := by
  have hinv : Inv operationIdOf txHash (seatPayments operationIdOf txHash federationId es) := inv_of_run es
  exact ⟨hinv.wallet.funding, together_of_records hinv.wallet.records,
    fun e call answer hanswer => (step_spec hinv e).answer call answer hanswer⟩

/-- In every run refund claims are one to one, and what a journal or a claim once held it keeps. -/
theorem refundClaims_of_run (es es' : List Event) :
    ClaimsAgree (seatPayments operationIdOf txHash federationId es).db ∧
      Later (seatPayments operationIdOf txHash federationId es).db
        (seatPayments operationIdOf txHash federationId (es ++ es')).db := by
  have hinv : Inv operationIdOf txHash (seatPayments operationIdOf txHash federationId es) := inv_of_run es
  refine ⟨claimsAgree_of_records hinv.wallet.records, ?_⟩
  unfold seatPayments at hinv ⊢
  rw [List.foldl_append]
  exact (run_spec hinv es').2.db

end

/-! ## A rejected payment -/

deriving instance Encodable for MintItem, TransactionItem, Transaction

def encodedTransaction : Transaction ↪ TransactionId := ⟨Encodable.encode, Encodable.encode_injective⟩

def rejectedPayment : Transaction := ⟨[⟨1, .v2 1000 7⟩], [⟨1, .v2 900 8⟩], 1⟩

/-- The refund of its input. -/
def acceptedRefund : Transaction := ⟨[⟨1, .v2 1000 7⟩], [⟨1, .v2 990 9⟩], 2⟩

def seatTerms : ParsedPaidQuote := ⟨"f", .mintV2, 1, 11⟩

def payingWorld : World := ⟨some (1, 900), 5000, some ⟨rejectedPayment, 1, 0⟩, false, [], false, none⟩

/-- A seat is paid, and the process stops. -/
def paidSeat : List Event :=
  [.hold (.reserve 3 1 0 [(4, 1200)]) 5000 true, .call ⟨.create "f", 3, 4, some seatTerms⟩, .advance 0 payingWorld,
    .advance 0 payingWorld, .advance 0 payingWorld, .advance 0 payingWorld, .advance 0 payingWorld, .send 0, .crash]

/-- The federation rejects the payment and accepts the refund, and a recovery asks what became of the payment. -/
def refundedSeat : List Event :=
  [.verdict (encodedTransaction rejectedPayment) false, .submission 4 (.rejected (encodedTransaction rejectedPayment)),
    .submission 4 (.created acceptedRefund), .verdict (encodedTransaction acceptedRefund) true,
    .submission 4 (.accepted (encodedTransaction acceptedRefund)), .issued ⟨encodedTransaction acceptedRefund, 0⟩,
    .call ⟨.recover, 3, 4, some seatTerms⟩, .advance 0 payingWorld, .advance 0 payingWorld,
    .advance 0 { payingWorld with updates := [(4, .rejected (encodedTransaction rejectedPayment))] }]

/-- Recovery reads the log of its operation, and answers that the payment was rejected. -/
def recoveredUpdates : World :=
  { payingWorld with updates := [(4, .created rejectedPayment), (4, .accepted (encodedTransaction acceptedRefund)),
      (4, .created acceptedRefund)] }

theorem paidOnce_of_run_demo :
    OneFunding (seatPayments id encodedTransaction "f" (paidSeat ++ refundedSeat)) ∧
      Together id (seatPayments id encodedTransaction "f" (paidSeat ++ refundedSeat)).db ∧
      Truthful encodedTransaction (seatPayments id encodedTransaction "f" (paidSeat ++ refundedSeat)) 4 .rejected := by
  have hanswer : (step id encodedTransaction "f" (seatPayments id encodedTransaction "f" (paidSeat ++ refundedSeat))
      (.advance 0 recoveredUpdates)).2 = some (⟨.recover, 3, 4, some seatTerms⟩, .rejected) := by decide +kernel
  obtain ⟨hone, htogether, htruthful⟩ := paidOnce_of_run id encodedTransaction "f" (paidSeat ++ refundedSeat)
  exact ⟨hone, htogether, htruthful _ _ _ hanswer⟩

theorem refundClaims_of_run_demo :
    ClaimsAgree (seatPayments id encodedTransaction "f" paidSeat).db ∧
      Later (seatPayments id encodedTransaction "f" paidSeat).db
        (seatPayments id encodedTransaction "f" (paidSeat ++ refundedSeat)).db :=
  refundClaims_of_run id encodedTransaction "f" paidSeat refundedSeat

end FiPayments
