import Fedi.Lib.Optimistic
import Fedi.FiFunding.Holds

/-!
# Journal of the seat payments (`fi_payments.rs`, `fi_payments/journal.rs`)

One row a quote records the funding transaction and what its refund settled to; one row a refund
issuance records the quote that claimed it.  The rows share the paying wallet's database with its
holds and its operations.  Three functions write them after the payment, each in a transaction
of its own.
-/

namespace FiPayments

open BTreeMaps Optimistic FiFunding

abbrev RefundIssuanceHash := ℕ
abbrev TransactionId := ℕ
abbrev OperationId := ℕ
abbrev ModuleInstanceId := ℕ

inductive MintGeneration where
  | mintV1
  | mintV2
deriving DecidableEq

def mintGenerationCode : MintGeneration → ℕ
  | .mintV1 => 1
  | .mintV2 => 2

/-! ## Wallet transactions -/

/-- An input or an output by its mint, or one that no supported version of a mint explains. -/
inductive MintItem where
  | v1 (amountMsats note : ℕ)
  | v2 (amountMsats note : ℕ)
  | unsupportedV1 (bytes : ℕ)
  | unsupportedV2 (bytes : ℕ)
  | other (bytes : ℕ)
deriving DecidableEq

structure TransactionItem where
  moduleInstanceId : ModuleInstanceId
  item : MintItem
deriving DecidableEq

/-- The signatures are left out, as its id leaves them out. -/
structure Transaction where
  inputs : List TransactionItem
  outputs : List TransactionItem
  nonce : ℕ
deriving DecidableEq

structure OutPoint where
  txid : TransactionId
  outIdx : ℕ
deriving DecidableEq

structure OutPointRange where
  txid : TransactionId
  startIdx : ℕ
  count : ℕ
deriving DecidableEq

inductive TxSubmissionState where
  | created (transaction : Transaction)
  | accepted (txid : TransactionId)
  | rejected (txid : TransactionId)
  | nonRetryableError
deriving DecidableEq

/-! ## Rows -/

def FI_SEAT_PAYMENT_OPERATION_TYPE : String := "fedi-fi-seat-payment"
def FI_SEAT_PAYMENT_JOURNAL_VERSION : ℕ := 1
def FI_SEAT_PAYMENT_OPERATION_META_VERSION : ℕ := 1

structure FiSeatPaymentOperationMeta where
  version : ℕ
  quoteId : QuoteId
  txid : TransactionId
  changeRange : OutPointRange
deriving DecidableEq

/-- An entry of the operation log; other operations have metadata of other shapes. -/
structure Operation where
  moduleKind : String
  seatMeta : Option FiSeatPaymentOperationMeta
deriving DecidableEq

structure FiSeatPaymentJournal where
  version : ℕ
  generation : ℕ
  mintModule : ModuleInstanceId
  txid : TransactionId
  outputCount : ℕ
  issuanceHash : ℕ
  paymentSignatures : Option (List (List UInt8))
  claimedRefundIssuanceHash : Option RefundIssuanceHash
  creditedRefundIssuanceHash : Option RefundIssuanceHash
deriving DecidableEq

/-- The rows of the wallet's database that a seat payment reads and writes. -/
structure PaymentDb where
  funding : FundingDb
  operations : BTreeMap OperationId Operation
  /-- The states that the operations' submissions have reached. -/
  submissions : List (OperationId × TxSubmissionState)
  journals : BTreeMap QuoteId FiSeatPaymentJournal
  claims : BTreeMap RefundIssuanceHash QuoteId

def PaymentDb.empty : PaymentDb := ⟨.empty, .empty, [], .empty, .empty⟩

inductive RowWrite where
  | reservation (token : Token) (r : Reservation)
  | reservedTotal (totalMsats : ℕ)
  | operation (operationId : OperationId) (entry : Operation)
  | submission (operationId : OperationId) (state : TxSubmissionState)
  | journal (quoteId : QuoteId) (row : FiSeatPaymentJournal)
  | claim (hash : RefundIssuanceHash) (quoteId : QuoteId)

namespace RowWrite

def write (w : RowWrite) (db : PaymentDb) : PaymentDb :=
  match w with
  | .reservation token r => { db with funding := db.funding.insertReservation token r }
  | .reservedTotal totalMsats => { db with funding := { db.funding with reservedTotal := some totalMsats } }
  | .operation operationId entry => { db with operations := db.operations.insert operationId entry }
  | .submission operationId state => { db with submissions := db.submissions ++ [(operationId, state)] }
  | .journal quoteId row => { db with journals := db.journals.insert quoteId row }
  | .claim hash quoteId => { db with claims := db.claims.insert hash quoteId }

/-- Each submission state has a row of its own. -/
def Same (w : RowWrite) (db db' : PaymentDb) : Prop :=
  match w with
  | .reservation token _ => db'.funding.reservations.get? token = db.funding.reservations.get? token
  | .reservedTotal _ => db'.funding.reservedTotal = db.funding.reservedTotal
  | .operation operationId _ => db'.operations.get? operationId = db.operations.get? operationId
  | .submission _ _ => True
  | .journal quoteId _ => db'.journals.get? quoteId = db.journals.get? quoteId
  | .claim hash _ => db'.claims.get? hash = db.claims.get? hash

end RowWrite

instance : DecidableEq Reservation := fun r r' =>
  decidable_of_iff (r.fingerprint = r'.fingerprint ∧ r.createdAtSecs = r'.createdAtSecs ∧ r.members = r'.members) (by
    cases r
    cases r'
    simp)

def paymentRows : Rows PaymentDb RowWrite where
  write := RowWrite.write
  Same := RowWrite.Same
  decidableSame := fun w db db' => by
    cases w <;> unfold RowWrite.Same <;> infer_instance

/-! ## Checks against the quote -/

/-- What a parsed quote tells of the payment. -/
structure ParsedPaidQuote where
  federationId : String
  generation : MintGeneration
  len : ℕ
  paymentHash : ℕ
deriving DecidableEq

/-- Why no debit follows from a finalized transaction. -/
inductive DebitError where
  | otherTransaction
  | inputModule
  | inputType
  | inputVersion
  | inputOverflowed
  | changeOutOfRange
  | changeModule
  | changeType
  | changeVersion
  | changeOverflowed
  | changeExceedsInputs
deriving DecidableEq

def DebitError.message : DebitError → String
  | .otherTransaction => "finalized transaction differs from the returned change range"
  | .inputModule => "finalized payment used a non-payer input module"
  | .inputType => "finalized mint input has the wrong type"
  | .inputVersion => "unsupported finalized mint input version"
  | .inputOverflowed => "finalized input amount overflowed"
  | .changeOutOfRange => "change range exceeds finalized transaction outputs"
  | .changeModule => "finalized change used a non-payer output module"
  | .changeType => "finalized mint change has the wrong type"
  | .changeVersion => "unsupported finalized mint output version"
  | .changeOverflowed => "finalized change amount overflowed"
  | .changeExceedsInputs => "finalized change exceeds selected payment inputs"

/-- Why the refunds of a rejected payment cannot be followed. -/
inductive RefundError where
  | otherOperation
  | nonPayerInput
  | noteCountOverflowed
  | noPayerInputs
  | contradictoryStates
  | notARefund
  | outputModule
  | refundsOverlap
deriving DecidableEq

def RefundError.message : RefundError → String
  | .otherOperation => "seat-payment refund stream returned another operation"
  | .nonPayerInput => "seat-payment refund transaction contains a non-payer input"
  | .noteCountOverflowed => "a note appeared too many times in a seat payment"
  | .noPayerInputs => "rejected seat payment contains no payer inputs"
  | .contradictoryStates => "refund transaction has contradictory terminal states"
  | .notARefund => "accepted operation sibling is not an exact rejected-input refund"
  | .outputModule => "accepted rejected-input refund has non-primary or empty outputs"
  | .refundsOverlap => "accepted refund transactions overlap original inputs"

inductive PaymentError where
  | operationMissing
  | operationUnexpectedType
  | operationMetaInvalid
  | metaVersion
  | metaOtherQuote
  | metaOtherTransaction
  | changeOverlapsOutputs
  | journalVersion
  | journalGeneration
  | journalOutputCount
  | journalIssuance
  | claimedByOtherQuote
  | noJournalForRefund
  | otherRefundSettled
  | noJournalForCredit
  | creditDiffersFromClaim
  | otherRefundCredited
  | noJournalForSignatures
  | otherSignatures
  | insufficientBalance
  | operationExists
  | fundingFailed
  | submissionMissing
  | debit (e : DebitError)
  | debitExceedsBalance
  | hold (e : FundingError)
  | refund (e : RefundError)
  | termsInvalid
  | federationUnavailable
  | otherFederation
  | reservationInvalid (e : FundingError)
  | commitFailed
  | rejectedByConsensus
  | notAccepted
  | notFinal
  | changeNotSpendable
  | inputsNotSpendable
  | signaturesFailed
deriving DecidableEq

def PaymentError.message : PaymentError → String
  | .operationMissing => "seat payment operation metadata is missing"
  | .operationUnexpectedType => "seat payment operation has an unexpected type"
  | .operationMetaInvalid => "seat payment operation metadata is invalid"
  | .metaVersion => "unsupported seat payment operation metadata version"
  | .metaOtherQuote => "operation metadata names a different quote"
  | .metaOtherTransaction => "operation metadata names a different transaction"
  | .changeOverlapsOutputs => "operation change overlaps the quoted payment outputs"
  | .journalVersion => "unsupported seat payment journal version"
  | .journalGeneration => "journaled mint generation differs from the quote"
  | .journalOutputCount => "journaled output count differs from the quote"
  | .journalIssuance => "journaled issuance differs from the quote"
  | .claimedByOtherQuote => "refund issuance was already claimed by a different quote"
  | .noJournalForRefund => "no seat payment journal for the refunded quote"
  | .otherRefundSettled => "a different refund issuance was already settled for this quote"
  | .noJournalForCredit => "no seat payment journal for the credited refund"
  | .creditDiffersFromClaim => "credited refund differs from the claimed issuance"
  | .otherRefundCredited => "a different refund issuance was already credited for this quote"
  | .noJournalForSignatures => "failed to cache FI seat payment signatures: journal is missing"
  | .otherSignatures => "journal contains different payment signatures"
  | .insufficientBalance => "insufficient balance for the seat payment"
  | .operationExists => "There already exists an operation with this id"
  | .fundingFailed => "fund and submit seat payment"
  | .submissionMissing => "finalized transaction submission state is missing"
  | .debit e => e.message
  | .debitExceedsBalance => "finalized seat payment debit exceeds the captured virtual balance"
  | .hold e => e.message
  | .refund e => e.message
  | .termsInvalid => "quote payment terms are invalid"
  | .federationUnavailable => "payment federation is unavailable"
  | .otherFederation => "payment reservation belongs to a different federation"
  | .reservationInvalid _ => "seat payment reservation is invalid"
  | .commitFailed => "commit seat payment funding"
  | .rejectedByConsensus => "seat payment was rejected by consensus"
  | .notAccepted => "seat payment is not yet accepted; retry"
  | .notFinal => "seat payment is not yet final; retry recovery"
  | .changeNotSpendable => "seat payment change is not yet spendable; retry"
  | .inputsNotSpendable => "rejected seat payment inputs are not yet spendable; retry"
  | .signaturesFailed => "collecting payment signatures failed"

def ensure (p : Prop) [Decidable p] (e : PaymentError) : Except PaymentError Unit :=
  if p then .ok () else .error e

def validatePaymentOperationMeta (metadata : FiSeatPaymentOperationMeta) (quoteId : QuoteId)
    (journal : FiSeatPaymentJournal) : Except PaymentError OutPointRange := do
  ensure (metadata.version = FI_SEAT_PAYMENT_OPERATION_META_VERSION) .metaVersion
  ensure (metadata.quoteId = quoteId) .metaOtherQuote
  ensure (metadata.txid = journal.txid ∧ metadata.changeRange.txid = journal.txid) .metaOtherTransaction
  ensure (metadata.changeRange.startIdx = journal.outputCount) .changeOverlapsOutputs
  return metadata.changeRange

def validateJournal (journal : FiSeatPaymentJournal) (parsed : ParsedPaidQuote) : Except PaymentError Unit := do
  ensure (journal.version = FI_SEAT_PAYMENT_JOURNAL_VERSION) .journalVersion
  ensure (journal.generation = mintGenerationCode parsed.generation) .journalGeneration
  ensure (journal.outputCount = parsed.len) .journalOutputCount
  ensure (journal.issuanceHash = parsed.paymentHash) .journalIssuance

/-- The operation id of a quote is a hash of it. -/
def seatPaymentChangeRange (operationIdOf : QuoteId → OperationId) (db : PaymentDb) (quoteId : QuoteId)
    (journal : FiSeatPaymentJournal) : Except PaymentError OutPointRange :=
  match db.operations.get? (operationIdOf quoteId) with
  | none => .error .operationMissing
  | some operation =>
    if operation.moduleKind = FI_SEAT_PAYMENT_OPERATION_TYPE then
      match operation.seatMeta with
      | none => .error .operationMetaInvalid
      | some metadata => validatePaymentOperationMeta metadata quoteId journal
    else .error .operationUnexpectedType

/-! ## The three writers -/

abbrev Closure (α : Type) := PaymentDb → Except PaymentError (α × List RowWrite)

/-- The closure of `guard_refund_settlement`. -/
def guardRefundSettlement (quoteId : QuoteId) (issuanceHash : RefundIssuanceHash) : Closure Unit := fun dbtx =>
  match dbtx.claims.get? issuanceHash with
  | some claimant => do
    ensure (claimant = quoteId) .claimedByOtherQuote
    let journal ← claimInJournal dbtx
    return ((), [.journal quoteId journal])
  | none => do
    let journal ← claimInJournal dbtx
    return ((), [.claim issuanceHash quoteId, .journal quoteId journal])
where
  claimInJournal (dbtx : PaymentDb) : Except PaymentError FiSeatPaymentJournal :=
    match dbtx.journals.get? quoteId with
    | none => .error .noJournalForRefund
    | some journal =>
      if ∀ existing ∈ journal.claimedRefundIssuanceHash, existing = issuanceHash then
        .ok { journal with claimedRefundIssuanceHash := some issuanceHash }
      else .error .otherRefundSettled

/-- The closure of `record_refund_credit_completed`. -/
def recordRefundCreditCompleted (quoteId : QuoteId) (issuanceHash : RefundIssuanceHash) : Closure Unit := fun dbtx =>
  match dbtx.journals.get? quoteId with
  | none => .error .noJournalForCredit
  | some journal =>
    if journal.claimedRefundIssuanceHash = some issuanceHash then
      match journal.creditedRefundIssuanceHash with
      | some existing => if existing = issuanceHash then .ok ((), []) else .error .otherRefundCredited
      | none => .ok ((), [.journal quoteId { journal with creditedRefundIssuanceHash := some issuanceHash }])
    else .error .creditDiffersFromClaim

/-- Whether the journal has to be written. -/
def mergeJournalSignatures (journal : FiSeatPaymentJournal) (paymentSignatures : List (List UInt8)) :
    Except PaymentError (Option FiSeatPaymentJournal) :=
  match journal.paymentSignatures with
  | some existing => if existing = paymentSignatures then .ok none else .error .otherSignatures
  | none => .ok (some { journal with paymentSignatures := some paymentSignatures })

/-- `persist_journal_signatures`: what it does not write it only logs. -/
def persistJournalSignatures (quoteId : QuoteId) (paymentSignatures : List (List UInt8)) : Closure Unit := fun dbtx =>
  match dbtx.journals.get? quoteId with
  | none => .error .noJournalForSignatures
  | some journal =>
    match mergeJournalSignatures journal paymentSignatures with
    | .error e => .error e
    | .ok none => .ok ((), [])
    | .ok (some journal) => .ok ((), [.journal quoteId journal])

end FiPayments
