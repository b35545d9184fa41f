import Fedi.StabilityPool.Sync

/-!
# Stability pool client: the history service (`client/src/history_service.rs`, `client/src/db.rs`)

The service of one account keeps a copy of the account's history and groups its
items by transaction into user operations.  An update takes one sync response:
the new items are stored one by one, each moves the operation of its transaction
on, and a pending unlock request without an operation gets one.

As in the server's database, tables with composite keys are maps of maps.  Sums of
amounts are in `ℕ`.  `randomOpId` is the identifier drawn for a transaction.
-/

namespace StabilityPool

open BTreeMaps

abbrev OperationId := ℕ

/-! ## Data -/

inductive UserOperationHistoryItemKind where
  | pendingDeposit
  | completedDeposit
  | pendingWithdrawal
  | completedWithdrawal
  | transferIn (sender : AccountId) (metadata : List UInt8)
  | transferOut (recipient : AccountId) (metadata : List UInt8)
  | btcBalanceDeposit (metadata : List UInt8)
deriving DecidableEq

structure UserOperationHistoryItem where
  txid : TransactionId
  cycle : CycleInfo
  amount : ℕ
  fiatAmount : ℕ
  kind : UserOperationHistoryItemKind
deriving DecidableEq

structure DepositSequenceTransactionLookupValue where
  accountId : AccountId
  txid : TransactionId
  originalAmount : ℕ
  drainedAmount : ℕ

/-- The client's tables the history service touches, and its operation log of
external transfers. -/
structure ClientDb where
  accountHistory : BTreeMap AccountId (BTreeMap ℕ AccountHistoryItem)
  userOperationHistory : BTreeMap AccountId (BTreeMap TransactionId UserOperationHistoryItem)
  userOperationIndex : BTreeMap AccountId (BTreeMap ℕ TransactionId)
  recordedTransfer : BTreeMap AccountId (BTreeMap TransactionId OperationId)
  depositSequenceTransactionLookup : BTreeMap ℕ DepositSequenceTransactionLookupValue
  completedWithdrawalHistoryRepair : BTreeMap AccountId Unit
  operationLog : BTreeMap OperationId TransactionId

def ClientDb.initial : ClientDb where
  accountHistory := .empty
  userOperationHistory := .empty
  userOperationIndex := .empty
  recordedTransfer := .empty
  depositSequenceTransactionLookup := .empty
  completedWithdrawalHistoryRepair := .empty
  operationLog := .empty

/-! ## The server's side (`server/src/api.rs`) -/

/-- `get_account_history_items` over the serials from `first` to below `last`. -/
def getAccountHistoryItems (db : Db) (accountId : AccountId) (first last : ℕ) : List AccountHistoryItem :=
  (((db.accountHistory.getD accountId .empty).entries.filter
    fun e => decide (first ≤ e.1 ∧ e.1 < last)).map Prod.snd)

/-! ## Amounts -/

/-- `Result::ok`: drops an error, not a panic. -/
def resultOk {α : Type} : Res α → Res (Option α)
  | .ok a => .ok (some a)
  | .error (.panic p) => .error (.panic p)
  | .error _ => .ok none

def SyncResponse.amountFromUnlockRequest (r : SyncResponse) : Res (Option (ℕ × ℕ)) :=
  match r.unlockRequest with
  | none => .ok none
  | some request =>
    match request.unlockAmount with
    | .fiat fiatAmount => do
      let msats ← resultOk (FiatAmount.toBtcAmount fiatAmount r.currentCycle.startPrice)
      return msats.map fun msats => (msats, fiatAmount)
    | .all => do
      let fiat ← resultOk
        (FiatAmount.fromBtcAmountRoundtripSafe r.lockedBalance r.currentCycle.startPrice)
      return fiat.map fun fiat => (r.lockedBalance, fiat)

/-- `amount_from_unlock_request().unwrap_or((Amount::ZERO, Default::default()))`. -/
def SyncResponse.unlockAmounts (r : SyncResponse) : Res (ℕ × ℕ) := do
  let amounts ← r.amountFromUnlockRequest
  return amounts.getD (0, 0)

/-- The fiat value of an item at its cycle's price, zero if it has none. -/
def AccountHistoryItem.fiatAmount (item : AccountHistoryItem) : Res ℕ := do
  let fiat ← resultOk (FiatAmount.fromBtcAmountRoundtripSafe item.amount item.cycle.startPrice)
  return fiat.getD 0

/-! ## Table helpers -/

def ClientDb.userOperation (db : ClientDb) (accountId : AccountId) (txid : TransactionId) :
    Option UserOperationHistoryItem :=
  (db.userOperationHistory.getD accountId .empty).get? txid

def setUserOperation (db : ClientDb) (accountId : AccountId) (txid : TransactionId)
    (value : UserOperationHistoryItem) : ClientDb :=
  { db with
    userOperationHistory := db.userOperationHistory.insert accountId
      ((db.userOperationHistory.getD accountId .empty).insert txid value) }

/-- The index after the greatest one of the account's operations. -/
def nextUserOperationIndex (db : ClientDb) (accountId : AccountId) : ℕ :=
  match (db.userOperationIndex.getD accountId .empty).entries.getLast? with
  | none => 0
  | some (idx, _) => idx + 1

/-- A new transaction is also given the next index. -/
def insertUserOperationHistoryItem (db : ClientDb) (accountId : AccountId) (txid : TransactionId)
    (value : UserOperationHistoryItem) : ClientDb :=
  let written := setUserOperation db accountId txid value
  match db.userOperation accountId txid with
  | some _ => written
  | none =>
    { written with
      userOperationIndex := db.userOperationIndex.insert accountId
        ((db.userOperationIndex.getD accountId .empty).insert (nextUserOperationIndex db accountId) txid) }

def getAccountHistoryCount (db : ClientDb) (accountId : AccountId) : ℕ :=
  match (db.accountHistory.getD accountId .empty).entries.getLast? with
  | none => 0
  | some (idx, _) => idx + 1

def storeAccountHistoryItem (db : ClientDb) (accountId : AccountId) (index : ℕ)
    (item : AccountHistoryItem) : ClientDb :=
  { db with
    accountHistory := db.accountHistory.insert accountId
      ((db.accountHistory.getD accountId .empty).insert index item) }

/-- Backfill the operation log for a transfer that was not ours. -/
def ensureTransferInRecorded (randomOpId : TransactionId → OperationId) (db : ClientDb)
    (accountId : AccountId) (txid : TransactionId) : ClientDb :=
  match (db.recordedTransfer.getD accountId .empty).get? txid with
  | some _ => db
  | none =>
    { db with
      operationLog := db.operationLog.insert (randomOpId txid) txid
      recordedTransfer := db.recordedTransfer.insert accountId
        ((db.recordedTransfer.getD accountId .empty).insert txid (randomOpId txid)) }

/-- Count what a withdrawal drains of a pending deposit; once all of it is
drained the deposit is completed. -/
def maybeMarkPendingDepositAsCompleted (db : ClientDb) (depositSequence toDrain : ℕ) : ClientDb :=
  match db.depositSequenceTransactionLookup.get? depositSequence with
  | none => db
  | some value =>
    let removed := { db with
      depositSequenceTransactionLookup := db.depositSequenceTransactionLookup.erase depositSequence }
    match db.userOperation value.accountId value.txid with
    | some op =>
      if op.kind = .pendingDeposit then
        if value.originalAmount ≤ value.drainedAmount + toDrain then
          setUserOperation removed value.accountId value.txid { op with kind := .completedDeposit }
        else
          { db with
            depositSequenceTransactionLookup := db.depositSequenceTransactionLookup.insert
              depositSequence { value with drainedAmount := value.drainedAmount + toDrain } }
      else removed
    | none => removed

/-! ## Operations -/

/-- `panic!`. -/
def historyPanic {α : Type} (msg : String) : Res α := .error (.panic (.assertionFailed msg))

/-- What an item makes of the operation of its transaction, with the tables the
branch already wrote. -/
structure NewUserOpState where
  db : ClientDb
  amount : ℕ
  fiatAmount : ℕ
  kind : UserOperationHistoryItemKind
  completed : List TransactionId

/-- `new_user_op_state`; `none` is an early return.  `completed` are the
transactions that this batch completed from a pending withdrawal. -/
def newUserOpState (randomOpId : TransactionId → OperationId) (db : ClientDb) (accountId : AccountId)
    (syncResponse : SyncResponse) (item : AccountHistoryItem) (completed : List TransactionId)
    (newFiatAmount : ℕ) : Res (Option NewUserOpState) :=
  let current := db.userOperation accountId item.txid
  let currentAmount := (current.map (·.amount)).getD 0
  let currentFiatAmount := (current.map (·.fiatAmount)).getD 0
  let asNew := fun db (kind : UserOperationHistoryItemKind) =>
    some ⟨db, item.amount, newFiatAmount, kind, completed⟩
  -- `CurrentStateAmountUpdate::Add` and `CurrentStateAmountUpdate::Preserve`
  let add := fun db (kind : UserOperationHistoryItemKind) =>
    some ⟨db, item.amount + currentAmount, newFiatAmount + currentFiatAmount, kind, completed⟩
  let preserve := fun (kind : UserOperationHistoryItemKind) completed =>
    some ⟨db, currentAmount, currentFiatAmount, kind, completed⟩
  match item.kind, current.map UserOperationHistoryItem.kind with
  | .depositToBtcBalance metadata, none => .ok (asNew db (.btcBalanceDeposit metadata))
  | .depositToBtcBalance _, some _ =>
    historyPanic "DepositToBtcBalance must create new user op history item"
  | .depositToStaged, none =>
    .ok (asNew { db with
      depositSequenceTransactionLookup := db.depositSequenceTransactionLookup.insert item.depositSequence
        { accountId := accountId, txid := item.txid, originalAmount := item.amount,
          drainedAmount := 0 } } .pendingDeposit)
  | .depositToStaged, some _ => historyPanic "DepositToStaged must create new user op history item"
  | .stagedToLocked, none => historyPanic "StagedToLocked cannot create new user op history item"
  | .stagedToLocked, some .pendingDeposit =>
    .ok (asNew { db with
      depositSequenceTransactionLookup :=
        db.depositSequenceTransactionLookup.erase item.depositSequence } .completedDeposit)
  | .stagedToLocked, some .completedDeposit => .ok none
  | .stagedToLocked, some (.transferIn _ _) => .ok none
  | .stagedToLocked, some _ =>
    historyPanic "StagedToLocked can only override existing PendingWithdrawal"
  | .lockedToStaged, _ => .ok none
  | .stagedToIdle, none =>
    match syncResponse.unlockRequest with
    | some request =>
      if request.txid = item.txid then do
        let amounts ← syncResponse.unlockAmounts
        return some ⟨db, item.amount + amounts.1, newFiatAmount + amounts.2, .pendingWithdrawal, completed⟩
      else .ok (asNew db .completedWithdrawal)
    | none => .ok (asNew db .completedWithdrawal)
  | .stagedToIdle, some .pendingWithdrawal => .ok (add db .pendingWithdrawal)
  | .stagedToIdle, some .completedWithdrawal => .ok (add db .completedWithdrawal)
  | .stagedToIdle, some _ => historyPanic
      "StagedToIdle can only override existing PendingWithdrawal or CompletedWithdrawal"
  | .lockedToIdle, none => .ok (asNew db .completedWithdrawal)
  | .lockedToIdle, some .pendingWithdrawal =>
    .ok (preserve .completedWithdrawal (item.txid :: completed))
  | .lockedToIdle, some .completedWithdrawal =>
    if item.txid ∈ completed then .ok (preserve .completedWithdrawal completed)
    else .ok (add db .completedWithdrawal)
  | .lockedToIdle, some _ => historyPanic
      "LockedToIdle can only override existing PendingWithdrawal or CompletedWithdrawal"
  | .stagedTransferIn sender metadata, none | .lockedTransferIn sender metadata, none
  | .stagedTransferIn sender metadata, some (.transferIn _ _)
  | .lockedTransferIn sender metadata, some (.transferIn _ _) =>
    .ok (add (ensureTransferInRecorded randomOpId db accountId item.txid) (.transferIn sender metadata))
  | .stagedTransferIn _ _, some _ | .lockedTransferIn _ _, some _ =>
    historyPanic "StagedTransferIn/LockedTransferIn can only override TransferIn"
  | .stagedTransferOut recipient metadata, none | .lockedTransferOut recipient metadata, none
  | .stagedTransferOut recipient metadata, some (.transferOut _ _)
  | .lockedTransferOut recipient metadata, some (.transferOut _ _) =>
    .ok (add db (.transferOut recipient metadata))
  | .stagedTransferOut _ _, some _ | .lockedTransferOut _ _, some _ =>
    historyPanic "StagedTransferOut/LockedTransferOut can only override TransferOut"

def updateUserOperationHistory (randomOpId : TransactionId → OperationId) (db : ClientDb)
    (accountId : AccountId) (syncResponse : SyncResponse) (item : AccountHistoryItem)
    (completed : List TransactionId) : Res (ClientDb × List TransactionId) := do
  let newFiatAmount ← item.fiatAmount
  let new ← newUserOpState randomOpId db accountId syncResponse item completed newFiatAmount
  match new with
  | none => return (db, completed)
  | some new =>
    let db := if item.kind = .stagedToIdle then
        maybeMarkPendingDepositAsCompleted new.db item.depositSequence item.amount
      else new.db
    return (insertUserOperationHistoryItem db accountId item.txid
      { txid := item.txid, cycle := item.cycle, amount := new.amount, fiatAmount := new.fiatAmount,
        kind := new.kind }, new.completed)

def ensureUnlockRequestRegistered (db : ClientDb) (accountId : AccountId)
    (syncResponse : SyncResponse) : Res ClientDb :=
  match syncResponse.unlockRequest with
  | none => .ok db
  | some request =>
    match db.userOperation accountId request.txid with
    | some _ => .ok db
    | none => do
      let amounts ← syncResponse.unlockAmounts
      return insertUserOperationHistoryItem db accountId request.txid
        { txid := request.txid, cycle := syncResponse.currentCycle, amount := amounts.1,
          fiatAmount := amounts.2, kind := .pendingWithdrawal }

/-- The loop over the fetched items, the first of them of index `index`. -/
def storeItems (randomOpId : TransactionId → OperationId) (accountId : AccountId)
    (syncResponse : SyncResponse) :
    ℕ → List AccountHistoryItem → ClientDb × List TransactionId → Res (ClientDb × List TransactionId)
  | _, [], r => .ok r
  | index, item :: items, r => do
    let r ← updateUserOperationHistory randomOpId (storeAccountHistoryItem r.1 accountId index item)
      accountId syncResponse item r.2
    storeItems randomOpId accountId syncResponse (index + 1) items r

/-- `StabilityPoolHistoryService::update_once`; `fetch` is the `account_history` endpoint. -/
def updateOnce (randomOpId : TransactionId → OperationId) (db : ClientDb) (accountId : AccountId)
    (syncResponse : SyncResponse) (fetch : ℕ → ℕ → List AccountHistoryItem) : Res ClientDb :=
  let localCount := getAccountHistoryCount db accountId
  if syncResponse.accountHistoryCount < localCount then
    .error (.bail "server error: incorrect sync response")
  else if syncResponse.accountHistoryCount = localCount then
    ensureUnlockRequestRegistered db accountId syncResponse
  else do
    let newHistoryItems := fetch localCount syncResponse.accountHistoryCount
    let r ← storeItems randomOpId accountId syncResponse localCount newHistoryItems (db, [])
    ensureUnlockRequestRegistered r.1 accountId syncResponse

/-! ## Repair of old rows -/

/-- Totals of the withdrawal fragments of every transaction. -/
def withdrawalTotals :
    List AccountHistoryItem → BTreeMap TransactionId (ℕ × ℕ) → Res (BTreeMap TransactionId (ℕ × ℕ))
  | [], totals => .ok totals
  | item :: items, totals =>
    if item.kind = .stagedToIdle ∨ item.kind = .lockedToIdle then do
      let fiat ← item.fiatAmount
      let old := totals.getD item.txid (0, 0)
      withdrawalTotals items (totals.insert item.txid (old.1 + item.amount, old.2 + fiat))
    else withdrawalTotals items totals

/-- Shrink a completed withdrawal to its total. -/
def repairWithdrawal (accountId : AccountId) (db : ClientDb) (e : TransactionId × (ℕ × ℕ)) : ClientDb :=
  match db.userOperation accountId e.1 with
  | none => db
  | some op =>
    if op.kind = .completedWithdrawal ∧ e.2.1 < op.amount then
      insertUserOperationHistoryItem db accountId e.1 { op with amount := e.2.1, fiatAmount := e.2.2 }
    else db

def repairCompletedWithdrawalHistoryOnce (db : ClientDb) (accountId : AccountId) : Res ClientDb :=
  match db.completedWithdrawalHistoryRepair.get? accountId with
  | some _ => .ok db
  | none => do
    let totals ← withdrawalTotals (db.accountHistory.getD accountId .empty).values .empty
    let repaired := totals.entries.foldl (repairWithdrawal accountId) db
    return { repaired with
      completedWithdrawalHistoryRepair := repaired.completedWithdrawalHistoryRepair.insert accountId () }

end StabilityPool
