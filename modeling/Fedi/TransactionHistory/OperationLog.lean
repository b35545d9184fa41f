import Fedi.FiFunding.Holds

/-!
# Pages of the operation log (`federation_v2/mod.rs`, `rpc.rs`)

A page has the newest operations before a key, as many as the limit.  An operation may render as
nothing, or as an error.  On the first page there are rows of no operation too, one for each
address that awaits its deposit and one for each formation payment; the page is cut to the limit
again with them.

    listTransactions startTime:  operations before (startTime, a random operation id)

The row of an address and the claim of its deposit are one transaction: the claim that settles the
address renders under the id of the row.  Ids are hashes and random numbers, and kept symbolic.
-/

namespace TransactionHistory

open BTreeMaps FiFunding

/-! ## Transactions -/

inductive TransactionId where
  | operation (operationId : ℕ)
  | awaitingDeposit (address : String)
  | formation (fingerprint : Fingerprint)
deriving DecidableEq

/-- The kinds that are told apart; `state` is the `type` of the state. -/
inductive TransactionKind where
  | onchainDeposit (onchainAddress : String)
  | lnRecurringdReceive (state : Option String)
  | fiFormationPayment (seatsPaid seatsTotal : ℕ)
  | other (kind : String)
deriving DecidableEq

structure TransactionListEntry where
  createdAt : ℕ
  id : TransactionId
  amount : ℕ
  kind : TransactionKind
deriving DecidableEq

abbrev ListEntry := Except String TransactionListEntry

/-! ## Operations -/

/-- `ChronologicalOperationLogKey`; times are nanoseconds since the epoch. -/
structure OperationLogKey where
  creationTime : ℤ
  operationId : ℕ
deriving DecidableEq

def OperationLogKey.Before (k k' : OperationLogKey) : Prop :=
  k.creationTime < k'.creationTime ∨ k.creationTime = k'.creationTime ∧ k.operationId < k'.operationId

instance (k k' : OperationLogKey) : Decidable (k.Before k') := inferInstanceAs (Decidable (_ ∨ _))

/-- An operation, with what `get_transaction_really_inner` makes of it. -/
structure Operation where
  key : OperationLogKey
  transaction : Except String (Option (ℕ × TransactionKind))

/-- Newest first. -/
structure OperationLog where
  operations : List Operation
  sorted : operations.Pairwise fun newer older => older.key.Before newer.key
  unique : (operations.map fun op => op.key.operationId).Nodup

/-- The newest operations strictly before a key. -/
def OperationLog.paginateOperationsRev (log : OperationLog) (limit : ℕ) (startAfter : Option OperationLogKey) :
    List Operation :=
  (log.operations.filter fun op => decide (∀ key ∈ startAfter, op.key.Before key)).take limit

/-- `to_unix_time`, in seconds. -/
def toUnixTime (systemTime : ℤ) : Option ℕ := if systemTime < 0 then none else some (systemTime.toNat / 10 ^ 9)

/-! ## Awaiting deposits -/

inductive AwaitingDeposit where
  | awaiting (createdAt : ℕ)
  | claimed
  | claimedBy (operationId : ℕ)
deriving DecidableEq

abbrev Deposits := BTreeMap String AwaitingDeposit

def listAwaitingDeposits (deposits : Deposits) : List (String × ℕ) :=
  deposits.entries.filterMap fun e =>
    match e.2 with
    | .awaiting createdAt => some (e.1, createdAt)
    | .claimed | .claimedBy _ => none

def awaitingDepositEntry (address : String) (createdAt : ℕ) : TransactionListEntry :=
  ⟨createdAt, .awaitingDeposit address, 0, .onchainDeposit address⟩

/-- `settle_walletv2_awaiting_deposit`: the id of the row, for the claim that settled the address. -/
def settleAwaitingDeposit (deposits : Deposits) (address : String) (claimId : ℕ) : Deposits × Option TransactionId :=
  match deposits.get? address with
  | some (.awaiting _) => (deposits.insert address (.claimedBy claimId), some (.awaitingDeposit address))
  | some (.claimedBy id) => (deposits, if id = claimId then some (.awaitingDeposit address) else none)
  | some .claimed | none => (deposits, none)

/-! ## Rendering -/

/-- `get_transaction_inner`, for an operation of a page. -/
def getTransaction (deposits : Deposits) (op : Operation) : Deposits × Option ListEntry :=
  match toUnixTime op.key.creationTime with
  | none => (deposits, none)
  | some createdAt =>
    match op.transaction with
    | .error e => (deposits, some (.error e))
    | .ok none => (deposits, none)
    | .ok (some (amount, kind)) =>
      match kind with
      | .onchainDeposit onchainAddress =>
        let r := settleAwaitingDeposit deposits onchainAddress op.key.operationId
        (r.1, some (.ok ⟨createdAt, r.2.getD (.operation op.key.operationId), amount, kind⟩))
      | _ => (deposits, some (.ok ⟨createdAt, .operation op.key.operationId, amount, kind⟩))

/-- The operations of a page render one after the other. -/
def getTransactions (deposits : Deposits) : List Operation → Deposits × List ListEntry
  | [] => (deposits, [])
  | op :: page =>
    let r := getTransaction deposits op
    let rest := getTransactions r.1 page
    (rest.1, r.2.toList ++ rest.2)

/-! ## The first page -/

def entryCreatedAt : ListEntry → ℕ
  | .ok e => e.createdAt
  | .error _ => 0

/-- Sorted by their times, the newest first, and cut to the limit. -/
def sortAndTruncate (entries : List ListEntry) (limit : ℕ) : List ListEntry :=
  (entries.insertionSort fun a b => entryCreatedAt b ≤ entryCreatedAt a).take limit

def claimedAddresses (entries : List ListEntry) : List String :=
  entries.filterMap fun
    | .ok ⟨_, _, _, .onchainDeposit onchainAddress⟩ => some onchainAddress
    | _ => none

/-- A row that is older than the page belongs to a later one. -/
def OlderThan (oldestOpTime : Option ℕ) (createdAt : ℕ) : Prop := ∃ oldest ∈ oldestOpTime, createdAt < oldest

instance (oldestOpTime : Option ℕ) (createdAt : ℕ) : Decidable (OlderThan oldestOpTime createdAt) :=
  inferInstanceAs (Decidable (∃ oldest ∈ oldestOpTime, _))

def mergeAwaitingDeposits (deposits : Deposits) (entries : List ListEntry) (limit : ℕ) (oldestOpTime : Option ℕ) :
    List ListEntry :=
  let awaiting := listAwaitingDeposits deposits
  if awaiting = [] then entries
  else
    let claimed := claimedAddresses entries
    let rows := awaiting.filter fun row => decide (row.1 ∉ claimed ∧ ¬ OlderThan oldestOpTime row.2)
    sortAndTruncate (entries ++ rows.map fun row => .ok (awaitingDepositEntry row.1 row.2)) limit

def saturatingAdd (a b : ℕ) : ℕ := min (a + b) (2 ^ 64 - 1)

/-- What the seats of a formation payment come to. -/
structure FormationTotals where
  amountMsats : ℕ
  seatsPaid : ℕ
  seatsTotal : ℕ
  live : Bool

def FormationTotals.add (totals : FormationTotals) (member : Member) : FormationTotals :=
  let totals := { totals with seatsTotal := totals.seatsTotal + 1 }
  match member.state with
  | .held => { totals with live := true, amountMsats := saturatingAdd totals.amountMsats member.reservedMsats }
  | .consumed debitMsats =>
    { totals with
      live := true
      seatsPaid := totals.seatsPaid + 1
      amountMsats := saturatingAdd totals.amountMsats (debitMsats - member.refundedMsats.getD 0) }
  | .releasedUnstarted => totals

def formationEntry (reservation : Reservation) (totals : FormationTotals) : TransactionListEntry :=
  ⟨reservation.createdAtSecs, .formation reservation.fingerprint, totals.amountMsats,
    .fiFormationPayment totals.seatsPaid totals.seatsTotal⟩

/-- One row per formation payment, unless it was released without a payment. -/
def formationRow (oldestOpTime : Option ℕ) (reservation : Reservation) : Option ListEntry :=
  let totals := reservation.members.foldl FormationTotals.add ⟨0, 0, 0, false⟩
  if ¬ totals.live then none
  else if OlderThan oldestOpTime reservation.createdAtSecs then none
  else some (.ok (formationEntry reservation totals))

def mergeFiFormationPayments (reservations : List Reservation) (entries : List ListEntry) (limit : ℕ)
    (oldestOpTime : Option ℕ) : List ListEntry :=
  if reservations = [] then entries
  else sortAndTruncate (entries ++ reservations.filterMap (formationRow oldestOpTime)) limit

/-- A short page reached the end of the log. -/
def oldestOpTime (page : List Operation) (limit : ℕ) : Option ℕ :=
  if limit ≤ page.length then (page.filterMap fun op => toUnixTime op.key.creationTime).min? else none

def listTransactions (log : OperationLog) (reservations : List Reservation) (limit : ℕ) (deposits : Deposits)
    (startAfter : Option OperationLogKey) : Deposits × List ListEntry :=
  let page := log.paginateOperationsRev limit startAfter
  let oldest := oldestOpTime page limit
  let r := getTransactions deposits page
  match startAfter with
  | some _ => r
  | none =>
    let entries := mergeAwaitingDeposits r.1 r.2 limit oldest
    (r.1, mergeFiFormationPayments reservations entries limit oldest)

end TransactionHistory
