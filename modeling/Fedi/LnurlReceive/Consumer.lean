import Fedi.Lib.Optimistic
import Fedi.Lib.BTreeMap

/-!
# Lnurl receives (`ln_ops/v2.rs`)

The client's scanner claims lnurl payments on its own and logs an event for each.  A consumer follows the
log through a durable cursor and keeps an entry for every receive whose transaction event is still
owed; one subscriber an operation emits the event and then removes the entry; a repair pass starts the
subscribers again.
-/

namespace LnurlReceive

open BTreeMaps Optimistic

abbrev OperationId := ℕ
abbrev EventLogId := ℕ

/-! ## The event log -/

inductive EventKind where
  | receivePayment
  | other
deriving DecidableEq

inductive ModuleKind where
  | lnv2
  | other
deriving DecidableEq

/-- An entry of the persistent event log, with the operation that its payload decodes to. -/
structure EventLogEntry where
  kind : EventKind
  moduleKind : Option ModuleKind
  payload : Option OperationId
deriving DecidableEq

/-- Metadata of an operation, where it is metadata of lnv2. -/
inductive OperationMeta where
  | send
  | receive
  | lnurlReceive
  | undecodable
deriving DecidableEq

/-- The rows of the client's database that delivery reads and writes. -/
structure ReceiveDb where
  log : List EventLogEntry
  operations : BTreeMap OperationId OperationMeta
  cursor : Option EventLogId
  pending : BTreeMap OperationId Unit

inductive RowWrite where
  | cursor (next : EventLogId)
  | pending (operationId : OperationId)
  | noPending (operationId : OperationId)
deriving DecidableEq

namespace RowWrite

def write (w : RowWrite) (db : ReceiveDb) : ReceiveDb :=
  match w with
  | .cursor next => { db with cursor := some next }
  | .pending operationId => { db with pending := db.pending.insert operationId () }
  | .noPending operationId => { db with pending := db.pending.erase operationId }

def Same (w : RowWrite) (db db' : ReceiveDb) : Prop :=
  match w with
  | .cursor _ => db'.cursor = db.cursor
  | .pending operationId => db'.pending.get? operationId = db.pending.get? operationId
  | .noPending operationId => db'.pending.get? operationId = db.pending.get? operationId

end RowWrite

def receiveRows : Rows ReceiveDb RowWrite where
  write := RowWrite.write
  Same := RowWrite.Same
  decidableSame := fun w db db' => by
    cases w <;> unfold RowWrite.Same <;> infer_instance

/-! ## The consumer -/

/-- The operation of an lnurl receive; every other entry is skipped for good. -/
def handleEventLogEntry (operations : BTreeMap OperationId OperationMeta) (entry : EventLogEntry) :
    Option OperationId :=
  if entry.kind ≠ .receivePayment ∨ entry.moduleKind ≠ some .lnv2 then none
  else
    match entry.payload with
    | none => none
    | some operationId =>
      match operations.get? operationId with
      | some .lnurlReceive => some operationId
      | _ => none

def saturatingAdd (a b : ℕ) : ℕ := min (a + b) (2 ^ 64 - 1)

inductive ConsumeStop where
  | cursorMissing
  | logExhausted
deriving DecidableEq

/-- One iteration of `spawn_lnurl_receives_consumer`; operations are looked up outside its transaction. -/
def consumeNext (operations : BTreeMap OperationId OperationMeta) (dbtx : ReceiveDb) :
    Except ConsumeStop (Option OperationId × List RowWrite) :=
  match dbtx.cursor with
  | none => .error .cursorMissing
  | some next =>
    match dbtx.log[next]? with
    | none => .error .logExhausted
    | some entry =>
      let discovered := handleEventLogEntry operations entry
      .ok (discovered, discovered.toList.map .pending ++ [.cursor (saturatingAdd next 1)])

inductive Consumer where
  | stopped
  | idle
  | reading (attempt : Attempt ReceiveDb)
  | spawning (operationId : OperationId)

/-! ## Subscribers -/

inductive ReceiveOutcome where
  | claimed
  | expired
  | failure
deriving DecidableEq

/-- What a subscription yields: states on the way, and at most one outcome, which ends it. -/
structure ReceiveUpdates where
  ongoing : ℕ
  outcome : Option ReceiveOutcome
deriving DecidableEq

/-- Where `run_lnurl_receive_subscription` is. -/
inductive SubscriberPhase where
  | checking
  | subscribing
  | following (updates : ReceiveUpdates)
  | emitted
  | removing (attempt : Attempt ReceiveDb)

structure Subscriber where
  operationId : OperationId
  phase : SubscriberPhase

def removePending (operationId : OperationId) (_ : ReceiveDb) : Except ConsumeStop (Unit × List RowWrite) :=
  .ok ((), [.noPending operationId])

/-- The client, what runs on it, and what its sink has accepted. -/
structure System where
  db : ReceiveDb
  running : Bool
  consumer : Consumer
  /-- The operations that each repair pass has still to respawn. -/
  passes : List (List OperationId)
  /-- A subscriber holds the claim on its operation until it ends. -/
  subscribers : List Subscriber
  accepted : List OperationId
  /-- Where the cursor was first put. -/
  initial : Option EventLogId
  crashed : Bool
  failedRemovals : List OperationId

def System.start : System :=
  ⟨⟨[], .empty, none, .empty⟩, false, .stopped, [], [], [], none, false, []⟩

/-- `spawn_operation_subscriber`: nothing happens while the operation is claimed. -/
def spawnLnurlReceiveSubscriber (s : System) (operationId : OperationId) : System :=
  if operationId ∈ s.subscribers.map Subscriber.operationId then s
  else { s with subscribers := s.subscribers ++ [⟨operationId, .checking⟩] }

/-- What a subscriber meets. -/
structure World where
  subscribed : Option ReceiveUpdates
  accepts : Bool
  refused : Bool

inductive Next where
  | goOn (phase : SubscriberPhase)
  | ends

def advance (w : World) (s : System) (sub : Subscriber) : System × Next :=
  match sub.phase with
  | .checking => (s, if s.db.pending.get? sub.operationId = some () then .goOn .subscribing else .ends)
  | .subscribing =>
    match w.subscribed with
    | none => (s, .ends)
    | some updates => (s, .goOn (.following updates))
  | .following ⟨ongoing + 1, outcome⟩ => (s, .goOn (.following ⟨ongoing, outcome⟩))
  | .following ⟨0, none⟩ => (s, .ends)
  | .following ⟨0, some _⟩ =>
    if w.accepts then ({ s with accepted := s.accepted ++ [sub.operationId] }, .goOn .emitted) else (s, .ends)
  | .emitted => (s, .goOn (.removing ⟨s.db, 10⟩))
  | .removing attempt =>
    match autocommit receiveRows (removePending sub.operationId) w.refused attempt s.db with
    | .committed _ db => ({ s with db := db }, .ends)
    | .retry attempt => (s, .goOn (.removing attempt))
    | .closureError _ => (s, .ends)
    | .commitFailed => ({ s with failedRemovals := s.failedRemovals ++ [sub.operationId] }, .ends)

/-! ## Runs -/

inductive Event where
  | operation (operationId : OperationId) (metadata : OperationMeta)
  | logged (entry : EventLogEntry)
  /-- The federation is loaded, with or without the lnv2 module. -/
  | load (lnv2 : Bool)
  | consume
  | commit (refused : Bool)
  | spawnDiscovered
  | repair
  | respawn (i : ℕ)
  | advance (i : ℕ) (w : World)
  | crash

def EventLogEntry.receives (entry : EventLogEntry) : Option OperationId :=
  if entry.kind = .receivePayment ∧ entry.moduleKind = some .lnv2 then entry.payload else none

/-- An operation logs its event once, after its own entry in the operation log. -/
def ReceiveDb.Loggable (db : ReceiveDb) (entry : EventLogEntry) : Prop :=
  (∀ operationId ∈ entry.receives, db.operations.get? operationId ≠ none ∧
    ∀ entry' ∈ db.log, entry'.receives ≠ some operationId) ∧ db.log.length + 1 < 2 ^ 64

instance (db : ReceiveDb) (entry : EventLogEntry) : Decidable (db.Loggable entry) := by
  unfold ReceiveDb.Loggable
  infer_instance

/-- `init_event_log_cursor_if_absent`. -/
def initEventLogCursorIfAbsent (s : System) : System :=
  match s.db.cursor with
  | some _ => s
  | none => { s with db := { s.db with cursor := some s.db.log.length }, initial := some s.db.log.length }

def step (s : System) : Event → System
  | .operation operationId metadata =>
    if s.db.operations.get? operationId = none then
      { s with db := { s.db with operations := s.db.operations.insert operationId metadata } }
    else s
  | .logged entry => if s.db.Loggable entry then { s with db := { s.db with log := s.db.log ++ [entry] } } else s
  | .load lnv2 =>
    if s.running then s
    else
      let s := initEventLogCursorIfAbsent s
      if lnv2 then { s with running := true, consumer := .idle, passes := [s.db.pending.keys] }
      else { s with running := true }
  | .consume =>
    match s.consumer with
    | .idle => { s with consumer := .reading ⟨s.db, 1⟩ }
    | _ => s
  | .commit refused =>
    match s.consumer with
    | .reading attempt =>
      match autocommit receiveRows (consumeNext s.db.operations) refused attempt s.db with
      | .committed (some operationId) db => { s with db := db, consumer := .spawning operationId }
      | .committed none db => { s with db := db, consumer := .idle }
      | .closureError .cursorMissing => { s with consumer := .stopped }
      | .closureError .logExhausted => { s with consumer := .idle }
      | .retry attempt => { s with consumer := .reading attempt }
      | .commitFailed => { s with consumer := .idle }
    | _ => s
  | .spawnDiscovered =>
    match s.consumer with
    | .spawning operationId => spawnLnurlReceiveSubscriber { s with consumer := .idle } operationId
    | _ => s
  | .repair => if s.running then { s with passes := s.passes ++ [s.db.pending.keys] } else s
  | .respawn i =>
    match s.passes[i]? with
    | none => s
    | some [] => { s with passes := s.passes.eraseIdx i }
    | some (operationId :: pass) => spawnLnurlReceiveSubscriber { s with passes := s.passes.set i pass } operationId
  | .advance i w =>
    match s.subscribers[i]? with
    | none => s
    | some sub =>
      match advance w s sub with
      | (s, .goOn phase) => { s with subscribers := s.subscribers.set i ⟨sub.operationId, phase⟩ }
      | (s, .ends) => { s with subscribers := s.subscribers.eraseIdx i }
  | .crash => { s with running := false, consumer := .stopped, passes := [], subscribers := [], crashed := true }

def receives (es : List Event) : System := es.foldl step .start

end LnurlReceive
