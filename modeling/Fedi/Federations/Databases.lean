import Mathlib.Algebra.Order.Ring.Nat
import Fedi.Lib.KeySpaces

/-!
# The databases of the federations in the global database

Everything that the bridge keeps is in one global database: the bridge's own namespaces under
`[BRIDGE_DB_PREFIX, tag]`, `AppState` among them, and the database of each federation under
the encoding of a number that `AppState` hands out at a join.  (Federations of the first
version have a database with a name of its own.)

At most one client per federation id is open, so a federation id is a slot.  The slots, the
bridge and the reset of the FI client take their steps in any order, with restarts between
them; a step ends at a database transaction.
-/

namespace FederationDbs

open KeySpaces

/-! ## State -/

inductive DatabaseInfo
  | databaseName (name : String)
  | databasePrefix (n : ℕ)
deriving DecidableEq

structure FederationInfo where
  version : ℕ
  database : DatabaseInfo
deriving DecidableEq

/-- What the federations use of `AppState`, and its other fields. -/
structure AppState where
  nextFederationDbPrefix : ℕ
  joinedFederations : String → Option FederationInfo
  others : List UInt8

inductive BridgeDbPrefix
  | multispend
  | federationPendingRejoinFromScratch
  | appState
  | wasmFileStorage
  | spTransfers
  | remoteFeaturesLastFetched
  | fiClient
  | fiFederationAutoJoinCompleted
  | fiClientResetPending
deriving DecidableEq

def BridgeDbPrefix.toByte : BridgeDbPrefix → UInt8
  | multispend => 0x01
  | federationPendingRejoinFromScratch => 0x02
  | appState => 0x03
  | wasmFileStorage => 0x04
  | spTransfers => 0x05
  | remoteFeaturesLastFetched => 0x06
  | fiClient => 0x07
  | fiFederationAutoJoinCompleted => 0x08
  | fiClientResetPending => 0x09

inductive RuntimeEnvironment
  | dev
  | tests
  | staging
  | edge
  | prod
deriving DecidableEq

/-- A value as it is stored: bytes, or an `AppState` as JSON. -/
inductive Value
  | bytes (bytes : List UInt8)
  | appStateJson (state : AppState)

inductive Space
  | federation (db : DatabaseInfo)
  | bridge (tag : BridgeDbPrefix)
deriving DecidableEq

/-- A federation id: who holds its lock, with what they hold. -/
inductive Slot
  | absent
  | loading (db : DatabaseInfo)
  | loadFailed
  | joining (n : ℕ)
  | live (db : DatabaseInfo)
  /- The client uses a database, and the entry that was removed names one. -/
  | leaving (db removed : DatabaseInfo)
deriving DecidableEq

/-- A write with the federation that made it, or none for the bridge. -/
structure Entry where
  author : Option String
  command : Command Space UInt8 Value

structure System where
  appState : AppState
  slots : String → Slot
  globalDb : Store UInt8 Value
  namedDbs : String → Store UInt8 Value
  /-- The databases so far, each with the federation that it was made for. -/
  owners : List (DatabaseInfo × String)
  log : List Entry
  deleted : List DatabaseInfo

/-! ## The global database -/

def firstFederationDbPrefix : ℕ := 1

def bridgeDbPrefix : UInt8 := 0

/-- Where a space starts in the global database. -/
def starts (encode : ℕ → List UInt8) : Space → List UInt8
  | .federation (.databaseName _) => []
  | .federation (.databasePrefix n) => encode n
  | .bridge tag => [bridgeDbPrefix, tag.toByte]

section
variable (encode : ℕ → List UInt8)

def System.space (s : System) : Space → Store UInt8 Value
  | .federation (.databaseName name) => s.namedDbs name
  | i => s.globalDb.view (starts encode i)

/-- One transaction on a space. -/
def System.exec (s : System) (author : Option String) (c : Command Space UInt8 Value) : System :=
  match c.space with
  | .federation (.databaseName name) =>
    { s with
      namedDbs := Function.update s.namedDbs name (c.onSpace (s.namedDbs name))
      log := s.log ++ [⟨author, c⟩] }
  | _ => { s with globalDb := c.onStore (starts encode) s.globalDb, log := s.log ++ [⟨author, c⟩] }

/-! ## `AppState` -/

def System.appStateInDb (s : System) : Option AppState :=
  match s.space encode (.bridge .appState) [] with
  | some (.appStateJson a) => some a
  | _ => none

/-- A new `AppState`, first in the database and then in memory. -/
def System.commit (s : System) (a : AppState) : System :=
  { s.exec encode none (.set (.bridge .appState) [] (some (.appStateJson a))) with appState := a }

/-- The closure gets the state from the database; where it panics nothing is committed. -/
def System.withWriteLock {α : Type} (s : System) (closure : AppState → Option (AppState × α)) : Option (System × α) :=
  match s.appStateInDb encode with
  | none => none
  | some a =>
    match closure a with
    | none => none
    | some (a', result) => some (s.commit encode a', result)

/-- A new number for a database. -/
def newFederationDbPrefix (a : AppState) : Option (AppState × ℕ) :=
  some ({ a with nextFederationDbPrefix := (a.nextFederationDbPrefix + 1) % 2 ^ 64 }, a.nextFederationDbPrefix)

/-- `must not override a federation`. -/
def registerFederation (id : String) (n : ℕ) (a : AppState) : Option (AppState × Unit) :=
  match a.joinedFederations id with
  | some _ => none
  | none =>
    some ({ a with joinedFederations := Function.update a.joinedFederations id (some ⟨2, .databasePrefix n⟩) }, ())

def removeFederation (id : String) (a : AppState) : Option (AppState × Option FederationInfo) :=
  some ({ a with joinedFederations := Function.update a.joinedFederations id none }, a.joinedFederations id)

/-! ## Steps -/

def System.setSlot (s : System) (id : String) (slot : Slot) : System :=
  { s with slots := Function.update s.slots id slot }

/-- What happens to one federation. -/
inductive Action
  | join
  | write (key : List UInt8) (value : Option Value)
  | finish
  | fail
  /- The monitor of a recovery opens the client again. -/
  | reopen
  | leave
  | delete

/-- The number is taken before anything else. -/
def join (s : System) (id : String) : System :=
  match s.withWriteLock encode newFederationDbPrefix with
  | none => s
  | some (s, n) => { s.setSlot id (.joining n) with owners := (.databasePrefix n, id) :: s.owners }

def write (s : System) (id : String) (key : List UInt8) (value : Option Value) : System :=
  match s.slots id with
  | .loading db | .live db | .leaving db _ => s.exec encode (some id) (.set (.federation db) key value)
  | .joining n => s.exec encode (some id) (.set (.federation (.databasePrefix n)) key value)
  | .absent | .loadFailed => s

def finish (s : System) (id : String) : System :=
  match s.slots id with
  | .joining n =>
    match s.withWriteLock encode (registerFederation id n) with
    | none => s.setSlot id .absent
    | some (s, _) => s.setSlot id (.live (.databasePrefix n))
  | .loading db => s.setSlot id (.live db)
  | _ => s

def fail (s : System) (id : String) : System :=
  match s.slots id with
  | .joining _ | .leaving _ _ => s.setSlot id .absent
  | .loading _ => s.setSlot id .loadFailed
  | _ => s

def reopen (s : System) (id : String) : System :=
  match s.slots id with
  | .live _ =>
    match s.appState.joinedFederations id with
    | none => s.setSlot id .absent
    | some info => s.setSlot id (.loading info.database)
  | _ => s

def leave (s : System) (id : String) : System :=
  match s.slots id with
  | .live db =>
    match s.withWriteLock encode (removeFederation id) with
    | none => s
    -- `federation must be present in state if it is present as state machine`
    | some (s, none) => s.setSlot id .absent
    | some (s, some info) => s.setSlot id (.leaving db info.database)
  | _ => s

def delete (s : System) (id : String) : System :=
  match s.slots id with
  | .leaving _ removed =>
    { (s.exec encode (some id) (.clear (.federation removed))).setSlot id .absent with deleted := removed :: s.deleted }
  | _ => s

/-- The state machine joins only what it does not have. -/
def act (s : System) (id : String) : Action → System
  | .join => if s.slots id = .absent then join encode s id else s
  | .write key value => write encode s id key value
  | .finish => finish encode s id
  | .fail => fail s id
  | .reopen => reopen s id
  | .leave => leave encode s id
  | .delete => delete encode s id

/-- `AppState::load` and `load_joined_federations_in_background`. -/
def restart (s : System) : System :=
  match s.appStateInDb encode with
  | none => s
  | some a =>
    { s with
      appState := a
      slots := fun id =>
        match a.joinedFederations id with
        | some info => if info.version < 2 then .absent else .loading info.database
        | none => .absent }

def fiClientResetIsAllowed (environment : RuntimeEnvironment) : Bool :=
  environment = .dev ∨ environment = .tests ∨ environment = .staging

def scheduleFiClientReset (s : System) (environment : RuntimeEnvironment) : System :=
  if fiClientResetIsAllowed environment then
    s.exec encode none (.set (.bridge .fiClientResetPending) [] (some (.bytes [])))
  else s

def applyScheduledFiClientReset (s : System) (environment : RuntimeEnvironment) : System :=
  if fiClientResetIsAllowed environment = false then s
  else if (s.space encode (.bridge .fiClientResetPending) []).isNone then s
  else
    (s.exec encode none (.clear (.bridge .fiClient))).exec encode none (.set (.bridge .fiClientResetPending) [] none)

inductive Event
  | federation (id : String) (action : Action)
  /- The services of the bridge, each in its namespace. -/
  | bridge (tag : BridgeDbPrefix) (key : List UInt8) (value : Option Value)
  | updateAppState (others : List UInt8)
  | scheduleFiClientReset
  | applyScheduledFiClientReset
  | restart

def updateAppState (s : System) (others : List UInt8) : System :=
  match s.withWriteLock encode fun a => some ({ a with others := others }, ()) with
  | none => s
  | some (s, _) => s

def step (environment : RuntimeEnvironment) (s : System) : Event → System
  | .federation id action => act encode s id action
  | .bridge tag key value =>
    if tag = .appState ∨ tag = .fiClientResetPending then s else s.exec encode none (.set (.bridge tag) key value)
  | .updateAppState others => updateAppState encode s others
  | .scheduleFiClientReset => scheduleFiClientReset encode s environment
  | .applyScheduledFiClientReset => applyScheduledFiClientReset encode s environment
  | .restart => restart encode s

/-- The system after a run. -/
def run (environment : RuntimeEnvironment) (s0 : System) (es : List Event) : System :=
  es.foldl (step encode environment) s0

end

end FederationDbs
