import Fedi.FederationSlice.ListItems
import Fedi.Lib.BTreeMap
import Fedi.Lib.Tasks

/-!
# The federations of the store

The slice keeps what the bridge last told it about each federation.  The bridge answers a list
request with a snapshot of its own map, and announces changes with events; answers and events
are delivered later.  A guardian status request works on the federation as it was when the
request was made, and writes all of it back.

    refreshFederations:        listFederations (asked → snapshot → delivered)
    refreshGuardianStatuses:   getGuardianStatus (asked → delivered)
    leaveFederation:           leaveFederation (asked → left → delivered)

`clock`, `left` and `newest` are not part of the code: they follow the changes of the bridge,
which federations were left and not joined again, and the newest balance that was delivered.
-/

namespace FederationSlice

open BTreeMaps Tasks

/-! ## Federations -/

inductive InitState
  | loading
  | failed
  | ready
deriving DecidableEq

inductive FederationStatus
  | online
  | unstable
  | offline
deriving DecidableEq

/-- A federation object; a property that the object does not have is missing.  `metadata` is its `meta`. -/
structure Federation where
  id : String
  initState : InitState
  error : Option String
  name : Option String
  balance : Option ℕ
  recovering : Option Bool
  status : Option FederationStatus
  metadata : Option (BTreeMap String String)
deriving DecidableEq

/-- `{ ...existing, ...new }`. -/
def Federation.spread (existing new : Federation) : Federation where
  id := new.id
  initState := new.initState
  error := new.error <|> existing.error
  name := new.name <|> existing.name
  balance := new.balance <|> existing.balance
  recovering := new.recovering <|> existing.recovering
  status := new.status <|> existing.status
  metadata := new.metadata <|> existing.metadata

/-- `{ ...existing.meta, ...new.meta }`. -/
def Federation.mergedMeta (existing new : Federation) : BTreeMap String String :=
  (existing.metadata.getD .empty).insertAll (new.metadata.getD .empty)

def Federation.upsert (existing new : Federation) : Federation :=
  { existing.spread new with metadata := some (existing.mergedMeta new) }

/-- The update of an existing federation in `setFederations`. -/
def Federation.set (existing federationToUpsert : Federation) : Federation :=
  match federationToUpsert.initState with
  | .loading | .failed => federationToUpsert
  | .ready =>
    match federationToUpsert.metadata with
    | some _ => { existing.spread federationToUpsert with metadata := some (existing.mergedMeta federationToUpsert) }
    | none => existing.spread federationToUpsert

/-- A federation of the bridge. -/
inductive RpcFederation
  | loading
  | failed (error : String)
  | ready (name : String) (balance : ℕ) (recovering : Bool) (metadata : BTreeMap String String)
deriving DecidableEq

/-- `coerceLoadedFederation` for a federation that is ready. -/
def RpcFederation.coerce (id : String) : RpcFederation → Federation
  | .loading => ⟨id, .loading, none, none, none, none, none, none⟩
  | .failed error => ⟨id, .failed, some error, none, none, none, none, none⟩
  | .ready name balance recovering metadata =>
    ⟨id, .ready, none, some name, some balance, some recovering, some .online, some metadata⟩

/-! ## State -/

structure System where
  federations : List Federation
  payFromFederationId : Option String
  recentlyUsedFederationIds : List String
  selectedFederationId : Option String
  bridge : BTreeMap String RpcFederation
  clock : ℕ
  left : List String
  newest : BTreeMap String (ℕ × ℕ)

def System.initial : System := ⟨[], none, [], none, .empty, 0, [], .empty⟩

/-! ## Reducers -/

def System.setFederations (s : System) (payload : List Federation) : System :=
  let updatedFederations := s.federations.map fun existing =>
    match payload.find? fun f => decide (f.id = existing.id) with
    | none => existing
    | some federationToUpsert => existing.set federationToUpsert
  { s with federations := updatedFederations ++ newItems Federation.id s.federations payload }

def System.upsertFederation (s : System) (payload : Federation) : System :=
  if payload.id = "" then s
  else { s with federations := upsertListItem Federation.id Federation.upsert s.federations payload }

def setBalance (federations : List Federation) (federationId : String) (balance : ℕ) : List Federation :=
  federations.map fun f => if f.id = federationId then { f with balance := some balance } else f

def System.updateFederationBalance (s : System) (federationId : String) (balance : ℕ) : System :=
  match s.federations.find? fun f => decide (f.id = federationId) with
  | none => s
  | some federation =>
    if federation.initState ≠ .ready ∨ federation.balance = some balance then s
    else { s with federations := setBalance s.federations federationId balance }

def System.setLastUsedFederationId (s : System) (payload : String) : System :=
  { s with
    recentlyUsedFederationIds := payload :: s.recentlyUsedFederationIds.filter fun id => decide (id ≠ payload)
    selectedFederationId := some payload }

/-- `leaveFederation.fulfilled`. -/
def System.leaveFulfilled (s : System) (federationId : String) : System :=
  let federations := s.federations.filter fun fed => decide (fed.id ≠ federationId)
  match federations with
  | [] => { s with federations := [], payFromFederationId := none }
  | first :: _ =>
    let recentlyUsed := s.recentlyUsedFederationIds.filter fun id => decide (id ≠ federationId)
    let recentlyUsed := if recentlyUsed = [] then [first.id] else recentlyUsed
    { s with
      federations := federations
      recentlyUsedFederationIds := recentlyUsed
      payFromFederationId :=
        if s.payFromFederationId = some federationId then recentlyUsed.head? else s.payFromFederationId }

/-! ## What was delivered -/

/-- A balance of bridge time `time` is delivered. -/
def note (newest : BTreeMap String (ℕ × ℕ)) (id : String) (balance time : ℕ) : BTreeMap String (ℕ × ℕ) :=
  match newest.get? id with
  | none => newest.insert id (time, balance)
  | some known => if known.1 ≤ time then newest.insert id (time, balance) else newest

def noteFederation (time : ℕ) (newest : BTreeMap String (ℕ × ℕ)) (federation : Federation) :
    BTreeMap String (ℕ × ℕ) :=
  match federation.balance with
  | none => newest
  | some balance => note newest federation.id balance time

def System.noteAll (s : System) (federations : List Federation) (time : ℕ) : System :=
  { s with newest := federations.foldl (noteFederation time) s.newest }

/-! ## Tasks -/

inductive Call
  | refreshFederations
  | leaveFederation (federationId : String)
  /- A federation is joined or changes, with or without an event, and its balance changes. -/
  | bridgeFederation (id : String) (federation : RpcFederation) (event : Bool)
  | bridgeBalance (id : String) (balance : ℕ)
  /- The user picks a federation of the list. -/
  | payFrom (id : String)
  | lastUsed (id : String)
  | select (id : String)

inductive Task
  | listing
  | listed (answer : List Federation) (time : ℕ)
  | guardianStarting (federation : Federation)
  | guardianStatus (federation : Federation)
  | federationEvent (federation : Federation) (time : ℕ)
  | balanceEvent (federationId : String) (balance time : ℕ)
  | leaveStarting (federationId : String)
  | leaving (federationId : String)
  | left (federationId : String)
  | bridgeFederation (id : String) (federation : RpcFederation) (event : Bool)
  | bridgeBalance (id : String) (balance : ℕ)
  | payFrom (id : String)
  | lastUsed (id : String)
  | select (id : String)
deriving DecidableEq

def start : Call → Task
  | .refreshFederations => .listing
  | .leaveFederation federationId => .leaveStarting federationId
  | .bridgeFederation id federation event => .bridgeFederation id federation event
  | .bridgeBalance id balance => .bridgeBalance id balance
  | .payFrom id => .payFrom id
  | .lastUsed id => .lastUsed id
  | .select id => .select id

structure Input where
  fails : Bool
  isInternetUnreachable : Bool
  status : FederationStatus

/-! ## Steps -/

/-- `listFederations` on the bridge. -/
def listFederations (bridge : BTreeMap String RpcFederation) : List Federation :=
  bridge.entries.map fun e => e.2.coerce e.1

/-- The ready federations of an answer get their guardian statuses. -/
def guardianTasks (answer : List Federation) : List Task :=
  (answer.filter fun f => decide (f.initState = .ready)).map .guardianStarting

/-- Without a last used federation the first one is it. -/
def System.useFirst (s : System) (federations : List Federation) : System :=
  match s.recentlyUsedFederationIds, federations with
  | [], first :: _ => if first.id = "" then s else s.setLastUsedFederationId first.id
  | _, _ => s

/-- `refreshFederations` once it has the answer. -/
def refresh (s : System) (answer : List Federation) (time : ℕ) : System × List Task :=
  (((s.noteAll answer time).setFederations answer).useFirst answer, guardianTasks answer)

def refreshGuardianStatus (s : System) (federation : Federation) (input : Input) : System × List Task :=
  if input.fails then (s, []) else (s.upsertFederation { federation with status := some input.status }, [])

/-- The name in the meta comes first. -/
def named (federation : Federation) : Federation :=
  match federation.metadata.bind fun metadata => metadata.get? "federation_name" with
  | none => federation
  | some name => if name = "" then federation else { federation with name := some name }

/-- The listener for federation events of the bridge. -/
def onFederation (s : System) (federation : Federation) (time : ℕ) : System × List Task :=
  if federation.id = "" then (s, [])
  else
    ((s.noteAll [federation] time).upsertFederation federation,
      match federation.initState with
      | .loading | .failed => []
      | .ready => [.guardianStarting (named federation)])

def startLeave (s : System) (federationId : String) : System × List Task :=
  if federationId ∉ ids Federation.id s.federations ∨
      ∃ f ∈ s.federations, f.initState = .ready ∧ f.recovering = some true then
    (s, [])
  else (s, [.leaving federationId])

/-- The bridge leaves the federation. -/
def leave (s : System) (federationId : String) (fails : Bool) : System × List Task :=
  if fails ∨ s.bridge.get? federationId = none then (s, [])
  else
    ({ s with bridge := s.bridge.erase federationId, clock := s.clock + 1, left := federationId :: s.left },
      [.left federationId])

def changeFederation (s : System) (id : String) (federation : RpcFederation) (event : Bool) : System × List Task :=
  ({ s with
      bridge := s.bridge.insert id federation
      clock := s.clock + 1
      left := s.left.filter fun other => decide (other ≠ id) },
    if event then [.federationEvent (federation.coerce id) (s.clock + 1)] else [])

def changeBalance (s : System) (id : String) (balance : ℕ) : System × List Task :=
  match s.bridge.get? id with
  | some (.ready name _ recovering metadata) =>
    ({ s with bridge := s.bridge.insert id (.ready name balance recovering metadata), clock := s.clock + 1 },
      [.balanceEvent id balance (s.clock + 1)])
  | _ => (s, [])

def onBalance (s : System) (federationId : String) (balance time : ℕ) : System × List Task :=
  ({ s with newest := note s.newest federationId balance time }.updateFederationBalance federationId balance, [])

/-- The user picks a federation of the list. -/
def System.pick (s : System) (id : String) (f : System → System) : System × List Task :=
  (if id ∈ ids Federation.id s.federations then f s else s, [])

def run (s : System) (task : Task) (input : Input) : System × List Task :=
  match task with
  | .listing => (s, if input.fails then [] else [.listed (listFederations s.bridge) s.clock])
  | .listed answer time => refresh s answer time
  | .guardianStarting federation =>
    (s, if input.isInternetUnreachable then [] else [.guardianStatus federation])
  | .guardianStatus federation => refreshGuardianStatus s federation input
  | .federationEvent federation time => onFederation s federation time
  | .balanceEvent federationId balance time => onBalance s federationId balance time
  | .leaveStarting federationId => startLeave s federationId
  | .leaving federationId => leave s federationId input.fails
  | .left federationId => (s.leaveFulfilled federationId, [])
  | .bridgeFederation id federation event => changeFederation s id federation event
  | .bridgeBalance id balance => changeBalance s id balance
  | .payFrom id => s.pick id fun s => { s with payFromFederationId := some id }
  | .lastUsed id => s.pick id fun s => s.setLastUsedFederationId id
  | .select id => s.pick id fun s => { s with selectedFederationId := some id }

/-- The store and the bridge after a run. -/
def federations (es : List (Event Call Input)) : Pool System Task := pool start run ⟨System.initial, []⟩ es

end FederationSlice
