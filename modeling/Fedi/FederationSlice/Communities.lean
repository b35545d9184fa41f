import Fedi.FederationSlice.ListItems
import Fedi.Lib.BTreeMap
import Fedi.Lib.Tasks

/-!
# The communities of the store

The bridge joins, leaves and migrates communities at once; its answers and events are delivered
later.  A refresh replaces the list of the store with the answer of the bridge.  The join of the
default community replaces it too, with the list that the store had before the join was asked
for.  A community that is joined automatically is noted only when the answer is there.

    refreshCommunities:              listCommunities (asked → listed)
    ensureDefaultCommunityIsJoined:  joinCommunity   (asked → joined)
    autojoinCommunity:               joinCommunity   (asked → joined) → refreshCommunities

`autojoined`, `autojoinedLeft` and `rejoined` are not part of the code: they follow which
communities were joined automatically, which of them were left, and which were joined
automatically after that.
-/

namespace CommunityStore

open BTreeMaps FederationSlice Tasks

/-! ## Communities -/

/-- A community of the bridge, by its invite code; `metadata` is its `meta`. -/
structure RpcCommunity where
  name : String
  metadata : BTreeMap String String
deriving DecidableEq

structure Community where
  id : String
  name : String
  metadata : BTreeMap String String
deriving DecidableEq

def RpcCommunity.coerce (id : String) (community : RpcCommunity) : Community := ⟨id, community.name, community.metadata⟩

/-- `{ ...existing, ...new }` with the `meta` objects merged. -/
def Community.merge (existing new : Community) : Community :=
  { new with metadata := existing.metadata.insertAll new.metadata }

/-! ## State -/

structure System where
  communities : List Community
  lastSelectedCommunityId : Option String
  previouslyAutojoinedCommunities : List String
  autojoinNoticesToDisplay : List String
  bridge : BTreeMap String RpcCommunity
  autojoined : List String
  autojoinedLeft : List String
  rejoined : List String

def System.initial : System := ⟨[], none, [], [], .empty, [], [], []⟩

abbrev System.ids (s : System) : List String := FederationSlice.ids Community.id s.communities

/-! ## Reducers -/

/-- Communities that are not in the payload have been removed. -/
def System.setCommunities (s : System) (payload : List Community) : System :=
  let updatedCommunities := s.communities.filterMap fun existing =>
    (payload.find? fun f => decide (f.id = existing.id)).map existing.merge
  { s with communities := updatedCommunities ++ newItems Community.id s.communities payload }

def System.upsertCommunity (s : System) (payload : Community) : System :=
  if payload.id = "" then s
  else { s with communities := upsertListItem Community.id Community.merge s.communities payload }

def System.setLastSelectedCommunityId (s : System) (payload : String) : System :=
  { s with lastSelectedCommunityId := some payload }

def System.setPreviouslyAutojoinedCommunity (s : System) (communityId : String) : System :=
  { s with previouslyAutojoinedCommunities := communityId :: s.previouslyAutojoinedCommunities }

def System.addAutojoinNoticeToDisplay (s : System) (communityId : String) : System :=
  if communityId ∈ s.autojoinNoticesToDisplay then s
  else { s with autojoinNoticesToDisplay := communityId :: s.autojoinNoticesToDisplay }

def System.migrateCommunityV1ToV2 (s : System) (v1InviteCode : String) (v2Community : Community) : System :=
  let filteredCommunities := s.communities.filter fun c => decide (c.id ≠ v1InviteCode)
  { s with
    communities := upsertListItem Community.id Community.merge filteredCommunities v2Community
    lastSelectedCommunityId :=
      if s.lastSelectedCommunityId = some v1InviteCode then some v2Community.id else s.lastSelectedCommunityId }

/-- `leaveCommunity.fulfilled`; the last community must be the global one. -/
def System.leaveFulfilled (s : System) (communityId : String) : System :=
  let communities := s.communities.filter fun fed => decide (fed.id ≠ communityId)
  { s with
    communities := communities
    lastSelectedCommunityId :=
      if communities.length = 1 ∨ s.lastSelectedCommunityId = some communityId then communities.head?.map Community.id
      else s.lastSelectedCommunityId }

/-! ## Tasks -/

inductive Call
  | refreshCommunities
  | ensureDefaultCommunityIsJoined
  | autojoinCommunity (code : String) (setAsSelected : Bool)
  /- A join ends with an upsert, or like the hooks' with a refresh. -/
  | joinCommunity (refreshes : Bool)
  | leaveCommunity (communityId : String)
  | migrate (v1InviteCode v2InviteCode : String) (v2Community : RpcCommunity)

inductive Task
  | listing
  | listed (answer : List Community)
  | ensuring
  | defaultJoining (joinedCommunities : List Community)
  | defaultJoined (community : Community) (joinedCommunities : List Community)
  | autojoinStarting (code : String) (setAsSelected : Bool)
  | autojoining (code : String) (setAsSelected : Bool)
  | autojoined (code : String) (community : Community) (setAsSelected : Bool)
  | joining (refreshes : Bool)
  | joined (community : Community) (refreshes : Bool)
  | leaveStarting (communityId : String)
  | leaving (communityId : String)
  | left (communityId : String)
  | migrating (v1InviteCode v2InviteCode : String) (v2Community : RpcCommunity)
  | migrated (v1InviteCode : String) (v2Community : Community)
deriving DecidableEq

def start : Call → Task
  | .refreshCommunities => .listing
  | .ensureDefaultCommunityIsJoined => .ensuring
  | .autojoinCommunity code setAsSelected => .autojoinStarting code setAsSelected
  | .joinCommunity refreshes => .joining refreshes
  | .leaveCommunity communityId => .leaveStarting communityId
  | .migrate v1InviteCode v2InviteCode v2Community => .migrating v1InviteCode v2InviteCode v2Community

/-- What the bridge does with a request; a join of a V1 invite may end at a V2 invite. -/
structure Input where
  fails : Bool
  inviteCode : String
  community : RpcCommunity

/-! ## The bridge -/

def listCommunities (bridge : BTreeMap String RpcCommunity) : List Community :=
  bridge.entries.map fun e => e.2.coerce e.1

/-- `joinCommunity`: what is no invite code is refused, and a community that is joined already. -/
def System.join (s : System) (input : Input) : Option (System × Community) :=
  if input.fails ∨ input.inviteCode = "" ∨ input.inviteCode ∈ s.bridge.keys then none
  else
    some ({ s with bridge := s.bridge.insert input.inviteCode input.community },
      input.community.coerce input.inviteCode)

/-- Notes that a join was automatic. -/
def System.noteAutojoin (s : System) (id : String) : System :=
  { s with
    autojoined := id :: s.autojoined
    rejoined := if id ∈ s.autojoinedLeft then id :: s.rejoined else s.rejoined }

def leave (s : System) (communityId : String) (fails : Bool) : System × List Task :=
  if fails ∨ communityId ∉ s.bridge.keys then (s, [])
  else
    ({ s with
        bridge := s.bridge.erase communityId
        autojoinedLeft := if communityId ∈ s.autojoined then communityId :: s.autojoinedLeft else s.autojoinedLeft },
      [.left communityId])

/-- The migrated community is the same community under another invite. -/
def migrate (s : System) (v1InviteCode v2InviteCode : String) (v2Community : RpcCommunity) : System × List Task :=
  if v1InviteCode ∉ s.bridge.keys then (s, [])
  else
    ({ s with
        bridge := (s.bridge.erase v1InviteCode).insert v2InviteCode v2Community
        autojoined := if v1InviteCode ∈ s.autojoined then v2InviteCode :: s.autojoined else s.autojoined
        autojoinedLeft :=
          if v1InviteCode ∈ s.autojoinedLeft then v2InviteCode :: s.autojoinedLeft else s.autojoinedLeft },
      [.migrated v1InviteCode (v2Community.coerce v2InviteCode)])

/-! ## Steps -/

section

variable (globalCommunityInvite : Option String)

/-- `ensureDefaultCommunityIsJoined` up to its request. -/
def ensureDefault (s : System) : List Task :=
  match globalCommunityInvite with
  | none => []
  | some code => if code ∈ s.ids then [] else [.defaultJoining s.communities]

/-- `refreshCommunities` once it has the answer. -/
def refresh (s : System) (answer : List Community) : System × List Task :=
  let s := s.setCommunities answer
  let s :=
    match s.lastSelectedCommunityId, s.communities with
    | none, first :: _ => s.setLastSelectedCommunityId first.id
    | _, _ => s
  (s, ensureDefault globalCommunityInvite s)

def finishDefault (s : System) (community : Community) (joinedCommunities : List Community) : System :=
  let s := s.setCommunities (community :: joinedCommunities)
  match globalCommunityInvite with
  | none => s
  | some code => s.setLastSelectedCommunityId code

/-- `autojoinCommunity` once the join returned. -/
def finishAutojoin (s : System) (code : String) (community : Community) (setAsSelected : Bool) : System :=
  let s := if setAsSelected then s.setLastSelectedCommunityId community.id else s
  let s := s.setPreviouslyAutojoinedCommunity code
  if setAsSelected then s else s.addAutojoinNoticeToDisplay community.id

/-- A request to join, and what is done with the answer. -/
def System.request (s : System) (input : Input) (note : System → System) (task : Community → Task) :
    System × List Task :=
  match s.join input with
  | none => (s, [])
  | some r => (note r.1, [task r.2])

def run (s : System) (task : Task) (input : Input) : System × List Task :=
  match task with
  | .listing => (s, if input.fails then [] else [.listed (listCommunities s.bridge)])
  | .listed answer => refresh globalCommunityInvite s answer
  | .ensuring => (s, ensureDefault globalCommunityInvite s)
  | .defaultJoining joinedCommunities => s.request input id fun community => .defaultJoined community joinedCommunities
  | .defaultJoined community joinedCommunities =>
    (finishDefault globalCommunityInvite s community joinedCommunities, [])
  | .autojoinStarting code setAsSelected =>
    (s, if code ∈ s.previouslyAutojoinedCommunities then [] else [.autojoining code setAsSelected])
  | .autojoining code setAsSelected =>
    s.request input (fun s => s.noteAutojoin input.inviteCode) fun community => .autojoined code community setAsSelected
  | .autojoined code community setAsSelected => (finishAutojoin s code community setAsSelected, [.listing])
  | .joining refreshes => s.request input id fun community => .joined community refreshes
  | .joined community refreshes =>
    if refreshes then (s.setLastSelectedCommunityId community.id, [.listing]) else (s.upsertCommunity community, [])
  | .leaveStarting communityId => (s, if communityId ∈ s.ids then [.leaving communityId] else [])
  | .leaving communityId => leave s communityId input.fails
  | .left communityId => (s.leaveFulfilled communityId, [])
  | .migrating v1InviteCode v2InviteCode v2Community => migrate s v1InviteCode v2InviteCode v2Community
  | .migrated v1InviteCode v2Community => (s.migrateCommunityV1ToV2 v1InviteCode v2Community, [])

/-- The store and the bridge after a run. -/
def communities (es : List (Event Call Input)) : Pool System Task :=
  pool start (run globalCommunityInvite) ⟨System.initial, []⟩ es

end

end CommunityStore
