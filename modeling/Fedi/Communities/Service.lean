import Fedi.Lib.BTreeMap
import Fedi.Lib.Tasks

/-!
# Joining, leaving and refreshing communities

Communities are kept twice: in a map in memory, whose entries share their info with the tasks
that hold a clone of them, and in `AppState`.  Every operation writes the two one after the
other, with an await in between; a refresh works on a clone of the map and fetches each
community's metadata in a task of its own.

`run` takes one task from an await to the next.  `left` is not part of the code: it follows
which invites were left and not joined again, and which invites they redirect to.
-/

namespace Communities

open BTreeMaps Tasks

/-! ## Invites and metadata -/

structure CommunityInviteV1 where
  communityMetaUrl : String
deriving DecidableEq

structure CommunityInviteV2 where
  authorPubkey : String
  communityUuidHex : String
  decryptionKey : String
deriving DecidableEq

inductive CommunityInvite
  | v1 (invite : CommunityInviteV1)
  | v2 (invite : CommunityInviteV2)
deriving DecidableEq

/-- The bech32m codes of invites. -/
structure InviteCodec where
  fromStrV1 : String → Option CommunityInviteV1
  fromStrV2 : String → Option CommunityInviteV2
  print : CommunityInvite → String

/-- First treat the code as V2. -/
def InviteCodec.fromStr (codec : InviteCodec) (inviteCode : String) : Option CommunityInvite :=
  match codec.fromStrV2 inviteCode with
  | some invite => some (.v2 invite)
  | none => (codec.fromStrV1 inviteCode).map .v1

structure CommunityJson where
  name : String
  version : ℕ
  metadata : BTreeMap String String
deriving DecidableEq

inductive CommunityStatus
  | active
  | deleted
deriving DecidableEq

structure CommunityInfo where
  json : CommunityJson
  status : CommunityStatus
deriving DecidableEq

/-- What the network answers while a task waits for a preview. -/
structure Network where
  fetchCommunityMetaJson : String → Option CommunityJson
  fetchCommunity : CommunityInviteV2 → Option CommunityInfo

def communityV1ToV2MigrationKey : String := "migrate_to_v2"

structure Config where
  codec : InviteCodec
  v2MigrationEnabled : Bool

section

variable (cfg : Config)

/-- `Community::preview`: a V1 invite may redirect to a V2 invite, which never redirects. -/
def preview (network : Network) : CommunityInvite → Option (CommunityInvite × CommunityInfo)
  | .v2 invite => (network.fetchCommunity invite).map fun info => (.v2 invite, info)
  | .v1 invite =>
    match network.fetchCommunityMetaJson invite.communityMetaUrl with
    | none => none
    | some json =>
      match (if cfg.v2MigrationEnabled then json.metadata.get? communityV1ToV2MigrationKey else none) with
      | none => some (.v1 invite, ⟨json, .active⟩)
      | some v2InviteCode =>
        match cfg.codec.fromStrV2 v2InviteCode with
        | none => none
        | some redirected => (network.fetchCommunity redirected).map fun info => (.v2 redirected, info)

/-! ## State -/

/-- A community of the in-memory map: its info is shared, by its index in `infos`. -/
structure Community where
  invite : CommunityInvite
  info : ℕ

inductive FirstCommunityInviteCodeState
  | neverSet
  | set (code : String)
  | unset
deriving DecidableEq

/-- What the front end is told, and what a call returns. -/
inductive Notice
  | communityMigratedToV2 (oldInvite : String) (newInvite : CommunityInvite) (info : CommunityInfo)
  | communityMetadataUpdated (invite : CommunityInvite) (info : CommunityInfo)
  | joined (invite : CommunityInvite) (info : CommunityInfo)
  | left
  | invalidInviteCode
  | notFetched
  | communityDeleted
  | alreadyJoined (inviteCode : String)
  | mustAlreadyBeJoined (inviteCode : String)

/-- The in-memory map with the infos that its communities share, `AppState`, the notices so far, and the invites
that were left. -/
structure System where
  communities : BTreeMap String Community
  infos : List CommunityInfo
  joinedCommunities : BTreeMap String CommunityInfo
  firstCommInviteCode : FirstCommunityInviteCodeState
  notices : List Notice
  left : List String

def System.initial : System := ⟨BTreeMap.empty, [], BTreeMap.empty, .neverSet, [], []⟩

def System.notify (s : System) (notice : Notice) : System := { s with notices := s.notices ++ [notice] }

def fediGlobalCommunityProd : String :=
  "fedi:community10v3xxmmdd46ku6t5090k6et5v90h2unvygazy6r5w3c8xw309a4x76tw943k7mtdw4hxjare9eenxtnpd4sh5mmwv9mhxtnrdakj7vpsxyhk6et5vyhx5um0dc386g8m6tx"

def fediGlobalCommunityStaging : String :=
  "fedi:community10v3xxmmdd46ku6t5090k6et5v90h2unvygazy6r5w3c8xw309a4x76tw943k7mtdw4hxjare9eenxtnpd4sh5mmwv9mhxtnrdakj7vpsxghk6et5vyhx5um0dc386kjjczw"

/-- The global communities, placeholders for later ones, and one for QA. -/
def fediGiftExcludedCommunities : List String :=
  [ fediGlobalCommunityProd,
    fediGlobalCommunityStaging,
    "fedi:community10v3xxmmdd46ku6t5090k6et5v90h2unvygazy6r5w3c8xw309a4x76tw943k7mtdw4hxjare9eenxtnpd4sh5mmwv9mhxtnrdakj7vpsxvhk6et5vyhx5um0dc386ux4p93",
    "fedi:community10v3xxmmdd46ku6t5090k6et5v90h2unvygazy6r5w3c8xw309a4x76tw943k7mtdw4hxjare9eenxtnpd4sh5mmwv9mhxtnrdakj7vpsxshk6et5vyhx5um0dc386r3qus7",
    "fedi:community10v3xxmmdd46ku6t5090k6et5v90h2unvygazy6r5w3c8xw309a4x76tw943k7mtdw4hxjare9eenxtnpd4sh5mmwv9mhxtnrdakj7vpsx5hk6et5vyhx5um0dc386f989hp",
    "fedi:community10v3xxmmdd46ku6t5090k6et5v90h2unvygazy6r5w3c8xw309a4x76tw943k7mtdw4hxjare9eenxtnpd4sh5mmwv9mhxtnrdakj7vpsxchk6et5vyhx5um0dc386hsw87f",
    "fedi:community10v3xxmmdd46ku6t5090k6et5v90h2unvygazy6r5w3c8xw309a4x76tw943k7mtdw4hxjare9eenxtnpd4sh5mmwv9mhxtnrdakj7vpsxuhk6et5vyhx5um0dc386ayf7ek",
    "fedi:community10v3xxmmdd46ku6t5090k6et5v90h2unvygazy6r5w3c8xw309a4x76tw943k7mtdw4hxjare9eenxtnpd4sh5mmwv9mhxtnrdakj7vps8qhk6et5vyhx5um0dc386wzmpua",
    "fedi:community10v3xxmmdd46ku6t5090k6et5v90h2unvygazy6r5w3c8xw309a4x76tw943k7mtdw4hxjare9eenxtnpd4sh5mmwv9mhxtnrdakj7vps8yhk6et5vyhx5um0dc386ykucmz",
    "fedi:community10v3xxmmdd46ku6t5090k6et5v90h2unvygazy6r5w3c8xw309a4x76tw943k7mtdw4hxjare9eenxtnpd4sh5mmwv9mhxtnrdakj7vp3xqhk6et5vyhx5um0dc386z2cee7",
    "fedi:community10v3xxmmdd46ku6t5090k6et5v90h2unvygazy6r5w3c8xw309ankjum59enkjargw4382um9wf3k7mn5v4h8gtnrdakj7cnswf5kxefk9ucxgv3evyekgd3h8qcrve35vser2dmz89jx2drzxfjkgd34vvergtmjv9mjylglx5n2j" ]

/-! ## Tasks -/

inductive Call
  | joinCommunity (inviteCode : String)
  | leaveCommunity (inviteCode : String)
  | refreshMetas

/-- Where a task waits, with what it holds. -/
inductive Task
  /- `join_community`: for the preview, for the lock of the map, for `AppState`. -/
  | starting (inviteCode : String)
  | joining (invite : CommunityInvite) (info : CommunityInfo)
  | recordingJoin (invite : CommunityInvite) (info : CommunityInfo)
  /- `leave_community`: for the lock of the map, for `AppState`. -/
  | leaving (inviteCode : String)
  | recordingLeave (inviteCode : String)
  /- `refresh_metas_inner`: for the lock of the map; then each community, for its info and for the preview. -/
  | cloning
  | reading (community : Community)
  | refreshing (community : Community) (oldInfo : CommunityInfo)
  /- A redirect: for the lock of the map, for `AppState`. -/
  | migrating (oldInvite newInvite : CommunityInvite) (newInfo : CommunityInfo)
  | recordingMigration (oldInvite newInvite : CommunityInvite) (newInfo : CommunityInfo)
  /- A change: for the lock of the info, for `AppState`. -/
  | updating (community : Community) (newInfo : CommunityInfo)
  | recordingUpdate (oldInvite : CommunityInvite) (newInfo : CommunityInfo)

def start : Call → Task
  | .joinCommunity inviteCode => .starting inviteCode
  | .leaveCommunity inviteCode => .leaving inviteCode
  | .refreshMetas => .cloning

/-! ### `join_community` -/

/-- `Community::join`. -/
def fetchJoin (network : Network) (s : System) (inviteCode : String) : System × List Task :=
  match cfg.codec.fromStr inviteCode with
  | none => (s.notify .invalidInviteCode, [])
  | some invite =>
    match preview cfg network invite with
    | none => (s.notify .notFetched, [])
    | some (upToDateInvite, info) =>
      if info.status = .deleted then (s.notify .communityDeleted, []) else (s, [.joining upToDateInvite info])

/-- Write to memory, verifying that the community has not already been joined. -/
def insertJoin (s : System) (invite : CommunityInvite) (info : CommunityInfo) : System × List Task :=
  let code := cfg.codec.print invite
  if (s.communities.get? code).isSome then (s.notify (.alreadyJoined code), [])
  else
    ({ s with
        communities := s.communities.insert code ⟨invite, s.infos.length⟩
        infos := s.infos ++ [info]
        left := s.left.filter fun left => decide (left ≠ code) },
      [.recordingJoin invite info])

/-- Write to `AppState`; the first community that is not excluded is recorded. -/
def recordJoin (s : System) (invite : CommunityInvite) (info : CommunityInfo) : System :=
  let code := cfg.codec.print invite
  System.notify
    { s with
      joinedCommunities := s.joinedCommunities.insert code info
      firstCommInviteCode :=
        if code ∉ fediGiftExcludedCommunities ∧ s.firstCommInviteCode = .neverSet then .set code
        else s.firstCommInviteCode }
    (.joined invite info)

/-! ### `leave_community` -/

/-- Update memory, verifying that the community has already been joined. -/
def removeLeft (s : System) (inviteCode : String) : System × List Task :=
  if (s.communities.get? inviteCode).isNone then (s.notify (.mustAlreadyBeJoined inviteCode), [])
  else
    ({ s with
        communities := s.communities.erase inviteCode
        left := inviteCode :: s.left },
      [.recordingLeave inviteCode])

/-- Update `AppState`; leaving the first community clears that field for good. -/
def recordLeave (s : System) (inviteCode : String) : System :=
  System.notify
    { s with
      joinedCommunities := s.joinedCommunities.erase inviteCode
      firstCommInviteCode :=
        if s.firstCommInviteCode = .set inviteCode then .unset else s.firstCommInviteCode }
    .left

/-! ### `refresh_metas_inner` -/

/-- A deleted community is not refreshed. -/
def readInfo (s : System) (community : Community) : System × List Task :=
  match s.infos[community.info]? with
  | none => (s, [])
  | some oldInfo => if oldInfo.status = .deleted then (s, []) else (s, [.refreshing community oldInfo])

def fetchRefresh (network : Network) (s : System) (community : Community) (oldInfo : CommunityInfo) :
    System × List Task :=
  match preview cfg network community.invite with
  | none => (s, [])
  | some (newInvite, newInfo) =>
    if community.invite ≠ newInvite then (s, [.migrating community.invite newInvite newInfo])
    else if oldInfo ≠ newInfo then (s, [.updating community newInfo])
    else (s, [])

/-- The redirect of a community that is no longer in the map, to an invite that is not either, was left with it. -/
def migrate (s : System) (oldInvite newInvite : CommunityInvite) (newInfo : CommunityInfo) : System × List Task :=
  let oldCode := cfg.codec.print oldInvite
  let newCode := cfg.codec.print newInvite
  ({ s with
      communities := (s.communities.insert newCode ⟨newInvite, s.infos.length⟩).erase oldCode
      infos := s.infos ++ [newInfo]
      left := if (s.communities.get? oldCode).isNone ∧ (s.communities.get? newCode).isNone then newCode :: s.left
        else s.left },
    [.recordingMigration oldInvite newInvite newInfo])

def recordMigration (s : System) (oldInvite newInvite : CommunityInvite) (newInfo : CommunityInfo) : System :=
  System.notify
    { s with
      joinedCommunities := (s.joinedCommunities.insert (cfg.codec.print newInvite) newInfo).erase
        (cfg.codec.print oldInvite)
      firstCommInviteCode :=
        if s.firstCommInviteCode = .set (cfg.codec.print oldInvite) then .set (cfg.codec.print newInvite)
        else s.firstCommInviteCode }
    (.communityMigratedToV2 (cfg.codec.print oldInvite) newInvite newInfo)

def updateInfo (s : System) (community : Community) (newInfo : CommunityInfo) : System × List Task :=
  ({ s with infos := s.infos.set community.info newInfo }, [.recordingUpdate community.invite newInfo])

def recordUpdate (s : System) (oldInvite : CommunityInvite) (newInfo : CommunityInfo) : System :=
  System.notify { s with joinedCommunities := s.joinedCommunities.insert (cfg.codec.print oldInvite) newInfo }
    (.communityMetadataUpdated oldInvite newInfo)

/-! ### Steps -/

/-- One task runs to its next await. -/
def run (s : System) (task : Task) (network : Network) : System × List Task :=
  match task with
  | .starting inviteCode => fetchJoin cfg network s inviteCode
  | .joining invite info => insertJoin cfg s invite info
  | .recordingJoin invite info => (recordJoin cfg s invite info, [])
  | .leaving inviteCode => removeLeft s inviteCode
  | .recordingLeave inviteCode => (recordLeave s inviteCode, [])
  | .cloning => (s, s.communities.values.map .reading)
  | .reading community => readInfo s community
  | .refreshing community oldInfo => fetchRefresh cfg network s community oldInfo
  | .migrating oldInvite newInvite newInfo => migrate cfg s oldInvite newInvite newInfo
  | .recordingMigration oldInvite newInvite newInfo => (recordMigration cfg s oldInvite newInvite newInfo, [])
  | .updating community newInfo => updateInfo s community newInfo
  | .recordingUpdate oldInvite newInfo => (recordUpdate cfg s oldInvite newInfo, [])

/-- The communities after a run. -/
def service (es : List (Event Call Network)) : Pool System Task := pool start (run cfg) ⟨System.initial, []⟩ es

end

end Communities
