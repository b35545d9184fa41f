import Fedi.Multispend.Groups

/-!
# Multispend: group integrity

Every stored invitation has an origin, the event that brought it, and every key in
it is in the origin or was sent by its own user in an accept vote (`InvitationInv`).
A finalized group is what `toFinalized` makes of the stored invitation, and stays:

    scan E ourId .empty evs = .ok db → db.groupStatus.get? roomId = some (.finalized id g) →
      GroupFrom evs roomId id g ∧ every later db has the same status     (group_integrity)

The number of keys is compared with the number of signers, so the keys are those of
the signers as soon as the origin lists no one else.
-/

namespace Multispend

open BTreeMaps StabilityPool Runs

/-! ## Origins and accepted keys -/

/-- The event that brought an invitation to the device, and the keys it came with. -/
inductive Origin (evs : List RoomEvent) (roomId : RpcRoomId) (invitationId : RpcEventId)
    (invitation : GroupInvitation) (proposer : RpcUserId) : BTreeMap RpcUserId PublicKey → Prop where
  | invitation (e : RoomEvent) (proposerPubkey : PublicKey) (hmem : e ∈ evs) (hroom : e.roomId = roomId)
    (hid : e.eventId = invitationId) (hsender : e.sender = proposer)
    (he : e.event = .groupInvitation invitation proposerPubkey) :
    Origin evs roomId invitationId invitation proposer (BTreeMap.empty.insert proposer proposerPubkey)
  | reannouncement (e : RoomEvent) (pubkeys : BTreeMap RpcUserId PublicKey)
    (rejections : BTreeSet RpcUserId) (hmem : e ∈ evs) (hroom : e.roomId = roomId)
    (he : e.event = .groupReannounce invitationId invitation proposer pubkeys rejections) :
    Origin evs roomId invitationId invitation proposer pubkeys

/-- `user` accepted the invitation with `key`. -/
def AcceptVote (evs : List RoomEvent) (roomId : RpcRoomId) (invitationId : RpcEventId)
    (user : RpcUserId) (key : PublicKey) : Prop :=
  ∃ e ∈ evs, e.roomId = roomId ∧ e.sender = user ∧
    e.event = .groupInvitationVote invitationId (.accept key)

/-- Where the keys of an invitation come from. -/
structure KeysFrom (evs : List RoomEvent) (roomId : RpcRoomId) (invitationId : RpcEventId)
    (invitation : GroupInvitation) (proposer : RpcUserId) (pubkeys base : BTreeMap RpcUserId PublicKey) :
    Prop where
  origin : Origin evs roomId invitationId invitation proposer base
  sent : ∀ user key, pubkeys.get? user = some key → base.get? user = some key ∨
    user ∈ invitation.signers.keys ∧ AcceptVote evs roomId invitationId user key

theorem Origin.mono {evs evs' : List RoomEvent} {roomId : RpcRoomId} {invitationId : RpcEventId}
    {invitation : GroupInvitation} {proposer : RpcUserId} {base : BTreeMap RpcUserId PublicKey}
    (h : Origin evs roomId invitationId invitation proposer base) (hsub : evs ⊆ evs') :
    Origin evs' roomId invitationId invitation proposer base := by
  cases h with
  | invitation e proposerPubkey hmem hroom hid hsender he =>
    exact .invitation e proposerPubkey (hsub hmem) hroom hid hsender he
  | reannouncement e pubkeys rejections hmem hroom he =>
    exact .reannouncement e base rejections (hsub hmem) hroom he

theorem KeysFrom.mono {evs evs' : List RoomEvent} {roomId : RpcRoomId} {invitationId : RpcEventId}
    {invitation : GroupInvitation} {proposer : RpcUserId} {pubkeys base : BTreeMap RpcUserId PublicKey}
    (h : KeysFrom evs roomId invitationId invitation proposer pubkeys base) (hsub : evs ⊆ evs') :
    KeysFrom evs' roomId invitationId invitation proposer pubkeys base where
  origin := h.origin.mono hsub
  sent := fun user key hkey => by
    rcases h.sent user key hkey with hbase | ⟨hsigner, e, hmem, he⟩
    · exact Or.inl hbase
    · exact Or.inr ⟨hsigner, e, hsub hmem, he⟩

/-- An origin brings its own keys. -/
theorem KeysFrom.of_origin {evs : List RoomEvent} {roomId : RpcRoomId} {invitationId : RpcEventId}
    {invitation : GroupInvitation} {proposer : RpcUserId} {base : BTreeMap RpcUserId PublicKey}
    (h : Origin evs roomId invitationId invitation proposer base) :
    KeysFrom evs roomId invitationId invitation proposer base base where
  origin := h
  sent := fun _ _ hkey => Or.inl hkey

/-! ## Stored groups -/

/-- A finalized group and the invitation it was made of. -/
structure MadeFrom (state : GroupInvitationWithKeys) (group : FinalizedGroup) : Prop where
  invitation : group.invitation = state.invitation
  proposer : group.proposer = state.proposer
  pubkeys : group.pubkeys = state.pubkeys
  federationId : group.federationId = state.federationId
  size : state.pubkeys.len = state.invitation.signers.len
  accType : group.spv2Account.accType = .seeker
  keys : group.spv2Account.pubKeys = (BTreeSet.ofList state.pubkeys.values).keys
  threshold : group.spv2Account.threshold = state.invitation.threshold

theorem toFinalized_ok {state : GroupInvitationWithKeys} {group : FinalizedGroup}
    (h : state.toFinalized = some group) : MadeFrom state group := by
  unfold GroupInvitationWithKeys.toFinalized accountTryFrom at h
  split_ifs at h with hsize hthreshold
  · cases h
    exact ⟨rfl, rfl, rfl, rfl, hsize, rfl, rfl, rfl⟩
  · cases h

/-- The groups of the database after a run. -/
structure GroupsInv (evs : List RoomEvent) (db : MultispendDb) : Prop where
  keys : ∀ roomId id state, db.groupInvitations.get? ⟨roomId, id⟩ = some state →
    ∃ base, KeysFrom evs roomId id state.invitation state.proposer state.pubkeys base
  active : ∀ roomId id, db.groupStatus.get? roomId = some (.activeInvitation id) →
    ∃ state, db.groupInvitations.get? ⟨roomId, id⟩ = some state
  finalized : ∀ roomId id group, db.groupStatus.get? roomId = some (.finalized id group) →
    ∃ state, db.groupInvitations.get? ⟨roomId, id⟩ = some state ∧ state.toFinalized = some group

theorem GroupsInv.congr {evs : List RoomEvent} {db db' : MultispendDb} (h : GroupsInv evs db)
    (hsame : SameGroups db db') : GroupsInv evs db' := by
  constructor
  · rw [hsame.invitations]
    exact h.keys
  · rw [hsame.invitations, hsame.status]
    exact h.active
  · rw [hsame.invitations, hsame.status]
    exact h.finalized

theorem GroupsInv.mono {evs evs' : List RoomEvent} {db : MultispendDb} (h : GroupsInv evs db)
    (hsub : evs ⊆ evs') : GroupsInv evs' db where
  keys := fun roomId id state hstate => by
    obtain ⟨base, hbase⟩ := h.keys roomId id state hstate
    exact ⟨base, hbase.mono hsub⟩
  active := h.active
  finalized := h.finalized

section

variable {db : MultispendDb} {roomId roomId' : RpcRoomId} {id id' : RpcEventId}
  {state : GroupInvitationWithKeys} {status : MultispendGroupStatus}

@[simp] theorem setGroup_groupStatus :
    (db.setGroup roomId id state status).groupStatus = db.groupStatus.insert roomId status := rfl

@[simp] theorem setGroup_groupInvitations :
    (db.setGroup roomId id state status).groupInvitations =
      db.groupInvitations.insert ⟨roomId, id⟩ state := rfl

theorem ne_of_room_ne (h : roomId' ≠ roomId) : (⟨roomId', id'⟩ : RoomEventKey) ≠ ⟨roomId, id⟩ := by
  intro heq
  cases heq
  exact h rfl

/-- Where a status points, the written invitation is found. -/
def PointsTo (id : RpcEventId) (state : GroupInvitationWithKeys) : MultispendGroupStatus → Prop
  | .activeInvitation id' => id' = id
  | .finalized id' group => id' = id ∧ state.toFinalized = some group

/-- Writing an invitation with an origin and a status that points to it. -/
theorem GroupsInv.setGroup {evs : List RoomEvent} (h : GroupsInv evs db)
    {base : BTreeMap RpcUserId PublicKey}
    (hkeys : KeysFrom evs roomId id state.invitation state.proposer state.pubkeys base)
    (hstatus : PointsTo id state status) : GroupsInv evs (db.setGroup roomId id state status) := by
  constructor
  · intro room id' state' hstate'
    rw [setGroup_groupInvitations, BTreeMap.get?_insert] at hstate'
    split_ifs at hstate' with heq
    · cases heq
      cases hstate'
      exact ⟨base, hkeys⟩
    · exact h.keys room id' state' hstate'
  · intro room id' hactive
    rw [setGroup_groupStatus, BTreeMap.get?_insert] at hactive
    rw [setGroup_groupInvitations]
    split_ifs at hactive with hroom
    · cases hactive
      have hid : id' = id := hstatus
      rw [hroom, hid]
      exact ⟨state, BTreeMap.get?_insert_self _ _ _⟩
    · rw [BTreeMap.get?_insert_ne _ _ (ne_of_room_ne hroom)]
      exact h.active room id' hactive
  · intro room id' group hfinal
    rw [setGroup_groupStatus, BTreeMap.get?_insert] at hfinal
    rw [setGroup_groupInvitations]
    split_ifs at hfinal with hroom
    · cases hfinal
      obtain ⟨hid, hgroup⟩ : id' = id ∧ state.toFinalized = some group := hstatus
      rw [hroom, hid]
      exact ⟨state, BTreeMap.get?_insert_self _ _ _, hgroup⟩
    · rw [BTreeMap.get?_insert_ne _ _ (ne_of_room_ne hroom)]
      exact h.finalized room id' group hfinal

end

theorem reannouncedStatus_pointsTo (id : RpcEventId) (state : GroupInvitationWithKeys) :
    PointsTo id state (reannouncedStatus id state) := by
  unfold reannouncedStatus
  cases hgroup : state.toFinalized with
  | none => exact (rfl : id = id)
  | some group => exact ⟨rfl, hgroup⟩

@[simp] theorem recordVote_invitation (state : GroupInvitationWithKeys) (sender : RpcUserId)
    (vote : MultispendGroupVoteType) :
    (state.recordVote sender vote).invitation = state.invitation := by cases vote <;> rfl

@[simp] theorem recordVote_proposer (state : GroupInvitationWithKeys) (sender : RpcUserId)
    (vote : MultispendGroupVoteType) : (state.recordVote sender vote).proposer = state.proposer := by
  cases vote <;> rfl

theorem canVote_iff {state : GroupInvitationWithKeys} {sender : RpcUserId} :
    state.canVote sender = true ↔ sender ∈ state.invitation.signers.keys ∧
      state.pubkeys.get? sender = none ∧ sender ∉ state.rejections.keys := by
  unfold GroupInvitationWithKeys.canVote
  rw [← BTreeSet.contains_iff, ← BTreeSet.contains_iff]
  cases state.invitation.signers.contains sender <;> cases state.pubkeys.get? sender <;>
    cases state.rejections.contains sender <;> simp

/-- A vote adds at most the key its sender sent. -/
theorem KeysFrom.voted {evs : List RoomEvent} {e : RoomEvent} {id : RpcEventId}
    {state : GroupInvitationWithKeys} {base : BTreeMap RpcUserId PublicKey}
    {vote : MultispendGroupVoteType}
    (h : KeysFrom evs e.roomId id state.invitation state.proposer state.pubkeys base) (hmem : e ∈ evs)
    (he : e.event = .groupInvitationVote id vote) (hcan : state.canVote e.sender = true) :
    KeysFrom evs e.roomId id (state.recordVote e.sender vote).invitation
      (state.recordVote e.sender vote).proposer (state.recordVote e.sender vote).pubkeys base := by
  rw [recordVote_invitation, recordVote_proposer]
  refine ⟨h.origin, fun user key hkey => ?_⟩
  cases vote with
  | reject => exact h.sent user key hkey
  | accept memberPubkey =>
    have hkey : (state.pubkeys.insert e.sender memberPubkey).get? user = some key := hkey
    rw [BTreeMap.get?_insert] at hkey
    split_ifs at hkey with huser
    · cases hkey
      subst huser
      exact Or.inr ⟨(canVote_iff.mp hcan).1, e, hmem, rfl, rfl, he⟩
    · exact h.sent user key hkey

theorem GroupsInv.voted {evs : List RoomEvent} {db : MultispendDb} {e : RoomEvent} {id : RpcEventId}
    {vote : MultispendGroupVoteType} {state : GroupInvitationWithKeys} (h : GroupsInv evs db)
    (hmem : e ∈ evs) (he : e.event = .groupInvitationVote id vote)
    (hactive : db.groupStatus.get? e.roomId = some (.activeInvitation id))
    (hstate : db.groupInvitations.get? ⟨e.roomId, id⟩ = some state)
    (hcan : state.canVote e.sender = true) :
    GroupsInv evs (votedDb db e.roomId id (state.recordVote e.sender vote)) := by
  obtain ⟨base, hbase⟩ := h.keys e.roomId id state hstate
  have hkeys := hbase.voted hmem he hcan
  unfold votedDb
  cases hgroup : (state.recordVote e.sender vote).toFinalized with
  | some group => exact h.setGroup hkeys ⟨rfl, hgroup⟩
  | none =>
    -- the status stays: the same as writing the active invitation once more
    have hinv : GroupsInv evs (db.setGroup e.roomId id (state.recordVote e.sender vote)
        (.activeInvitation id)) := h.setGroup hkeys (rfl : id = id)
    refine hinv.congr ⟨?_, rfl⟩
    apply BTreeMap.ext_get?
    intro room
    rw [setGroup_groupStatus, BTreeMap.get?_insert]
    split_ifs with hroom
    · rw [hroom, hactive]
    · rfl

theorem GroupsInv.change {evs : List RoomEvent} {E : Externals} {db db' : MultispendDb} {e : RoomEvent}
    (h : GroupsInv evs db) (hmem : e ∈ evs) (hchange : GroupChange E db e db') : GroupsInv evs db' := by
  cases hchange with
  | kept => exact h
  | invited invitation proposerPubkey federationId he hopen hcode =>
    exact h.setGroup (.of_origin (.invitation e proposerPubkey hmem rfl rfl rfl he)) (rfl : e.eventId = _)
  | reannounced invitationId state he hcode hstatus hinvitation =>
    exact h.setGroup (.of_origin (.reannouncement e state.pubkeys state.rejections hmem rfl he))
      (reannouncedStatus_pointsTo _ _)
  | voted invitation vote state he hactive hstate hcan => exact h.voted hmem he hactive hstate hcan
  | cancelled invitation he hactive =>
    constructor
    · exact h.keys
    · intro room id hstatus
      rw [BTreeMap.get?_erase] at hstatus
      split_ifs at hstatus
      exact h.active room id hstatus
    · intro room id group hstatus
      rw [BTreeMap.get?_erase] at hstatus
      split_ifs at hstatus
      exact h.finalized room id group hstatus

theorem groupsInv_of_scan {E : Externals} {ourId : RpcUserId} {evs : List RoomEvent} {db : MultispendDb}
    (h : scan E ourId .empty evs = .ok db) : GroupsInv evs db := by
  have h0 : GroupsInv [] MultispendDb.empty :=
    ⟨fun _ _ _ hg => (by cases hg), fun _ _ hg => (by cases hg), fun _ _ _ hg => (by cases hg)⟩
  refine run_induction (P := fun evs db => GroupsInv evs db) h0 (fun evs db e db' _ hp hst => ?_) h
  obtain ⟨mid, hchange, hsame⟩ := applyRoomEvent_group hst
  have hp' : GroupsInv (evs ++ [e]) db := hp.mono (List.subset_append_left _ _)
  exact (hp'.change (List.mem_append_right _ List.mem_cons_self) hchange).congr hsame

/-! ## A finalized group stays -/

theorem getFinalizedGroupDb_isSome {db : MultispendDb} {roomId : RpcRoomId} {id : RpcEventId}
    {group : FinalizedGroup} (h : db.groupStatus.get? roomId = some (.finalized id group)) :
    getFinalizedGroupDb db roomId = some group := by rw [getFinalizedGroupDb, h]

theorem GroupChange.finalized_stays {E : Externals} {db db' : MultispendDb} {e : RoomEvent}
    {roomId : RpcRoomId} {id : RpcEventId} {group : FinalizedGroup} (hchange : GroupChange E db e db')
    (h : db.groupStatus.get? roomId = some (.finalized id group)) :
    db'.groupStatus.get? roomId = some (.finalized id group) := by
  have hother : ∀ {roomId'}, roomId' ≠ roomId → ∀ status,
      (db.groupStatus.insert roomId' status).get? roomId = some (.finalized id group) := by
    intro roomId' hne status
    rw [BTreeMap.get?_insert_ne _ _ (Ne.symm hne)]
    exact h
  cases hchange with
  | kept => exact h
  | invited invitation proposerPubkey federationId he hopen hcode =>
    apply hother
    rintro rfl
    rw [getFinalizedGroupDb_isSome h] at hopen
    cases hopen
  | reannounced invitationId state he hcode hstatus hinvitation =>
    apply hother
    rintro rfl
    rw [h] at hstatus
    cases hstatus
  | voted invitation vote state he hactive hstate hcan =>
    have hne : e.roomId ≠ roomId := by
      rintro rfl
      rw [h] at hactive
      cases hactive
    unfold votedDb
    split
    · exact hother hne _
    · exact h
  | cancelled invitation he hactive =>
    have hne : roomId ≠ e.roomId := by
      rintro rfl
      rw [h] at hactive
      cases hactive
    rw [BTreeMap.get?_erase, if_neg hne]
    exact h

theorem finalized_stays {E : Externals} {ourId : RpcUserId} {evs : List RoomEvent} {db db' : MultispendDb}
    {roomId : RpcRoomId} {id : RpcEventId} {group : FinalizedGroup}
    (h : db.groupStatus.get? roomId = some (.finalized id group)) (hscan : scan E ourId db evs = .ok db') :
    db'.groupStatus.get? roomId = some (.finalized id group) := by
  refine run_invariant (P := fun db => db.groupStatus.get? roomId = some (.finalized id group))
    (fun db e db' hp hst => ?_) h hscan
  obtain ⟨mid, hchange, hsame⟩ := applyRoomEvent_group hst
  rw [hsame.status]
  exact hchange.finalized_stays hp

/-! ## Integrity -/

/-- Where a finalized group and its account come from. -/
structure GroupFrom (evs : List RoomEvent) (roomId : RpcRoomId) (id : RpcEventId)
    (group : FinalizedGroup) (base : BTreeMap RpcUserId PublicKey) : Prop where
  keysFrom : KeysFrom evs roomId id group.invitation group.proposer group.pubkeys base
  size : group.pubkeys.len = group.invitation.signers.len
  signers : (∀ user ∈ base.keys, user ∈ group.invitation.signers.keys) →
    ∀ user, user ∈ group.pubkeys.keys ↔ user ∈ group.invitation.signers.keys
  account_type : group.spv2Account.accType = .seeker
  account_keys : ∀ key, key ∈ group.spv2Account.pubKeys ↔ ∃ user, group.pubkeys.get? user = some key
  account_size : group.pubkeys.values.Nodup →
    group.spv2Account.pubKeys.length = group.invitation.signers.len
  account_threshold : group.spv2Account.threshold = group.invitation.threshold

/-- Keys sent by different users are different keys of the account. -/
theorem length_ofList {l : List PublicKey} (h : l.Nodup) : (BTreeSet.ofList l).keys.length = l.length := by
  apply List.Perm.length_eq
  rw [List.perm_ext_iff_of_nodup (BTreeMap.keys_nodup _) h]
  intro key
  exact BTreeSet.mem_ofList

theorem groupFrom_of_state {evs : List RoomEvent} {roomId : RpcRoomId} {id : RpcEventId}
    {state : GroupInvitationWithKeys} {group : FinalizedGroup} {base : BTreeMap RpcUserId PublicKey}
    (hkeys : KeysFrom evs roomId id state.invitation state.proposer state.pubkeys base)
    (hmade : MadeFrom state group) : GroupFrom evs roomId id group base := by
  constructor
  · rw [hmade.invitation, hmade.proposer, hmade.pubkeys]
    exact hkeys
  · rw [hmade.invitation, hmade.pubkeys]
    exact hmade.size
  · rw [hmade.invitation, hmade.pubkeys]
    intro hbase
    apply BTreeMap.mem_keys_iff_of_len
    · intro user huser
      obtain ⟨key, hkey⟩ := BTreeMap.mem_keys.mp huser
      rcases hkeys.sent user key hkey with h | ⟨hsigner, -⟩
      · exact hbase user (BTreeMap.mem_keys.mpr ⟨key, h⟩)
      · exact hsigner
    · rw [BTreeMap.length_keys, hmade.size]
  · exact hmade.accType
  · intro key
    rw [hmade.keys, BTreeSet.mem_ofList, BTreeMap.mem_values, hmade.pubkeys]
  · intro hdistinct
    rw [hmade.pubkeys] at hdistinct
    rw [hmade.keys, length_ofList hdistinct, hmade.invitation, ← hmade.size, BTreeMap.values,
      List.length_map, BTreeMap.len]
  · rw [hmade.threshold, hmade.invitation]

/-- A finalized group has as many keys as signers.  They are the origin's keys and keys
that signers sent themselves in accept votes, so the keys of exactly the signers when the
origin lists no one else: when the proposer of the invitation is a signer, or the
reannounced users are.  The account has these keys, each once, so one for each signer when
no two users sent the same key, and the threshold of the invitation.  The status never
changes again. -/
theorem group_integrity {E : Externals} {ourId : RpcUserId} {evs : List RoomEvent} {db : MultispendDb}
    {roomId : RpcRoomId} {id : RpcEventId} {group : FinalizedGroup}
    (hscan : scan E ourId .empty evs = .ok db)
    (hstatus : db.groupStatus.get? roomId = some (.finalized id group)) :
    (∃ base, GroupFrom evs roomId id group base) ∧
      ∀ later db', scan E ourId db later = .ok db' →
        db'.groupStatus.get? roomId = some (.finalized id group) := by
  have hinv := groupsInv_of_scan hscan
  obtain ⟨state, hstate, hgroup⟩ := hinv.finalized roomId id group hstatus
  obtain ⟨base, hbase⟩ := hinv.keys roomId id state hstate
  exact ⟨⟨base, groupFrom_of_state hbase (toFinalized_ok hgroup)⟩,
    fun later db' hlater => finalized_stays hstatus hlater⟩

/-- The group a scan finalized in room 0. -/
def scannedGroup (evs : List RoomEvent) : Option FinalizedGroup :=
  match scan demoExternals 1 .empty evs with
  | .ok db => getFinalizedGroupDb db 0
  | .error _ => none

/-- The invitation a finalized group came from. -/
def MultispendGroupStatus.finalizedId : MultispendGroupStatus → Option RpcEventId
  | .finalized inviteEventId _ => some inviteEventId
  | .activeInvitation _ => none

theorem group_integrity_demo : ∃ db group base,
    scan demoExternals 1 .empty (demoGroup 2) = .ok db ∧
    db.groupStatus.get? 0 = some (.finalized 100 group) ∧
    GroupFrom (demoGroup 2) 0 100 group base := by
  have hrun : ((scan demoExternals 1 .empty (demoGroup 2)).toOption.bind fun db =>
      (db.groupStatus.get? 0).bind MultispendGroupStatus.finalizedId) = some 100 := by decide +kernel
  cases hscan : scan demoExternals 1 .empty (demoGroup 2) with
  | error p =>
    rw [hscan] at hrun
    cases hrun
  | ok db =>
    rw [hscan] at hrun
    cases hstatus : db.groupStatus.get? 0 with
    | none => simp [Except.toOption, hstatus] at hrun
    | some status =>
      cases status with
      | activeInvitation id => simp [Except.toOption, hstatus, MultispendGroupStatus.finalizedId] at hrun
      | finalized id group =>
        have hid : id = 100 := by
          simpa [Except.toOption, hstatus, MultispendGroupStatus.finalizedId] using hrun
        subst hid
        obtain ⟨⟨base, hfrom⟩, -⟩ := group_integrity hscan hstatus
        exact ⟨db, group, base, rfl, hstatus, hfrom⟩

/-- A member reannounces a finalized group with a key for user 1. -/
def demoReannounced : List RoomEvent :=
  [demoEvent 9 100 (.groupReannounce 50 (demoInvitation 1) 1 ((BTreeMap.empty.insert 1 10).insert 2 20)
    .empty)]

/-- A reannouncement alone finalizes a group with a key of user 1, who sent nothing; an
outsider's invitation is finalized by one of its two signers; two signers may send the
same key. -/
theorem group_integrity_counterexample :
    (∃ group, scannedGroup demoReannounced = some group ∧ group.pubkeys.get? 1 = some 10 ∧
      ∀ e ∈ demoReannounced, e.sender ≠ 1) ∧
    (∃ group, scannedGroup [demoEvent 9 100 (.groupInvitation (demoInvitation 1) 90),
        demoEvent 1 101 (.groupInvitationVote 100 (.accept 10))] = some group ∧
      group.pubkeys.keys = [1, 9] ∧ group.invitation.signers.keys = [1, 2]) ∧
    ∃ group, scannedGroup [demoEvent 1 100 (.groupInvitation (demoInvitation 1) 10),
        demoEvent 2 101 (.groupInvitationVote 100 (.accept 10))] = some group ∧
      group.spv2Account.pubKeys = [10] ∧ group.invitation.signers.keys = [1, 2] := by
  refine ⟨?_, ?_, ?_⟩
  · have hrun : (scannedGroup demoReannounced).map (fun g => decide (g.pubkeys.get? 1 = some 10)) =
        some true := by decide +kernel
    obtain ⟨group, hgroup, hkey⟩ := Option.map_eq_some_iff.mp hrun
    exact ⟨group, hgroup, of_decide_eq_true hkey, by decide⟩
  · have hrun : (scannedGroup [demoEvent 9 100 (.groupInvitation (demoInvitation 1) 90),
        demoEvent 1 101 (.groupInvitationVote 100 (.accept 10))]).map (fun g =>
          (g.pubkeys.keys, g.invitation.signers.keys)) = some ([1, 9], [1, 2]) := by decide +kernel
    obtain ⟨group, hgroup, hkeys⟩ := Option.map_eq_some_iff.mp hrun
    exact ⟨group, hgroup, congrArg Prod.fst hkeys, congrArg Prod.snd hkeys⟩
  · have hrun : (scannedGroup [demoEvent 1 100 (.groupInvitation (demoInvitation 1) 10),
        demoEvent 2 101 (.groupInvitationVote 100 (.accept 10))]).map (fun g =>
          (g.spv2Account.pubKeys, g.invitation.signers.keys)) = some ([10], [1, 2]) := by decide +kernel
    obtain ⟨group, hgroup, hkeys⟩ := Option.map_eq_some_iff.mp hrun
    exact ⟨group, hgroup, congrArg Prod.fst hkeys, congrArg Prod.snd hkeys⟩

end Multispend
