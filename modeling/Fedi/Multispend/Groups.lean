import Fedi.Multispend.Events

/-!
# Multispend: group changes

An event changes the group of its room in one of four ways: an invitation, a
reannouncement to a device without state, a vote on the active invitation or its
cancellation.  All that is said later about groups follows from

    applyRoomEvent E ourId db e = .ok db' → ∃ mid, GroupChange E db e mid ∧ SameGroups mid db'
-/

namespace Multispend

open BTreeMaps StabilityPool Runs

/-! ## What an event does to the group of its room -/

/-- The same groups and invitations. -/
structure SameGroups (db db' : MultispendDb) : Prop where
  status : db'.groupStatus = db.groupStatus
  invitations : db'.groupInvitations = db.groupInvitations

theorem SameGroups.refl (db : MultispendDb) : SameGroups db db := ⟨rfl, rfl⟩

/-- The effect of an event on the groups, guards included. -/
inductive GroupChange (E : Externals) (db : MultispendDb) (e : RoomEvent) : MultispendDb → Prop where
  | kept : GroupChange E db e db
  | invited (invitation : GroupInvitation) (proposerPubkey : PublicKey) (federationId : RpcFederationId)
    (he : e.event = .groupInvitation invitation proposerPubkey)
    (hopen : getFinalizedGroupDb db e.roomId = none)
    (hcode : E.inviteCode invitation.federationInviteCode = some federationId) :
    GroupChange E db e (db.setGroup e.roomId e.eventId
      (.new invitation e.sender proposerPubkey federationId) (.activeInvitation e.eventId))
  | reannounced (invitationId : RpcEventId) (state : GroupInvitationWithKeys)
    (he : e.event = .groupReannounce invitationId state.invitation state.proposer state.pubkeys
      state.rejections)
    (hcode : E.inviteCode state.invitation.federationInviteCode = some state.federationId)
    (hstatus : db.groupStatus.get? e.roomId = none)
    (hinvitation : db.groupInvitations.get? ⟨e.roomId, invitationId⟩ = none) :
    GroupChange E db e (db.setGroup e.roomId invitationId state (reannouncedStatus invitationId state))
  | voted (invitation : RpcEventId) (vote : MultispendGroupVoteType) (state : GroupInvitationWithKeys)
    (he : e.event = .groupInvitationVote invitation vote)
    (hactive : db.groupStatus.get? e.roomId = some (.activeInvitation invitation))
    (hstate : db.groupInvitations.get? ⟨e.roomId, invitation⟩ = some state)
    (hcan : state.canVote e.sender = true) :
    GroupChange E db e (votedDb db e.roomId invitation (state.recordVote e.sender vote))
  | cancelled (invitation : RpcEventId) (he : e.event = .groupInvitationCancel invitation)
    (hactive : db.groupStatus.get? e.roomId = some (.activeInvitation invitation)) :
    GroupChange E db e { db with groupStatus := db.groupStatus.erase e.roomId }

theorem isActiveInvite_iff {db : MultispendDb} {roomId : RpcRoomId} {invitation : RpcEventId} :
    isActiveInvite db roomId invitation = true ↔
      db.groupStatus.get? roomId = some (.activeInvitation invitation) := decide_eq_true_iff

section

variable {E : Externals} {db db' : MultispendDb} {roomId : RpcRoomId} {sender : RpcUserId}
  {eventId : RpcEventId} {context : MultispendContext} {r : MultispendDb × MultispendContext}

/-- A result of `processEventDb`: a branch succeeded, or its event was marked invalid. -/
theorem processEventDb_ok {event : MultispendEvent} {eventTime : ℕ}
    (h : processEventDb E db roomId sender eventId context event eventTime = .ok r) :
    processEventDbRaw E db roomId sender eventId context event eventTime = .ok r ∨
      r.1 = { db with invalidEvent := db.invalidEvent.add eventId } := by
  unfold processEventDb at h
  split at h
  · next r' hr =>
    cases h
    exact Or.inl hr
  · cases h
    exact Or.inr rfl
  · cases h

theorem processWithdrawalRequest_groups {eventTime : ℕ} {request : TransferRequest} {description : String}
    (h : processWithdrawalRequest db roomId sender eventId context eventTime request description = .ok r) :
    SameGroups db r.1 := by
  unfold processWithdrawalRequest at h
  split at h
  · cases h
  · cases h
    exact ⟨rfl, rfl⟩

theorem processDepositNotification_groups {eventTime fiatAmount : ℕ} {txid : TransactionId}
    {description : String}
    (h : processDepositNotification db roomId sender eventId context eventTime fiatAmount txid
      description = .ok r) : SameGroups db r.1 := by
  unfold processDepositNotification at h
  dsimp only at h
  split at h
  · cases h
  · cases h
    exact ⟨rfl, rfl⟩

theorem recordResponse_groups {request : RpcEventId} {group : FinalizedGroup}
    {outcome : WithdrawalProcessResponseOutcome} {state : WithdrawRequestWithApprovals}
    (h : recordResponse E db roomId context request group outcome state = .ok r) : SameGroups db r.1 := by
  unfold recordResponse at h
  dsimp only at h
  split at h
  · split at h
    · cases h
    · cases h
      exact ⟨rfl, rfl⟩
  · split at h
    · cases h
      exact ⟨rfl, rfl⟩
    · cases h
      exact ⟨rfl, rfl⟩

theorem processWithdrawalResponse_groups {request : RpcEventId} {response : WithdrawalResponseType}
    (h : processWithdrawalResponse E db roomId sender context request response = .ok r) :
    SameGroups db r.1 := by
  unfold processWithdrawalResponse at h
  split at h
  · cases h
  split at h
  · cases h
  split at h
  · cases h
  · exact recordResponse_groups h

theorem processGroupInvitation_ok {invitation : GroupInvitation} {proposerPubkey : PublicKey}
    (h : processGroupInvitation E db roomId sender eventId context invitation proposerPubkey = .ok r) :
    getFinalizedGroupDb db roomId = none ∧ ∃ federationId,
      E.inviteCode invitation.federationInviteCode = some federationId ∧
      r.1 = db.setGroup roomId eventId (.new invitation sender proposerPubkey federationId)
        (.activeInvitation eventId) := by
  unfold processGroupInvitation at h
  split at h
  · cases h
  · next hopen =>
    split at h
    · cases h
    · next federationId hcode =>
      cases h
      exact ⟨by simpa using hopen, federationId, hcode, rfl⟩

theorem processGroupReannounce_ok {invitationId : RpcEventId} {invitation : GroupInvitation}
    {proposer : RpcUserId} {pubkeys : BTreeMap RpcUserId PublicKey} {rejections : BTreeSet RpcUserId}
    (h : processGroupReannounce E db roomId context invitationId invitation proposer pubkeys
      rejections = .ok r) :
    r.1 = db ∨ db.groupStatus.get? roomId = none ∧
      db.groupInvitations.get? ⟨roomId, invitationId⟩ = none ∧ ∃ federationId,
        E.inviteCode invitation.federationInviteCode = some federationId ∧
        r.1 = db.setGroup roomId invitationId ⟨invitation, proposer, pubkeys, rejections, federationId⟩
          (reannouncedStatus invitationId ⟨invitation, proposer, pubkeys, rejections, federationId⟩) := by
  unfold processGroupReannounce at h
  split at h
  · cases h
    exact Or.inl rfl
  · next hstate =>
    rw [Bool.or_eq_true, not_or, Option.not_isSome_iff_eq_none, Option.not_isSome_iff_eq_none] at hstate
    split at h
    · cases h
    · next federationId hcode =>
      cases h
      exact Or.inr ⟨hstate.1, hstate.2, federationId, hcode, rfl⟩

theorem processVote_ok {state state' : GroupInvitationWithKeys} {vote : MultispendGroupVoteType}
    (h : state.processVote sender vote = some state') :
    state.canVote sender = true ∧ state' = state.recordVote sender vote := by
  unfold GroupInvitationWithKeys.processVote at h
  split at h
  · next hcan =>
    cases h
    exact ⟨hcan, rfl⟩
  · cases h

theorem processGroupInvitationVote_ok {invitation : RpcEventId} {vote : MultispendGroupVoteType}
    (h : processGroupInvitationVote db roomId sender context invitation vote = .ok r) :
    db.groupStatus.get? roomId = some (.activeInvitation invitation) ∧ ∃ state,
      db.groupInvitations.get? ⟨roomId, invitation⟩ = some state ∧ state.canVote sender = true ∧
      r.1 = votedDb db roomId invitation (state.recordVote sender vote) := by
  unfold processGroupInvitationVote at h
  split at h
  · next hactive =>
    split at h
    · cases h
    · next state hstate =>
      split at h
      · cases h
      · next state' hvote =>
        cases h
        obtain ⟨hcan, rfl⟩ := processVote_ok hvote
        exact ⟨isActiveInvite_iff.mp hactive, state, hstate, hcan, rfl⟩
  · cases h

theorem processGroupInvitationCancel_ok {invitation : RpcEventId}
    (h : processGroupInvitationCancel db roomId context invitation = .ok r) :
    db.groupStatus.get? roomId = some (.activeInvitation invitation) ∧
      r.1 = { db with groupStatus := db.groupStatus.erase roomId } := by
  unfold processGroupInvitationCancel at h
  split at h
  · next hactive =>
    cases h
    exact ⟨isActiveInvite_iff.mp hactive, rfl⟩
  · cases h

end

section

variable {E : Externals} {ourId : RpcUserId} {db db' : MultispendDb} {e : RoomEvent}

theorem processEventDbRaw_group {context : MultispendContext} {r : MultispendDb × MultispendContext}
    (h : processEventDbRaw E db e.roomId e.sender e.eventId context e.event e.eventTime = .ok r) :
    ∃ mid, GroupChange E db e mid ∧ SameGroups mid r.1 := by
  unfold processEventDbRaw at h
  cases he : e.event with
  | groupInvitation invitation proposerPubkey =>
    rw [he] at h
    obtain ⟨hopen, federationId, hcode, hr⟩ := processGroupInvitation_ok h
    exact ⟨r.1, hr ▸ .invited invitation proposerPubkey federationId he hopen hcode, .refl _⟩
  | groupReannounce invitationId invitation proposer pubkeys rejections =>
    rw [he] at h
    rcases processGroupReannounce_ok h with hr | ⟨hstatus, hinvitation, federationId, hcode, hr⟩
    · exact ⟨r.1, hr ▸ .kept, .refl _⟩
    · exact ⟨r.1, hr ▸ .reannounced invitationId _ he hcode hstatus hinvitation, .refl _⟩
  | groupInvitationVote invitation vote =>
    rw [he] at h
    obtain ⟨hactive, state, hstate, hcan, hr⟩ := processGroupInvitationVote_ok h
    exact ⟨r.1, hr ▸ .voted invitation vote state he hactive hstate hcan, .refl _⟩
  | groupInvitationCancel invitation =>
    rw [he] at h
    obtain ⟨hactive, hr⟩ := processGroupInvitationCancel_ok h
    exact ⟨r.1, hr ▸ .cancelled invitation he hactive, .refl _⟩
  | withdrawalRequest request description =>
    rw [he] at h
    exact ⟨db, .kept, processWithdrawalRequest_groups h⟩
  | withdrawalResponse request response =>
    rw [he] at h
    exact ⟨db, .kept, processWithdrawalResponse_groups h⟩
  | depositNotification fiatAmount txid description =>
    rw [he] at h
    exact ⟨db, .kept, processDepositNotification_groups h⟩

theorem applyRoomEvent_ok (h : applyRoomEvent E ourId db e = .ok db') :
    ∃ r, processEventDb E db e.roomId e.sender e.eventId (.new ourId) e.event e.eventTime = .ok r ∧
      r.1 = db' := by
  unfold applyRoomEvent at h
  cases hr : processEventDb E db e.roomId e.sender e.eventId (.new ourId) e.event e.eventTime with
  | error p =>
    rw [hr] at h
    cases h
  | ok r =>
    rw [hr] at h
    cases h
    exact ⟨r, rfl, rfl⟩

/-- Every processed event is a group change, up to the other tables. -/
theorem applyRoomEvent_group (h : applyRoomEvent E ourId db e = .ok db') :
    ∃ mid, GroupChange E db e mid ∧ SameGroups mid db' := by
  obtain ⟨r, hr, rfl⟩ := applyRoomEvent_ok h
  rcases processEventDb_ok hr with hraw | hinvalid
  · exact processEventDbRaw_group hraw
  · rw [hinvalid]
    exact ⟨db, .kept, rfl, rfl⟩

end

end Multispend
