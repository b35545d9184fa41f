import Fedi.Multispend.Groups

/-!
# Multispend: the group of one room

What the events do to the group of one room, without databases: `RoomGroup.step` is
the group's automaton, undefined where an event is invalid.  Processing refines it:

    applyRoomEvent E ourId db e = .ok db' →
      roomGroup db' e.roomId = (roomGroup db e.roomId).apply E e     (roomGroup_apply)

and leaves the other rooms alone, so the group of a room after a scan is the fold of
`apply` over the events of the room (`roomGroup_scan`): two devices that agree on the
group agree after any events, whatever else their databases hold.
-/

namespace Multispend

open BTreeMaps StabilityPool Runs

/-- The group of a room: its status and its invitations. -/
structure RoomGroup where
  status : Option MultispendGroupStatus
  invitation : RpcEventId → Option GroupInvitationWithKeys

/-- The group of a room in the database. -/
def roomGroup (db : MultispendDb) (roomId : RpcRoomId) : RoomGroup where
  status := db.groupStatus.get? roomId
  invitation := fun id => db.groupInvitations.get? ⟨roomId, id⟩

namespace RoomGroup

/-- The group of a room nobody invited to. -/
def empty : RoomGroup := ⟨none, fun _ => none⟩

def isFinalized (g : RoomGroup) : Bool :=
  match g.status with
  | some (.finalized _ _) => true
  | _ => false

def put (g : RoomGroup) (id : RpcEventId) (state : GroupInvitationWithKeys)
    (status : Option MultispendGroupStatus) : RoomGroup :=
  ⟨status, Function.update g.invitation id (some state)⟩

/-- The status of the active invitation `id` once its state is `state`. -/
def votedStatus (id : RpcEventId) (state : GroupInvitationWithKeys) : MultispendGroupStatus :=
  reannouncedStatus id state

/-- One event, or nothing when it is invalid. -/
def step (E : Externals) (g : RoomGroup) (sender : RpcUserId) (eventId : RpcEventId) :
    MultispendEvent → Option RoomGroup
  | .groupInvitation invitation proposerPubkey =>
    if g.isFinalized then none
    else (E.inviteCode invitation.federationInviteCode).map fun federationId =>
      g.put eventId (.new invitation sender proposerPubkey federationId) (some (.activeInvitation eventId))
  | .groupReannounce id invitation proposer pubkeys rejections =>
    if g.status.isSome || (g.invitation id).isSome then some g
    else (E.inviteCode invitation.federationInviteCode).map fun federationId =>
      g.put id ⟨invitation, proposer, pubkeys, rejections, federationId⟩
        (some (reannouncedStatus id ⟨invitation, proposer, pubkeys, rejections, federationId⟩))
  | .groupInvitationVote id vote =>
    if g.status = some (.activeInvitation id) then
      ((g.invitation id).bind fun state => state.processVote sender vote).map fun state =>
        g.put id state (some (votedStatus id state))
    else none
  | .groupInvitationCancel id =>
    if g.status = some (.activeInvitation id) then some { g with status := none } else none
  | _ => some g

section

variable {E : Externals} {g : RoomGroup} {sender : RpcUserId} {eventId : RpcEventId}

theorem step_groupInvitation (invitation : GroupInvitation) (proposerPubkey : PublicKey) :
    g.step E sender eventId (.groupInvitation invitation proposerPubkey) =
      if g.isFinalized then none
      else (E.inviteCode invitation.federationInviteCode).map fun federationId =>
        g.put eventId (.new invitation sender proposerPubkey federationId)
          (some (.activeInvitation eventId)) := rfl

theorem step_groupReannounce (id : RpcEventId) (invitation : GroupInvitation) (proposer : RpcUserId)
    (pubkeys : BTreeMap RpcUserId PublicKey) (rejections : BTreeSet RpcUserId) :
    g.step E sender eventId (.groupReannounce id invitation proposer pubkeys rejections) =
      if g.status.isSome || (g.invitation id).isSome then some g
      else (E.inviteCode invitation.federationInviteCode).map fun federationId =>
        g.put id ⟨invitation, proposer, pubkeys, rejections, federationId⟩
          (some (reannouncedStatus id ⟨invitation, proposer, pubkeys, rejections, federationId⟩)) := rfl

theorem step_groupInvitationVote (id : RpcEventId) (vote : MultispendGroupVoteType) :
    g.step E sender eventId (.groupInvitationVote id vote) =
      if g.status = some (.activeInvitation id) then
        ((g.invitation id).bind fun state => state.processVote sender vote).map fun state =>
          g.put id state (some (votedStatus id state))
      else none := rfl

theorem step_groupInvitationCancel (id : RpcEventId) :
    g.step E sender eventId (.groupInvitationCancel id) =
      if g.status = some (.activeInvitation id) then some { g with status := none } else none := rfl

end

/-- An invalid event leaves the group alone. -/
def apply (E : Externals) (g : RoomGroup) (e : RoomEvent) : RoomGroup :=
  (g.step E e.sender e.eventId e.event).getD g

end RoomGroup

/-! ## Refinement -/

section

variable {E : Externals} {db : MultispendDb} {roomId : RpcRoomId} {sender : RpcUserId}
  {eventId : RpcEventId} {context : MultispendContext}

/-- The group of a room after a branch that succeeds. -/
def Branch.group (b : Branch) (roomId : RpcRoomId) : Option RoomGroup :=
  b.toOption.map fun r => roomGroup r.1 roomId

theorem roomGroup_congr {db db' : MultispendDb} (h : SameGroups db db') (roomId : RpcRoomId) :
    roomGroup db' roomId = roomGroup db roomId := by
  unfold roomGroup
  rw [h.status, h.invitations]

theorem roomGroup_insertInvitation (id : RpcEventId) (state : GroupInvitationWithKeys) :
    (fun id' => (db.groupInvitations.insert ⟨roomId, id⟩ state).get? ⟨roomId, id'⟩) =
      Function.update (roomGroup db roomId).invitation id (some state) := by
  funext id'
  rw [BTreeMap.get?_insert, Function.update_apply]
  by_cases h : id' = id
  · rw [if_pos h, if_pos (by rw [h])]
  · rw [if_neg h, if_neg (by intro heq; cases heq; exact h rfl)]
    rfl

theorem roomGroup_setGroup (id : RpcEventId) (state : GroupInvitationWithKeys)
    (status : MultispendGroupStatus) :
    roomGroup (db.setGroup roomId id state status) roomId =
      (roomGroup db roomId).put id state (some status) := by
  unfold roomGroup RoomGroup.put MultispendDb.setGroup
  rw [BTreeMap.get?_insert_self]
  exact congrArg _ (roomGroup_insertInvitation id state)

theorem isFinalized_roomGroup :
    (roomGroup db roomId).isFinalized = (getFinalizedGroupDb db roomId).isSome := by
  unfold roomGroup RoomGroup.isFinalized getFinalizedGroupDb
  cases db.groupStatus.get? roomId with
  | none => rfl
  | some status => cases status <;> rfl

theorem processGroupInvitation_group (invitation : GroupInvitation) (proposerPubkey : PublicKey) :
    (processGroupInvitation E db roomId sender eventId context invitation proposerPubkey).group roomId =
      (roomGroup db roomId).step E sender eventId (.groupInvitation invitation proposerPubkey) := by
  unfold processGroupInvitation
  show _ = if (roomGroup db roomId).isFinalized then none else Option.map _ _
  rw [isFinalized_roomGroup]
  by_cases hfinal : (getFinalizedGroupDb db roomId).isSome
  · rw [if_pos hfinal, if_pos hfinal]
    rfl
  · rw [if_neg hfinal, if_neg hfinal]
    cases E.inviteCode invitation.federationInviteCode with
    | none => rfl
    | some federationId => exact congrArg some (roomGroup_setGroup _ _ _)

theorem processGroupReannounce_group (id : RpcEventId) (invitation : GroupInvitation)
    (proposer : RpcUserId) (pubkeys : BTreeMap RpcUserId PublicKey) (rejections : BTreeSet RpcUserId) :
    (processGroupReannounce E db roomId context id invitation proposer pubkeys rejections).group roomId =
      (roomGroup db roomId).step E sender eventId
        (.groupReannounce id invitation proposer pubkeys rejections) := by
  unfold processGroupReannounce
  show _ = if (db.groupStatus.get? roomId).isSome || (db.groupInvitations.get? ⟨roomId, id⟩).isSome
    then _ else _
  split
  · rfl
  · cases E.inviteCode invitation.federationInviteCode with
    | none => rfl
    | some federationId => exact congrArg some (roomGroup_setGroup _ _ _)

/-- A vote writes the status that follows from the new state; an unfinished invitation stays active. -/
theorem roomGroup_votedDb {id : RpcEventId} (state : GroupInvitationWithKeys)
    (hactive : db.groupStatus.get? roomId = some (.activeInvitation id)) :
    roomGroup (votedDb db roomId id state) roomId =
      (roomGroup db roomId).put id state (some (RoomGroup.votedStatus id state)) := by
  unfold votedDb RoomGroup.votedStatus reannouncedStatus
  cases state.toFinalized with
  | some group => exact roomGroup_setGroup _ _ _
  | none =>
    unfold roomGroup RoomGroup.put
    rw [← hactive]
    exact congrArg _ (roomGroup_insertInvitation id state)

theorem processGroupInvitationVote_group (id : RpcEventId) (vote : MultispendGroupVoteType) :
    (processGroupInvitationVote db roomId sender context id vote).group roomId =
      (roomGroup db roomId).step E sender eventId (.groupInvitationVote id vote) := by
  unfold processGroupInvitationVote
  show _ = if db.groupStatus.get? roomId = some (.activeInvitation id)
    then Option.map _ ((db.groupInvitations.get? ⟨roomId, id⟩).bind _) else _
  by_cases hactive : db.groupStatus.get? roomId = some (.activeInvitation id)
  · rw [if_pos hactive, if_pos (isActiveInvite_iff.mpr hactive)]
    cases db.groupInvitations.get? ⟨roomId, id⟩ with
    | none => rfl
    | some state =>
      dsimp only [Option.bind_some]
      cases state.processVote sender vote with
      | none => rfl
      | some state' => exact congrArg some (roomGroup_votedDb state' hactive)
  · have hnot : ¬ isActiveInvite db roomId id = true := fun h => hactive (isActiveInvite_iff.mp h)
    rw [if_neg hactive, if_neg hnot]
    rfl

theorem processGroupInvitationCancel_group (id : RpcEventId) :
    (processGroupInvitationCancel db roomId context id).group roomId =
      (roomGroup db roomId).step E sender eventId (.groupInvitationCancel id) := by
  unfold processGroupInvitationCancel
  show _ = if db.groupStatus.get? roomId = some (.activeInvitation id) then _ else _
  by_cases hactive : db.groupStatus.get? roomId = some (.activeInvitation id)
  · rw [if_pos hactive, if_pos (isActiveInvite_iff.mpr hactive)]
    have herase : (db.groupStatus.erase roomId).get? roomId = none := by
      rw [BTreeMap.get?_erase, if_pos rfl]
    exact congrArg some (congrArg (fun status => RoomGroup.mk status _) herase)
  · have hnot : ¬ isActiveInvite db roomId id = true := fun h => hactive (isActiveInvite_iff.mp h)
    rw [if_neg hactive, if_neg hnot]
    rfl

/-- The events that concern the group itself. -/
def isGroupEvent : MultispendEvent → Bool
  | .groupInvitation _ _ | .groupReannounce _ _ _ _ _ | .groupInvitationVote _ _
  | .groupInvitationCancel _ => true
  | _ => false

/-- A group event is processed as the automaton says, invalid where it is undefined. -/
theorem processEventDbRaw_step {event : MultispendEvent} {eventTime : ℕ} (h : isGroupEvent event = true) :
    (processEventDbRaw E db roomId sender eventId context event eventTime).group roomId =
      (roomGroup db roomId).step E sender eventId event := by
  cases event with
  | groupInvitation invitation proposerPubkey => exact processGroupInvitation_group invitation proposerPubkey
  | groupReannounce id invitation proposer pubkeys rejections =>
    exact processGroupReannounce_group id invitation proposer pubkeys rejections
  | groupInvitationVote id vote => exact processGroupInvitationVote_group id vote
  | groupInvitationCancel id => exact processGroupInvitationCancel_group id
  | withdrawalRequest request description => cases h
  | withdrawalResponse request response => cases h
  | depositNotification fiatAmount txid description => cases h

theorem step_of_not_group {g : RoomGroup} {event : MultispendEvent} (h : isGroupEvent event = false) :
    g.step E sender eventId event = some g := by
  cases event with
  | groupInvitation invitation proposerPubkey => cases h
  | groupReannounce id invitation proposer pubkeys rejections => cases h
  | groupInvitationVote id vote => cases h
  | groupInvitationCancel id => cases h
  | withdrawalRequest request description => rfl
  | withdrawalResponse request response => rfl
  | depositNotification fiatAmount txid description => rfl

end

section

variable {E : Externals} {ourId : RpcUserId} {db db' : MultispendDb} {e : RoomEvent}

/-- Other events leave the groups alone. -/
theorem sameGroups_of_not_group (hevent : isGroupEvent e.event = false)
    (h : applyRoomEvent E ourId db e = .ok db') : SameGroups db db' := by
  obtain ⟨mid, hchange, hsame⟩ := applyRoomEvent_group h
  cases hchange with
  | kept => exact hsame
  | invited invitation proposerPubkey federationId he hopen hcode =>
    rw [he] at hevent
    cases hevent
  | reannounced invitationId state he hcode hstatus hinvitation =>
    rw [he] at hevent
    cases hevent
  | voted invitation vote state he hactive hstate hcan =>
    rw [he] at hevent
    cases hevent
  | cancelled invitation he hactive =>
    rw [he] at hevent
    cases hevent

/-- Processing an event moves the group of its room as the automaton says. -/
theorem roomGroup_apply (h : applyRoomEvent E ourId db e = .ok db') :
    roomGroup db' e.roomId = (roomGroup db e.roomId).apply E e := by
  unfold RoomGroup.apply
  cases hevent : isGroupEvent e.event with
  | false =>
    rw [step_of_not_group hevent, Option.getD_some]
    exact roomGroup_congr (sameGroups_of_not_group hevent h) _
  | true =>
    obtain ⟨r, hr, rfl⟩ := applyRoomEvent_ok h
    have hstep := @processEventDbRaw_step E db e.roomId e.sender e.eventId (.new ourId) e.event
      e.eventTime hevent
    rw [← hstep]
    unfold processEventDb at hr
    cases hraw : processEventDbRaw E db e.roomId e.sender e.eventId (.new ourId) e.event e.eventTime with
    | ok r' =>
      rw [hraw] at hr
      cases hr
      rfl
    | error f =>
      rw [hraw] at hr
      cases f with
      | panic p => cases hr
      | invalidMessage context =>
        cases hr
        rfl

/-- An event leaves the groups of the other rooms alone. -/
theorem roomGroup_other (h : applyRoomEvent E ourId db e = .ok db') {roomId : RpcRoomId}
    (hroom : roomId ≠ e.roomId) : roomGroup db' roomId = roomGroup db roomId := by
  obtain ⟨mid, hchange, hsame⟩ := applyRoomEvent_group h
  rw [roomGroup_congr hsame]
  have hset : ∀ id state status,
      roomGroup (db.setGroup e.roomId id state status) roomId = roomGroup db roomId := by
    intro id state status
    unfold roomGroup MultispendDb.setGroup
    rw [BTreeMap.get?_insert_ne _ _ hroom]
    congr 1
    funext id'
    exact BTreeMap.get?_insert_ne _ _ fun heq => hroom (congrArg RoomEventKey.roomId heq)
  cases hchange with
  | kept => rfl
  | invited invitation proposerPubkey federationId he hopen hcode => exact hset _ _ _
  | reannounced invitationId state he hcode hstatus hinvitation => exact hset _ _ _
  | voted invitation vote state he hactive hstate hcan =>
    unfold votedDb
    split
    · exact hset _ _ _
    · unfold roomGroup
      congr 1
      funext id'
      exact BTreeMap.get?_insert_ne _ _ fun heq => hroom (congrArg RoomEventKey.roomId heq)
  | cancelled invitation he hactive =>
    unfold roomGroup
    rw [BTreeMap.get?_erase, if_neg hroom]

/-- The group of a room after a scan depends on the events of the room only. -/
theorem roomGroup_scan (roomId : RpcRoomId) {evs : List RoomEvent}
    (h : scan E ourId db evs = .ok db') : roomGroup db' roomId =
      (evs.filter fun e => e.roomId = roomId).foldl (RoomGroup.apply E) (roomGroup db roomId) := by
  induction evs generalizing db with
  | nil =>
    cases h
    rfl
  | cons e evs ih =>
    obtain ⟨db1, h1, h2⟩ := run_cons.mp h
    rw [ih h2]
    by_cases hroom : e.roomId = roomId
    · rw [List.filter_cons_of_pos (by simpa using hroom), List.foldl_cons, ← hroom, roomGroup_apply h1]
    · rw [List.filter_cons_of_neg (by simpa using hroom), roomGroup_other h1 (Ne.symm hroom)]

theorem roomGroup_empty (roomId : RpcRoomId) : roomGroup .empty roomId = .empty := rfl

end

end Multispend
