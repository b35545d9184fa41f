import Fedi.Multispend.GroupHistory

/-!
# Multispend: late joiners (`multispend/src/multispend_matrix.rs`)

A member who joins late cannot read the earlier events and learns the group from a
reannouncement: a snapshot of an older member's database, sent as an event.  Over the
two groups, of a full-history device and of the joiner,

    both show the same status, or the joiner has no trace of the group   (Tracks)

is kept by every event that is `JoinSafe` in the two databases before it, and a
reannouncement leaves the first case (`late_joiner_converges`).  Not every event is:
a snapshot may be overtaken by a vote (`late_joiner_diverges`).
-/

namespace Multispend

open BTreeMaps StabilityPool Runs

/-! ## Status and reannouncement -/

inductive RpcMultispendGroupStatus where
  /-- Either no invitations or all invitations got aborted. -/
  | inactive
  /-- There is an active invite. -/
  | activeInvitation (activeInviteId : RpcEventId) (state : GroupInvitationWithKeys)
  /-- Group is ready. -/
  | finalized (inviteEventId : RpcEventId) (finalizedGroup : FinalizedGroup)
deriving DecidableEq

def getMultispendGroupStatus (db : MultispendDb) (roomId : RpcRoomId) :
    Except Panic RpcMultispendGroupStatus :=
  match db.groupStatus.get? roomId with
  | some (.activeInvitation activeInviteId) =>
    match db.groupInvitations.get? ⟨roomId, activeInviteId⟩ with
    | some state => .ok (.activeInvitation activeInviteId state)
    | none => .error (.assertionFailed "inconsistent multispend db")
  | some (.finalized inviteEventId finalizedGroup) => .ok (.finalized inviteEventId finalizedGroup)
  | none => .ok .inactive

/-- The reannouncement of a status. -/
def RpcMultispendGroupStatus.reannouncement : RpcMultispendGroupStatus → Option MultispendEvent
  | .finalized inviteEventId g => some (.groupReannounce inviteEventId g.invitation g.proposer g.pubkeys .empty)
  | .activeInvitation activeInviteId state =>
    some (.groupReannounce activeInviteId state.invitation state.proposer state.pubkeys state.rejections)
  | .inactive => none

/-- The event sent to a new member, if any. -/
def maybeSendMultispendReannouncement (db : MultispendDb) (roomId : RpcRoomId) :
    Except Panic (Option MultispendEvent) :=
  (getMultispendGroupStatus db roomId).map RpcMultispendGroupStatus.reannouncement

/-- Whether an event is a reannouncement in the room. -/
def RoomEvent.Reannounces (e : RoomEvent) (roomId : RpcRoomId) : Prop :=
  e.roomId = roomId ∧ ∃ id invitation proposer pubkeys rejections,
    e.event = .groupReannounce id invitation proposer pubkeys rejections

/-- Every reannouncement was built from the database of a member, who had processed the
history from some event on (its own join) up to some earlier moment. -/
def HonestReannouncements (E : Externals) (roomId : RpcRoomId) (history : List RoomEvent) : Prop :=
  ∀ before e after, history = before ++ e :: after → e.Reannounces roomId →
    ∃ member seen db, seen <:+: before ∧ scan E member .empty seen = .ok db ∧
      maybeSendMultispendReannouncement db roomId = .ok (some e.event)

/-- An event the joiner takes the same way as a device with the full history: an invitation
it accepts is not refused by a finalized group, and a reannouncement it adopts is the
snapshot of this very moment and does not complete the invitation. -/
structure JoinSafe (E : Externals) (roomId : RpcRoomId) (full joiner : MultispendDb) (e : RoomEvent) :
    Prop where
  invitation : ∀ invitation proposerPubkey, e.event = .groupInvitation invitation proposerPubkey →
    (E.inviteCode invitation.federationInviteCode).isSome → (getFinalizedGroupDb full roomId).isSome →
    (getFinalizedGroupDb joiner roomId).isSome
  reannounce : ∀ id invitation proposer pubkeys rejections,
    e.event = .groupReannounce id invitation proposer pubkeys rejections →
    joiner.groupStatus.get? roomId = none → joiner.groupInvitations.get? ⟨roomId, id⟩ = none →
    (E.inviteCode invitation.federationInviteCode).isSome →
    maybeSendMultispendReannouncement full roomId = .ok (some e.event) ∧
      ∀ id state, getMultispendGroupStatus full roomId = .ok (.activeInvitation id state) →
        state.toFinalized = none

/-! ## The automaton's view -/

namespace RoomGroup

/-- What the room shows, nothing when the active invitation is missing. -/
def view (g : RoomGroup) : Option RpcMultispendGroupStatus :=
  match g.status with
  | some (.activeInvitation id) => (g.invitation id).map fun state => .activeInvitation id state
  | some (.finalized id group) => some (.finalized id group)
  | none => some .inactive

@[simp] theorem view_put_active (g : RoomGroup) (id : RpcEventId) (state : GroupInvitationWithKeys) :
    (g.put id state (some (.activeInvitation id))).view = some (.activeInvitation id state) := by
  show (Function.update g.invitation id (some state) id).map _ = _
  rw [Function.update_self]
  rfl

@[simp] theorem view_put_finalized (g : RoomGroup) (id id' : RpcEventId) (state : GroupInvitationWithKeys)
    (group : FinalizedGroup) :
    (g.put id state (some (.finalized id' group))).view = some (.finalized id' group) := rfl

/-- What a room shows after an invitation is written depends on the invitation only. -/
theorem view_put_reannounced (g g' : RoomGroup) (id : RpcEventId) (state : GroupInvitationWithKeys) :
    (g.put id state (some (reannouncedStatus id state))).view =
      (g'.put id state (some (reannouncedStatus id state))).view := by
  unfold reannouncedStatus
  cases state.toFinalized with
  | some group => rfl
  | none => rw [view_put_active, view_put_active]

/-- The three kinds of groups and what they show. -/
theorem Wf.view_cases {E : Externals} {g : RoomGroup} (h : g.Wf E) :
    (g.status = none ∧ g.view = some .inactive) ∨
      (∃ id state, g.status = some (.activeInvitation id) ∧ g.invitation id = some state ∧
        g.view = some (.activeInvitation id state)) ∨
      ∃ id group, g.status = some (.finalized id group) ∧ g.view = some (.finalized id group) := by
  unfold RoomGroup.view
  cases hstatus : g.status with
  | none => exact .inl ⟨rfl, rfl⟩
  | some status =>
    cases status with
    | finalized id group => exact .inr (.inr ⟨id, group, rfl, rfl⟩)
    | activeInvitation id =>
      obtain ⟨state, hstate⟩ := h.active id hstatus
      exact .inr (.inl ⟨id, state, rfl, hstate, by simp [hstate]⟩)

/-- The status is shown, and so is the active invitation. -/
theorem Wf.status_eq {E : Externals} {g g' : RoomGroup} (h : g.Wf E) (h' : g'.Wf E) (hview : g.view = g'.view) :
    g.status = g'.status ∧
      ∀ id, g.status = some (.activeInvitation id) → g.invitation id = g'.invitation id := by
  rcases h.view_cases with ⟨hs, hv⟩ | ⟨id, state, hs, hi, hv⟩ | ⟨id, group, hs, hv⟩ <;>
    rcases h'.view_cases with ⟨hs', hv'⟩ | ⟨id', state', hs', hi', hv'⟩ | ⟨id', group', hs', hv'⟩ <;>
    rw [hv, hv'] at hview <;> cases hview <;> rw [hs, hs'] <;> refine ⟨rfl, ?_⟩
  · intro id h
    cases h
  · intro id' h
    cases h
    rw [hi, hi']
  · intro id' h
    cases h

/-- Groups that show the same still do after an event that is no reannouncement. -/
theorem Wf.apply_view {E : Externals} {g g' : RoomGroup} (h : g.Wf E) (h' : g'.Wf E) (hview : g.view = g'.view)
    {e : RoomEvent} (he : ∀ id invitation proposer pubkeys rejections,
      e.event ≠ .groupReannounce id invitation proposer pubkeys rejections) :
    (g.apply E e).view = (g'.apply E e).view := by
  obtain ⟨hstatus, hactive⟩ := h.status_eq h' hview
  unfold RoomGroup.apply
  cases hevent : e.event with
  | groupInvitation invitation proposerPubkey =>
    have hfinal : g.isFinalized = g'.isFinalized := by
      unfold isFinalized
      rw [hstatus]
    rw [step_groupInvitation, step_groupInvitation, hfinal]
    split
    · exact hview
    · cases E.inviteCode invitation.federationInviteCode with
      | none => exact hview
      | some federationId =>
        simp only [Option.map_some, Option.getD_some, view_put_active]
  | groupReannounce id invitation proposer pubkeys rejections => exact absurd hevent (he _ _ _ _ _)
  | groupInvitationVote id vote =>
    rw [step_groupInvitationVote, step_groupInvitationVote, ← hstatus]
    split
    next hid =>
      rw [← hactive id hid]
      cases (g.invitation id).bind fun state => state.processVote e.sender vote with
      | none => exact hview
      | some state => exact view_put_reannounced g g' id state
    next => exact hview
  | groupInvitationCancel id =>
    rw [step_groupInvitationCancel, step_groupInvitationCancel, ← hstatus]
    split
    · rfl
    · exact hview
  | withdrawalRequest request description => exact hview
  | withdrawalResponse request response => exact hview
  | depositNotification fiatAmount txid description => exact hview

end RoomGroup

theorem view_roomGroup {db : MultispendDb} {roomId : RpcRoomId} {status : RpcMultispendGroupStatus} :
    getMultispendGroupStatus db roomId = .ok status ↔ (roomGroup db roomId).view = some status := by
  unfold getMultispendGroupStatus RoomGroup.view roomGroup
  dsimp only
  cases db.groupStatus.get? roomId with
  | none => simp
  | some s =>
    cases s with
    | finalized id group => simp
    | activeInvitation id =>
      dsimp only
      cases db.groupInvitations.get? ⟨roomId, id⟩ with
      | none => simp
      | some state => simp

section

variable {E : Externals} {roomId : RpcRoomId}

/-! ## Honest reannouncements -/

theorem maybeSend_iff {db : MultispendDb} {event : MultispendEvent} :
    maybeSendMultispendReannouncement db roomId = .ok (some event) ↔
      ∃ status, (roomGroup db roomId).view = some status ∧ status.reannouncement = some event := by
  unfold maybeSendMultispendReannouncement
  constructor
  · intro h
    cases hget : getMultispendGroupStatus db roomId with
    | error p =>
      rw [hget] at h
      cases h
    | ok status =>
      rw [hget] at h
      exact ⟨status, view_roomGroup.mp hget, Except.ok.inj h⟩
  · rintro ⟨status, hview, hevent⟩
    rw [view_roomGroup.mpr hview, ← hevent]
    rfl

/-- What is reannounced has a row, and its code parses to the federation of the state. -/
theorem reannouncement_row {g : RoomGroup} {status : RpcMultispendGroupStatus} {id : RpcEventId}
    {invitation : GroupInvitation} {proposer : RpcUserId} {pubkeys : BTreeMap RpcUserId PublicKey}
    {rejections : BTreeSet RpcUserId} (hwf : g.Wf E) (hview : g.view = some status)
    (h : status.reannouncement = some (.groupReannounce id invitation proposer pubkeys rejections)) :
    (g.invitation id).isSome = true ∧ (E.inviteCode invitation.federationInviteCode).isSome = true := by
  rcases hwf.view_cases with ⟨hs, hv⟩ | ⟨id', state, hs, hi, hv⟩ | ⟨id', group, hs, hv⟩
  · rw [hv] at hview
    cases hview
    cases h
  · rw [hv] at hview
    cases hview
    cases h
    rw [hi, hwf.code _ _ hi]
    exact ⟨rfl, rfl⟩
  · rw [hv] at hview
    cases hview
    cases h
    obtain ⟨state, hstate, hgroup⟩ := hwf.finalized _ _ hs
    rw [hstate, (toFinalized_ok hgroup).invitation, hwf.code _ _ hstate]
    exact ⟨rfl, rfl⟩

/-- A reannouncement shows what the device that sent it shows. -/
theorem snapshot_view {g : RoomGroup} {status : RpcMultispendGroupStatus} {id : RpcEventId}
    {invitation : GroupInvitation} {proposer : RpcUserId} {pubkeys : BTreeMap RpcUserId PublicKey}
    {rejections : BTreeSet RpcUserId} (hwf : g.Wf E) (hview : g.view = some status)
    (h : status.reannouncement = some (.groupReannounce id invitation proposer pubkeys rejections))
    (hopen : ∀ id state, status = .activeInvitation id state → state.toFinalized = none) :
    ∃ federationId, E.inviteCode invitation.federationInviteCode = some federationId ∧
      ∀ g' : RoomGroup, (g'.put id ⟨invitation, proposer, pubkeys, rejections, federationId⟩
        (some (reannouncedStatus id ⟨invitation, proposer, pubkeys, rejections, federationId⟩))).view =
          some status := by
  rcases hwf.view_cases with ⟨hs, hv⟩ | ⟨id', state, hs, hi, hv⟩ | ⟨id', group, hs, hv⟩
  · rw [hv] at hview
    cases hview
    cases h
  · rw [hv] at hview
    cases hview
    cases h
    refine ⟨state.federationId, hwf.code _ _ hi, fun g' => ?_⟩
    unfold reannouncedStatus
    rw [hopen _ _ rfl]
    exact RoomGroup.view_put_active g' _ state
  · rw [hv] at hview
    cases hview
    cases h
    obtain ⟨state, hstate, hgroup⟩ := hwf.finalized _ _ hs
    have hmade := toFinalized_ok hgroup
    have hcode : E.inviteCode group.invitation.federationInviteCode = some group.federationId := by
      rw [hmade.invitation, hmade.federationId]
      exact hwf.code _ _ hstate
    refine ⟨group.federationId, hcode, fun g' => ?_⟩
    -- the rejections are not part of the group
    have hagain : GroupInvitationWithKeys.toFinalized
        ⟨group.invitation, group.proposer, group.pubkeys, .empty, group.federationId⟩ = some group := by
      rw [hmade.invitation, hmade.proposer, hmade.pubkeys, hmade.federationId]
      exact hgroup
    unfold reannouncedStatus
    rw [hagain]
    rfl

section

variable {history : List RoomEvent} (hhonest : HonestReannouncements E roomId history)

include hhonest

theorem honest_row {before after : List RoomEvent} {e : RoomEvent} (hhistory : history = before ++ e :: after)
    (hroom : e.roomId = roomId) {id : RpcEventId} {invitation : GroupInvitation} {proposer : RpcUserId}
    {pubkeys : BTreeMap RpcUserId PublicKey} {rejections : BTreeSet RpcUserId}
    (he : e.event = .groupReannounce id invitation proposer pubkeys rejections) :
    (∃ seen, seen <:+: before ∧ ((groupOf E roomId seen).invitation id).isSome = true) ∧
      (E.inviteCode invitation.federationInviteCode).isSome = true := by
  obtain ⟨member, seen, db, hseen, hscan, hsend⟩ := hhonest before e after hhistory ⟨hroom, _, _, _, _, _, he⟩
  rw [he] at hsend
  obtain ⟨status, hview, hstatus⟩ := maybeSend_iff.mp hsend
  rw [roomGroup_of_scan hscan] at hview
  obtain ⟨hrow, hcode⟩ := reannouncement_row (wf_groupOf seen) hview hstatus
  exact ⟨⟨seen, hseen, hrow⟩, hcode⟩

/-- What any member holds a row of, a device with the full history holds a row of too, unless
its group is finalized. -/
theorem closed_of_row {before : List RoomEvent} (hbefore : before <+: history) {seen : List RoomEvent}
    (hseen : seen <:+: before) {id : RpcEventId}
    (hrow : ((groupOf E roomId seen).invitation id).isSome = true) :
    (groupOf E roomId before).Closed id := by
  induction before using List.reverseRecOn generalizing seen id with
  | nil =>
    rw [List.infix_nil.mp hseen] at hrow
    cases hrow
  | append_singleton before e ih =>
    obtain ⟨after, hhistory⟩ := hbefore
    have hhistory : history = before ++ e :: after := by simp [← hhistory]
    have ih := @ih ⟨e :: after, hhistory.symm⟩
    have hlater : ∀ {id}, (groupOf E roomId before).Closed id →
        (groupOf E roomId (before ++ [e])).Closed id := by
      intro id h
      rw [groupOf_snoc]
      split
      · exact h.apply e
      · exact h
    rcases List.infix_concat_iff.mp hseen with hend | hinfix
    · rcases List.suffix_concat_iff.mp hend with rfl | ⟨seen, rfl, hsuffix⟩
      · cases hrow
      rw [groupOf_snoc] at hrow
      split at hrow
      next hroom =>
        rcases RoomGroup.apply_row hrow with hrow | ⟨invitation, proposerPubkey, he, rfl, hcode⟩ |
          ⟨invitation, proposer, pubkeys, rejections, he⟩
        · exact hlater (ih hsuffix.isInfix hrow)
        · rw [groupOf_snoc, if_pos hroom]
          exact RoomGroup.closed_invited he hcode
        · obtain ⟨⟨seen', hseen', hrow'⟩, -⟩ := honest_row hhonest hhistory hroom he
          exact hlater (ih hseen' hrow')
      next => exact hlater (ih hsuffix.isInfix hrow)
    · exact hlater (ih hinfix hrow)

end

/-! ## Convergence -/

/-- The joiner shows what the full device shows, or has no trace of the group. -/
def Tracks (full joiner : RoomGroup) : Prop := full.view = joiner.view ∨ joiner = .empty

section

variable {full joiner : MultispendDb} {e : RoomEvent}

/-- A full device ignores reannouncements, and so does a joiner that shows the same. -/
theorem Tracks.reannounce {id : RpcEventId} {invitation : GroupInvitation} {proposer : RpcUserId}
    {pubkeys : BTreeMap RpcUserId PublicKey} {rejections : BTreeSet RpcUserId}
    (he : e.event = .groupReannounce id invitation proposer pubkeys rejections)
    (hwf : (roomGroup full roomId).Wf E) (hclosed : (roomGroup full roomId).Closed id)
    (hcode : (E.inviteCode invitation.federationInviteCode).isSome = true)
    (hsafe : JoinSafe E roomId full joiner e) (h : Tracks (roomGroup full roomId) (roomGroup joiner roomId)) :
    ((roomGroup full roomId).apply E e).view = ((roomGroup joiner roomId).apply E e).view := by
  rw [RoomGroup.apply_closed hclosed he]
  by_cases hadopt : (roomGroup joiner roomId).status = none ∧ (roomGroup joiner roomId).invitation id = none
  · obtain ⟨hsend, hopen⟩ := hsafe.reannounce _ _ _ _ _ he hadopt.1 hadopt.2 hcode
    rw [he] at hsend
    obtain ⟨status, hview, hstatus⟩ := maybeSend_iff.mp hsend
    have hopen : ∀ id state, status = .activeInvitation id state → state.toFinalized = none := by
      rintro id state rfl
      exact hopen id state (view_roomGroup.mpr hview)
    obtain ⟨federationId, hcode, hsnapshot⟩ := snapshot_view hwf hview hstatus hopen
    unfold RoomGroup.apply
    rw [he, RoomGroup.step_groupReannounce, hadopt.1, hadopt.2, hcode]
    exact hview.trans (hsnapshot _).symm
  · rw [RoomGroup.apply_held hadopt he]
    rcases h with hview | hempty
    · exact hview
    · rw [hempty] at hadopt
      exact absurd ⟨rfl, rfl⟩ hadopt

/-- One event in the room. -/
theorem Tracks.apply (hfull : (roomGroup full roomId).Wf E) (hjoiner : (roomGroup joiner roomId).Wf E)
    (hhonest : ∀ id invitation proposer pubkeys rejections,
      e.event = .groupReannounce id invitation proposer pubkeys rejections →
      (roomGroup full roomId).Closed id ∧ (E.inviteCode invitation.federationInviteCode).isSome = true)
    (hsafe : JoinSafe E roomId full joiner e) (h : Tracks (roomGroup full roomId) (roomGroup joiner roomId)) :
    Tracks ((roomGroup full roomId).apply E e) ((roomGroup joiner roomId).apply E e) := by
  rcases h with hview | hempty
  · left
    by_cases hre : ∃ id invitation proposer pubkeys rejections,
        e.event = .groupReannounce id invitation proposer pubkeys rejections
    · obtain ⟨id, invitation, proposer, pubkeys, rejections, he⟩ := hre
      obtain ⟨hclosed, hcode⟩ := hhonest _ _ _ _ _ he
      exact Tracks.reannounce he hfull hclosed hcode hsafe (.inl hview)
    · refine hfull.apply_view hjoiner hview fun id invitation proposer pubkeys rejections he => ?_
      exact hre ⟨id, invitation, proposer, pubkeys, rejections, he⟩
  cases he : e.event with
  | groupInvitation invitation proposerPubkey =>
    unfold RoomGroup.apply
    rw [he, hempty, RoomGroup.step_groupInvitation, RoomGroup.step_groupInvitation]
    cases hcode : E.inviteCode invitation.federationInviteCode with
    | none => exact .inr rfl
    | some federationId =>
      have hopen : (roomGroup full roomId).isFinalized = false := by
        have hinv := hsafe.invitation _ _ he (by rw [hcode]; rfl)
        rw [← isFinalized_roomGroup, ← isFinalized_roomGroup, hempty] at hinv
        cases hfinal : (roomGroup full roomId).isFinalized with
        | false => rfl
        | true => cases hinv hfinal
      left
      rw [hopen]
      simp [RoomGroup.isFinalized, RoomGroup.empty]
  | groupReannounce id invitation proposer pubkeys rejections =>
    obtain ⟨hclosed, hcode⟩ := hhonest _ _ _ _ _ he
    exact .inl (Tracks.reannounce he hfull hclosed hcode hsafe (.inr hempty))
  | groupInvitationVote id vote =>
    right
    unfold RoomGroup.apply
    rw [he, hempty]
    rfl
  | groupInvitationCancel id =>
    right
    unfold RoomGroup.apply
    rw [he, hempty]
    rfl
  | withdrawalRequest request description =>
    right
    unfold RoomGroup.apply
    rw [he, hempty]
    rfl
  | withdrawalResponse request response =>
    right
    unfold RoomGroup.apply
    rw [he, hempty]
    rfl
  | depositNotification fiatAmount txid description =>
    right
    unfold RoomGroup.apply
    rw [he, hempty]
    rfl

end

section

variable {ourId joinerId : RpcUserId} {pre post : List RoomEvent} {full joiner : MultispendDb}

/-- Every event after the join is taken by the joiner as by the full device. -/
def EveryJoinSafe (E : Externals) (roomId : RpcRoomId) (ourId joinerId : RpcUserId)
    (pre post : List RoomEvent) : Prop :=
  ∀ before e after full joiner, post = before ++ e :: after → e.roomId = roomId →
    scan E ourId .empty (pre ++ before) = .ok full → scan E joinerId .empty before = .ok joiner →
    JoinSafe E roomId full joiner e

theorem tracks_of_scans (hhonest : HonestReannouncements E roomId (pre ++ post))
    (hsafe : EveryJoinSafe E roomId ourId joinerId pre post) {before : List RoomEvent}
    (hbefore : before <+: post) (hfull : scan E ourId .empty (pre ++ before) = .ok full)
    (hjoiner : scan E joinerId .empty before = .ok joiner) :
    Tracks (roomGroup full roomId) (roomGroup joiner roomId) ∧
      ((∃ e ∈ before, e.Reannounces roomId) → (roomGroup full roomId).view = (roomGroup joiner roomId).view) := by
  induction before using List.reverseRecOn generalizing full joiner with
  | nil =>
    cases hjoiner
    exact ⟨.inr (roomGroup_empty roomId), fun ⟨e, he, _⟩ => by cases he⟩
  | append_singleton before e ih =>
    obtain ⟨after, hpost⟩ := hbefore
    have hpost : post = before ++ e :: after := by simp [← hpost]
    rw [← List.append_assoc] at hfull
    obtain ⟨full0, hfull0, hfull1⟩ := run_snoc.mp hfull
    obtain ⟨joiner0, hjoiner0, hjoiner1⟩ := run_snoc.mp hjoiner
    obtain ⟨htracks, hview⟩ := ih ⟨e :: after, hpost.symm⟩ hfull0 hjoiner0
    by_cases hroom : e.roomId = roomId
    · have hhistory : pre ++ post = (pre ++ before) ++ e :: after := by rw [hpost, List.append_assoc]
      have hseen : ∀ id invitation proposer pubkeys rejections,
          e.event = .groupReannounce id invitation proposer pubkeys rejections →
          (roomGroup full0 roomId).Closed id ∧ (E.inviteCode invitation.federationInviteCode).isSome = true := by
        intro id invitation proposer pubkeys rejections he
        obtain ⟨⟨seen, hseen, hrow⟩, hcode⟩ := honest_row hhonest hhistory hroom he
        rw [roomGroup_of_scan hfull0]
        exact ⟨closed_of_row hhonest ⟨e :: after, hhistory.symm⟩ hseen hrow, hcode⟩
      have hwf : (roomGroup full0 roomId).Wf E := by
        rw [roomGroup_of_scan hfull0]
        exact wf_groupOf _
      have hwf' : (roomGroup joiner0 roomId).Wf E := by
        rw [roomGroup_of_scan hjoiner0]
        exact wf_groupOf _
      have hsafe := hsafe before e after full0 joiner0 hpost hroom hfull0 hjoiner0
      have hfull' := roomGroup_apply hfull1
      have hjoiner' := roomGroup_apply hjoiner1
      rw [hroom] at hfull' hjoiner'
      rw [hfull', hjoiner']
      refine ⟨htracks.apply hwf hwf' hseen hsafe, ?_⟩
      rintro ⟨e', hmem, hre⟩
      by_cases hre' : ∃ id invitation proposer pubkeys rejections,
          e.event = .groupReannounce id invitation proposer pubkeys rejections
      · obtain ⟨id, invitation, proposer, pubkeys, rejections, he⟩ := hre'
        obtain ⟨hclosed, hcode⟩ := hseen _ _ _ _ _ he
        exact Tracks.reannounce he hwf hclosed hcode hsafe htracks
      · rcases List.mem_append.mp hmem with hmem | hmem
        · refine hwf.apply_view hwf' (hview ⟨e', hmem, hre⟩) fun id invitation proposer pubkeys rejections he => ?_
          exact hre' ⟨id, invitation, proposer, pubkeys, rejections, he⟩
        · obtain rfl := List.mem_singleton.mp hmem
          exact absurd hre.2 hre'
    · rw [roomGroup_other hfull1 (Ne.symm hroom), roomGroup_other hjoiner1 (Ne.symm hroom)]
      refine ⟨htracks, ?_⟩
      rintro ⟨e', hmem, hre⟩
      rcases List.mem_append.mp hmem with hmem | hmem
      · exact hview ⟨e', hmem, hre⟩
      · obtain rfl := List.mem_singleton.mp hmem
        exact absurd hre.1 hroom

/-- A joiner who has seen a reannouncement shows what the full history shows, in every run of
which every event is taken the same way. -/
theorem late_joiner_converges (hhonest : HonestReannouncements E roomId (pre ++ post))
    (hsafe : EveryJoinSafe E roomId ourId joinerId pre post)
    (hfull : scan E ourId .empty (pre ++ post) = .ok full) (hjoiner : scan E joinerId .empty post = .ok joiner)
    (hre : ∃ e ∈ post, e.Reannounces roomId) :
    ∃ status, getMultispendGroupStatus full roomId = .ok status ∧
      getMultispendGroupStatus joiner roomId = .ok status := by
  obtain ⟨-, hview⟩ := tracks_of_scans hhonest hsafe (List.prefix_refl post) hfull hjoiner
  have hwf : (roomGroup full roomId).Wf E := by
    rw [roomGroup_of_scan hfull]
    exact wf_groupOf _
  rcases hwf.view_cases with ⟨-, h⟩ | ⟨id, state, -, -, h⟩ | ⟨id, group, -, h⟩ <;>
    exact ⟨_, view_roomGroup.mpr h, view_roomGroup.mpr ((hview hre).symm.trans h)⟩

end

end

/-! ## A race -/

/-- User 1 invites users 1 and 2 with key 10. -/
def demoInvite : RoomEvent := demoEvent 1 100 (.groupInvitation (demoInvitation 2) 10)

/-- User 2 accepts with key 20. -/
def demoAccept : RoomEvent := demoEvent 2 101 (.groupInvitationVote 100 (.accept 20))

/-- The state of the invitation before any vote. -/
def demoInvited : GroupInvitationWithKeys := .new (demoInvitation 2) 1 10 1

/-- User 1 reannounces the invitation, with the keys of before any vote. -/
def demoReannounce : RoomEvent :=
  demoEvent 1 102 (.groupReannounce 100 demoInvited.invitation demoInvited.proposer demoInvited.pubkeys
    demoInvited.rejections)

theorem demoReannounce_snapshot : ∃ db, scan demoExternals 1 .empty [demoInvite] = .ok db ∧
    getMultispendGroupStatus db 0 = .ok (.activeInvitation 100 demoInvited) ∧
    maybeSendMultispendReannouncement db 0 = .ok (some demoReannounce.event) := by
  obtain ⟨db, hdb⟩ := exists_of_succeeds
    (show succeeds (scan demoExternals 1 .empty [demoInvite]) = true by decide +kernel)
  have hstatus : (scan demoExternals 1 .empty [demoInvite] >>= fun db => getMultispendGroupStatus db 0) =
      .ok (.activeInvitation 100 demoInvited) := by decide +kernel
  rw [hdb, ok_bind] at hstatus
  refine ⟨db, hdb, hstatus, ?_⟩
  unfold maybeSendMultispendReannouncement
  rw [hstatus]
  rfl

theorem demoInvite_quiet : ¬demoInvite.Reannounces 0 := by
  rintro ⟨-, id, invitation, proposer, pubkeys, rejections, h⟩
  cases h

theorem demoAccept_quiet : ¬demoAccept.Reannounces 0 := by
  rintro ⟨-, id, invitation, proposer, pubkeys, rejections, h⟩
  cases h

theorem late_joiner_converges_demo : ∃ full joiner status,
    scan demoExternals 1 .empty ([demoInvite] ++ [demoReannounce, demoAccept]) = .ok full ∧
    scan demoExternals 3 .empty [demoReannounce, demoAccept] = .ok joiner ∧
    getMultispendGroupStatus full 0 = .ok status ∧ getMultispendGroupStatus joiner 0 = .ok status := by
  obtain ⟨full, hfull⟩ := exists_of_succeeds (show succeeds (scan demoExternals 1 .empty
    ([demoInvite] ++ [demoReannounce, demoAccept])) = true by decide +kernel)
  obtain ⟨joiner, hjoiner⟩ := exists_of_succeeds (show succeeds (scan demoExternals 3 .empty
    [demoReannounce, demoAccept]) = true by decide +kernel)
  have hhonest : HonestReannouncements demoExternals 0 ([demoInvite] ++ [demoReannounce, demoAccept]) := by
    refine forall_splits_cons ?_ (forall_splits_cons ?_ (forall_splits_cons ?_ forall_splits_nil))
    · exact fun h => absurd h demoInvite_quiet
    · intro _
      obtain ⟨db, hdb, -, hsend⟩ := demoReannounce_snapshot
      exact ⟨1, [demoInvite], db, List.infix_rfl, hdb, hsend⟩
    · exact fun h => absurd h demoAccept_quiet
  have hsafe : EveryJoinSafe demoExternals 0 1 3 [demoInvite] [demoReannounce, demoAccept] := by
    intro before e after full joiner hsplit
    revert before e after
    refine forall_splits_cons ?_ (forall_splits_cons ?_ forall_splits_nil)
    · intro hroom hfull hjoiner
      obtain ⟨db, hdb, hstatus, hsend⟩ := demoReannounce_snapshot
      have hfull : scan demoExternals 1 .empty [demoInvite] = .ok full := hfull
      rw [hdb] at hfull
      cases hfull
      refine ⟨fun _ _ h => (by cases h), fun _ _ _ _ _ _ _ _ _ => ⟨hsend, fun id state h => ?_⟩⟩
      rw [hstatus] at h
      cases h
      decide +kernel
    · intro hroom hfull hjoiner
      exact ⟨fun _ _ h => (by cases h), fun _ _ _ _ _ h => (by cases h)⟩
  obtain ⟨status, h1, h2⟩ := late_joiner_converges hhonest hsafe hfull hjoiner
    ⟨demoReannounce, by simp, rfl, _, _, _, _, _, rfl⟩
  exact ⟨full, joiner, status, hfull, hjoiner, h1, h2⟩

/-- The vote reaches the room before the reannouncement that does not know it: the joiner
never learns the key of user 2. -/
theorem late_joiner_diverges :
    HonestReannouncements demoExternals 0 ([demoInvite] ++ [demoAccept, demoReannounce]) ∧
    demoReannounce.Reannounces 0 ∧
    ∃ full joiner, scan demoExternals 1 .empty ([demoInvite] ++ [demoAccept, demoReannounce]) = .ok full ∧
      scan demoExternals 3 .empty [demoAccept, demoReannounce] = .ok joiner ∧
      ¬∃ status, getMultispendGroupStatus full 0 = .ok status ∧
        getMultispendGroupStatus joiner 0 = .ok status := by
  obtain ⟨full, hfull⟩ := exists_of_succeeds (show succeeds (scan demoExternals 1 .empty
    ([demoInvite] ++ [demoAccept, demoReannounce])) = true by decide +kernel)
  obtain ⟨joiner, hjoiner⟩ := exists_of_succeeds (show succeeds (scan demoExternals 3 .empty
    [demoAccept, demoReannounce]) = true by decide +kernel)
  have hhonest : HonestReannouncements demoExternals 0 ([demoInvite] ++ [demoAccept, demoReannounce]) := by
    refine forall_splits_cons ?_ (forall_splits_cons ?_ (forall_splits_cons ?_ forall_splits_nil))
    · exact fun h => absurd h demoInvite_quiet
    · exact fun h => absurd h demoAccept_quiet
    · intro _
      obtain ⟨db, hdb, -, hsend⟩ := demoReannounce_snapshot
      exact ⟨1, [demoInvite], db, ⟨[], [demoAccept], rfl⟩, hdb, hsend⟩
  refine ⟨hhonest, ⟨rfl, _, _, _, _, _, rfl⟩, full, joiner, hfull, hjoiner, ?_⟩
  rintro ⟨status, h1, h2⟩
  have hrun : ((scan demoExternals 1 .empty ([demoInvite] ++ [demoAccept, demoReannounce])) >>= fun db =>
      getMultispendGroupStatus db 0) ≠
    ((scan demoExternals 3 .empty [demoAccept, demoReannounce]) >>= fun db =>
      getMultispendGroupStatus db 0) := by decide +kernel
  rw [hfull, hjoiner, ok_bind, ok_bind, h1, h2] at hrun
  exact hrun rfl

end Multispend
