import Fedi.Multispend.GroupIntegrity
import Fedi.Multispend.RoomGroup

/-!
# Multispend: the group over a history

What holds of the group of a room after any events: its status points to stored
invitations (`RoomGroup.Wf`), rows are never removed and a finalized group stays, so a
group that holds a row of `id`, or is finalized, adopts no reannouncement of `id`
later (`RoomGroup.Closed`).  `groupOf E roomId evs` is the group after `evs` from nothing:

    scan E member .empty evs = .ok db → roomGroup db roomId = groupOf E roomId evs
-/

namespace Multispend

open BTreeMaps StabilityPool Runs

namespace RoomGroup

/-! ## Statuses and rows -/

/-- Statuses point to stored invitations, whose federation is the one of their code. -/
structure Wf (E : Externals) (g : RoomGroup) : Prop where
  code : ∀ id state, g.invitation id = some state →
    E.inviteCode state.invitation.federationInviteCode = some state.federationId
  active : ∀ id, g.status = some (.activeInvitation id) → ∃ state, g.invitation id = some state
  finalized : ∀ id group, g.status = some (.finalized id group) →
    ∃ state, g.invitation id = some state ∧ state.toFinalized = some group

theorem wf_empty (E : Externals) : Wf E .empty :=
  ⟨fun _ _ h => (by cases h), fun _ h => (by cases h), fun _ _ h => (by cases h)⟩

theorem Wf.put {E : Externals} {g : RoomGroup} (h : g.Wf E) {id : RpcEventId}
    {state : GroupInvitationWithKeys} {status : MultispendGroupStatus}
    (hcode : E.inviteCode state.invitation.federationInviteCode = some state.federationId)
    (hstatus : PointsTo id state status) : (g.put id state (some status)).Wf E := by
  constructor
  · intro id' state' hstate'
    have hstate' : Function.update g.invitation id (some state) id' = some state' := hstate'
    rw [Function.update_apply] at hstate'
    split_ifs at hstate'
    · cases hstate'
      exact hcode
    · exact h.code id' state' hstate'
  · intro id' hactive
    have hactive : some status = some (.activeInvitation id') := hactive
    cases hactive
    have hid : id' = id := hstatus
    subst hid
    exact ⟨state, Function.update_self _ _ _⟩
  · intro id' group hfinal
    have hfinal : some status = some (.finalized id' group) := hfinal
    cases hfinal
    obtain ⟨rfl, hgroup⟩ : id' = id ∧ state.toFinalized = some group := hstatus
    exact ⟨state, Function.update_self _ _ _, hgroup⟩

theorem recordVote_federationId (state : GroupInvitationWithKeys) (sender : RpcUserId)
    (vote : MultispendGroupVoteType) :
    (state.recordVote sender vote).federationId = state.federationId := by cases vote <;> rfl

theorem Wf.step {E : Externals} {g g' : RoomGroup} {sender : RpcUserId} {eventId : RpcEventId}
    {event : MultispendEvent} (h : g.Wf E) (hstep : g.step E sender eventId event = some g') : g'.Wf E := by
  cases event with
  | groupInvitation invitation proposerPubkey =>
    rw [step_groupInvitation] at hstep
    split_ifs at hstep
    obtain ⟨federationId, hcode, rfl⟩ := Option.map_eq_some_iff.mp hstep
    exact h.put hcode (rfl : eventId = eventId)
  | groupReannounce id invitation proposer pubkeys rejections =>
    rw [step_groupReannounce] at hstep
    split_ifs at hstep
    · cases hstep
      exact h
    · obtain ⟨federationId, hcode, rfl⟩ := Option.map_eq_some_iff.mp hstep
      exact h.put hcode (reannouncedStatus_pointsTo _ _)
  | groupInvitationVote id vote =>
    rw [step_groupInvitationVote] at hstep
    split_ifs at hstep
    obtain ⟨state', hvote, rfl⟩ := Option.map_eq_some_iff.mp hstep
    obtain ⟨state, hstate, hvote⟩ := Option.bind_eq_some_iff.mp hvote
    obtain ⟨-, rfl⟩ := processVote_ok hvote
    refine h.put ?_ (reannouncedStatus_pointsTo _ _)
    rw [recordVote_invitation, recordVote_federationId]
    exact h.code id state hstate
  | groupInvitationCancel id =>
    rw [step_groupInvitationCancel] at hstep
    split_ifs at hstep
    cases hstep
    exact ⟨h.code, fun _ hs => (by cases hs), fun _ _ hs => (by cases hs)⟩
  | withdrawalRequest request description =>
    cases hstep
    exact h
  | withdrawalResponse request response =>
    cases hstep
    exact h
  | depositNotification fiatAmount txid description =>
    cases hstep
    exact h

theorem Wf.apply {E : Externals} {g : RoomGroup} (h : g.Wf E) (e : RoomEvent) : (g.apply E e).Wf E := by
  unfold RoomGroup.apply
  cases hstep : g.step E e.sender e.eventId e.event with
  | none => exact h
  | some g' => exact h.step hstep

/-! ## Rows stay -/

/-- The group adopts no reannouncement of `id`, now or later. -/
def Closed (g : RoomGroup) (id : RpcEventId) : Prop :=
  g.isFinalized = true ∨ (g.invitation id).isSome = true

/-- Events that succeed do nothing, or write an invitation, or clear the status, the last two
only while the group is not finalized. -/
theorem step_cases {E : Externals} {g g' : RoomGroup} {sender : RpcUserId} {eventId : RpcEventId}
    {event : MultispendEvent} (h : g.step E sender eventId event = some g') :
    g' = g ∨ g.isFinalized = false ∧
      ((∃ id state status, g' = g.put id state (some status)) ∨ g' = { g with status := none }) := by
  have hopen : ∀ {id}, g.status = some (.activeInvitation id) → g.isFinalized = false := by
    intro id hid
    unfold isFinalized
    rw [hid]
  cases event with
  | groupInvitation invitation proposerPubkey =>
    rw [step_groupInvitation] at h
    split_ifs at h with hfinal
    obtain ⟨federationId, -, rfl⟩ := Option.map_eq_some_iff.mp h
    exact .inr ⟨by simpa using hfinal, .inl ⟨_, _, _, rfl⟩⟩
  | groupReannounce id invitation proposer pubkeys rejections =>
    rw [step_groupReannounce] at h
    split_ifs at h with hstate
    · cases h
      exact .inl rfl
    · obtain ⟨federationId, -, rfl⟩ := Option.map_eq_some_iff.mp h
      have hnone : g.status = none := by
        cases hstatus : g.status with
        | none => rfl
        | some status => exact absurd (by simp [hstatus]) hstate
      refine .inr ⟨?_, .inl ⟨_, _, _, rfl⟩⟩
      unfold isFinalized
      rw [hnone]
  | groupInvitationVote id vote =>
    rw [step_groupInvitationVote] at h
    split_ifs at h with hid
    obtain ⟨state, -, rfl⟩ := Option.map_eq_some_iff.mp h
    exact .inr ⟨hopen hid, .inl ⟨_, _, _, rfl⟩⟩
  | groupInvitationCancel id =>
    rw [step_groupInvitationCancel] at h
    split_ifs at h with hid
    cases h
    exact .inr ⟨hopen hid, .inr rfl⟩
  | withdrawalRequest request description =>
    cases h
    exact .inl rfl
  | withdrawalResponse request response =>
    cases h
    exact .inl rfl
  | depositNotification fiatAmount txid description =>
    cases h
    exact .inl rfl

/-- A finalized group stays. -/
theorem apply_finalized {E : Externals} {g : RoomGroup} (h : g.isFinalized = true) (e : RoomEvent) :
    g.apply E e = g := by
  unfold RoomGroup.apply
  cases hstep : g.step E e.sender e.eventId e.event with
  | none => rfl
  | some g' =>
    rcases step_cases hstep with rfl | ⟨hopen, -⟩
    · rfl
    · rw [h] at hopen
      cases hopen

/-- A row stays. -/
theorem row_apply {E : Externals} {g : RoomGroup} {id : RpcEventId} (h : (g.invitation id).isSome = true)
    (e : RoomEvent) : ((g.apply E e).invitation id).isSome = true := by
  unfold RoomGroup.apply
  cases hstep : g.step E e.sender e.eventId e.event with
  | none => exact h
  | some g' =>
    rcases step_cases hstep with rfl | ⟨-, ⟨id', state, status, rfl⟩ | rfl⟩
    · exact h
    · show (Function.update g.invitation id' (some state) id).isSome = true
      rw [Function.update_apply]
      split
      · rfl
      · exact h
    · exact h

theorem Closed.apply {E : Externals} {g : RoomGroup} {id : RpcEventId} (h : g.Closed id) (e : RoomEvent) :
    (g.apply E e).Closed id := by
  rcases h with hfinal | hrow
  · rw [apply_finalized hfinal]
    exact .inl hfinal
  · exact .inr (row_apply hrow e)

theorem finalized_foldl {E : Externals} {g : RoomGroup} (h : g.isFinalized = true) (evs : List RoomEvent) :
    evs.foldl (RoomGroup.apply E) g = g := by
  induction evs with
  | nil => rfl
  | cons e evs ih => rw [List.foldl_cons, apply_finalized h, ih]

theorem row_foldl {E : Externals} {id : RpcEventId} (evs : List RoomEvent) {g : RoomGroup}
    (h : (g.invitation id).isSome = true) :
    ((evs.foldl (RoomGroup.apply E) g).invitation id).isSome = true := by
  induction evs generalizing g with
  | nil => exact h
  | cons e evs ih => exact ih (row_apply h e)

theorem apply_held {E : Externals} {g : RoomGroup} {e : RoomEvent} {id : RpcEventId}
    {invitation : GroupInvitation} {proposer : RpcUserId} {pubkeys : BTreeMap RpcUserId PublicKey}
    {rejections : BTreeSet RpcUserId} (h : ¬(g.status = none ∧ g.invitation id = none))
    (he : e.event = .groupReannounce id invitation proposer pubkeys rejections) : g.apply E e = g := by
  unfold apply
  rw [he, step_groupReannounce, if_pos, Option.getD_some]
  simp only [Bool.or_eq_true, Option.isSome_iff_ne_none]
  by_contra hnone
  rw [not_or, not_not, not_not] at hnone
  exact h hnone

/-- A closed group ignores the reannouncement. -/
theorem apply_closed {E : Externals} {g : RoomGroup} {e : RoomEvent} {id : RpcEventId}
    {invitation : GroupInvitation} {proposer : RpcUserId} {pubkeys : BTreeMap RpcUserId PublicKey}
    {rejections : BTreeSet RpcUserId} (h : g.Closed id)
    (he : e.event = .groupReannounce id invitation proposer pubkeys rejections) : g.apply E e = g := by
  refine apply_held (fun hnone => ?_) he
  rcases h with hfinal | hrow
  · unfold isFinalized at hfinal
    rw [hnone.1] at hfinal
    cases hfinal
  · rw [hnone.2] at hrow
    cases hrow

/-- A new row comes from an invitation or from a reannouncement. -/
theorem apply_row {E : Externals} {g : RoomGroup} {e : RoomEvent} {id : RpcEventId}
    (h : ((g.apply E e).invitation id).isSome = true) : (g.invitation id).isSome = true ∨
      (∃ invitation proposerPubkey, e.event = .groupInvitation invitation proposerPubkey ∧ e.eventId = id ∧
        (E.inviteCode invitation.federationInviteCode).isSome = true) ∨
      ∃ invitation proposer pubkeys rejections,
        e.event = .groupReannounce id invitation proposer pubkeys rejections := by
  by_cases hrow : (g.invitation id).isSome = true
  · exact .inl hrow
  have hput : ∀ {id' state status}, ((g.put id' state status).invitation id).isSome = true → id' = id := by
    intro id' state status h
    have h : (Function.update g.invitation id' (some state) id).isSome = true := h
    rw [Function.update_apply] at h
    split_ifs at h with hid
    · exact hid.symm
    · exact absurd h hrow
  right
  unfold RoomGroup.apply at h
  cases hevent : e.event with
  | groupInvitation invitation proposerPubkey =>
    rw [hevent, step_groupInvitation] at h
    split_ifs at h
    · exact absurd h hrow
    · cases hcode : E.inviteCode invitation.federationInviteCode with
      | none =>
        rw [hcode] at h
        exact absurd h hrow
      | some federationId =>
        rw [hcode] at h
        exact .inl ⟨_, _, rfl, hput h, by rw [hcode]; rfl⟩
  | groupReannounce id' invitation proposer pubkeys rejections =>
    rw [hevent, step_groupReannounce] at h
    split_ifs at h
    · exact absurd h hrow
    · cases hcode : E.inviteCode invitation.federationInviteCode with
      | none =>
        rw [hcode] at h
        exact absurd h hrow
      | some federationId =>
        rw [hcode] at h
        have hid := hput h
        subst hid
        exact .inr ⟨_, _, _, _, rfl⟩
  | groupInvitationVote id' vote =>
    rw [hevent, step_groupInvitationVote] at h
    split_ifs at h
    · cases hvote : (g.invitation id').bind fun state => state.processVote e.sender vote with
      | none =>
        rw [hvote] at h
        exact absurd h hrow
      | some state =>
        rw [hvote] at h
        obtain ⟨state0, hstate0, -⟩ := Option.bind_eq_some_iff.mp hvote
        have hid := hput h
        subst hid
        exact absurd (by rw [hstate0]; rfl) hrow
    · exact absurd h hrow
  | groupInvitationCancel id' =>
    rw [hevent, step_groupInvitationCancel] at h
    split_ifs at h <;> exact absurd h hrow
  | withdrawalRequest request description =>
    rw [hevent] at h
    exact absurd h hrow
  | withdrawalResponse request response =>
    rw [hevent] at h
    exact absurd h hrow
  | depositNotification fiatAmount txid description =>
    rw [hevent] at h
    exact absurd h hrow

/-- An invitation that parses closes its row. -/
theorem closed_invited {E : Externals} {g : RoomGroup} {e : RoomEvent} {invitation : GroupInvitation}
    {proposerPubkey : PublicKey} (he : e.event = .groupInvitation invitation proposerPubkey)
    (hcode : (E.inviteCode invitation.federationInviteCode).isSome = true) :
    (g.apply E e).Closed e.eventId := by
  unfold RoomGroup.apply
  rw [he, step_groupInvitation]
  by_cases hfinal : g.isFinalized
  · rw [if_pos hfinal]
    exact .inl hfinal
  · obtain ⟨federationId, hcode⟩ := Option.isSome_iff_exists.mp hcode
    rw [if_neg hfinal, hcode]
    right
    show (Function.update g.invitation e.eventId (some _) e.eventId).isSome = true
    rw [Function.update_self]
    rfl

end RoomGroup

/-! ## Histories -/

/-- The group after the events of a room, from nothing. -/
def groupOf (E : Externals) (roomId : RpcRoomId) (evs : List RoomEvent) : RoomGroup :=
  (evs.filter fun e => e.roomId = roomId).foldl (RoomGroup.apply E) .empty

section

variable {E : Externals} {roomId : RpcRoomId}

theorem roomGroup_of_scan {member : RpcUserId} {evs : List RoomEvent} {db : MultispendDb}
    (h : scan E member .empty evs = .ok db) : roomGroup db roomId = groupOf E roomId evs := by
  rw [roomGroup_scan roomId h, roomGroup_empty]
  rfl

theorem groupOf_snoc (evs : List RoomEvent) (e : RoomEvent) : groupOf E roomId (evs ++ [e]) =
    if e.roomId = roomId then (groupOf E roomId evs).apply E e else groupOf E roomId evs := by
  unfold groupOf
  rw [List.filter_append, List.foldl_append]
  by_cases hroom : e.roomId = roomId
  · rw [if_pos hroom, List.filter_cons_of_pos (by simpa using hroom)]
    rfl
  · rw [if_neg hroom, List.filter_cons_of_neg (by simpa using hroom)]
    rfl

theorem wf_groupOf (evs : List RoomEvent) : (groupOf E roomId evs).Wf E := by
  induction evs using List.reverseRecOn with
  | nil => exact RoomGroup.wf_empty E
  | append_singleton evs e ih =>
    rw [groupOf_snoc]
    split
    · exact ih.apply e
    · exact ih

end

end Multispend
