import Fedi.Multispend.GroupHistory

/-!
# Multispend: a second pass over the same events

The group after a history is taken through the history again.  The second pass may do
without some events (an adopted reannouncement is ignored, since its row exists), but
an event that is valid in the first pass and invalid in the second would be marked.
`RescanSafe` says when neither this happens nor the group ends differently:

    RescanSafe E h → the second pass refuses no event that the first one took,
      and ends in the group it started from              (secondPass_spec)
-/

namespace Multispend

open BTreeMaps StabilityPool Runs

/-! ## Events and windows -/

namespace RoomEvent

/-- An invitation with a valid code, which every group takes that is not finalized. -/
def Invites (E : Externals) (e : RoomEvent) : Prop :=
  ∃ invitation proposerPubkey, e.event = .groupInvitation invitation proposerPubkey ∧
    (E.inviteCode invitation.federationInviteCode).isSome = true

/-- A vote on an invitation or its cancellation. -/
def Names (e : RoomEvent) (id : RpcEventId) : Prop :=
  (∃ vote, e.event = .groupInvitationVote id vote) ∨ e.event = .groupInvitationCancel id

/-- An event that the invitation `id` in the state `state` refuses: not its cancellation, nor a
vote of a user who can vote. -/
def Leaves (e : RoomEvent) (id : RpcEventId) (state : GroupInvitationWithKeys) : Prop :=
  e.Names id → ∃ vote, e.event = .groupInvitationVote id vote ∧ state.canVote e.sender = false

/-- The reannouncement of `id` that a group without state adopts as `state`. -/
def Announces (E : Externals) (e : RoomEvent) (id : RpcEventId) (state : GroupInvitationWithKeys) : Prop :=
  e.event = .groupReannounce id state.invitation state.proposer state.pubkeys state.rejections ∧
    E.inviteCode state.invitation.federationInviteCode = some state.federationId

end RoomEvent

/-- What follows the adoption of a reannouncement in a history that ends with the group `g`: an
invitation, and before it no event that changes what was adopted and, unless `covered`, no
reannouncement of an invitation that `g` does not know. -/
structure Window (E : Externals) (g : RoomGroup) (id : RpcEventId) (state : GroupInvitationWithKeys)
    (covered : Prop) (after : List RoomEvent) : Prop where
  invited : ∃ e ∈ after, e.Invites E
  left : ∀ mid e rest, after = mid ++ e :: rest → (∀ x ∈ mid, ¬x.Invites E) → e.Leaves id state
  known : ∀ mid e rest, after = mid ++ e :: rest → (∀ x ∈ mid, ¬x.Invites E) →
    ∀ id' invitation proposer pubkeys rejections,
      e.event = .groupReannounce id' invitation proposer pubkeys rejections →
      covered ∨ (g.invitation id').isSome = true

theorem Window.tail {E : Externals} {g : RoomGroup} {id : RpcEventId} {state : GroupInvitationWithKeys}
    {covered : Prop} {e : RoomEvent} {after : List RoomEvent} (h : Window E g id state covered (e :: after))
    (he : ¬e.Invites E) : Window E g id state covered after := by
  have hmid : ∀ mid : List RoomEvent, (∀ x ∈ mid, ¬x.Invites E) → ∀ x ∈ e :: mid, ¬x.Invites E := by
    intro mid hmid
    exact List.forall_mem_cons.mpr ⟨he, hmid⟩
  constructor
  · obtain ⟨e', hmem, hinvites⟩ := h.invited
    rcases List.mem_cons.mp hmem with rfl | hmem
    · exact absurd hinvites he
    · exact ⟨e', hmem, hinvites⟩
  · rintro mid e' rest rfl hquiet
    exact h.left (e :: mid) e' rest rfl (hmid mid hquiet)
  · rintro mid e' rest rfl hquiet
    exact h.known (e :: mid) e' rest rfl (hmid mid hquiet)

/-- The group after some events of the room. -/
def groupAfter (E : Externals) (g : RoomGroup) (evs : List RoomEvent) : RoomGroup :=
  evs.foldl (RoomGroup.apply E) g

/-- The group the events of a room lead to. -/
abbrev firstPass (E : Externals) (evs : List RoomEvent) : RoomGroup := groupAfter E .empty evs

/-- A reannouncement that the first pass adopts. -/
def Adopts (E : Externals) (before : List RoomEvent) (e : RoomEvent) (id : RpcEventId)
    (state : GroupInvitationWithKeys) : Prop :=
  e.Announces E id state ∧ (firstPass E before).status = none ∧ (firstPass E before).invitation id = none

/-! ## When the second pass restarts from the first invitation -/

/-- The history never finalizes its group, nothing before the first invitation names the
invitation that is active in the end, and every adopted reannouncement is followed by a window. -/
structure Restarts (E : Externals) (history : List RoomEvent) : Prop where
  unfinished : (firstPass E history).isFinalized = false
  fresh : ∀ before e after, history = before ++ e :: after → (∀ x ∈ before, ¬x.Invites E) →
    ∀ id, (firstPass E history).status = some (.activeInvitation id) → ¬e.Names id
  adopted : ∀ before e after, history = before ++ e :: after → ∀ id state, Adopts E before e id state →
    Window E (firstPass E history) id state
      ((∀ x ∈ before, ¬x.Invites E) ∧ (firstPass E history).status ≠ none) after

section

variable {E : Externals} {g f s : RoomGroup} {before after : List RoomEvent} {e : RoomEvent}

theorem isFinalized_congr (h : s.status = f.status) : s.isFinalized = f.isFinalized := by
  unfold RoomGroup.isFinalized
  rw [h]

theorem groupAfter_snoc : groupAfter E g (before ++ [e]) = (groupAfter E g before).apply E e := by
  unfold groupAfter
  rw [List.foldl_append]
  rfl

theorem groupAfter_append : groupAfter E g (before ++ after) = groupAfter E (groupAfter E g before) after :=
  List.foldl_append

/-- How far the second pass `s` is from the first pass `f`: before the first invitation it shows the
final status, during a window it shows nothing that `f` adopted, and otherwise the same. -/
inductive Phase (E : Externals) (g : RoomGroup) (before after : List RoomEvent) (f s : RoomGroup) : Prop where
  | fresh (hf : f = .empty) (hs : s.status = g.status) (hearly : ∀ x ∈ before, ¬x.Invites E)
  | ahead (id : RpcEventId) (state : GroupInvitationWithKeys) (hf : f.status = some (.activeInvitation id))
    (hstate : f.invitation id = some state)
    (hs : s.status = none ∨ s.status = g.status ∧ ∀ x ∈ before, ¬x.Invites E)
    (hwindow : Window E g id state (s.status ≠ none) after)
  | synced (hinvited : ∃ x ∈ before, x.Invites E) (hs : s.status = f.status)
    (hactive : ∀ id, f.status = some (.activeInvitation id) → s.invitation id = f.invitation id)

/-- The two passes: every row of the second is the final one or the one of the first pass. -/
structure Passes (E : Externals) (g : RoomGroup) (before after : List RoomEvent) (f s : RoomGroup) : Prop where
  rows : ∀ id, s.invitation id = g.invitation id ∨
    s.invitation id = f.invitation id ∧ (f.invitation id).isSome = true
  phase : Phase E g before after f s

/-- What one event does to both passes. -/
def BothTake (E : Externals) (g : RoomGroup) (before after : List RoomEvent) (f s : RoomGroup)
    (e : RoomEvent) : Prop :=
  (f.step E e.sender e.eventId e.event ≠ none → s.step E e.sender e.eventId e.event ≠ none) ∧
    Passes E g (before ++ [e]) after (f.apply E e) (s.apply E e)

theorem forall_mem_snoc {P : RoomEvent → Prop} (h : ∀ x ∈ before, P x) (he : P e) :
    ∀ x ∈ before ++ [e], P x := by
  intro x hx
  rcases List.mem_append.mp hx with hx | hx
  · exact h x hx
  · rw [List.mem_singleton.mp hx]
    exact he

/-- An event that changes neither pass and is no invitation. -/
theorem Passes.skip (h : Passes E g before (e :: after) f s) (he : ¬e.Invites E) (hf : f.apply E e = f)
    (hs : s.apply E e = s) : Passes E g (before ++ [e]) after (f.apply E e) (s.apply E e) := by
  rw [hf, hs]
  refine ⟨h.rows, ?_⟩
  cases h.phase with
  | fresh hf hs hearly => exact .fresh hf hs (forall_mem_snoc hearly he)
  | ahead id state hf hstate hs hwindow =>
    refine .ahead id state hf hstate ?_ (hwindow.tail he)
    rcases hs with hs | ⟨hs, hearly⟩
    · exact .inl hs
    · exact .inr ⟨hs, forall_mem_snoc hearly he⟩
  | synced hinvited hs hactive =>
    obtain ⟨x, hx, hinvites⟩ := hinvited
    exact .synced ⟨x, List.mem_append_left _ hx, hinvites⟩ hs hactive

/-- An event that both passes refuse. -/
theorem Passes.refuse (h : Passes E g before (e :: after) f s) (he : ¬e.Invites E)
    (hf : f.step E e.sender e.eventId e.event = none) (hs : s.step E e.sender e.eventId e.event = none) :
    BothTake E g before after f s e := by
  refine ⟨fun hne => absurd hf hne, h.skip he ?_ ?_⟩
  · unfold RoomGroup.apply
    rw [hf]
    rfl
  · unfold RoomGroup.apply
    rw [hs]
    rfl

/-- An event that does nothing in both passes. -/
theorem Passes.idle (h : Passes E g before (e :: after) f s) (he : ¬e.Invites E)
    (hf : f.step E e.sender e.eventId e.event = some f) (hs : s.step E e.sender e.eventId e.event = some s) :
    BothTake E g before after f s e := by
  refine ⟨fun _ => by rw [hs]; exact Option.some_ne_none s, h.skip he ?_ ?_⟩
  · unfold RoomGroup.apply
    rw [hf]
    rfl
  · unfold RoomGroup.apply
    rw [hs]
    rfl

/-- An event that writes the same row and status in both passes, after the first invitation. -/
theorem Passes.write (h : Passes E g before (e :: after) f s) {id : RpcEventId} {state : GroupInvitationWithKeys}
    {status : MultispendGroupStatus} (hinvited : ∃ x ∈ before ++ [e], x.Invites E)
    (hf : f.step E e.sender e.eventId e.event = some (f.put id state (some status)))
    (hs : s.step E e.sender e.eventId e.event = some (s.put id state (some status)))
    (hstatus : PointsTo id state status) : BothTake E g before after f s e := by
  refine ⟨fun _ => by rw [hs]; exact Option.some_ne_none _, ?_⟩
  unfold RoomGroup.apply
  rw [hf, hs, Option.getD_some, Option.getD_some]
  constructor
  · intro id'
    show Function.update s.invitation id (some state) id' = _ ∨
      Function.update s.invitation id (some state) id' = Function.update f.invitation id (some state) id' ∧
        (Function.update f.invitation id (some state) id').isSome = true
    rw [Function.update_apply, Function.update_apply]
    split
    · exact .inr ⟨rfl, rfl⟩
    · exact h.rows id'
  · refine .synced hinvited rfl fun id' hactive => ?_
    have hactive : some status = some (.activeInvitation id') := hactive
    cases hactive
    have hid : id' = id := hstatus
    subst hid
    show Function.update s.invitation _ (some state) _ = Function.update f.invitation _ (some state) _
    rw [Function.update_self, Function.update_self]

theorem Phase.open (h : Phase E g before after f s) (hg : g.isFinalized = false) (hf : f.isFinalized = false) :
    s.isFinalized = false := by
  cases h with
  | fresh _ hs _ => rw [isFinalized_congr hs, hg]
  | ahead _ _ _ _ hs _ =>
    rcases hs with hs | ⟨hs, -⟩
    · unfold RoomGroup.isFinalized
      rw [hs]
    · rw [isFinalized_congr hs, hg]
  | synced _ hs _ => rw [isFinalized_congr hs, hf]

/-! ### Invitations -/

theorem Passes.invitation (h : Passes E g before (e :: after) f s) (hf : f.isFinalized = false)
    (hs : s.isFinalized = false) {invitation : GroupInvitation} {proposerPubkey : PublicKey}
    (he : e.event = .groupInvitation invitation proposerPubkey) : BothTake E g before after f s e := by
  cases hcode : E.inviteCode invitation.federationInviteCode with
  | none =>
    have hnot : ¬e.Invites E := by
      rintro ⟨invitation', proposerPubkey', he', hsome⟩
      rw [he] at he'
      cases he'
      rw [hcode] at hsome
      cases hsome
    refine h.refuse hnot ?_ ?_
    · rw [he, RoomGroup.step_groupInvitation, hf, hcode]
      rfl
    · rw [he, RoomGroup.step_groupInvitation, hs, hcode]
      rfl
  | some federationId =>
    have hinvites : e.Invites E := ⟨invitation, proposerPubkey, he, by rw [hcode]; rfl⟩
    have hf' : f.step E e.sender e.eventId e.event =
        some (f.put e.eventId (.new invitation e.sender proposerPubkey federationId)
          (some (.activeInvitation e.eventId))) := by
      rw [he, RoomGroup.step_groupInvitation, hf, hcode]
      rfl
    have hs' : s.step E e.sender e.eventId e.event =
        some (s.put e.eventId (.new invitation e.sender proposerPubkey federationId)
          (some (.activeInvitation e.eventId))) := by
      rw [he, RoomGroup.step_groupInvitation, hs, hcode]
      rfl
    exact h.write ⟨e, by simp, hinvites⟩ hf' hs' rfl

/-! ### Votes and cancellations -/

/-- A vote on, or a cancellation of an invitation that is not active. -/
theorem step_names_inactive {id : RpcEventId} (he : e.Names id) (hs : s.status ≠ some (.activeInvitation id)) :
    s.step E e.sender e.eventId e.event = none := by
  rcases he with ⟨vote, he⟩ | he
  · rw [he, RoomGroup.step_groupInvitationVote, if_neg hs]
  · rw [he, RoomGroup.step_groupInvitationCancel, if_neg hs]

theorem not_invites_of_names {id : RpcEventId} (he : e.Names id) : ¬e.Invites E := by
  rintro ⟨invitation, proposerPubkey, he', -⟩
  rcases he with ⟨vote, he⟩ | he <;> rw [he] at he' <;> cases he'

theorem step_reannounce_held {id : RpcEventId} {invitation : GroupInvitation} {proposer : RpcUserId}
    {pubkeys : BTreeMap RpcUserId PublicKey} {rejections : BTreeSet RpcUserId}
    (he : e.event = .groupReannounce id invitation proposer pubkeys rejections)
    (hs : s.status ≠ none ∨ (s.invitation id).isSome = true) :
    s.step E e.sender e.eventId e.event = some s := by
  rw [he, RoomGroup.step_groupReannounce, if_pos]
  rw [Bool.or_eq_true, Option.isSome_iff_ne_none]
  exact hs

/-- Once both passes show the same they treat the active invitation the same way. -/
theorem Passes.names_synced (h : Passes E g before (e :: after) f s) (hinvited : ∃ x ∈ before, x.Invites E)
    (hs : s.status = f.status)
    (hactive : ∀ id, f.status = some (.activeInvitation id) → s.invitation id = f.invitation id)
    {id : RpcEventId} (he : e.Names id) : BothTake E g before after f s e := by
  by_cases hid : f.status = some (.activeInvitation id)
  · have hinvited' : ∃ x ∈ before ++ [e], x.Invites E := by
      obtain ⟨x, hx, hinvites⟩ := hinvited
      exact ⟨x, List.mem_append_left _ hx, hinvites⟩
    rcases he with ⟨vote, he⟩ | he
    · cases hvote : (f.invitation id).bind fun state => state.processVote e.sender vote with
      | none =>
        refine h.refuse (not_invites_of_names (.inl ⟨vote, he⟩)) ?_ ?_
        · rw [he, RoomGroup.step_groupInvitationVote, if_pos hid, hvote]
          rfl
        · rw [he, RoomGroup.step_groupInvitationVote, if_pos (hs.trans hid), hactive id hid, hvote]
          rfl
      | some state =>
        refine h.write hinvited' ?_ ?_
          (reannouncedStatus_pointsTo id state)
        · rw [he, RoomGroup.step_groupInvitationVote, if_pos hid, hvote]
          rfl
        · rw [he, RoomGroup.step_groupInvitationVote, if_pos (hs.trans hid), hactive id hid, hvote]
          rfl
    · have hf : f.step E e.sender e.eventId e.event = some { f with status := none } := by
        rw [he, RoomGroup.step_groupInvitationCancel, if_pos hid]
      have hs : s.step E e.sender e.eventId e.event = some { s with status := none } := by
        rw [he, RoomGroup.step_groupInvitationCancel, if_pos (hs.trans hid)]
      refine ⟨fun _ => by rw [hs]; exact Option.some_ne_none _, ?_⟩
      unfold RoomGroup.apply
      rw [hf, hs, Option.getD_some, Option.getD_some]
      exact ⟨h.rows, .synced hinvited' rfl fun id' h => (by cases h)⟩
  · exact h.refuse (not_invites_of_names he) (step_names_inactive he hid)
      (step_names_inactive he (by rw [hs]; exact hid))

/-- Before the first invitation and in a window, both passes refuse votes and cancellations. -/
theorem Passes.names (h : Passes E g before (e :: after) f s) {id : RpcEventId} (he : e.Names id)
    (hfresh : (∀ x ∈ before, ¬x.Invites E) → g.status ≠ some (.activeInvitation id)) :
    BothTake E g before after f s e := by
  have hnot : ¬e.Invites E := not_invites_of_names he
  cases h.phase with
  | fresh hf hs hearly =>
    refine h.refuse hnot (step_names_inactive he ?_) (step_names_inactive he ?_)
    · rw [hf]
      exact fun h => by cases h
    · rw [hs]
      exact hfresh hearly
  | ahead id' state hf hstate hs hwindow =>
    refine h.refuse hnot ?_ (step_names_inactive he ?_)
    · by_cases hid : id' = id
      · subst hid
        obtain ⟨vote, he', hcan⟩ := hwindow.left [] e after rfl (by simp) he
        rw [he', RoomGroup.step_groupInvitationVote, if_pos hf, hstate, Option.bind_some]
        unfold GroupInvitationWithKeys.processVote
        rw [hcan]
        rfl
      · refine step_names_inactive he ?_
        rw [hf]
        exact fun h => hid (by cases h; rfl)
    · rcases hs with hs | ⟨hs, hearly⟩
      · rw [hs]
        exact fun h => by cases h
      · rw [hs]
        exact hfresh hearly
  | synced hinvited hs hactive => exact h.names_synced hinvited hs hactive he

/-! ### Reannouncements -/

theorem not_invites_of_reannounce {id : RpcEventId} {invitation : GroupInvitation} {proposer : RpcUserId}
    {pubkeys : BTreeMap RpcUserId PublicKey} {rejections : BTreeSet RpcUserId}
    (he : e.event = .groupReannounce id invitation proposer pubkeys rejections) : ¬e.Invites E := by
  rintro ⟨invitation', proposerPubkey', he', -⟩
  rw [he] at he'
  cases he'

/-- The second pass holds every row of the first. -/
theorem Passes.held (h : Passes E g before (e :: after) f s) {id : RpcEventId}
    (hrow : (g.invitation id).isSome = true) : (s.invitation id).isSome = true := by
  rcases h.rows id with hs | ⟨hs, hsome⟩
  · rw [hs]
    exact hrow
  · rw [hs]
    exact hsome

/-- The first pass adopts a reannouncement whose row the second pass holds. -/
theorem Passes.adopt (h : Passes E g before (e :: after) f s) {id : RpcEventId} {state : GroupInvitationWithKeys}
    (he : e.Announces E id state) (hstatus : f.status = none) (hrow : f.invitation id = none)
    (hknown : (g.invitation id).isSome = true) (hopen : (f.apply E e).isFinalized = false)
    (hs : s.status = none ∨ s.status = g.status ∧ ∀ x ∈ before, ¬x.Invites E)
    (hwindow : Window E g id state (s.status ≠ none) after) : BothTake E g before after f s e := by
  have hnot : ¬e.Invites E := not_invites_of_reannounce he.1
  have hf : f.step E e.sender e.eventId e.event =
      some (f.put id state (some (reannouncedStatus id state))) := by
    rw [he.1, RoomGroup.step_groupReannounce, hstatus, hrow, he.2]
    rfl
  have hs' : s.step E e.sender e.eventId e.event = some s :=
    step_reannounce_held he.1 (.inr (h.held hknown))
  have hactive : reannouncedStatus id state = .activeInvitation id := by
    unfold RoomGroup.apply at hopen
    rw [hf] at hopen
    unfold reannouncedStatus at hopen ⊢
    cases hgroup : state.toFinalized with
    | none => rfl
    | some group =>
      rw [hgroup] at hopen
      cases hopen
  refine ⟨fun _ => by rw [hs']; exact Option.some_ne_none _, ?_⟩
  unfold RoomGroup.apply
  rw [hf, hs', hactive, Option.getD_some, Option.getD_some]
  constructor
  · intro id'
    by_cases hid : id' = id
    · subst hid
      rcases h.rows id' with hsame | ⟨-, hsome⟩
      · exact .inl hsame
      · rw [hrow] at hsome
        cases hsome
    · rcases h.rows id' with hsame | ⟨hsame, hsome⟩
      · exact .inl hsame
      · right
        show s.invitation id' = Function.update f.invitation id (some state) id' ∧
          (Function.update f.invitation id (some state) id').isSome = true
        rw [Function.update_of_ne hid]
        exact ⟨hsame, hsome⟩
  · refine .ahead id state rfl (Function.update_self _ _ _) ?_ hwindow
    rcases hs with hs | ⟨hs, hearly⟩
    · exact .inl hs
    · exact .inr ⟨hs, forall_mem_snoc hearly hnot⟩

theorem Passes.reannounce (h : Passes E g before (e :: after) f s) {id : RpcEventId}
    {invitation : GroupInvitation} {proposer : RpcUserId} {pubkeys : BTreeMap RpcUserId PublicKey}
    {rejections : BTreeSet RpcUserId} (he : e.event = .groupReannounce id invitation proposer pubkeys rejections)
    (hrows : ∀ id, (f.invitation id).isSome = true → (g.invitation id).isSome = true)
    (hrows' : ∀ id, ((f.apply E e).invitation id).isSome = true → (g.invitation id).isSome = true)
    (hopen : (f.apply E e).isFinalized = false)
    (hadopted : ∀ id state, e.Announces E id state → f.status = none → f.invitation id = none →
      Window E g id state ((∀ x ∈ before, ¬x.Invites E) ∧ g.status ≠ none) after) :
    BothTake E g before after f s e := by
  have hnot : ¬e.Invites E := not_invites_of_reannounce he
  by_cases hheld : f.status ≠ none ∨ (f.invitation id).isSome = true
  · -- the first pass ignores it, and so does the second
    refine h.idle hnot (step_reannounce_held he hheld) (step_reannounce_held he ?_)
    rcases hheld with hstatus | hrow
    · cases h.phase with
      | fresh hf hs hearly =>
        rw [hf] at hstatus
        exact absurd rfl hstatus
      | ahead id' state hf hstate hs hwindow =>
        rcases hwindow.known [] e after rfl (by simp) _ _ _ _ _ he with hstatus | hrow
        · exact .inl hstatus
        · exact .inr (h.held hrow)
      | synced hinvited hs hactive =>
        rw [hs]
        exact .inl hstatus
    · exact .inr (h.held (hrows id hrow))
  · rw [not_or, not_not] at hheld
    obtain ⟨hstatus, hrow⟩ := hheld
    have hrow : f.invitation id = none := by simpa using hrow
    cases hcode : E.inviteCode invitation.federationInviteCode with
    | none =>
      have hf : f.step E e.sender e.eventId e.event = none := by
        rw [he, RoomGroup.step_groupReannounce, hstatus, hrow, hcode]
        rfl
      have hfsame : f.apply E e = f := by
        unfold RoomGroup.apply
        rw [hf]
        rfl
      refine ⟨fun hne => absurd hf hne, h.skip hnot hfsame ?_⟩
      unfold RoomGroup.apply
      rw [he, RoomGroup.step_groupReannounce, hcode]
      split <;> rfl
    | some federationId =>
      have hannounces : e.Announces E id ⟨invitation, proposer, pubkeys, rejections, federationId⟩ := ⟨he, hcode⟩
      have hwindow := hadopted id _ hannounces hstatus hrow
      have hknown : (g.invitation id).isSome = true := by
        refine hrows' id ?_
        unfold RoomGroup.apply
        rw [he, RoomGroup.step_groupReannounce, hstatus, hrow, hcode]
        show (Function.update f.invitation id (some _) id).isSome = true
        rw [Function.update_self]
        rfl
      have hcovered : ((∀ x ∈ before, ¬x.Invites E) ∧ g.status ≠ none → s.status ≠ none) →
          Window E g id ⟨invitation, proposer, pubkeys, rejections, federationId⟩ (s.status ≠ none) after := by
        intro hcovered
        refine ⟨hwindow.invited, hwindow.left, fun mid x rest hsplit hmid id' i p k r hx => ?_⟩
        rcases hwindow.known mid x rest hsplit hmid id' i p k r hx with hearly | hrow
        · exact .inl (hcovered hearly)
        · exact .inr hrow
      cases h.phase with
      | fresh hf hs hearly =>
        refine h.adopt hannounces hstatus hrow hknown hopen (.inr ⟨hs, hearly⟩) (hcovered ?_)
        rintro ⟨-, hg⟩
        rw [hs]
        exact hg
      | ahead id' state hf hstate hs hwindow =>
        rw [hf] at hstatus
        cases hstatus
      | synced hinvited hs hactive =>
        refine h.adopt hannounces hstatus hrow hknown hopen (.inl (hs.trans hstatus)) (hcovered ?_)
        rintro ⟨hearly, -⟩
        obtain ⟨x, hx, hinvites⟩ := hinvited
        exact absurd hinvites (hearly x hx)

end

/-! ### The whole history -/

section

variable {E : Externals} {history : List RoomEvent}

theorem wf_firstPass (history : List RoomEvent) : (firstPass E history).Wf E := by
  induction history using List.reverseRecOn with
  | nil => exact RoomGroup.wf_empty E
  | append_singleton history e ih =>
    rw [firstPass, groupAfter_snoc]
    exact ih.apply e

theorem firstPass_open (h : (firstPass E history).isFinalized = false) {before after : List RoomEvent}
    (hsplit : history = before ++ after) : (firstPass E before).isFinalized = false := by
  cases hfinal : (firstPass E before).isFinalized with
  | false => rfl
  | true =>
    have hstays : groupAfter E (firstPass E before) after = firstPass E before :=
      RoomGroup.finalized_foldl hfinal after
    rw [hsplit, firstPass, groupAfter_append, hstays, hfinal] at h
    cases h

theorem firstPass_rows {before after : List RoomEvent} (hsplit : history = before ++ after) {id : RpcEventId}
    (h : ((firstPass E before).invitation id).isSome = true) :
    ((firstPass E history).invitation id).isSome = true := by
  rw [hsplit, firstPass, groupAfter_append]
  exact RoomGroup.row_foldl after h

/-- One event of a history that restarts. -/
theorem Restarts.step (hsafe : Restarts E history) {before after : List RoomEvent} {e : RoomEvent}
    (hsplit : history = before ++ e :: after) {s : RoomGroup}
    (h : Passes E (firstPass E history) before (e :: after) (firstPass E before) s) :
    BothTake E (firstPass E history) before after (firstPass E before) s e := by
  have hsplit' : history = (before ++ [e]) ++ after := by rw [hsplit, List.append_assoc]; rfl
  have hf := firstPass_open hsafe.unfinished hsplit
  have hf' := firstPass_open hsafe.unfinished hsplit'
  have hsnoc : firstPass E (before ++ [e]) = (firstPass E before).apply E e := groupAfter_snoc
  cases he : e.event with
  | groupInvitation invitation proposerPubkey =>
    exact h.invitation hf (h.phase.open hsafe.unfinished hf) he
  | groupReannounce id invitation proposer pubkeys rejections =>
    refine h.reannounce he (fun id hrow => firstPass_rows hsplit hrow) ?_ ?_ ?_
    · intro id hrow
      rw [← hsnoc] at hrow
      exact firstPass_rows hsplit' hrow
    · rw [← hsnoc]
      exact hf'
    · exact fun id state hannounces hstatus hrow =>
        hsafe.adopted before e after hsplit id state ⟨hannounces, hstatus, hrow⟩
  | groupInvitationVote id vote =>
    have hnames : e.Names id := .inl ⟨vote, he⟩
    exact h.names hnames fun hearly hactive => hsafe.fresh before e after hsplit hearly id hactive hnames
  | groupInvitationCancel id =>
    have hnames : e.Names id := .inr he
    exact h.names hnames fun hearly hactive => hsafe.fresh before e after hsplit hearly id hactive hnames
  | withdrawalRequest request description =>
    refine h.idle ?_ (by rw [he]; rfl) (by rw [he]; rfl)
    rintro ⟨invitation, proposerPubkey, he', -⟩
    rw [he] at he'
    cases he'
  | withdrawalResponse request response =>
    refine h.idle ?_ (by rw [he]; rfl) (by rw [he]; rfl)
    rintro ⟨invitation, proposerPubkey, he', -⟩
    rw [he] at he'
    cases he'
  | depositNotification fiatAmount txid description =>
    refine h.idle ?_ (by rw [he]; rfl) (by rw [he]; rfl)
    rintro ⟨invitation, proposerPubkey, he', -⟩
    rw [he] at he'
    cases he'

theorem Restarts.passes (hsafe : Restarts E history) {before after : List RoomEvent}
    (hsplit : history = before ++ after) : Passes E (firstPass E history) before after (firstPass E before)
      (groupAfter E (firstPass E history) before) := by
  induction before using List.reverseRecOn generalizing after with
  | nil => exact ⟨fun id => .inl rfl, .fresh rfl rfl (by simp)⟩
  | append_singleton before e ih =>
    have hsplit : history = before ++ e :: after := by rw [hsplit, List.append_assoc]; rfl
    rw [groupAfter_snoc]
    unfold firstPass
    rw [groupAfter_snoc]
    exact (hsafe.step hsplit (ih hsplit)).2

/-- The second pass ends in the group it started from. -/
theorem Restarts.groupAfter_eq (hsafe : Restarts E history) :
    groupAfter E (firstPass E history) history = firstPass E history := by
  have h := hsafe.passes (List.append_nil history).symm
  have hrows : (groupAfter E (firstPass E history) history).invitation = (firstPass E history).invitation := by
    funext id
    rcases h.rows id with hs | ⟨hs, -⟩ <;> exact hs
  have hstatus : (groupAfter E (firstPass E history) history).status = (firstPass E history).status := by
    cases h.phase with
    | fresh hf hs hearly => exact hs
    | ahead id state hf hstate hs hwindow =>
      obtain ⟨e, hmem, -⟩ := hwindow.invited
      cases hmem
    | synced hinvited hs hactive => exact hs
  calc groupAfter E (firstPass E history) history
      = ⟨(groupAfter E (firstPass E history) history).status,
          (groupAfter E (firstPass E history) history).invitation⟩ := rfl
    _ = ⟨(firstPass E history).status, (firstPass E history).invitation⟩ := by rw [hrows, hstatus]
    _ = firstPass E history := rfl

end

/-! ## When a reannouncement made the group -/

/-- The group came from a reannouncement alone: no invitation, vote or cancellation was accepted,
and none of the history would change the group that is active in the end. -/
structure Stands (E : Externals) (history : List RoomEvent) : Prop where
  started : (firstPass E history).status ≠ none
  refused : ∀ before e after, history = before ++ e :: after →
    (∃ invitation proposerPubkey, e.event = .groupInvitation invitation proposerPubkey) ∨ (∃ id, e.Names id) →
    (firstPass E before).step E e.sender e.eventId e.event = none
  left : ∀ id state, (firstPass E history).status = some (.activeInvitation id) →
    (firstPass E history).invitation id = some state → ∀ e ∈ history, e.Leaves id state

section

variable {E : Externals} {history : List RoomEvent} {before after : List RoomEvent} {e : RoomEvent}

theorem Stands.refuses_names (h : Stands E history) (hmem : e ∈ history) {id : RpcEventId} (he : e.Names id) :
    (firstPass E history).step E e.sender e.eventId e.event = none := by
  by_cases hid : (firstPass E history).status = some (.activeInvitation id)
  · obtain ⟨state, hrow⟩ := (wf_firstPass history).active id hid
    obtain ⟨vote, he, hcan⟩ := h.left id state hid hrow e hmem he
    rw [he, RoomGroup.step_groupInvitationVote, if_pos hid, hrow, Option.bind_some]
    unfold GroupInvitationWithKeys.processVote
    rw [hcan]
    rfl
  · exact step_names_inactive he hid

/-- The final group refuses what the first pass refused, and ignores the rest. -/
theorem Stands.step (h : Stands E history) (hsplit : history = before ++ e :: after) :
    ((firstPass E before).step E e.sender e.eventId e.event ≠ none →
      (firstPass E history).step E e.sender e.eventId e.event ≠ none) ∧
      (firstPass E history).apply E e = firstPass E history := by
  have hmem : e ∈ history := by
    rw [hsplit]
    exact List.mem_append_right _ List.mem_cons_self
  have hrefused : (firstPass E before).step E e.sender e.eventId e.event = none →
      (firstPass E history).step E e.sender e.eventId e.event = none →
      ((firstPass E before).step E e.sender e.eventId e.event ≠ none →
        (firstPass E history).step E e.sender e.eventId e.event ≠ none) ∧
        (firstPass E history).apply E e = firstPass E history := by
    intro hf hg
    refine ⟨fun hne => absurd hf hne, ?_⟩
    unfold RoomGroup.apply
    rw [hg]
    rfl
  have hidle : (firstPass E history).step E e.sender e.eventId e.event = some (firstPass E history) →
      ((firstPass E before).step E e.sender e.eventId e.event ≠ none →
        (firstPass E history).step E e.sender e.eventId e.event ≠ none) ∧
        (firstPass E history).apply E e = firstPass E history := by
    intro hg
    unfold RoomGroup.apply
    rw [hg]
    exact ⟨fun _ => Option.some_ne_none _, rfl⟩
  cases he : e.event with
  | groupInvitation invitation proposerPubkey =>
    have hf := h.refused before e after hsplit (.inl ⟨invitation, proposerPubkey, he⟩)
    rw [← he]
    refine hrefused hf ?_
    cases hfinal : (firstPass E history).isFinalized with
    | true => rw [he, RoomGroup.step_groupInvitation, if_pos hfinal]
    | false =>
      rw [he, RoomGroup.step_groupInvitation, firstPass_open hfinal hsplit] at hf
      rw [he, RoomGroup.step_groupInvitation, hfinal]
      have hcode := Option.map_eq_none_iff.mp hf
      rw [hcode]
      rfl
  | groupReannounce id invitation proposer pubkeys rejections =>
    rw [← he]
    exact hidle (step_reannounce_held he (.inl h.started))
  | groupInvitationVote id vote =>
    have hnames : e.Names id := .inl ⟨vote, he⟩
    rw [← he]
    exact hrefused (h.refused before e after hsplit (.inr ⟨id, hnames⟩)) (h.refuses_names hmem hnames)
  | groupInvitationCancel id =>
    have hnames : e.Names id := .inr he
    rw [← he]
    exact hrefused (h.refused before e after hsplit (.inr ⟨id, hnames⟩)) (h.refuses_names hmem hnames)
  | withdrawalRequest request description =>
    rw [← he]
    exact hidle (by rw [he]; rfl)
  | withdrawalResponse request response =>
    rw [← he]
    exact hidle (by rw [he]; rfl)
  | depositNotification fiatAmount txid description =>
    rw [← he]
    exact hidle (by rw [he]; rfl)

theorem Stands.groupAfter_eq (h : Stands E history) (hsplit : history = before ++ after) :
    groupAfter E (firstPass E history) before = firstPass E history := by
  induction before using List.reverseRecOn generalizing after with
  | nil => rfl
  | append_singleton before e ih =>
    have hsplit : history = before ++ e :: after := by rw [hsplit, List.append_assoc]; rfl
    rw [groupAfter_snoc, ih hsplit]
    exact (h.step hsplit).2

end

/-! ## Both -/

/-- The rescan of a history changes nothing: it restarts, or the group stands and, when it is
finalized, nothing is listed in it. -/
def RescanSafe (E : Externals) (history : List RoomEvent) : Prop :=
  Restarts E history ∨ Stands E history ∧ ((firstPass E history).isFinalized = true →
    ∀ e ∈ history, (∀ request description, e.event ≠ .withdrawalRequest request description) ∧
      ∀ fiatAmount txid description, e.event ≠ .depositNotification fiatAmount txid description)

/-- The second pass takes every group event that the first one took, and ends in the same group. -/
theorem secondPass_spec {E : Externals} {history : List RoomEvent} (h : RescanSafe E history) :
    (∀ before e after, history = before ++ e :: after →
      (firstPass E before).step E e.sender e.eventId e.event ≠ none →
      (groupAfter E (firstPass E history) before).step E e.sender e.eventId e.event ≠ none) ∧
    groupAfter E (firstPass E history) history = firstPass E history := by
  rcases h with h | ⟨h, -⟩
  · refine ⟨fun before e after hsplit => ?_, h.groupAfter_eq⟩
    exact (h.step hsplit (h.passes hsplit)).1
  · refine ⟨fun before e after hsplit => ?_, h.groupAfter_eq (List.append_nil history).symm⟩
    rw [h.groupAfter_eq hsplit]
    exact (h.step hsplit).1

/-- No moment of either pass is finalized, or nothing is listed in the history. -/
theorem secondPass_open {E : Externals} {history : List RoomEvent} (h : RescanSafe E history) :
    (∀ before after, history = before ++ after → (firstPass E before).isFinalized = false ∧
      (groupAfter E (firstPass E history) before).isFinalized = false) ∨
    ∀ e ∈ history, (∀ request description, e.event ≠ .withdrawalRequest request description) ∧
      ∀ fiatAmount txid description, e.event ≠ .depositNotification fiatAmount txid description := by
  rcases h with h | ⟨h, hquiet⟩
  · left
    intro before after hsplit
    have hf := firstPass_open h.unfinished hsplit
    exact ⟨hf, (h.passes hsplit).phase.open h.unfinished hf⟩
  · cases hfinal : (firstPass E history).isFinalized with
    | true => exact .inr (hquiet hfinal)
    | false =>
      left
      intro before after hsplit
      rw [h.groupAfter_eq hsplit]
      exact ⟨firstPass_open hfinal hsplit, hfinal⟩

end Multispend
