import Fedi.Multispend.Approvals
import Fedi.Multispend.SecondPass

/-!
# Multispend: rescans (`multispend/src/rescanner.rs`)

A rescan processes the events after the last one it has seen, or the whole timeline
when it cannot find that event.  Incremental rescans add up to one scan
(`increments_scan`); processing the whole timeline once more changes nothing when the
timeline is `RescanSafe` (`rescan_idempotent`), and does in general: nothing tells a
withdrawal request, a deposit notification or an accepted invitation from its repetition
(`rescan_duplicates`).
-/

namespace Multispend

open BTreeMaps StabilityPool Runs

/-! ## The rescanner -/

/-- An event of a room's timeline: a multispend event has a sender, content and time. -/
structure TimelineEvent where
  eventId : RpcEventId
  multispend : Option (RpcUserId × MultispendEvent × ℕ)

def newMultispendEvents (roomId : RpcRoomId) (events : List TimelineEvent) : List RoomEvent :=
  events.filterMap fun e => e.multispend.map fun m => ⟨roomId, m.1, e.eventId, m.2.1, m.2.2⟩

/-- All events after the last seen event, every event when it is not found. -/
def allMessageSince (timeline : List TimelineEvent) (lastSeenEvent : Option RpcEventId) :
    List TimelineEvent :=
  match timeline.findIdx? fun e => decide (some e.eventId = lastSeenEvent) with
  | some idx => timeline.drop (idx + 1)
  | none => timeline

/-- The database and, for the room, the last event that was scanned. -/
structure RoomScanner where
  db : MultispendDb
  lastEvent : Option RpcEventId

def processMultispendEvents (E : Externals) (ourId : RpcUserId) (roomId : RpcRoomId) (s : RoomScanner)
    (timeline : List TimelineEvent) : Except Panic RoomScanner := do
  let events := allMessageSince timeline s.lastEvent
  let db ← scan E ourId s.db (newMultispendEvents roomId events)
  return ⟨db, (events.getLast?.map TimelineEvent.eventId).or s.lastEvent⟩

/-! ## Incremental rescans -/

section

variable {E : Externals} {ourId : RpcUserId} {roomId : RpcRoomId}

theorem newMultispendEvents_append (l l' : List TimelineEvent) :
    newMultispendEvents roomId (l ++ l') = newMultispendEvents roomId l ++ newMultispendEvents roomId l' :=
  List.filterMap_append

theorem allMessageSince_absent {timeline : List TimelineEvent} {last : Option RpcEventId}
    (h : ∀ e ∈ timeline, some e.eventId ≠ last) : allMessageSince timeline last = timeline := by
  unfold allMessageSince
  rw [List.findIdx?_eq_none_iff.mpr fun e he => decide_eq_false (h e he)]

/-- The events after the last one of a prefix. -/
theorem allMessageSince_prefix {seen rest : List TimelineEvent} {e : TimelineEvent}
    (hids : ((seen ++ e :: rest).map TimelineEvent.eventId).Nodup) :
    allMessageSince (seen ++ e :: rest) (some e.eventId) = rest := by
  have hfresh : ∀ x ∈ seen, decide (some x.eventId = some e.eventId) = false := by
    intro x hx
    rw [List.map_append, List.map_cons] at hids
    have hne := (List.nodup_append.mp hids).2.2 x.eventId (List.mem_map_of_mem hx) e.eventId List.mem_cons_self
    exact decide_eq_false fun h => hne (Option.some.inj h)
  unfold allMessageSince
  rw [List.findIdx?_append, List.findIdx?_eq_none_iff.mpr hfresh, List.findIdx?_cons]
  simp

theorem allMessageSince_last {seen rest : List TimelineEvent}
    (hids : ((seen ++ rest).map TimelineEvent.eventId).Nodup) :
    allMessageSince (seen ++ rest) (seen.getLast?.map TimelineEvent.eventId) = rest := by
  rcases List.eq_nil_or_concat seen with rfl | ⟨seen, e, rfl⟩
  · exact allMessageSince_absent fun e _ h => by cases h
  · rw [List.concat_eq_append, List.append_assoc] at hids
    rw [List.concat_eq_append, List.getLast?_concat, List.append_assoc]
    exact allMessageSince_prefix hids

/-- What the scanner has done after scanning a timeline. -/
def Scanned (E : Externals) (ourId : RpcUserId) (roomId : RpcRoomId) (timeline : List TimelineEvent)
    (s : RoomScanner) : Prop :=
  scan E ourId .empty (newMultispendEvents roomId timeline) = .ok s.db ∧
    s.lastEvent = timeline.getLast?.map TimelineEvent.eventId

/-- A timeline that has grown is scanned from where the last rescan ended. -/
theorem Scanned.increment {seen rest : List TimelineEvent} {s s' : RoomScanner}
    (h : Scanned E ourId roomId seen s) (hids : ((seen ++ rest).map TimelineEvent.eventId).Nodup)
    (hrun : processMultispendEvents E ourId roomId s (seen ++ rest) = .ok s') :
    Scanned E ourId roomId (seen ++ rest) s' := by
  obtain ⟨hscan, hlast⟩ := h
  unfold processMultispendEvents at hrun
  rw [hlast] at hrun
  dsimp only at hrun
  rw [allMessageSince_last hids] at hrun
  obtain ⟨db, hdb, hs'⟩ := bind_eq_ok.mp hrun
  cases hs'
  constructor
  · rw [newMultispendEvents_append]
    exact run_append.mpr ⟨s.db, hscan, hdb⟩
  · rw [List.getLast?_append, Option.map_or]

/-- Rescans of a growing timeline add up to one scan of it. -/
theorem increments_scan {timelines : List (List TimelineEvent)} {s : RoomScanner}
    (hgrow : timelines.Pairwise (· <+: ·))
    (hids : ((timelines.getLastD []).map TimelineEvent.eventId).Nodup)
    (hrun : run (processMultispendEvents E ourId roomId) ⟨.empty, none⟩ timelines = .ok s) :
    Scanned E ourId roomId (timelines.getLastD []) s := by
  induction timelines using List.reverseRecOn generalizing s with
  | nil =>
    cases hrun
    exact ⟨rfl, rfl⟩
  | append_singleton timelines timeline ih =>
    obtain ⟨s1, h1, h2⟩ := run_snoc.mp hrun
    rw [List.getLastD_concat] at hids ⊢
    have hseen : timelines.getLastD [] <+: timeline := by
      rcases List.eq_nil_or_concat timelines with rfl | ⟨timelines, last, rfl⟩
      · exact List.nil_prefix
      · rw [List.concat_eq_append, List.getLastD_concat]
        exact (List.pairwise_append.mp hgrow).2.2 last (by simp) timeline (by simp)
    obtain ⟨rest, rfl⟩ := hseen
    have hids' : ((timelines.getLastD []).map TimelineEvent.eventId).Nodup := by
      rw [List.map_append] at hids
      exact hids.of_append_left
    exact (ih (List.pairwise_append.mp hgrow).1 hids' h1).increment hids h2

end

/-! ## Events that are processed again -/

/-- The tables but for those of the groups. -/
structure SameRest (db db' : MultispendDb) : Prop where
  withdrawRequests : db'.withdrawRequests = db.withdrawRequests
  depositEvent : db'.depositEvent = db.depositEvent
  chronologicalEvent : db'.chronologicalEvent = db.chronologicalEvent
  invalidEvent : db'.invalidEvent = db.invalidEvent
  pending : db'.pendingApprovedWithdrawalRequests = db.pendingApprovedWithdrawalRequests

theorem SameRest.refl (db : MultispendDb) : SameRest db db := ⟨rfl, rfl, rfl, rfl, rfl⟩

theorem SameRest.trans {db db' db'' : MultispendDb} (h : SameRest db db') (h' : SameRest db' db'') :
    SameRest db db'' where
  withdrawRequests := h'.withdrawRequests.trans h.withdrawRequests
  depositEvent := h'.depositEvent.trans h.depositEvent
  chronologicalEvent := h'.chronologicalEvent.trans h.chronologicalEvent
  invalidEvent := h'.invalidEvent.trans h.invalidEvent
  pending := h'.pending.trans h.pending

/-- Marking an event that is marked already. -/
theorem sameRest_marked {db : MultispendDb} {eventId : RpcEventId} (h : db.invalidEvent.contains eventId = true) :
    SameRest db { db with invalidEvent := db.invalidEvent.add eventId } := by
  refine ⟨rfl, rfl, rfl, ?_, rfl⟩
  obtain ⟨v, hv⟩ := Option.isSome_iff_exists.mp h
  refine BTreeMap.ext_get? fun id => ?_
  show (db.invalidEvent.insert eventId ()).get? id = _
  rw [BTreeMap.get?_insert]
  split
  · next hid => rw [hid, hv]
  · rfl

section

variable {E : Externals} {ourId : RpcUserId} {db : MultispendDb} {e : RoomEvent}

theorem processEventDbRaw_quiet (h : isGroupEvent e.event = true) : Quiet (processEventDbRaw E db e.roomId
    e.sender e.eventId (.new ourId) e.event e.eventTime) := by
  unfold processEventDbRaw
  cases he : e.event with
  | groupInvitation invitation proposerPubkey => exact processGroupInvitation_quiet _ _
  | groupReannounce id invitation proposer pubkeys rejections => exact processGroupReannounce_quiet _ _ _ _ _
  | groupInvitationVote id vote => exact processGroupInvitationVote_quiet _ _
  | groupInvitationCancel id => exact processGroupInvitationCancel_quiet _
  | withdrawalRequest request description =>
    rw [he] at h
    cases h
  | withdrawalResponse request response =>
    rw [he] at h
    cases h
  | depositNotification fiatAmount txid description =>
    rw [he] at h
    cases h

theorem processEventDbRaw_rest {r : MultispendDb × MultispendContext} (hevent : isGroupEvent e.event = true)
    (h : processEventDbRaw E db e.roomId e.sender e.eventId (.new ourId) e.event e.eventTime = .ok r) :
    SameRest db r.1 := by
  unfold processEventDbRaw at h
  cases he : e.event with
  | groupInvitation invitation proposerPubkey =>
    rw [he] at h
    obtain ⟨-, federationId, -, hr⟩ := processGroupInvitation_ok h
    rw [hr]
    exact ⟨rfl, rfl, rfl, rfl, rfl⟩
  | groupReannounce id invitation proposer pubkeys rejections =>
    rw [he] at h
    rcases processGroupReannounce_ok h with hr | ⟨-, -, federationId, -, hr⟩
    · rw [hr]
      exact .refl db
    · rw [hr]
      exact ⟨rfl, rfl, rfl, rfl, rfl⟩
  | groupInvitationVote id vote =>
    rw [he] at h
    obtain ⟨-, state, -, -, hr⟩ := processGroupInvitationVote_ok h
    rw [hr]
    unfold votedDb
    split <;> exact ⟨rfl, rfl, rfl, rfl, rfl⟩
  | groupInvitationCancel id =>
    rw [he] at h
    obtain ⟨-, hr⟩ := processGroupInvitationCancel_ok h
    rw [hr]
    exact ⟨rfl, rfl, rfl, rfl, rfl⟩
  | withdrawalRequest request description =>
    rw [he] at hevent
    cases hevent
  | withdrawalResponse request response =>
    rw [he] at hevent
    cases hevent
  | depositNotification fiatAmount txid description =>
    rw [he] at hevent
    cases hevent

theorem applyRoomEvent_invalid {context : MultispendContext}
    (h : processEventDbRaw E db e.roomId e.sender e.eventId (.new ourId) e.event e.eventTime =
      .error (.invalidMessage context)) :
    applyRoomEvent E ourId db e = .ok { db with invalidEvent := db.invalidEvent.add e.eventId } := by
  unfold applyRoomEvent processEventDb
  rw [h]
  rfl

/-- A group event that the group takes. -/
theorem applyRoomEvent_taken (hevent : isGroupEvent e.event = true)
    (h : (roomGroup db e.roomId).step E e.sender e.eventId e.event ≠ none) :
    ∃ db', applyRoomEvent E ourId db e = .ok db' ∧ SameRest db db' := by
  have hstep := @processEventDbRaw_step E db e.roomId e.sender e.eventId (.new ourId) e.event e.eventTime hevent
  cases hraw : processEventDbRaw E db e.roomId e.sender e.eventId (.new ourId) e.event e.eventTime with
  | error f =>
    rw [hraw] at hstep
    exact absurd hstep.symm h
  | ok r =>
    refine ⟨r.1, ?_, processEventDbRaw_rest hevent hraw⟩
    unfold applyRoomEvent processEventDb
    rw [hraw]
    rfl

/-- A group event that the group refuses. -/
theorem applyRoomEvent_refused (hevent : isGroupEvent e.event = true)
    (h : (roomGroup db e.roomId).step E e.sender e.eventId e.event = none) :
    applyRoomEvent E ourId db e = .ok { db with invalidEvent := db.invalidEvent.add e.eventId } := by
  have hstep := @processEventDbRaw_step E db e.roomId e.sender e.eventId (.new ourId) e.event e.eventTime hevent
  rw [h] at hstep
  cases hraw : processEventDbRaw E db e.roomId e.sender e.eventId (.new ourId) e.event e.eventTime with
  | ok r =>
    rw [hraw] at hstep
    cases hstep
  | error f =>
    cases f with
    | panic p => exact absurd hraw (processEventDbRaw_quiet hevent p)
    | invalidMessage context => exact applyRoomEvent_invalid hraw

/-- Without a group, or without the request it answers, any other event is invalid. -/
def Unlisted (db : MultispendDb) (e : RoomEvent) : Prop :=
  getFinalizedGroupDb db e.roomId = none ∨ ∃ request response,
    e.event = .withdrawalResponse request response ∧ db.withdrawRequests.get? ⟨e.roomId, request⟩ = none

theorem applyRoomEvent_unlisted (hevent : isGroupEvent e.event = false) (h : Unlisted db e) :
    applyRoomEvent E ourId db e = .ok { db with invalidEvent := db.invalidEvent.add e.eventId } := by
  have hraw : ∃ context, processEventDbRaw E db e.roomId e.sender e.eventId (.new ourId) e.event e.eventTime =
      .error (.invalidMessage context) := by
    rcases h with hopen | ⟨request, response, he, hnone⟩
    · unfold processEventDbRaw
      cases he : e.event with
      | groupInvitation invitation proposerPubkey =>
        rw [he] at hevent
        cases hevent
      | groupReannounce id invitation proposer pubkeys rejections =>
        rw [he] at hevent
        cases hevent
      | groupInvitationVote id vote =>
        rw [he] at hevent
        cases hevent
      | groupInvitationCancel id =>
        rw [he] at hevent
        cases hevent
      | withdrawalRequest request description =>
        dsimp only
        unfold processWithdrawalRequest
        rw [hopen]
        exact ⟨_, rfl⟩
      | withdrawalResponse request response =>
        dsimp only
        unfold processWithdrawalResponse
        rw [hopen]
        exact ⟨_, rfl⟩
      | depositNotification fiatAmount txid description =>
        dsimp only
        unfold processDepositNotification
        rw [hopen]
        exact ⟨_, rfl⟩
    · unfold processEventDbRaw
      rw [he]
      dsimp only
      unfold processWithdrawalResponse
      cases getFinalizedGroupDb db e.roomId with
      | none => exact ⟨_, rfl⟩
      | some group =>
        rw [hnone]
        exact ⟨_, rfl⟩
  obtain ⟨context, hraw⟩ := hraw
  exact applyRoomEvent_invalid hraw

theorem processWithdrawalRequest_invalidEvent {context : MultispendContext} {r : MultispendDb × MultispendContext}
    {request : TransferRequest} {description : String}
    (h : processWithdrawalRequest db e.roomId e.sender e.eventId context e.eventTime request description = .ok r) :
    r.1.invalidEvent = db.invalidEvent := by
  unfold processWithdrawalRequest at h
  split at h
  · cases h
  · cases h
    rfl

theorem processDepositNotification_tables {context : MultispendContext} {r : MultispendDb × MultispendContext}
    {fiatAmount : ℕ} {txid : TransactionId} {description : String}
    (h : processDepositNotification db e.roomId e.sender e.eventId context e.eventTime fiatAmount txid
      description = .ok r) :
    r.1.invalidEvent = db.invalidEvent ∧ r.1.withdrawRequests = db.withdrawRequests := by
  unfold processDepositNotification at h
  dsimp only at h
  split at h
  · cases h
  · cases h
    exact ⟨rfl, rfl⟩

theorem processWithdrawalResponse_invalidEvent {context : MultispendContext}
    {r : MultispendDb × MultispendContext} {request : RpcEventId} {response : WithdrawalResponseType}
    (h : processWithdrawalResponse E db e.roomId e.sender context request response = .ok r) :
    r.1.invalidEvent = db.invalidEvent := by
  unfold processWithdrawalResponse at h
  split at h
  · cases h
  split at h
  · cases h
  split at h
  · cases h
  · unfold recordResponse at h
    dsimp only at h
    split at h
    · split at h
      · cases h
      · cases h
        rfl
    · split at h <;> cases h <;> rfl

/-- A valid event marks nothing. -/
theorem processEventDbRaw_invalidEvent {r : MultispendDb × MultispendContext}
    (h : processEventDbRaw E db e.roomId e.sender e.eventId (.new ourId) e.event e.eventTime = .ok r) :
    r.1.invalidEvent = db.invalidEvent := by
  cases hevent : isGroupEvent e.event with
  | true => exact (processEventDbRaw_rest hevent h).invalidEvent
  | false =>
    unfold processEventDbRaw at h
    cases he : e.event with
    | groupInvitation invitation proposerPubkey =>
      rw [he] at hevent
      cases hevent
    | groupReannounce id invitation proposer pubkeys rejections =>
      rw [he] at hevent
      cases hevent
    | groupInvitationVote id vote =>
      rw [he] at hevent
      cases hevent
    | groupInvitationCancel id =>
      rw [he] at hevent
      cases hevent
    | withdrawalRequest request description =>
      rw [he] at h
      exact processWithdrawalRequest_invalidEvent h
    | withdrawalResponse request response =>
      rw [he] at h
      exact processWithdrawalResponse_invalidEvent h
    | depositNotification fiatAmount txid description =>
      rw [he] at h
      exact (processDepositNotification_tables h).1

theorem applyRoomEvent_keeps_mark {db' : MultispendDb} (h : applyRoomEvent E ourId db e = .ok db')
    {id : RpcEventId} (hid : db.invalidEvent.contains id = true) : db'.invalidEvent.contains id = true := by
  obtain ⟨r, hr, rfl⟩ := applyRoomEvent_ok h
  rcases processEventDb_ok hr with hraw | hinvalid
  · rw [processEventDbRaw_invalidEvent hraw]
    exact hid
  · rw [hinvalid]
    exact BTreeSet.contains_add_of_contains hid

theorem scan_keeps_mark {db' : MultispendDb} {evs : List RoomEvent} (h : scan E ourId db evs = .ok db')
    {id : RpcEventId} (hid : db.invalidEvent.contains id = true) : db'.invalidEvent.contains id = true :=
  run_invariant (P := fun db => db.invalidEvent.contains id = true)
    (fun _ _ _ hid h => applyRoomEvent_keeps_mark h hid) hid h

/-- Without withdrawal requests there are no rows to answer. -/
theorem scan_no_requests {evs : List RoomEvent} (h : scan E ourId .empty evs = .ok db)
    (hnone : ∀ e ∈ evs, ∀ request description, e.event ≠ .withdrawalRequest request description) :
    db.withdrawRequests = .empty := by
  induction evs using List.reverseRecOn generalizing db with
  | nil =>
    cases h
    rfl
  | append_singleton evs e ih =>
    obtain ⟨db1, h1, h2⟩ := run_snoc.mp h
    have hempty := ih h1 fun e he => hnone e (List.mem_append_left _ he)
    obtain ⟨r, hr, rfl⟩ := applyRoomEvent_ok h2
    rcases processEventDb_ok hr with hraw | hinvalid
    · cases hevent : isGroupEvent e.event with
      | true => rw [(processEventDbRaw_rest hevent hraw).withdrawRequests, hempty]
      | false =>
        cases he : e.event with
        | groupInvitation invitation proposerPubkey =>
          rw [he] at hevent
          cases hevent
        | groupReannounce id invitation proposer pubkeys rejections =>
          rw [he] at hevent
          cases hevent
        | groupInvitationVote id vote =>
          rw [he] at hevent
          cases hevent
        | groupInvitationCancel id =>
          rw [he] at hevent
          cases hevent
        | withdrawalRequest request description => exact absurd he (hnone e (by simp) request description)
        | withdrawalResponse request response =>
          have hunlisted : Unlisted db1 e := .inr ⟨request, response, he, by rw [hempty]; rfl⟩
          have h3 := @applyRoomEvent_unlisted E ourId db1 e hevent hunlisted
          rw [h2] at h3
          rw [Except.ok.inj h3]
          exact hempty
        | depositNotification fiatAmount txid description =>
          unfold processEventDbRaw at hraw
          rw [he] at hraw
          rw [(processDepositNotification_tables hraw).2, hempty]
    · rw [hinvalid]
      exact hempty

end

/-! ## The second scan -/

section

variable {E : Externals} {ourId : RpcUserId} {roomId : RpcRoomId} {history : List RoomEvent}
  {db : MultispendDb} (hroom : ∀ e ∈ history, e.roomId = roomId)

include hroom

theorem roomGroup_foldl {db db' : MultispendDb} {before after : List RoomEvent}
    (hsplit : history = before ++ after) (h : scan E ourId db before = .ok db') :
    roomGroup db' roomId = groupAfter E (roomGroup db roomId) before := by
  rw [roomGroup_scan roomId h, List.filter_eq_self.mpr]
  · rfl
  · intro e he
    have hmem : e ∈ history := by
      rw [hsplit]
      exact List.mem_append_left _ he
    simpa using hroom e hmem

/-- An event that the first scan marked is marked in the end. -/
theorem marked_of_refused (hdb : scan E ourId .empty history = .ok db) {before after : List RoomEvent}
    {e : RoomEvent} (hsplit : history = before ++ e :: after)
    (h : (isGroupEvent e.event = true ∧ (firstPass E before).step E e.sender e.eventId e.event = none) ∨
      isGroupEvent e.event = false ∧ ((firstPass E before).isFinalized = false ∨
        (∃ request response, e.event = .withdrawalResponse request response) ∧
          ∀ x ∈ history, ∀ request description, x.event ≠ .withdrawalRequest request description)) :
    db.invalidEvent.contains e.eventId = true := by
  have he : e.roomId = roomId := hroom e (by rw [hsplit]; simp)
  rw [hsplit] at hdb
  obtain ⟨db1, h1, h2⟩ := run_append.mp hdb
  obtain ⟨db2, h2, h3⟩ := run_cons.mp h2
  have hgroup : roomGroup db1 e.roomId = firstPass E before := by
    rw [he]
    exact roomGroup_foldl hroom hsplit h1
  refine scan_keeps_mark h3 ?_
  have hmark : applyRoomEvent E ourId db1 e =
      .ok { db1 with invalidEvent := db1.invalidEvent.add e.eventId } := by
    rcases h with ⟨hevent, hnone⟩ | ⟨hevent, hopen | ⟨⟨request, response, heq⟩, hquiet⟩⟩
    · rw [← hgroup] at hnone
      exact applyRoomEvent_refused hevent hnone
    · refine applyRoomEvent_unlisted hevent (.inl ?_)
      rw [← hgroup, isFinalized_roomGroup] at hopen
      simpa using hopen
    · refine applyRoomEvent_unlisted hevent (.inr ⟨request, response, heq, ?_⟩)
      have hempty := scan_no_requests h1 fun x hx => hquiet x (by rw [hsplit]; exact List.mem_append_left _ hx)
      rw [hempty]
      rfl
  rw [hmark] at h2
  cases h2
  exact BTreeSet.contains_add_self _ _

/-- The second scan, up to any moment. -/
theorem secondScan (hsafe : RescanSafe E history) (hdb : scan E ourId .empty history = .ok db)
    {before after : List RoomEvent} (hsplit : history = before ++ after) :
    ∃ db', scan E ourId db before = .ok db' ∧ SameRest db db' := by
  induction before using List.reverseRecOn generalizing after with
  | nil => exact ⟨db, rfl, .refl db⟩
  | append_singleton before e ih =>
    have hsplit : history = before ++ e :: after := by rw [hsplit, List.append_assoc]; rfl
    obtain ⟨db1, h1, hsame⟩ := ih hsplit
    have he : e.roomId = roomId := hroom e (by rw [hsplit]; simp)
    have hfirst : roomGroup db roomId = firstPass E history :=
      roomGroup_foldl hroom (List.append_nil history).symm hdb
    have hgroup : roomGroup db1 e.roomId = groupAfter E (firstPass E history) before := by
      rw [he, ← hfirst]
      exact roomGroup_foldl hroom hsplit h1
    have hmarked : db.invalidEvent.contains e.eventId = true →
        applyRoomEvent E ourId db1 e = .ok { db1 with invalidEvent := db1.invalidEvent.add e.eventId } →
        ∃ db', scan E ourId db (before ++ [e]) = .ok db' ∧ SameRest db db' := by
      intro hmark h2
      rw [← hsame.invalidEvent] at hmark
      exact ⟨_, run_snoc.mpr ⟨db1, h1, h2⟩, hsame.trans (sameRest_marked hmark)⟩
    cases hevent : isGroupEvent e.event with
    | true =>
      by_cases hnone : (groupAfter E (firstPass E history) before).step E e.sender e.eventId e.event = none
      · have hfirst : (firstPass E before).step E e.sender e.eventId e.event = none := by
          by_contra hne
          exact (secondPass_spec hsafe).1 before e after hsplit hne hnone
        refine hmarked (marked_of_refused hroom hdb hsplit (.inl ⟨hevent, hfirst⟩)) ?_
        rw [← hgroup] at hnone
        exact applyRoomEvent_refused hevent hnone
      · rw [← hgroup] at hnone
        obtain ⟨db', h2, hsame'⟩ := @applyRoomEvent_taken E ourId db1 e hevent hnone
        exact ⟨db', run_snoc.mpr ⟨db1, h1, h2⟩, hsame.trans hsame'⟩
    | false =>
      rcases secondPass_open hsafe with hopen | hquiet
      · obtain ⟨hf, hs⟩ := hopen before (e :: after) hsplit
        refine hmarked (marked_of_refused hroom hdb hsplit (.inr ⟨hevent, .inl hf⟩)) ?_
        rw [← hgroup, isFinalized_roomGroup] at hs
        exact applyRoomEvent_unlisted hevent (.inl (by simpa using hs))
      · obtain ⟨request, response, heq⟩ : ∃ request response, e.event = .withdrawalResponse request response := by
          obtain ⟨hrequest, hdeposit⟩ := hquiet e (by rw [hsplit]; simp)
          cases heq : e.event with
          | groupInvitation invitation proposerPubkey =>
            rw [heq] at hevent
            cases hevent
          | groupReannounce id invitation proposer pubkeys rejections =>
            rw [heq] at hevent
            cases hevent
          | groupInvitationVote id vote =>
            rw [heq] at hevent
            cases hevent
          | groupInvitationCancel id =>
            rw [heq] at hevent
            cases hevent
          | withdrawalRequest request description => exact absurd heq (hrequest request description)
          | withdrawalResponse request response => exact ⟨request, response, rfl⟩
          | depositNotification fiatAmount txid description => exact absurd heq (hdeposit _ _ _)
        have hnone : ∀ x ∈ history, ∀ request description, x.event ≠ .withdrawalRequest request description :=
          fun x hx => (hquiet x hx).1
        refine hmarked (marked_of_refused hroom hdb hsplit
          (.inr ⟨hevent, .inr ⟨⟨request, response, heq⟩, hnone⟩⟩)) ?_
        refine applyRoomEvent_unlisted hevent (.inr ⟨request, response, heq, ?_⟩)
        rw [hsame.withdrawRequests, scan_no_requests hdb hnone]
        rfl

/-- A second scan of the history of one room leaves the database as it is. -/
theorem scan_twice (hsafe : RescanSafe E history) (hdb : scan E ourId .empty history = .ok db) :
    scan E ourId db history = .ok db := by
  obtain ⟨db', h, hsame⟩ := secondScan hroom hsafe hdb (List.append_nil history).symm
  have hgroup : ∀ room, roomGroup db' room = roomGroup db room := by
    intro room
    by_cases hid : room = roomId
    · subst hid
      rw [roomGroup_foldl hroom (List.append_nil history).symm h,
        roomGroup_foldl hroom (List.append_nil history).symm hdb]
      exact (secondPass_spec hsafe).2
    · rw [roomGroup_scan room h, List.filter_eq_nil_iff.mpr]
      · rfl
      · intro e he
        rw [hroom e he]
        simpa using Ne.symm hid
  have hstatus : db'.groupStatus = db.groupStatus :=
    BTreeMap.ext_get? fun room => congrArg RoomGroup.status (hgroup room)
  have hinvitations : db'.groupInvitations = db.groupInvitations :=
    BTreeMap.ext_get? fun key => congrFun (congrArg RoomGroup.invitation (hgroup key.roomId)) key.eventId
  obtain ⟨h1, h2, h3, h4, h5⟩ := hsame
  have hdb' : db' = db := by
    cases db'
    cases db
    simp only [MultispendDb.mk.injEq]
    exact ⟨hstatus, hinvitations, h1, h2, h3, h4, h5⟩
  rw [h, hdb']

end

/-- Rescanning the whole timeline, because the last seen event is not found, changes nothing after
any incremental rescans that made it safe. -/
theorem rescan_idempotent {E : Externals} {ourId : RpcUserId} {roomId : RpcRoomId}
    {timelines : List (List TimelineEvent)} {s : RoomScanner} {lost : Option RpcEventId}
    (hgrow : timelines.Pairwise (· <+: ·))
    (hids : ((timelines.getLastD []).map TimelineEvent.eventId).Nodup)
    (hrun : run (processMultispendEvents E ourId roomId) ⟨.empty, none⟩ timelines = .ok s)
    (hlost : ∀ e ∈ timelines.getLastD [], some e.eventId ≠ lost)
    (hsafe : RescanSafe E (newMultispendEvents roomId (timelines.getLastD []))) :
    ∃ s', processMultispendEvents E ourId roomId ⟨s.db, lost⟩ (timelines.getLastD []) = .ok s' ∧
      s'.db = s.db := by
  obtain ⟨hscan, -⟩ := increments_scan hgrow hids hrun
  have hroom : ∀ e ∈ newMultispendEvents roomId (timelines.getLastD []), e.roomId = roomId := by
    intro e he
    obtain ⟨t, -, ht⟩ := List.mem_filterMap.mp he
    obtain ⟨m, -, rfl⟩ := Option.map_eq_some_iff.mp ht
    rfl
  have htwice := scan_twice hroom hsafe hscan
  unfold processMultispendEvents
  dsimp only
  rw [allMessageSince_absent hlost, htwice]
  exact ⟨_, rfl, rfl⟩

/-! ## Two timelines -/

/-- The event `id` of user `sender` in a timeline. -/
def demoTimelineEvent (sender : RpcUserId) (id : RpcEventId) (event : MultispendEvent) : TimelineEvent :=
  ⟨id, some (sender, event, id)⟩

/-- User 1 invites users 1 and 2. -/
def demoTimelineInvite : TimelineEvent := demoTimelineEvent 1 100 (.groupInvitation (demoInvitation 2) 10)

/-- User 2 declines. -/
def demoTimelineReject : TimelineEvent := demoTimelineEvent 2 101 (.groupInvitationVote 100 .reject)

theorem rescan_idempotent_demo : ∃ s s',
    run (processMultispendEvents demoExternals 1 0) ⟨.empty, none⟩
      [[demoTimelineInvite], [demoTimelineInvite, demoTimelineReject]] = .ok s ∧
    processMultispendEvents demoExternals 1 0 ⟨s.db, some 7⟩ [demoTimelineInvite, demoTimelineReject] = .ok s' ∧
    s'.db = s.db := by
  obtain ⟨s, hs⟩ := exists_of_succeeds (show succeeds (run (processMultispendEvents demoExternals 1 0)
    ⟨.empty, none⟩ [[demoTimelineInvite], [demoTimelineInvite, demoTimelineReject]]) = true by decide +kernel)
  have hsafe : RescanSafe demoExternals
      (newMultispendEvents 0 [demoTimelineInvite, demoTimelineReject]) := by
    left
    constructor
    · decide +kernel
    · refine forall_splits_cons ?_ (forall_splits_cons ?_ forall_splits_nil)
      · intro _ id _ hnames
        rcases hnames with ⟨vote, he⟩ | he <;> cases he
      · intro hearly
        exact absurd ⟨_, _, rfl, rfl⟩ (hearly _ List.mem_cons_self)
    · refine forall_splits_cons ?_ (forall_splits_cons ?_ forall_splits_nil)
      · rintro id state ⟨⟨he, -⟩, -⟩
        cases he
      · rintro id state ⟨⟨he, -⟩, -⟩
        cases he
  have hgrow : [[demoTimelineInvite], [demoTimelineInvite, demoTimelineReject]].Pairwise (· <+: ·) :=
    List.pairwise_pair.mpr ⟨[demoTimelineReject], rfl⟩
  have hlost : ∀ e ∈ [demoTimelineInvite, demoTimelineReject], some e.eventId ≠ some 7 := by decide
  obtain ⟨s', hs', hdb⟩ := rescan_idempotent hgrow (by decide) hs hlost hsafe
  exact ⟨s, s', hs, hs', hdb⟩

/-- User 2 accepts instead, and user 1 reports a deposit to the group. -/
def demoTimelineDeposit : List TimelineEvent :=
  [demoTimelineInvite, demoTimelineEvent 2 101 (.groupInvitationVote 100 (.accept 20)),
    demoTimelineEvent 1 102 (.depositNotification 5 1 "rent")]

/-- The rescan lists the deposit a second time, and marks the invitation and the vote invalid. -/
theorem rescan_duplicates : ∃ s s',
    run (processMultispendEvents demoExternals 1 0) ⟨.empty, none⟩ [demoTimelineDeposit] = .ok s ∧
    processMultispendEvents demoExternals 1 0 ⟨s.db, some 7⟩ demoTimelineDeposit = .ok s' ∧
    s'.db.chronologicalEvent ≠ s.db.chronologicalEvent ∧ s.db.invalidEvent = .empty ∧
    s'.db.invalidEvent = BTreeSet.ofList [100, 101] := by
  have hrun : (run (processMultispendEvents demoExternals 1 0) ⟨.empty, none⟩ [demoTimelineDeposit] >>= fun s =>
      (processMultispendEvents demoExternals 1 0 ⟨s.db, some 7⟩ demoTimelineDeposit).map fun s' =>
        (decide (s'.db.chronologicalEvent ≠ s.db.chronologicalEvent), s.db.invalidEvent, s'.db.invalidEvent)) =
      .ok (true, .empty, BTreeSet.ofList [100, 101]) := by decide +kernel
  obtain ⟨s, hs, hrun⟩ := bind_eq_ok.mp hrun
  cases hs' : processMultispendEvents demoExternals 1 0 ⟨s.db, some 7⟩ demoTimelineDeposit with
  | error p =>
    rw [hs'] at hrun
    cases hrun
  | ok s' =>
    rw [hs'] at hrun
    have hpair := Except.ok.inj hrun
    simp only [Prod.mk.injEq, decide_eq_true_eq] at hpair
    exact ⟨s, s', hs, hs', hpair⟩

end Multispend
