import Fedi.Multispend.Rescan

/-!
# Multispend: voting on withdrawals

The row of a request only ever gains the vote of a signer who has none, or a status from its
requester while it has none; the one event that brings the approvals of our own request to the
threshold also queues it, whatever the withdrawal service has taken out of the queue before:

    every step is a VotingStep ↔
      every event is a SafeApproval and a FreshRequest in the database before it   (voting_iff)

A request event that is processed again writes its row anew, and the votes in it are gone
(`votes_forgotten`).
-/

namespace Multispend

open BTreeMaps StabilityPool Runs

/-! ## The queue -/

/-- The database with another queue. -/
def MultispendDb.withQueue (db : MultispendDb)
    (queue : Finset MultispendPendingApprovedWithdrawalRequestKey) : MultispendDb :=
  { db with pendingApprovedWithdrawalRequests := queue }

/-- A branch that neither reads nor writes the queue. -/
def QueueFree (b : MultispendDb → Branch) : Prop :=
  ∀ db queue, b (db.withQueue queue) = (b db).map fun r => (r.1.withQueue queue, r.2)

section
variable {E : Externals} {roomId : RpcRoomId} {sender : RpcUserId} {eventId : RpcEventId} {context : MultispendContext}

theorem processGroupInvitation_queueFree (invitation : GroupInvitation) (proposerPubkey : PublicKey) :
    QueueFree fun db => processGroupInvitation E db roomId sender eventId context invitation proposerPubkey := by
  intro db queue
  show (if (getFinalizedGroupDb db roomId).isSome then _ else _) = _
  dsimp only
  unfold processGroupInvitation
  split
  · rfl
  · split <;> rfl

theorem processGroupReannounce_queueFree (invitationId : RpcEventId) (invitation : GroupInvitation)
    (proposer : RpcUserId) (pubkeys : BTreeMap RpcUserId PublicKey) (rejections : BTreeSet RpcUserId) :
    QueueFree fun db =>
      processGroupReannounce E db roomId context invitationId invitation proposer pubkeys rejections := by
  intro db queue
  show (if (db.groupStatus.get? roomId).isSome || (db.groupInvitations.get? ⟨roomId, invitationId⟩).isSome then _
    else _) = _
  dsimp only
  unfold processGroupReannounce
  split
  · rfl
  · split <;> rfl

theorem votedDb_withQueue (db : MultispendDb) (queue : Finset MultispendPendingApprovedWithdrawalRequestKey)
    (invitation : RpcEventId) (state : GroupInvitationWithKeys) :
    votedDb (db.withQueue queue) roomId invitation state = (votedDb db roomId invitation state).withQueue queue := by
  unfold votedDb
  split <;> rfl

theorem processGroupInvitationVote_queueFree (invitation : RpcEventId) (vote : MultispendGroupVoteType) :
    QueueFree fun db => processGroupInvitationVote db roomId sender context invitation vote := by
  intro db queue
  have hsame : isActiveInvite (db.withQueue queue) roomId invitation = isActiveInvite db roomId invitation := rfl
  have hinvitation : (db.withQueue queue).groupInvitations = db.groupInvitations := rfl
  dsimp only
  unfold processGroupInvitationVote
  rw [hsame, hinvitation]
  by_cases hactive : isActiveInvite db roomId invitation = true
  · rw [if_pos hactive, if_pos hactive]
    cases db.groupInvitations.get? ⟨roomId, invitation⟩ with
    | none => rfl
    | some state =>
      dsimp only
      cases state.processVote sender vote with
      | none => rfl
      | some state =>
        dsimp only
        rw [votedDb_withQueue]
        rfl
  · rw [if_neg hactive, if_neg hactive]
    rfl

theorem processGroupInvitationCancel_queueFree (invitation : RpcEventId) :
    QueueFree fun db => processGroupInvitationCancel db roomId context invitation := by
  intro db queue
  show (if isActiveInvite db roomId invitation then _ else _) = _
  dsimp only
  unfold processGroupInvitationCancel
  split <;> rfl

theorem processWithdrawalRequest_queueFree (eventTime : ℕ) (request : TransferRequest) (description : String) :
    QueueFree fun db =>
      processWithdrawalRequest db roomId sender eventId context eventTime request description := by
  intro db queue
  have hgroup : getFinalizedGroupDb (db.withQueue queue) roomId = getFinalizedGroupDb db roomId := rfl
  dsimp only
  unfold processWithdrawalRequest
  rw [hgroup]
  cases getFinalizedGroupDb db roomId with
  | none => rfl
  | some group => rfl

theorem processDepositNotification_queueFree (eventTime fiatAmount : ℕ) (txid : TransactionId)
    (description : String) :
    QueueFree fun db =>
      processDepositNotification db roomId sender eventId context eventTime fiatAmount txid description := by
  intro db queue
  have hgroup : getFinalizedGroupDb (db.withQueue queue) roomId = getFinalizedGroupDb db roomId := rfl
  dsimp only
  unfold processDepositNotification
  rw [hgroup]
  cases getFinalizedGroupDb db roomId with
  | none => rfl
  | some group => rfl

end

section
variable {E : Externals} {ourId : RpcUserId} {db db' : MultispendDb} {e : RoomEvent}

/-- An event leaves the queue as it is. -/
def KeepsQueue (E : Externals) (ourId : RpcUserId) (db : MultispendDb) (e : RoomEvent) (db' : MultispendDb) : Prop :=
  ∀ queue, applyRoomEvent E ourId (db.withQueue queue) e = .ok (db'.withQueue queue)

/-- An event puts a row into the queue. -/
def Queues (E : Externals) (ourId : RpcUserId) (db : MultispendDb) (e : RoomEvent) (db' : MultispendDb)
    (row : MultispendPendingApprovedWithdrawalRequestKey) : Prop :=
  ∀ queue, applyRoomEvent E ourId (db.withQueue queue) e = .ok (db'.withQueue (insert row queue))

theorem applyRoomEvent_of_raw {r : MultispendDb × MultispendContext}
    (h : processEventDbRaw E db e.roomId e.sender e.eventId (.new ourId) e.event e.eventTime = .ok r) :
    applyRoomEvent E ourId db e = .ok r.1 := by
  unfold applyRoomEvent processEventDb
  rw [h]
  rfl

theorem applyRoomEvent_of_invalid {context : MultispendContext}
    (h : processEventDbRaw E db e.roomId e.sender e.eventId (.new ourId) e.event e.eventTime =
      .error (.invalidMessage context)) :
    applyRoomEvent E ourId db e = .ok { db with invalidEvent := db.invalidEvent.add e.eventId } := by
  unfold applyRoomEvent processEventDb
  rw [h]
  rfl

theorem applyRoomEvent_of_panic {p : Panic}
    (h : processEventDbRaw E db e.roomId e.sender e.eventId (.new ourId) e.event e.eventTime = .error (.panic p)) :
    applyRoomEvent E ourId db e ≠ .ok db' := by
  intro hok
  unfold applyRoomEvent processEventDb at hok
  rw [h] at hok
  cases hok

/-- All but the responses leave the queue alone. -/
theorem processEventDbRaw_queueFree (hother : ∀ request response, e.event ≠ .withdrawalResponse request response) :
    QueueFree fun db => processEventDbRaw E db e.roomId e.sender e.eventId (.new ourId) e.event e.eventTime := by
  cases he : e.event with
  | groupInvitation invitation proposerPubkey => exact processGroupInvitation_queueFree invitation proposerPubkey
  | groupReannounce invitationId invitation proposer pubkeys rejections =>
    exact processGroupReannounce_queueFree invitationId invitation proposer pubkeys rejections
  | groupInvitationVote invitation vote => exact processGroupInvitationVote_queueFree invitation vote
  | groupInvitationCancel invitation => exact processGroupInvitationCancel_queueFree invitation
  | withdrawalRequest request description => exact processWithdrawalRequest_queueFree e.eventTime request description
  | withdrawalResponse request response => exact absurd he (hother request response)
  | depositNotification fiatAmount txid description =>
    exact processDepositNotification_queueFree e.eventTime fiatAmount txid description

/-- They keep it, also when the event is invalid. -/
theorem applyRoomEvent_keepsQueue (hother : ∀ request response, e.event ≠ .withdrawalResponse request response)
    (h : applyRoomEvent E ourId db e = .ok db') : KeepsQueue E ourId db e db' := by
  intro queue
  have hqueue := @processEventDbRaw_queueFree E ourId e hother db queue
  dsimp only at hqueue
  cases hr : processEventDbRaw E db e.roomId e.sender e.eventId (.new ourId) e.event e.eventTime with
  | ok r =>
    rw [hr] at hqueue
    rw [applyRoomEvent_of_raw hr] at h
    cases h
    exact applyRoomEvent_of_raw hqueue
  | error f =>
    rw [hr] at hqueue
    cases f with
    | invalidMessage context =>
      rw [applyRoomEvent_of_invalid hr] at h
      cases h
      exact applyRoomEvent_of_invalid hqueue
    | panic p => exact absurd h (applyRoomEvent_of_panic hr)

/-! ## What an event does to the requests -/

/-- An accepted response: a vote of a signer who has none, or a status from the requester. -/
inductive Response (group : FinalizedGroup) (sender : RpcUserId) (state : WithdrawRequestWithApprovals) :
    WithdrawalProcessResponseOutcome → WithdrawRequestWithApprovals → Prop where
  | approve (signature : Signature) (hcan : state.checkCanVote sender group = true) :
    Response group sender state
      (WithdrawRequestWithApprovals.approvalOutcome (state.signatures.insert sender signature).len
        group.invitation.threshold)
      { state with signatures := state.signatures.insert sender signature }
  | reject (hcan : state.checkCanVote sender group = true) :
    Response group sender state .rejection { state with rejections := state.rejections.add sender }
  | report (status : WithdrawTxSubmissionStatus) (outcome : WithdrawalProcessResponseOutcome)
    (hsender : state.sender = sender) (hunknown : state.txSubmissionStatus = .unknown)
    (hother : outcome ≠ .approved) :
    Response group sender state outcome { state with txSubmissionStatus := status }

theorem processResponse_ok {state state' : WithdrawRequestWithApprovals} {sender : RpcUserId}
    {response : WithdrawalResponseType} {group : FinalizedGroup} {outcome : WithdrawalProcessResponseOutcome}
    (h : state.processResponse sender response group = some (outcome, state')) :
    Response group sender state outcome state' := by
  have hreport : state.canReport sender = true → state.sender = sender ∧ state.txSubmissionStatus = .unknown := by
    intro hcan
    unfold WithdrawRequestWithApprovals.canReport at hcan
    simpa using hcan
  unfold WithdrawRequestWithApprovals.processResponse at h
  cases response with
  | approve signature =>
    dsimp only at h
    split_ifs at h with hcan
    cases h
    exact .approve signature hcan
  | reject =>
    dsimp only at h
    split_ifs at h with hcan
    cases h
    exact .reject hcan
  | complete fiatAmount txid =>
    dsimp only at h
    split_ifs at h with hcan
    cases h
    exact .report (.accepted txid) .completed (hreport hcan).1 (hreport hcan).2 (by decide)
  | txRejected error =>
    dsimp only at h
    split_ifs at h with hcan
    cases h
    exact .report (.rejected error) .txRejected (hreport hcan).1 (hreport hcan).2 (by decide)

theorem processWithdrawalResponse_of {roomId : RpcRoomId} {sender : RpcUserId} {context : MultispendContext}
    {request : RpcEventId} {response : WithdrawalResponseType} {group : FinalizedGroup}
    {state state' : WithdrawRequestWithApprovals} {outcome : WithdrawalProcessResponseOutcome}
    (hgroup : getFinalizedGroupDb db roomId = some group) (hstate : db.withdrawRequests.get? ⟨roomId, request⟩ = some state)
    (hresponse : state.processResponse sender response group = some (outcome, state')) :
    processWithdrawalResponse E db roomId sender context request response =
      recordResponse E db roomId context request group outcome state' := by
  unfold processWithdrawalResponse
  rw [hgroup]
  dsimp only
  rw [hstate]
  dsimp only
  rw [hresponse]

/-- Any other response is invalid. -/
theorem processWithdrawalResponse_cases {roomId : RpcRoomId} {sender : RpcUserId} (context : MultispendContext)
    (request : RpcEventId) (response : WithdrawalResponseType) :
    (∃ group state outcome state', getFinalizedGroupDb db roomId = some group ∧
        db.withdrawRequests.get? ⟨roomId, request⟩ = some state ∧
        state.processResponse sender response group = some (outcome, state')) ∨
      ∀ queue, processWithdrawalResponse E (db.withQueue queue) roomId sender context request response =
        .error (.invalidMessage context) := by
  have hgroups : ∀ queue, getFinalizedGroupDb (db.withQueue queue) roomId = getFinalizedGroupDb db roomId :=
    fun _ => rfl
  have hrequests : ∀ queue, (db.withQueue queue).withdrawRequests = db.withdrawRequests := fun _ => rfl
  cases hgroup : getFinalizedGroupDb db roomId with
  | none =>
    right
    intro queue
    rw [processWithdrawalResponse, hgroups, hgroup]
  | some group =>
    cases hstate : db.withdrawRequests.get? ⟨roomId, request⟩ with
    | none =>
      right
      intro queue
      rw [processWithdrawalResponse, hgroups, hgroup]
      dsimp only
      rw [hrequests, hstate]
    | some state =>
      cases hresponse : state.processResponse sender response group with
      | none =>
        right
        intro queue
        rw [processWithdrawalResponse, hgroups, hgroup]
        dsimp only
        rw [hrequests, hstate]
        dsimp only
        rw [hresponse]
      | some r =>
        left
        exact ⟨group, state, r.1, r.2, rfl, rfl, hresponse⟩

/-- Only the final approval of a request of ours does more than writing the row back. -/
theorem recordResponse_kept {roomId : RpcRoomId} {context : MultispendContext} {request : RpcEventId}
    {group : FinalizedGroup} {outcome : WithdrawalProcessResponseOutcome} {state : WithdrawRequestWithApprovals}
    (hcase : ¬ (outcome = .approved ∧ context.ourId = state.sender)) :
    ∃ context', recordResponse E db roomId context request group outcome state =
      .ok ({ db with withdrawRequests := db.withdrawRequests.insert ⟨roomId, request⟩ state }, context') := by
  unfold recordResponse
  rw [if_neg hcase]
  split
  · exact ⟨_, rfl⟩
  · exact ⟨_, rfl⟩

theorem recordResponse_panics {roomId : RpcRoomId} {context : MultispendContext} {request : RpcEventId}
    {group : FinalizedGroup} {outcome : WithdrawalProcessResponseOutcome} {state : WithdrawRequestWithApprovals}
    {p : Panic} (hcase : outcome = .approved ∧ context.ourId = state.sender)
    (hrow : approvedRequest E.crypto roomId request group state = .error p) :
    recordResponse E db roomId context request group outcome state = .error (.panic p) := by
  unfold recordResponse
  rw [if_pos hcase, hrow]

theorem recordResponse_queues {roomId : RpcRoomId} {context : MultispendContext} {request : RpcEventId}
    {group : FinalizedGroup} {outcome : WithdrawalProcessResponseOutcome} {state : WithdrawRequestWithApprovals}
    {row : MultispendPendingApprovedWithdrawalRequestKey} (hcase : outcome = .approved ∧ context.ourId = state.sender)
    (hrow : approvedRequest E.crypto roomId request group state = .ok row) :
    recordResponse E db roomId context request group outcome state =
      .ok ({ db with
          withdrawRequests := db.withdrawRequests.insert ⟨roomId, request⟩ state
          pendingApprovedWithdrawalRequests := insert row db.pendingApprovedWithdrawalRequests },
        { context with checkPendingApprovedWithdrawalRequests := true }) := by
  unfold recordResponse
  rw [if_pos hcase, hrow]

/-- The effect of an event on the requests and on the queue. -/
inductive RequestStep (E : Externals) (ourId : RpcUserId) (db : MultispendDb) (e : RoomEvent) (db' : MultispendDb) :
    Prop where
  | kept (hrequests : db'.withdrawRequests = db.withdrawRequests) (hqueue : KeepsQueue E ourId db e db')
  | requested (request : TransferRequest) (description : String) (group : FinalizedGroup)
    (he : e.event = .withdrawalRequest request description) (hgroup : getFinalizedGroupDb db e.roomId = some group)
    (hrequests : db'.withdrawRequests = db.withdrawRequests.insert ⟨e.roomId, e.eventId⟩
      (.new request description e.sender))
    (hqueue : KeepsQueue E ourId db e db')
  | responded (request : RpcEventId) (group : FinalizedGroup) (state : WithdrawRequestWithApprovals)
    (outcome : WithdrawalProcessResponseOutcome) (state' : WithdrawRequestWithApprovals)
    (hgroup : getFinalizedGroupDb db e.roomId = some group)
    (hstate : db.withdrawRequests.get? ⟨e.roomId, request⟩ = some state)
    (hresponse : Response group e.sender state outcome state')
    (hrequests : db'.withdrawRequests = db.withdrawRequests.insert ⟨e.roomId, request⟩ state')
    (hqueued : outcome = .approved ∧ ourId = state'.sender → ∃ row, row.roomId = e.roomId ∧
      row.requestEventId = request ∧ Queues E ourId db e db' row)
    (hkept : ¬ (outcome = .approved ∧ ourId = state'.sender) → KeepsQueue E ourId db e db')

theorem approvedRequest_ids {C : Crypto} {roomId : RpcRoomId} {request : RpcEventId} {group : FinalizedGroup}
    {state : WithdrawRequestWithApprovals} {row : MultispendPendingApprovedWithdrawalRequestKey}
    (h : approvedRequest C roomId request group state = .ok row) :
    row.roomId = roomId ∧ row.requestEventId = request := by
  obtain ⟨signatures, -, h⟩ := bind_eq_ok.mp h
  obtain ⟨signed, -, h⟩ := bind_eq_ok.mp h
  rw [pure_eq_ok] at h
  rw [← h]
  exact ⟨rfl, rfl⟩

theorem applyRoomEvent_response {request : RpcEventId} {response : WithdrawalResponseType}
    (he : e.event = .withdrawalResponse request response) (h : applyRoomEvent E ourId db e = .ok db') :
    RequestStep E ourId db e db' := by
  have hraw : ∀ db, processEventDbRaw E db e.roomId e.sender e.eventId (.new ourId) e.event e.eventTime =
      processWithdrawalResponse E db e.roomId e.sender (.new ourId) request response := by
    intro db
    rw [he]
    rfl
  rcases @processWithdrawalResponse_cases E db e.roomId e.sender (.new ourId) request response with
    ⟨group, state, outcome, state', hgroup, hstate, hresponse⟩ | hinvalid
  · have hrecord : ∀ queue, processEventDbRaw E (db.withQueue queue) e.roomId e.sender e.eventId (.new ourId) e.event
        e.eventTime = recordResponse E (db.withQueue queue) e.roomId (.new ourId) request group outcome state' := by
      intro queue
      rw [hraw]
      exact @processWithdrawalResponse_of E (db.withQueue queue) _ _ _ _ _ _ _ _ _ hgroup hstate hresponse
    have hresponded := @RequestStep.responded E ourId db e db' request group state outcome state' hgroup hstate
      (processResponse_ok hresponse)
    by_cases hcase : outcome = .approved ∧ ourId = state'.sender
    · cases hrow : approvedRequest E.crypto e.roomId request group state' with
      | error p =>
        have hpanic := (hrecord db.pendingApprovedWithdrawalRequests).trans (recordResponse_panics hcase hrow)
        exact absurd h (applyRoomEvent_of_panic hpanic)
      | ok row =>
        have hok := fun queue =>
          applyRoomEvent_of_raw ((hrecord queue).trans (recordResponse_queues hcase hrow))
        have hdb' := (hok db.pendingApprovedWithdrawalRequests).symm.trans h
        cases hdb'
        obtain ⟨hroom, hid⟩ := approvedRequest_ids hrow
        exact hresponded rfl (fun _ => ⟨row, hroom, hid, hok⟩) (fun hnot => absurd hcase hnot)
    · have hok : ∀ queue, applyRoomEvent E ourId (db.withQueue queue) e = .ok { db.withQueue queue with
          withdrawRequests := db.withdrawRequests.insert ⟨e.roomId, request⟩ state' } := by
        intro queue
        obtain ⟨context', hkept⟩ := @recordResponse_kept E (db.withQueue queue) e.roomId (.new ourId) request group _ _ hcase
        exact applyRoomEvent_of_raw ((hrecord queue).trans hkept)
      have hdb' := (hok db.pendingApprovedWithdrawalRequests).symm.trans h
      cases hdb'
      exact hresponded rfl (fun hyes => absurd hyes hcase) (fun _ => hok)
  · have hself := fun queue => applyRoomEvent_of_invalid ((hraw (db.withQueue queue)).trans (hinvalid queue))
    have hdb' := (hself db.pendingApprovedWithdrawalRequests).symm.trans h
    cases hdb'
    exact .kept rfl hself

theorem applyRoomEvent_request {request : TransferRequest} {description : String}
    (he : e.event = .withdrawalRequest request description) (h : applyRoomEvent E ourId db e = .ok db') :
    RequestStep E ourId db e db' := by
  have hkeeps := applyRoomEvent_keepsQueue (fun _ _ => by rw [he]; nofun) h
  have hraw : processEventDbRaw E db e.roomId e.sender e.eventId (.new ourId) e.event e.eventTime =
      processWithdrawalRequest db e.roomId e.sender e.eventId (.new ourId) e.eventTime request description := by
    rw [he]
    rfl
  unfold processWithdrawalRequest at hraw
  cases hgroup : getFinalizedGroupDb db e.roomId with
  | none =>
    rw [hgroup] at hraw
    have hdb' := (applyRoomEvent_of_invalid hraw).symm.trans h
    cases hdb'
    exact .kept rfl hkeeps
  | some group =>
    rw [hgroup] at hraw
    have hdb' := (applyRoomEvent_of_raw hraw).symm.trans h
    cases hdb'
    exact .requested request description group he hgroup rfl hkeeps

/-- What any processed event does to the requests and to the queue. -/
theorem applyRoomEvent_requests (h : applyRoomEvent E ourId db e = .ok db') : RequestStep E ourId db e db' := by
  have hkept : (∀ request response, e.event ≠ .withdrawalResponse request response) →
      (∀ r, processEventDbRaw E db e.roomId e.sender e.eventId (.new ourId) e.event e.eventTime = .ok r →
        r.1.withdrawRequests = db.withdrawRequests) → RequestStep E ourId db e db' := by
    intro hother hsame
    refine .kept ?_ (applyRoomEvent_keepsQueue hother h)
    obtain ⟨r, hr, rfl⟩ := applyRoomEvent_ok h
    rcases processEventDb_ok hr with hraw | hinvalid
    · exact hsame r hraw
    · rw [hinvalid]
  cases hgroupEvent : isGroupEvent e.event with
  | true =>
    refine hkept ?_ (fun r hr => (processEventDbRaw_rest hgroupEvent hr).withdrawRequests)
    intro request response he
    rw [he] at hgroupEvent
    cases hgroupEvent
  | false =>
    cases he : e.event with
    | withdrawalResponse request response => exact applyRoomEvent_response he h
    | withdrawalRequest request description => exact applyRoomEvent_request he h
    | depositNotification fiatAmount txid description =>
      refine hkept (fun _ _ => by rw [he]; nofun) ?_
      intro r hr
      rw [he] at hr
      exact (processDepositNotification_tables hr).2
    | groupInvitation _ _ | groupReannounce _ _ _ _ _ | groupInvitationVote _ _ | groupInvitationCancel _ =>
      rw [he] at hgroupEvent
      cases hgroupEvent

end

/-! ## Votes -/

/-- Votes of signers only, and no signer's both ways. -/
structure ProperVotes (group : FinalizedGroup) (state : WithdrawRequestWithApprovals) : Prop where
  signatures : ∀ user signature, state.signatures.get? user = some signature →
    group.invitation.signers.contains user = true
  rejections : ∀ user, state.rejections.contains user = true → group.invitation.signers.contains user = true
  disjoint : ∀ user, state.rejections.contains user = true → state.signatures.get? user = none

/-- A later row of a request: no vote is lost, and the status leaves unknown by the requester. -/
structure Follows (sender : RpcUserId) (state state' : WithdrawRequestWithApprovals) : Prop where
  requester : state'.sender = state.sender
  signatures : ∀ user signature, state.signatures.get? user = some signature →
    state'.signatures.get? user = some signature
  rejections : ∀ user, state.rejections.contains user = true → state'.rejections.contains user = true
  status : state'.txSubmissionStatus = state.txSubmissionStatus ∨
    state.txSubmissionStatus = .unknown ∧ sender = state.sender

theorem Follows.refl (sender : RpcUserId) (state : WithdrawRequestWithApprovals) : Follows sender state state :=
  ⟨rfl, fun _ _ h => h, fun _ h => h, .inl rfl⟩

theorem properVotes_new (group : FinalizedGroup) (request : TransferRequest) (description : String)
    (sender : RpcUserId) : ProperVotes group (.new request description sender) :=
  ⟨fun _ _ h => (by cases h), fun _ h => (by cases h), fun _ h => (by cases h)⟩

theorem checkCanVote_iff {state : WithdrawRequestWithApprovals} {sender : RpcUserId} {group : FinalizedGroup} :
    state.checkCanVote sender group = true ↔ group.invitation.signers.contains sender = true ∧
      state.signatures.get? sender = none ∧ state.rejections.contains sender = false := by
  unfold WithdrawRequestWithApprovals.checkCanVote
  simp

section
variable {group : FinalizedGroup} {sender : RpcUserId} {state state' : WithdrawRequestWithApprovals}
  {outcome : WithdrawalProcessResponseOutcome}

theorem Response.follows (h : Response group sender state outcome state') : Follows sender state state' := by
  cases h with
  | approve signature hcan =>
    obtain ⟨-, hnone, -⟩ := checkCanVote_iff.mp hcan
    refine ⟨rfl, fun user signature' huser => ?_, fun _ h => h, .inl rfl⟩
    have hne : user ≠ sender := by
      rintro rfl
      rw [hnone] at huser
      cases huser
    exact (BTreeMap.get?_insert_ne _ _ hne).trans huser
  | reject hcan => exact ⟨rfl, fun _ _ h => h, fun _ h => BTreeSet.contains_add_of_contains h, .inl rfl⟩
  | report status _ hsender hunknown _ => exact ⟨rfl, fun _ _ h => h, fun _ h => h, .inr ⟨hunknown, hsender.symm⟩⟩

theorem Response.proper (h : Response group sender state outcome state') (hproper : ProperVotes group state) :
    ProperVotes group state' := by
  cases h with
  | approve signature hcan =>
    obtain ⟨hsigner, -, hnot⟩ := checkCanVote_iff.mp hcan
    refine ⟨fun user signature' huser => ?_, hproper.rejections, fun user huser => ?_⟩
    · by_cases hsame : user = sender
      · rw [hsame]
        exact hsigner
      · rw [BTreeMap.get?_insert_ne _ _ hsame] at huser
        exact hproper.signatures user signature' huser
    · have hne : user ≠ sender := by
        rintro rfl
        rw [hnot] at huser
        cases huser
      exact (BTreeMap.get?_insert_ne _ _ hne).trans (hproper.disjoint user huser)
  | reject hcan =>
    obtain ⟨hsigner, hnone, -⟩ := checkCanVote_iff.mp hcan
    refine ⟨hproper.signatures, fun user huser => ?_, fun user huser => ?_⟩
    · rw [BTreeSet.contains_add] at huser
      split_ifs at huser with hsame
      · rw [hsame]
        exact hsigner
      · exact hproper.rejections user huser
    · rw [BTreeSet.contains_add] at huser
      split_ifs at huser with hsame
      · rw [hsame]
        exact hnone
      · exact hproper.disjoint user huser
  | report status _ hsender hunknown _ => exact ⟨hproper.signatures, hproper.rejections, hproper.disjoint⟩

/-- Only an approval counts, as one more, and the one that makes it the threshold is the final one. -/
theorem Response.approved_iff (h : Response group sender state outcome state') :
    state.signatures.len ≤ state'.signatures.len ∧ state'.signatures.len ≤ state.signatures.len + 1 ∧
      (outcome = .approved ↔ state.signatures.len < group.invitation.threshold ∧
        state'.signatures.len = group.invitation.threshold) := by
  cases h with
  | approve signature hcan =>
    obtain ⟨-, hnone, -⟩ := checkCanVote_iff.mp hcan
    have hlen := BTreeMap.len_insert signature hnone
    rw [approvalOutcome_eq_approved]
    dsimp only
    omega
  | reject hcan =>
    refine ⟨le_rfl, Nat.le_succ _, ⟨fun h => (by cases h), fun h => ?_⟩⟩
    dsimp only at h
    omega
  | report status _ hsender hunknown hother =>
    refine ⟨le_rfl, Nat.le_succ _, ⟨fun h => absurd h hother, fun h => ?_⟩⟩
    dsimp only at h
    omega

end

/-! ## Steps -/

/-- Our own request has its approvals. -/
def hasReached (ourId : RpcUserId) (db : MultispendDb) (key : RoomEventKey) : Bool :=
  match getFinalizedGroupDb db key.roomId, db.withdrawRequests.get? key with
  | some group, some state =>
    decide (state.sender = ourId ∧ group.invitation.threshold ≤ state.signatures.len)
  | _, _ => false

/-- The approvals of our own request come to the threshold. -/
def reachesThreshold (ourId : RpcUserId) (db db' : MultispendDb) (key : RoomEventKey) : Bool :=
  match getFinalizedGroupDb db key.roomId, db.withdrawRequests.get? key, db'.withdrawRequests.get? key with
  | some group, some state, some state' =>
    decide (state.sender = ourId ∧ state.signatures.len < group.invitation.threshold ∧
      state'.signatures.len = group.invitation.threshold)
  | _, _, _ => false

/-- How often that happens along a scan. -/
def timesReached (E : Externals) (ourId : RpcUserId) (key : RoomEventKey) : MultispendDb → List RoomEvent → ℕ
  | _, [] => 0
  | db, e :: evs =>
    match applyRoomEvent E ourId db e with
    | .ok db' => (reachesThreshold ourId db db' key).toNat + timesReached E ourId key db' evs
    | .error _ => 0

/-- What a step of a scan does to the votes and to the queue. -/
structure VotingStep (E : Externals) (ourId : RpcUserId) (before : List RoomEvent) (db : MultispendDb)
    (e : RoomEvent) (db' : MultispendDb) : Prop where
  follows : ∀ key state, db.withdrawRequests.get? key = some state →
    ∃ state', db'.withdrawRequests.get? key = some state' ∧ Follows e.sender state state'
  proper : ∀ key state, db'.withdrawRequests.get? key = some state →
    ∃ group, getFinalizedGroupDb db' key.roomId = some group ∧ ProperVotes group state
  queued : ∀ key, reachesThreshold ourId db db' key = true →
    ∃ row, row.roomId = key.roomId ∧ row.requestEventId = key.eventId ∧ Queues E ourId db e db' row
  unqueued : (∀ key, reachesThreshold ourId db db' key = false) → KeepsQueue E ourId db e db'
  once : ∀ key, timesReached E ourId key .empty (before ++ [e]) = (hasReached ourId db' key).toNat

/-- A request that is processed again has no votes and no status yet. -/
def FreshRequest (db : MultispendDb) (e : RoomEvent) : Prop :=
  ∀ request description state, e.event = .withdrawalRequest request description →
    db.withdrawRequests.get? ⟨e.roomId, e.eventId⟩ = some state →
      state.sender = e.sender ∧ (∀ user, state.signatures.get? user = none) ∧
        (∀ user, state.rejections.contains user = false) ∧ state.txSubmissionStatus = .unknown

section
variable {E : Externals} {ourId : RpcUserId} {before : List RoomEvent} {db db' : MultispendDb} {e : RoomEvent}
  {key : RoomEventKey}

theorem finalizedGroup_stays {roomId : RpcRoomId} {group : FinalizedGroup}
    (hgroup : getFinalizedGroupDb db roomId = some group) (h : applyRoomEvent E ourId db e = .ok db') :
    getFinalizedGroupDb db' roomId = some group := by
  unfold getFinalizedGroupDb at hgroup
  split at hgroup
  · next id g hstatus =>
    cases hgroup
    exact getFinalizedGroupDb_isSome (@finalized_stays E ourId [e] db db' _ _ _ hstatus (run_cons.mpr ⟨db', h, rfl⟩))
  · cases hgroup

theorem finalizedGroup_threshold (hscan : scan E ourId .empty before = .ok db) {roomId : RpcRoomId}
    {group : FinalizedGroup} (hgroup : getFinalizedGroupDb db roomId = some group) : 0 < group.invitation.threshold := by
  unfold getFinalizedGroupDb at hgroup
  split at hgroup
  · next id g hstatus =>
    cases hgroup
    obtain ⟨made, -, hfinal⟩ := (groupsInv_of_scan hscan).finalized roomId id group hstatus
    have hmade := toFinalized_ok hfinal
    rw [hmade.invitation, ← hmade.threshold]
    exact group.spv2Account.threshold_pos
  · cases hgroup

/-- What becomes of one row. -/
inductive RowStep (db : MultispendDb) (e : RoomEvent) (key : RoomEventKey) :
    Option WithdrawRequestWithApprovals → Prop where
  | same : RowStep db e key (db.withdrawRequests.get? key)
  | written (request : TransferRequest) (description : String) (group : FinalizedGroup)
    (he : e.event = .withdrawalRequest request description) (hkey : key = ⟨e.roomId, e.eventId⟩)
    (hgroup : getFinalizedGroupDb db key.roomId = some group) :
    RowStep db e key (some (.new request description e.sender))
  | responded (group : FinalizedGroup) (state : WithdrawRequestWithApprovals)
    (outcome : WithdrawalProcessResponseOutcome) (state' : WithdrawRequestWithApprovals)
    (hgroup : getFinalizedGroupDb db key.roomId = some group) (hstate : db.withdrawRequests.get? key = some state)
    (hresponse : Response group e.sender state outcome state') : RowStep db e key (some state')

theorem RequestStep.row (h : RequestStep E ourId db e db') (key : RoomEventKey) :
    RowStep db e key (db'.withdrawRequests.get? key) := by
  cases h with
  | kept hrequests _ =>
    rw [hrequests]
    exact .same
  | requested request description group he hgroup hrequests _ =>
    rw [hrequests]
    by_cases hkey : key = ⟨e.roomId, e.eventId⟩
    · rw [hkey, BTreeMap.get?_insert_self]
      exact .written request description group he rfl hgroup
    · rw [BTreeMap.get?_insert_ne _ _ hkey]
      exact .same
  | responded request group state outcome state' hgroup hstate hresponse hrequests _ _ =>
    rw [hrequests]
    by_cases hkey : key = ⟨e.roomId, request⟩
    · rw [hkey, BTreeMap.get?_insert_self]
      exact .responded group state outcome state' hgroup hstate hresponse
    · rw [BTreeMap.get?_insert_ne _ _ hkey]
      exact .same

/-- Every row is voted on properly, in a finalized group. -/
def VotesProper (db : MultispendDb) : Prop :=
  ∀ key state, db.withdrawRequests.get? key = some state →
    ∃ group, getFinalizedGroupDb db key.roomId = some group ∧ ProperVotes group state

theorem applyRoomEvent_votesProper (h : applyRoomEvent E ourId db e = .ok db') (hproper : VotesProper db) :
    VotesProper db' := by
  intro key state' hstate'
  have hrow := (applyRoomEvent_requests h).row key
  rw [hstate'] at hrow
  generalize hafter : some state' = after at hrow
  cases hrow with
  | same =>
    obtain ⟨group, hgroup, hvotes⟩ := hproper key state' hafter.symm
    exact ⟨group, finalizedGroup_stays hgroup h, hvotes⟩
  | written request description group he hkey hgroup =>
    cases hafter
    exact ⟨group, finalizedGroup_stays hgroup h, properVotes_new _ _ _ _⟩
  | responded group state outcome _ hgroup hstate hresponse =>
    cases hafter
    obtain ⟨group', hgroup', hvotes⟩ := hproper key state hstate
    rw [hgroup] at hgroup'
    cases hgroup'
    exact ⟨group, finalizedGroup_stays hgroup h, hresponse.proper hvotes⟩

theorem applyRoomEvent_follows (h : applyRoomEvent E ourId db e = .ok db') (hfresh : FreshRequest db e)
    {state : WithdrawRequestWithApprovals} (hstate : db.withdrawRequests.get? key = some state) :
    ∃ state', db'.withdrawRequests.get? key = some state' ∧ Follows e.sender state state' := by
  have hrow := (applyRoomEvent_requests h).row key
  generalize db'.withdrawRequests.get? key = after at hrow
  cases hrow with
  | same => exact ⟨state, hstate, .refl _ _⟩
  | written request description group he hkey hgroup =>
    rw [hkey] at hstate
    obtain ⟨hsender, hsignatures, hrejections, hstatus⟩ := hfresh request description state he hstate
    refine ⟨_, rfl, hsender.symm, fun user signature huser => ?_, fun user huser => ?_, .inl hstatus.symm⟩
    · rw [hsignatures] at huser
      cases huser
    · rw [hrejections] at huser
      cases huser
  | responded group state1 outcome state' hgroup hstate1 hresponse =>
    rw [hstate] at hstate1
    cases hstate1
    exact ⟨state', rfl, hresponse.follows⟩

theorem reachesThreshold_iff : reachesThreshold ourId db db' key = true ↔
    ∃ group state state', getFinalizedGroupDb db key.roomId = some group ∧ db.withdrawRequests.get? key = some state ∧
      db'.withdrawRequests.get? key = some state' ∧ state.sender = ourId ∧
        state.signatures.len < group.invitation.threshold ∧ state'.signatures.len = group.invitation.threshold := by
  unfold reachesThreshold
  constructor
  · intro h
    split at h
    · next group state state' hgroup hstate hstate' =>
      obtain ⟨hsender, hbelow, hat⟩ := of_decide_eq_true h
      exact ⟨group, state, state', hgroup, hstate, hstate', hsender, hbelow, hat⟩
    · cases h
  · rintro ⟨group, state, state', hgroup, hstate, hstate', hsender, hbelow, hat⟩
    rw [hgroup, hstate, hstate']
    exact decide_eq_true ⟨hsender, hbelow, hat⟩

theorem hasReached_of {group : FinalizedGroup} {state : WithdrawRequestWithApprovals}
    (hgroup : getFinalizedGroupDb db key.roomId = some group) (hstate : db.withdrawRequests.get? key = some state) :
    hasReached ourId db key = decide (state.sender = ourId ∧ group.invitation.threshold ≤ state.signatures.len) := by
  unfold hasReached
  rw [hgroup, hstate]

theorem hasReached_none (hnone : db.withdrawRequests.get? key = none) : hasReached ourId db key = false := by
  unfold hasReached
  rw [hnone]
  split
  · next h => cases h
  · rfl

/-- A count that rises by one at a time passes a threshold where it comes to it. -/
theorem reached_toNat {p : Prop} [Decidable p] {n n' t : ℕ} (hmore : n ≤ n') (hone : n' ≤ n + 1) :
    (decide (p ∧ t ≤ n')).toNat = (decide (p ∧ t ≤ n)).toNat + (decide (p ∧ n < t ∧ n' = t)).toNat := by
  by_cases hp : p
  · by_cases hbefore : t ≤ n
    · have hbelow : ¬ n < t := not_lt.mpr hbefore
      simp [hp, hbefore, hbefore.trans hmore, hbelow]
    · by_cases hafter : n' = t
      · simp [hp, hbefore, hafter, not_le.mp hbefore]
      · have hlt : ¬ t ≤ n' := by omega
        simp [hp, hbefore, hafter, hlt]
  · simp [hp]

/-- The approvals of a request reach the threshold in the one step that brings them there. -/
theorem hasReached_step (hproper : VotesProper db) (hfresh : FreshRequest db e) (hscan : scan E ourId .empty before = .ok db)
    (h : applyRoomEvent E ourId db e = .ok db') :
    (hasReached ourId db' key).toNat = (hasReached ourId db key).toNat + (reachesThreshold ourId db db' key).toNat := by
  have hrow := (applyRoomEvent_requests h).row key
  generalize hafter : db'.withdrawRequests.get? key = after at hrow
  cases hrow with
  | same =>
    have hreaches : reachesThreshold ourId db db' key = false := by
      rw [← Bool.not_eq_true, reachesThreshold_iff]
      rintro ⟨group, state, state', -, hstate, hstate', -, hbelow, hat⟩
      rw [hafter, hstate] at hstate'
      cases hstate'
      omega
    rw [hreaches]
    cases hstate : db.withdrawRequests.get? key with
    | none =>
      rw [hstate] at hafter
      rw [hasReached_none hstate, hasReached_none hafter]
      rfl
    | some state =>
      obtain ⟨group, hgroup, -⟩ := hproper key state hstate
      rw [hstate] at hafter
      rw [hasReached_of hgroup hstate, hasReached_of (finalizedGroup_stays hgroup h) hafter]
      rfl
  | written request description group he hkey hgroup =>
    have hpos := finalizedGroup_threshold hscan hgroup
    have hnew : hasReached ourId db' key = false := by
      rw [hasReached_of (finalizedGroup_stays hgroup h) hafter]
      refine decide_eq_false ?_
      rintro ⟨-, hle⟩
      exact absurd hle (not_le.mpr hpos)
    have hreaches : reachesThreshold ourId db db' key = false := by
      rw [← Bool.not_eq_true, reachesThreshold_iff]
      rintro ⟨group', state, state', hgroup', -, hstate', -, hbelow, hat⟩
      rw [hafter] at hstate'
      cases hstate'
      rw [hgroup] at hgroup'
      cases hgroup'
      exact absurd hat hpos.ne
    have hold : hasReached ourId db key = false := by
      cases hstate : db.withdrawRequests.get? key with
      | none => exact hasReached_none hstate
      | some state =>
        obtain ⟨-, hsignatures, -⟩ := hfresh request description state he (hkey ▸ hstate)
        rw [hasReached_of hgroup hstate, BTreeMap.len_eq_zero hsignatures]
        refine decide_eq_false ?_
        rintro ⟨-, hle⟩
        exact absurd hle (not_le.mpr hpos)
    rw [hnew, hreaches, hold]
    rfl
  | responded group state outcome state' hgroup hstate hresponse =>
    obtain ⟨hmore, hone, -⟩ := hresponse.approved_iff
    have hsender := hresponse.follows.requester
    have hreaches : reachesThreshold ourId db db' key = decide (state.sender = ourId ∧
        state.signatures.len < group.invitation.threshold ∧ state'.signatures.len = group.invitation.threshold) := by
      unfold reachesThreshold
      rw [hgroup, hstate, hafter]
    rw [hreaches, hasReached_of hgroup hstate, hasReached_of (finalizedGroup_stays hgroup h) hafter, hsender]
    exact reached_toNat hmore hone

theorem timesReached_snoc {db0 : MultispendDb} (hscan : scan E ourId db0 before = .ok db)
    (h : applyRoomEvent E ourId db e = .ok db') :
    timesReached E ourId key db0 (before ++ [e]) =
      timesReached E ourId key db0 before + (reachesThreshold ourId db db' key).toNat := by
  induction before generalizing db0 with
  | nil =>
    cases hscan
    show timesReached E ourId key db [e] = _
    unfold timesReached
    rw [h]
    simp [timesReached]
  | cons e' before ih =>
    obtain ⟨db1, hfirst, hrest⟩ := run_cons.mp hscan
    rw [List.cons_append, timesReached, timesReached, hfirst]
    dsimp only
    rw [ih hrest, Nat.add_assoc]

/-- What holds of the database after a scan of fresh requests. -/
structure VotesInv (E : Externals) (ourId : RpcUserId) (evs : List RoomEvent) (db : MultispendDb) : Prop where
  proper : VotesProper db
  once : ∀ key, timesReached E ourId key .empty evs = (hasReached ourId db key).toNat

theorem VotesInv.step (h : VotesInv E ourId before db) (hscan : scan E ourId .empty before = .ok db)
    (hfresh : FreshRequest db e) (hstep : applyRoomEvent E ourId db e = .ok db') :
    VotesInv E ourId (before ++ [e]) db' := by
  refine ⟨applyRoomEvent_votesProper hstep h.proper, fun key => ?_⟩
  rw [timesReached_snoc hscan hstep, h.once, hasReached_step h.proper hfresh hscan hstep]

theorem votesInv_empty : VotesInv E ourId [] .empty :=
  ⟨fun _ _ h => (by cases h), fun _ => rfl⟩

/-- The final approval of our own request queues it; no other event queues anything. -/
theorem applyRoomEvent_queue (h : applyRoomEvent E ourId db e = .ok db') :
    (∀ key, reachesThreshold ourId db db' key = true →
        ∃ row, row.roomId = key.roomId ∧ row.requestEventId = key.eventId ∧ Queues E ourId db e db' row) ∧
      ((∀ key, reachesThreshold ourId db db' key = false) → KeepsQueue E ourId db e db') := by
  -- a row that is kept or written anew does not reach its threshold
  have hnot : ∀ key, db'.withdrawRequests.get? key = db.withdrawRequests.get? key →
      reachesThreshold ourId db db' key ≠ true := by
    intro key hsame hreaches
    obtain ⟨group, state, state', -, hstate, hstate', -, hbelow, hat⟩ := reachesThreshold_iff.mp hreaches
    rw [hsame, hstate] at hstate'
    cases hstate'
    omega
  cases applyRoomEvent_requests h with
  | kept hrequests hqueue =>
    refine ⟨fun key hreaches => ?_, fun _ => hqueue⟩
    exact absurd hreaches (hnot key (by rw [hrequests]))
  | requested request description group he hgroup hrequests hqueue =>
    refine ⟨fun key hreaches => ?_, fun _ => hqueue⟩
    by_cases hkey : key = ⟨e.roomId, e.eventId⟩
    · obtain ⟨group', state, state', -, -, hstate', -, hbelow, hat⟩ := reachesThreshold_iff.mp hreaches
      rw [hrequests, hkey, BTreeMap.get?_insert_self] at hstate'
      cases hstate'
      have hzero : (WithdrawRequestWithApprovals.new request description e.sender).signatures.len = 0 := rfl
      omega
    · refine absurd hreaches (hnot key ?_)
      rw [hrequests, BTreeMap.get?_insert_ne _ _ hkey]
  | responded request group state outcome state' hgroup hstate hresponse hrequests hqueued hkept =>
    obtain ⟨-, -, happroved⟩ := hresponse.approved_iff
    have hsender := hresponse.follows.requester
    have hreaches_iff : reachesThreshold ourId db db' ⟨e.roomId, request⟩ = true ↔
        outcome = .approved ∧ ourId = state'.sender := by
      rw [happroved, hsender]
      unfold reachesThreshold
      rw [hgroup, hstate, hrequests, BTreeMap.get?_insert_self]
      dsimp only
      rw [decide_eq_true_iff]
      constructor
      · rintro ⟨hour, hlen⟩
        exact ⟨hlen, hour.symm⟩
      · rintro ⟨hlen, hour⟩
        exact ⟨hour.symm, hlen⟩
    constructor
    · intro key hreaches
      by_cases hkey : key = ⟨e.roomId, request⟩
      · rw [hkey] at hreaches ⊢
        exact hqueued (hreaches_iff.mp hreaches)
      · refine absurd hreaches (hnot key ?_)
        rw [hrequests, BTreeMap.get?_insert_ne _ _ hkey]
    · intro hnone
      refine hkept fun hcase => ?_
      have hreaches := hreaches_iff.mpr hcase
      rw [hnone] at hreaches
      cases hreaches

theorem VotesInv.votingStep (h : VotesInv E ourId before db) (hscan : scan E ourId .empty before = .ok db)
    (hfresh : FreshRequest db e) (hstep : applyRoomEvent E ourId db e = .ok db') :
    VotingStep E ourId before db e db' where
  follows := fun _ _ hstate => applyRoomEvent_follows hstep hfresh hstate
  proper := (h.step hscan hfresh hstep).proper
  queued := (applyRoomEvent_queue hstep).1
  unqueued := (applyRoomEvent_queue hstep).2
  once := (h.step hscan hfresh hstep).once

/-- Only a fresh request leaves the votes and the status in its row. -/
theorem VotingStep.fresh (h : VotingStep E ourId before db e db') (hproper : VotesProper db)
    (hstep : applyRoomEvent E ourId db e = .ok db') : FreshRequest db e := by
  intro request description state he hstate
  obtain ⟨group, hgroup, -⟩ := hproper _ _ hstate
  obtain ⟨state', hstate', hfollows⟩ := h.follows _ _ hstate
  have hnew : db'.withdrawRequests.get? ⟨e.roomId, e.eventId⟩ = some (.new request description e.sender) := by
    have hraw : processEventDbRaw E db e.roomId e.sender e.eventId (.new ourId) e.event e.eventTime =
        processWithdrawalRequest db e.roomId e.sender e.eventId (.new ourId) e.eventTime request description := by
      rw [he]
      rfl
    unfold processWithdrawalRequest at hraw
    rw [hgroup] at hraw
    have hdb' := (applyRoomEvent_of_raw hraw).symm.trans hstep
    cases hdb'
    exact BTreeMap.get?_insert_self _ _ _
  rw [hnew] at hstate'
  cases hstate'
  refine ⟨hfollows.requester.symm, fun user => ?_, fun user => ?_, ?_⟩
  · cases huser : state.signatures.get? user with
    | none => rfl
    | some signature => cases hfollows.signatures user signature huser
  · rw [← Bool.not_eq_true]
    intro huser
    cases hfollows.rejections user huser
  · rcases hfollows.status with hsame | ⟨hunknown, -⟩
    · exact hsame.symm
    · exact hunknown

theorem votesProper_of_scan (hscan : scan E ourId .empty before = .ok db) : VotesProper db :=
  run_invariant (P := VotesProper) (fun _ _ _ hproper hstep => applyRoomEvent_votesProper hstep hproper)
    (fun _ _ h => by cases h) hscan

theorem votesInv_of_scan (hfresh : ∀ pre e post, before = pre ++ e :: post → ∀ db, scan E ourId .empty pre = .ok db →
    FreshRequest db e) (hscan : scan E ourId .empty before = .ok db) : VotesInv E ourId before db := by
  revert hfresh
  refine @run_induction _ _ _ (applyRoomEvent E ourId) (fun evs db =>
    (∀ pre e post, evs = pre ++ e :: post → ∀ db, scan E ourId .empty pre = .ok db → FreshRequest db e) →
      VotesInv E ourId evs db) _ ?_ ?_ before db hscan
  · intro _
    exact votesInv_empty
  · intro evs db e db' hrun ih hstep hfresh
    have hbefore := ih fun pre e' post hevs => hfresh pre e' (post ++ [e]) (by rw [hevs]; simp)
    exact hbefore.step hrun (hfresh evs e [] rfl db hrun) hstep

end

/-- Along any scan every event is processed, the votes and statuses of all requests stay
sound, and our own are queued exactly once, at the final approval, exactly where no final
approval of ours is unsafe and no request with votes or a status is processed again. -/
theorem voting_iff (E : Externals) (ourId : RpcUserId) (evs : List RoomEvent) :
    (∀ before e after, evs = before ++ e :: after → ∀ db, scan E ourId .empty before = .ok db →
        ∃ db', applyRoomEvent E ourId db e = .ok db' ∧ VotingStep E ourId before db e db') ↔
      ∀ before e after, evs = before ++ e :: after → ∀ db, scan E ourId .empty before = .ok db →
        SafeApproval E ourId db e ∧ FreshRequest db e := by
  constructor
  · intro h before e after hevs db hscan
    obtain ⟨db', hstep, hvoting⟩ := h before e after hevs db hscan
    exact ⟨(applyRoomEvent_ok_iff (groupsInv_of_scan hscan) e).mp ⟨db', hstep⟩,
      hvoting.fresh (votesProper_of_scan hscan) hstep⟩
  · intro h before e after hevs db hscan
    obtain ⟨hsafe, hfresh⟩ := h before e after hevs db hscan
    obtain ⟨db', hstep⟩ := (applyRoomEvent_ok_iff (groupsInv_of_scan hscan) e).mpr hsafe
    refine ⟨db', hstep, VotesInv.votingStep ?_ hscan hfresh hstep⟩
    refine votesInv_of_scan (fun pre e' post hbefore db'' hscan' => ?_) hscan
    exact (h pre e' (post ++ e :: after) (by rw [hevs, hbefore]; simp) db'' hscan').2

/-- User 1 asks to pay 5, user 2 approves, and the request is processed once more. -/
def demoRepeated : List RoomEvent :=
  demoGroup 2 ++
    [demoEvent 1 102 (.withdrawalRequest ⟨50, .single 10 .seeker, 5, ⟨.seeker, 9⟩, [], 1, none⟩ "rent"),
      demoEvent 2 103 (.withdrawalResponse 102 (.approve 0)),
      demoEvent 1 102 (.withdrawalRequest ⟨50, .single 10 .seeker, 5, ⟨.seeker, 9⟩, [], 1, none⟩ "rent")]

/-- The approval of user 2 is forgotten. -/
theorem votes_forgotten :
    ¬ ∀ before e after, demoRepeated = before ++ e :: after → ∀ db, scan demoExternals 1 .empty before = .ok db →
      ∃ db', applyRoomEvent demoExternals 1 db e = .ok db' ∧ VotingStep demoExternals 1 before db e db' := by
  intro h
  have hbefore : ((scan demoExternals 1 .empty (demoRepeated.take 4)).toOption.bind fun db =>
      (db.withdrawRequests.get? ⟨0, 102⟩).bind fun state => state.signatures.get? 2) = some 0 := by decide +kernel
  have hafter : ((scan demoExternals 1 .empty demoRepeated).toOption.bind fun db =>
      (db.withdrawRequests.get? ⟨0, 102⟩).bind fun state => state.signatures.get? 2) = none := by decide +kernel
  simp only [Option.bind_eq_some_iff] at hbefore
  obtain ⟨db, hdb, state, hstate, hvote⟩ := hbefore
  have hscan : scan demoExternals 1 .empty (demoRepeated.take 4) = .ok db := by
    cases hrun : scan demoExternals 1 .empty (demoRepeated.take 4) with
    | error p =>
      rw [hrun] at hdb
      cases hdb
    | ok db1 =>
      rw [hrun] at hdb
      cases hdb
      rfl
  obtain ⟨db', hstep, hvoting⟩ := h (demoRepeated.take 4) _ [] rfl db hscan
  have hall : scan demoExternals 1 .empty demoRepeated = .ok db' := run_snoc.mpr ⟨db, hscan, hstep⟩
  obtain ⟨state', hstate', hfollows⟩ := hvoting.follows _ _ hstate
  have hkept := hfollows.signatures 2 0 hvote
  rw [hall] at hafter
  simp only [Except.toOption, Option.bind_some, hstate', hkept] at hafter
  cases hafter

end Multispend
