import Fedi.Multispend.Types
import Fedi.StabilityPool.Server

/-!
# Multispend: processing of room events (`multispend/src/lib.rs`)

`processEventDb` is applied to every multispend event of a room in timeline order.
A branch of `processEventDbRaw` either returns the database it leaves, or fails
with `InvalidMessage`, which marks the event invalid and changes nothing else, or
panics:

    processEventDb E db roomId sender eventId event time context : Except Panic (MultispendDb × …)

Every check of a branch stands before its first write, so the early returns of the
source carry no database.
-/

namespace Multispend

open BTreeMaps StabilityPool Runs

/-! ## Group invitations -/

namespace GroupInvitationWithKeys

def new (invitation : GroupInvitation) (proposer : RpcUserId) (proposerPubkey : PublicKey)
    (federationId : RpcFederationId) : GroupInvitationWithKeys where
  invitation := invitation
  proposer := proposer
  pubkeys := BTreeMap.empty.insert proposer proposerPubkey
  rejections := .empty
  federationId := federationId

/-- A vote is refused from a user who is no signer or voted before. -/
def canVote (state : GroupInvitationWithKeys) (sender : RpcUserId) : Bool :=
  !(!state.invitation.signers.contains sender || (state.pubkeys.get? sender).isSome ||
    state.rejections.contains sender)

def recordVote (state : GroupInvitationWithKeys) (sender : RpcUserId) :
    MultispendGroupVoteType → GroupInvitationWithKeys
  | .accept memberPubkey => { state with pubkeys := state.pubkeys.insert sender memberPubkey }
  | .reject => { state with rejections := state.rejections.add sender }

/-- The new state, or nothing for `InvalidMessage`. -/
def processVote (state : GroupInvitationWithKeys) (sender : RpcUserId) (vote : MultispendGroupVoteType) :
    Option GroupInvitationWithKeys :=
  if state.canVote sender then some (state.recordVote sender vote) else none

end GroupInvitationWithKeys

/-- `AccountUnchecked::try_into` on the key set of `keys`. -/
def accountTryFrom (accType : AccountType) (keys : List PublicKey) (threshold : ℕ) : Option Account :=
  if h : 0 < threshold ∧ threshold ≤ (BTreeSet.ofList keys).keys.length then
    some {
      accType := accType
      pubKeys := (BTreeSet.ofList keys).keys
      threshold := threshold
      sorted := (BTreeSet.ofList keys).keys_sorted
      threshold_pos := h.1
      threshold_le := h.2 }
  else none

/-- The group, once there are as many keys as signers and they make an account. -/
def GroupInvitationWithKeys.toFinalized (state : GroupInvitationWithKeys) : Option FinalizedGroup :=
  if state.pubkeys.len = state.invitation.signers.len then
    (accountTryFrom .seeker state.pubkeys.values state.invitation.threshold).map fun account => {
      proposer := state.proposer
      invitation := state.invitation
      pubkeys := state.pubkeys
      spv2Account := account
      federationId := state.federationId }
  else none

/-! ## Withdrawal requests -/

namespace WithdrawRequestWithApprovals

def new (request : TransferRequest) (description : String) (sender : RpcUserId) :
    WithdrawRequestWithApprovals where
  request := request
  description := description
  signatures := .empty
  rejections := .empty
  txSubmissionStatus := .unknown
  sender := sender

/-- The sender is a signer of the group and voted neither way before. -/
def checkCanVote (state : WithdrawRequestWithApprovals) (sender : RpcUserId)
    (finalizedGroup : FinalizedGroup) : Bool :=
  finalizedGroup.invitation.signers.contains sender &&
    !((state.signatures.get? sender).isSome || state.rejections.contains sender)

/-- What the number of signatures means for the threshold. -/
def approvalOutcome (signatures threshold : ℕ) : WithdrawalProcessResponseOutcome :=
  match compare signatures threshold with
  | .lt => .needsMoreApproval
  | .eq => .approved
  | .gt => .extraApproval

/-- Only the original sender reports the transaction, and only while its status is unknown. -/
def canReport (state : WithdrawRequestWithApprovals) (sender : RpcUserId) : Bool :=
  decide (state.sender = sender) && decide (state.txSubmissionStatus = .unknown)

/-- The outcome and the new state, or nothing for `InvalidMessage`. -/
def processResponse (state : WithdrawRequestWithApprovals) (sender : RpcUserId)
    (response : WithdrawalResponseType) (finalizedGroup : FinalizedGroup) :
    Option (WithdrawalProcessResponseOutcome × WithdrawRequestWithApprovals) :=
  match response with
  | .approve signature =>
    if state.checkCanVote sender finalizedGroup then
      let state := { state with signatures := state.signatures.insert sender signature }
      some (approvalOutcome state.signatures.len finalizedGroup.invitation.threshold, state)
    else none
  | .reject =>
    if state.checkCanVote sender finalizedGroup then
      some (.rejection, { state with rejections := state.rejections.add sender })
    else none
  | .complete _ txid =>
    if state.canReport sender then
      some (.completed, { state with txSubmissionStatus := .accepted txid })
    else none
  | .txRejected error =>
    if state.canReport sender then
      some (.txRejected, { state with txSubmissionStatus := .rejected error })
    else none

end WithdrawRequestWithApprovals

/-! ## Submission of an approved request -/

/-- The signature of a user, keyed by the position of the user's key in the account. -/
def keyedSignature (finalizedGroup : FinalizedGroup) (e : RpcUserId × Signature) :
    Except Panic (ℕ × Signature) :=
  match finalizedGroup.pubkeys.get? e.1 with
  | none => .error (.expectFailed "must be validated by WithdrawalRequestWithApprovals::can_vote")
  | some userPubKey =>
    match finalizedGroup.spv2Account.pubKeys.idxOf? userPubKey with
    | none => .error (.expectFailed "invariant of finalized group")
    | some keyIndex => .ok (keyIndex, e.2)

/-- The signatures in user order, a later one replacing one with the same index. -/
def collectSignatures (finalizedGroup : FinalizedGroup) (signatures : BTreeMap RpcUserId Signature) :
    Except Panic (BTreeMap ℕ Signature) := do
  let keyed ← signatures.entries.mapM (keyedSignature finalizedGroup)
  return keyed.foldl (fun m e => m.insert e.1 e.2) .empty

/-- `SignedTransferRequest::new(..).unwrap()`. -/
def signedTransferRequestUnwrap (C : Crypto) (request : TransferRequest) (signatures : BTreeMap ℕ Signature) :
    Except Panic SignedTransferRequest :=
  match SignedTransferRequest.validateSignatures C ⟨signatures, request⟩ with
  | .ok _ => .ok ⟨signatures, request⟩
  | .error _ => .error .unwrapOnErr

/-- The row that queues an approved request for submission. -/
def approvedRequest (C : Crypto) (roomId : RpcRoomId) (request : RpcEventId)
    (finalizedGroup : FinalizedGroup) (state : WithdrawRequestWithApprovals) :
    Except Panic MultispendPendingApprovedWithdrawalRequestKey := do
  let signatures ← collectSignatures finalizedGroup state.signatures
  let transferRequest ← signedTransferRequestUnwrap C state.request signatures
  return {
    roomId := roomId
    requestEventId := request
    federationId := finalizedGroup.federationId
    transferRequest := transferRequest }

/-! ## Database reads and writes -/

structure MultispendContext where
  checkPendingApprovedWithdrawalRequests : Bool
  ourId : RpcUserId
  refreshAccountInfo : Bool
deriving DecidableEq

/-- The result of one branch. -/
abbrev Branch := Except (Failure MultispendContext) (MultispendDb × MultispendContext)

/-- The group of a finalized room. -/
def getFinalizedGroupDb (db : MultispendDb) (roomId : RpcRoomId) : Option FinalizedGroup :=
  match db.groupStatus.get? roomId with
  | some (.finalized _ finalizedGroup) => some finalizedGroup
  | _ => none

/-- The invitation of the room is `invitation`. -/
def isActiveInvite (db : MultispendDb) (roomId : RpcRoomId) (invitation : RpcEventId) : Bool :=
  decide (db.groupStatus.get? roomId = some (.activeInvitation invitation))

/-- One more than the last counter of the room. -/
def multispendChronologicalEventCount (db : MultispendDb) (roomId : RpcRoomId) : ℕ :=
  match (db.chronologicalEvent.getD roomId .empty).keys.getLast? with
  | none => 0
  | some counter => counter + 1

def insertMultispendChronologicalEvent (db : MultispendDb) (roomId : RpcRoomId) (eventId : RpcEventId)
    (eventTime : ℕ) : MultispendDb :=
  let nextIndex := multispendChronologicalEventCount db roomId
  let rows := db.chronologicalEvent.getD roomId .empty
  { db with chronologicalEvent := db.chronologicalEvent.insert roomId (rows.insert nextIndex ⟨eventId, eventTime⟩) }

/-- Write an invitation and make the group status follow from it. -/
def MultispendDb.setGroup (db : MultispendDb) (roomId : RpcRoomId) (invitationId : RpcEventId)
    (state : GroupInvitationWithKeys) (status : MultispendGroupStatus) : MultispendDb :=
  { db with
    groupInvitations := db.groupInvitations.insert ⟨roomId, invitationId⟩ state
    groupStatus := db.groupStatus.insert roomId status }

/-! ## Branches -/

section

variable (E : Externals) (db : MultispendDb) (roomId : RpcRoomId) (sender : RpcUserId)
  (eventId : RpcEventId) (context : MultispendContext)

def processGroupInvitation (invitation : GroupInvitation) (proposerPubkey : PublicKey) : Branch :=
  -- already finalized
  if (getFinalizedGroupDb db roomId).isSome then .error (.invalidMessage context)
  else
    match E.inviteCode invitation.federationInviteCode with
    | none => .error (.invalidMessage context)
    | some federationId =>
      .ok (db.setGroup roomId eventId
        (GroupInvitationWithKeys.new invitation sender proposerPubkey federationId)
        (.activeInvitation eventId), context)

/-- The status a reannounced invitation gives the room. -/
def reannouncedStatus (invitationId : RpcEventId) (state : GroupInvitationWithKeys) :
    MultispendGroupStatus :=
  match state.toFinalized with
  | some finalizedGroup => .finalized invitationId finalizedGroup
  | none => .activeInvitation invitationId

def processGroupReannounce (invitationId : RpcEventId) (invitation : GroupInvitation)
    (proposer : RpcUserId) (pubkeys : BTreeMap RpcUserId PublicKey) (rejections : BTreeSet RpcUserId) :
    Branch :=
  -- only processed if you have no state
  if (db.groupStatus.get? roomId).isSome || (db.groupInvitations.get? ⟨roomId, invitationId⟩).isSome then
    .ok (db, context)
  else
    match E.inviteCode invitation.federationInviteCode with
    | none => .error (.invalidMessage context)
    | some federationId =>
      let invitationState : GroupInvitationWithKeys := ⟨invitation, proposer, pubkeys, rejections, federationId⟩
      .ok (db.setGroup roomId invitationId invitationState
        (reannouncedStatus invitationId invitationState), context)

/-- The status after a vote: the one before unless the vote finalized the group. -/
def votedDb (invitation : RpcEventId) (state : GroupInvitationWithKeys) : MultispendDb :=
  match state.toFinalized with
  | some finalizedGroup => db.setGroup roomId invitation state (.finalized invitation finalizedGroup)
  | none => { db with groupInvitations := db.groupInvitations.insert ⟨roomId, invitation⟩ state }

def processGroupInvitationVote (invitation : RpcEventId) (vote : MultispendGroupVoteType) : Branch :=
  -- this is not the active invite
  if isActiveInvite db roomId invitation then
    match db.groupInvitations.get? ⟨roomId, invitation⟩ with
    | none => .error (.invalidMessage context)
    | some state =>
      match state.processVote sender vote with
      | none => .error (.invalidMessage context)
      | some state => .ok (votedDb db roomId invitation state, context)
  else .error (.invalidMessage context)

def processGroupInvitationCancel (invitation : RpcEventId) : Branch :=
  -- there is no active invite
  if isActiveInvite db roomId invitation then
    .ok ({ db with groupStatus := db.groupStatus.erase roomId }, context)
  else .error (.invalidMessage context)

def processWithdrawalRequest (eventTime : ℕ) (request : TransferRequest) (description : String) : Branch :=
  match getFinalizedGroupDb db roomId with
  | none => .error (.invalidMessage context)
  | some _ =>
    let newState := WithdrawRequestWithApprovals.new request description sender
    let db := { db with withdrawRequests := db.withdrawRequests.insert ⟨roomId, eventId⟩ newState }
    .ok (insertMultispendChronologicalEvent db roomId eventId eventTime, context)

/-- Write the request back; the final approval of a request of ours also queues it. -/
def recordResponse (request : RpcEventId) (finalizedGroup : FinalizedGroup)
    (outcome : WithdrawalProcessResponseOutcome) (state : WithdrawRequestWithApprovals) : Branch :=
  let responded := { db with withdrawRequests := db.withdrawRequests.insert ⟨roomId, request⟩ state }
  if outcome = .approved ∧ context.ourId = state.sender then
    match approvedRequest E.crypto roomId request finalizedGroup state with
    | .error p => .error (.panic p)
    | .ok key =>
      .ok ({ responded with
          pendingApprovedWithdrawalRequests := insert key db.pendingApprovedWithdrawalRequests },
        { context with checkPendingApprovedWithdrawalRequests := true })
  else if outcome = .completed then .ok (responded, { context with refreshAccountInfo := true })
  else .ok (responded, context)

def processWithdrawalResponse (request : RpcEventId) (response : WithdrawalResponseType) : Branch :=
  match getFinalizedGroupDb db roomId with
  | none => .error (.invalidMessage context)
  | some finalizedGroup =>
    match db.withdrawRequests.get? ⟨roomId, request⟩ with
    | none => .error (.invalidMessage context)
    | some state =>
      match state.processResponse sender response finalizedGroup with
      | none => .error (.invalidMessage context)
      | some (outcome, state) => recordResponse E db roomId context request finalizedGroup outcome state

def processDepositNotification (eventTime : ℕ) (fiatAmount : ℕ) (txid : TransactionId)
    (description : String) : Branch :=
  let context := { context with refreshAccountInfo := true }
  match getFinalizedGroupDb db roomId with
  | none => .error (.invalidMessage context)
  | some _ =>
    let newState : MultispendDepositEventData := ⟨sender, fiatAmount, txid, description⟩
    let db := { db with depositEvent := db.depositEvent.insert ⟨roomId, eventId⟩ newState }
    .ok (insertMultispendChronologicalEvent db roomId eventId eventTime, context)

def processEventDbRaw (event : MultispendEvent) (eventTime : ℕ) : Branch :=
  match event with
  | .groupInvitation invitation proposerPubkey =>
    processGroupInvitation E db roomId sender eventId context invitation proposerPubkey
  | .groupReannounce invitationId invitation proposer pubkeys rejections =>
    processGroupReannounce E db roomId context invitationId invitation proposer pubkeys rejections
  | .groupInvitationVote invitation vote => processGroupInvitationVote db roomId sender context invitation vote
  | .groupInvitationCancel invitation => processGroupInvitationCancel db roomId context invitation
  | .withdrawalRequest request description =>
    processWithdrawalRequest db roomId sender eventId context eventTime request description
  | .withdrawalResponse request response =>
    processWithdrawalResponse E db roomId sender context request response
  | .depositNotification fiatAmount txid description =>
    processDepositNotification db roomId sender eventId context eventTime fiatAmount txid description

/-- Process one event and persist it; an invalid one is only marked. -/
def processEventDb (event : MultispendEvent) (eventTime : ℕ) :
    Except Panic (MultispendDb × MultispendContext) :=
  match processEventDbRaw E db roomId sender eventId context event eventTime with
  | .ok r => .ok r
  | .error (.invalidMessage context) => .ok ({ db with invalidEvent := db.invalidEvent.add eventId }, context)
  | .error (.panic p) => .error p

end

/-! ## Runs -/

/-- A multispend event of a room's timeline. -/
structure RoomEvent where
  roomId : RpcRoomId
  sender : RpcUserId
  eventId : RpcEventId
  event : MultispendEvent
  eventTime : ℕ
deriving DecidableEq

/-- The context of a rescan starts without notifications. -/
def MultispendContext.new (ourId : RpcUserId) : MultispendContext := ⟨false, ourId, false⟩

/-- One event processed by the device of `ourId`. -/
def applyRoomEvent (E : Externals) (ourId : RpcUserId) (db : MultispendDb) (e : RoomEvent) :
    Except Panic MultispendDb :=
  (processEventDb E db e.roomId e.sender e.eventId (.new ourId) e.event e.eventTime).map Prod.fst

/-- The events of a scan, in timeline order. -/
def scan (E : Externals) (ourId : RpcUserId) (db : MultispendDb) (evs : List RoomEvent) :
    Except Panic MultispendDb :=
  run (applyRoomEvent E ourId) db evs

/-! ## A small group -/

/-- Toy signatures, and every invite code parses. -/
def demoExternals : Externals := ⟨demoCrypto, fun _ => some 1⟩

/-- An invitation of users 1 and 2 with threshold `threshold`. -/
def demoInvitation (threshold : ℕ) : GroupInvitation where
  signers := (BTreeSet.ofList [1, 2])
  threshold := threshold
  federationInviteCode := "fed11"
  federationName := "test"

/-- Event `id` of user `sender` in room 0. -/
def demoEvent (sender : RpcUserId) (id : RpcEventId) (event : MultispendEvent) : RoomEvent :=
  ⟨0, sender, id, event, id⟩

/-- User 1 invites with key 10 in event 100 and user 2 accepts with key 20. -/
def demoGroup (threshold : ℕ) : List RoomEvent :=
  [demoEvent 1 100 (.groupInvitation (demoInvitation threshold) 10),
    demoEvent 2 101 (.groupInvitationVote 100 (.accept 20))]

end Multispend
