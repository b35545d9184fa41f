import Fedi.StabilityPool.Types

/-!
# Multispend: data types (`multispend/src/lib.rs`, `db.rs`, `rpc-types/src/multispend.rs`)

A multispend group is a shared account that the members of a chat room set up by
events in the room.  Each member scans the events into a local database.  User,
room, event and federation identifiers are strings in the source, of which only
equality and order are used: `ℕ` here.  `insert_new_entry` is an insertion: a
release build overwrites what is there.

The approved requests waiting for submission are the keys of a table without
values, a finite set.  `Externals` is the code outside the repository: the crypto
of the stability pool and the parser of federation invite codes.
-/

namespace Multispend

open BTreeMaps StabilityPool

abbrev RpcUserId := ℕ
abbrev RpcRoomId := ℕ
abbrev RpcEventId := ℕ
abbrev RpcFederationId := ℕ

deriving instance DecidableEq for TransferRequest, SignedTransferRequest

/-! ## Events -/

structure GroupInvitation where
  signers : BTreeSet RpcUserId
  threshold : ℕ
  federationInviteCode : String
  federationName : String
deriving DecidableEq

inductive MultispendGroupVoteType where
  | accept (memberPubkey : PublicKey)
  | reject
deriving DecidableEq

inductive WithdrawalResponseType where
  | approve (signature : Signature)
  | reject
  | complete (fiatAmount : ℕ) (txid : TransactionId)
  | txRejected (error : String)
deriving DecidableEq

/-- Event sent in a room. -/
inductive MultispendEvent where
  | groupInvitation (invitation : GroupInvitation) (proposerPubkey : PublicKey)
  | groupInvitationVote (invitation : RpcEventId) (vote : MultispendGroupVoteType)
  | groupInvitationCancel (invitation : RpcEventId)
  | groupReannounce (invitationId : RpcEventId) (invitation : GroupInvitation) (proposer : RpcUserId)
      (pubkeys : BTreeMap RpcUserId PublicKey) (rejections : BTreeSet RpcUserId)
  | depositNotification (fiatAmount : ℕ) (txid : TransactionId) (description : String)
  | withdrawalRequest (request : TransferRequest) (description : String)
  | withdrawalResponse (request : RpcEventId) (response : WithdrawalResponseType)
deriving DecidableEq

/-! ## Accumulated state -/

/-- Group invitation with extra state accumulated over the events. -/
structure GroupInvitationWithKeys where
  invitation : GroupInvitation
  proposer : RpcUserId
  pubkeys : BTreeMap RpcUserId PublicKey
  rejections : BTreeSet RpcUserId
  federationId : RpcFederationId
deriving DecidableEq

structure FinalizedGroup where
  invitation : GroupInvitation
  proposer : RpcUserId
  pubkeys : BTreeMap RpcUserId PublicKey
  spv2Account : Account
  federationId : RpcFederationId
deriving DecidableEq

inductive WithdrawTxSubmissionStatus where
  | unknown
  | accepted (txid : TransactionId)
  | rejected (error : String)
deriving DecidableEq

/-- Withdrawal request with extra data accumulated over events. -/
structure WithdrawRequestWithApprovals where
  request : TransferRequest
  description : String
  signatures : BTreeMap RpcUserId Signature
  rejections : BTreeSet RpcUserId
  txSubmissionStatus : WithdrawTxSubmissionStatus
  sender : RpcUserId
deriving DecidableEq

structure MultispendDepositEventData where
  user : RpcUserId
  fiatAmount : ℕ
  txid : TransactionId
  description : String
deriving DecidableEq

inductive WithdrawalProcessResponseOutcome where
  /-- More approvals are needed. -/
  | needsMoreApproval
  /-- Final approval to reach the threshold. -/
  | approved
  /-- Approval even after the threshold. -/
  | extraApproval
  | rejection
  /-- The transaction completed. -/
  | completed
  /-- The federation rejected the transaction. -/
  | txRejected
deriving DecidableEq

/-! ## Database -/

inductive MultispendGroupStatus where
  | finalized (inviteEventId : RpcEventId) (finalizedGroup : FinalizedGroup)
  | activeInvitation (activeInviteId : RpcEventId)
deriving DecidableEq

/-- Key of the tables that hold one row for an event of a room. -/
structure RoomEventKey where
  roomId : RpcRoomId
  eventId : RpcEventId

def RoomEventKey.key (k : RoomEventKey) : ℕ ×ₗ ℕ := toLex (k.roomId, k.eventId)

theorem RoomEventKey.key_injective : Function.Injective RoomEventKey.key := by
  rintro ⟨a, b⟩ ⟨c, d⟩ h
  have h' : (a, b) = (c, d) := toLex.injective h
  simp only [Prod.mk.injEq] at h'
  rw [h'.1, h'.2]

instance : LinearOrder RoomEventKey := LinearOrder.lift' RoomEventKey.key RoomEventKey.key_injective

structure MultispendChronologicalEventData where
  eventId : RpcEventId
  eventTime : ℕ
deriving DecidableEq

structure MultispendPendingApprovedWithdrawalRequestKey where
  roomId : RpcRoomId
  requestEventId : RpcEventId
  federationId : RpcFederationId
  transferRequest : SignedTransferRequest
deriving DecidableEq

/-- The tables that events write; the chronological rows of a room are found by the prefix
of its id, so they are one table for each room. -/
structure MultispendDb where
  groupStatus : BTreeMap RpcRoomId MultispendGroupStatus
  groupInvitations : BTreeMap RoomEventKey GroupInvitationWithKeys
  withdrawRequests : BTreeMap RoomEventKey WithdrawRequestWithApprovals
  depositEvent : BTreeMap RoomEventKey MultispendDepositEventData
  chronologicalEvent : BTreeMap RpcRoomId (BTreeMap ℕ MultispendChronologicalEventData)
  invalidEvent : BTreeSet RpcEventId
  pendingApprovedWithdrawalRequests : Finset MultispendPendingApprovedWithdrawalRequestKey
deriving DecidableEq

def MultispendDb.empty : MultispendDb where
  groupStatus := .empty
  groupInvitations := .empty
  withdrawRequests := .empty
  depositEvent := .empty
  chronologicalEvent := .empty
  invalidEvent := .empty
  pendingApprovedWithdrawalRequests := ∅

/-! ## Code outside the repository -/

/-- The hashes and signatures of the stability pool, and the federation id in an invite
code (`InviteCode::from_str`), if it parses. -/
structure Externals where
  crypto : Crypto
  inviteCode : String → Option RpcFederationId

/-- Ways to process an event without a result: an early `Err(InvalidMessage)`, with the
context as the branch left it, or a panic. -/
inductive Failure (Context : Type) where
  | invalidMessage (context : Context)
  | panic (p : Panic)
deriving DecidableEq

end Multispend
