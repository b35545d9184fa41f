import Fedi.StabilityPool.Types

/-!
# Chat transfers: data types (`sp-transfer/src/db`, `rpc-types/src/sp_transfer.rs`)

A stability-pool transfer between two members of a chat room is announced by an event of
its sender; each member keeps what the events say in a local database.  Identifiers
of users, rooms, events and federations are `ℕ`, of which only equality and order are
used.  Times are in nanoseconds since the epoch.
-/

namespace SpTransfer

open BTreeMaps StabilityPool

abbrev RpcUserId := ℕ
abbrev RpcRoomId := ℕ
abbrev RpcEventId := ℕ
abbrev RpcFederationId := ℕ

/-! ## Events -/

/-- Event sent in a room. -/
inductive SpTransferEvent where
  | pendingTransferStart (amount : ℕ) (federationId : RpcFederationId) (federationInvite : Option String)
      (nonce : ℕ)
  | transferSentHint (pendingTransferId : RpcEventId) (transactionId : TransactionId)
  | transferFailed (pendingTransferId : RpcEventId)
  | federationInviteDenied (pendingTransferId : RpcEventId)
  | announceAccount (accountId : String) (federationId : RpcFederationId)
deriving DecidableEq

/-- An event with its room, id, sender and time (in milliseconds). -/
structure RoomEvent where
  roomId : RpcRoomId
  eventId : RpcEventId
  sender : RpcUserId
  originServerTs : ℕ
  event : SpTransferEvent
deriving DecidableEq

/-! ## Database -/

/-- A transfer is named by the room and the id of its `PendingTransferStart` event. -/
structure SpMatrixTransferId where
  roomId : RpcRoomId
  eventId : RpcEventId
deriving DecidableEq

namespace SpMatrixTransferId

def key (k : SpMatrixTransferId) : ℕ ×ₗ ℕ := toLex (k.roomId, k.eventId)

theorem key_injective : Function.Injective key := by
  rintro ⟨a, b⟩ ⟨c, d⟩ h
  have h' : (a, b) = (c, d) := toLex.injective h
  simp only [Prod.mk.injEq] at h'
  rw [h'.1, h'.2]

instance : LinearOrder SpMatrixTransferId := LinearOrder.lift' key key_injective

end SpMatrixTransferId

/-- Key of the tables with a row for what one sender said about a transfer: sent hints, failures. -/
structure TransferSenderKey where
  transferId : SpMatrixTransferId
  sender : RpcUserId

namespace TransferSenderKey

def key (k : TransferSenderKey) : SpMatrixTransferId ×ₗ ℕ := toLex (k.transferId, k.sender)

theorem key_injective : Function.Injective key := by
  rintro ⟨a, b⟩ ⟨c, d⟩ h
  have h' : (a, b) = (c, d) := toLex.injective h
  simp only [Prod.mk.injEq] at h'
  rw [h'.1, h'.2]

instance : LinearOrder TransferSenderKey := LinearOrder.lift' key key_injective

end TransferSenderKey

structure KnownReceiverAccountIdKey where
  roomId : RpcRoomId
  federationId : RpcFederationId

namespace KnownReceiverAccountIdKey

def key (k : KnownReceiverAccountIdKey) : ℕ ×ₗ ℕ := toLex (k.roomId, k.federationId)

theorem key_injective : Function.Injective key := by
  rintro ⟨a, b⟩ ⟨c, d⟩ h
  have h' : (a, b) = (c, d) := toLex.injective h
  simp only [Prod.mk.injEq] at h'
  rw [h'.1, h'.2]

instance : LinearOrder KnownReceiverAccountIdKey := LinearOrder.lift' key key_injective

end KnownReceiverAccountIdKey

structure TransferEventValue where
  amount : ℕ
  federationId : RpcFederationId
  sentBy : RpcUserId
  federationInvite : Option String
  nonce : ℕ
  createdAt : ℕ
deriving DecidableEq

/-- The tables that the events write. -/
structure SpTransfersDb where
  transferEvent : BTreeMap SpMatrixTransferId TransferEventValue
  knownReceiverAccountId : BTreeMap KnownReceiverAccountIdKey AccountId
  transferSentHint : BTreeMap TransferSenderKey TransactionId
  transferFailed : BTreeSet TransferSenderKey
  federationInviteDenied : BTreeSet SpMatrixTransferId
  senderAwaitingAccountAnnounceEvent : BTreeSet SpMatrixTransferId
  pendingReceiverAccountIdEvent : BTreeSet SpMatrixTransferId

def SpTransfersDb.empty : SpTransfersDb := ⟨.empty, .empty, .empty, .empty, .empty, .empty, .empty⟩

inductive SpTransferStatus where
  | pending
  | sentHint (transactionId : TransactionId)
  | failed
  | federationInviteDenied
  | expired
deriving DecidableEq

/-! ## Code outside the repository -/

/-- Hashes of the stability pool, the account of this device in a federation that it has joined,
`AccountId::from_str`, the encoded metadata that names a `PendingTransferStart` event by its hash,
and the `transfer_expiry_secs` of the feature catalog. -/
structure Externals where
  crypto : Crypto
  ourAccount : RpcFederationId → Option Account
  parseAccountId : String → Option AccountId
  transferMeta : RpcEventId → List UInt8
  transferExpirySecs : ℕ

end SpTransfer
