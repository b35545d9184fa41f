import Fedi.SpTransfer.Types
import Fedi.Lib.Idempotency
import Fedi.Lib.Runs

/-!
# Chat transfers: events and submission (`sp_transfers_matrix.rs`, `transfer_submitter.rs`)

`handleEvent` writes what an event says.  The status of a transfer is not stored:
`resolveStatusDb` reads it off the rows.  `runOnce` submits the transfers that wait for
the receiver's account, in one transaction, and a crash before the commit forgets
which were submitted.
-/

namespace SpTransfer

open BTreeMaps StabilityPool Runs Idempotency

/-! ## Events -/

def SpMatrixTransferId.ofEvent (e : RoomEvent) : SpMatrixTransferId := ⟨e.roomId, e.eventId⟩

/-- The row of a `PendingTransferStart` event. -/
def TransferEventValue.ofStart (e : RoomEvent) (amount : ℕ) (federationId : RpcFederationId)
    (federationInvite : Option String) (nonce : ℕ) : TransferEventValue where
  amount := amount
  federationId := federationId
  sentBy := e.sender
  federationInvite := federationInvite
  nonce := nonce
  createdAt := e.originServerTs * 1000000

def handleEvent (E : Externals) (ourUserId : RpcUserId) (db : SpTransfersDb) (e : RoomEvent) :
    SpTransfersDb :=
  match e.event with
  | .pendingTransferStart amount federationId federationInvite nonce =>
    let transferId := SpMatrixTransferId.ofEvent e
    let db := { db with
      transferEvent := db.transferEvent.insert transferId (.ofStart e amount federationId federationInvite nonce) }
    if e.sender = ourUserId then
      { db with
        senderAwaitingAccountAnnounceEvent := db.senderAwaitingAccountAnnounceEvent.add transferId }
    else
      { db with pendingReceiverAccountIdEvent := db.pendingReceiverAccountIdEvent.add transferId }
  | .transferSentHint pendingTransferId transactionId =>
    { db with
      transferSentHint := db.transferSentHint.insert ⟨⟨e.roomId, pendingTransferId⟩, e.sender⟩ transactionId }
  | .transferFailed pendingTransferId =>
    { db with transferFailed := db.transferFailed.add ⟨⟨e.roomId, pendingTransferId⟩, e.sender⟩ }
  | .federationInviteDenied pendingTransferId =>
    { db with federationInviteDenied := db.federationInviteDenied.add ⟨e.roomId, pendingTransferId⟩ }
  | .announceAccount accountId federationId =>
    if e.sender = ourUserId then db
    else
      match E.parseAccountId accountId with
      | some accountId =>
        { db with knownReceiverAccountId := db.knownReceiverAccountId.insert ⟨e.roomId, federationId⟩ accountId }
      | none => db

/-! ## Status -/

def resolveStatusDb (E : Externals) (now : ℕ) (db : SpTransfersDb) (transferId : SpMatrixTransferId)
    (transfer : TransferEventValue) : SpTransferStatus :=
  match db.transferSentHint.get? ⟨transferId, transfer.sentBy⟩ with
  | some transactionId => .sentHint transactionId
  | none =>
    if db.transferFailed.contains ⟨transferId, transfer.sentBy⟩ then .failed
    else if db.federationInviteDenied.contains transferId then .federationInviteDenied
    else if E.transferExpirySecs * 1000000000 ≤ now - transfer.createdAt then .expired
    else .pending

/-! ## Submission -/

/-- What becomes of `spv2_transfer_with_nonce`: an error before anything is submitted, or a
transaction that the federation takes if it is `valid` and its request new; the call may fail
after that too. -/
inductive SubmitResult where
  | refused
  | failedAfter (valid : Bool)
  | submitted (valid : Bool)
deriving DecidableEq

/-- A transfer that was handed to the federation. -/
structure Submission where
  transferId : SpMatrixTransferId
  federationId : RpcFederationId
  request : TransferRequest
  valid : Bool

/-- The request of a transfer; nothing where `TransferRequest::new` refuses it. -/
def spv2BuildTransferRequestWithNonce (E : Externals) (federationId : RpcFederationId) (nonce : ℕ)
    (toAccount : AccountId) (amount : ℕ) (transferMeta : List UInt8) : Option TransferRequest :=
  (E.ourAccount federationId).bind fun sender =>
    if sender.accType = toAccount.accType ∧ sender.id E.crypto ≠ toAccount ∧ amount ≠ 0 ∧
        sender.accType ≠ .provider then
      some {
        nonce := nonce
        sender := sender
        transferAmount := amount
        recipient := toAccount
        metadata := transferMeta
        validUntilCycle := 2 ^ 64 - 1
        newFeeRate := none }
    else none

/-- The call for a transfer: whether it returned `Ok`, and what was handed to the federation. -/
def spv2TransferWithNonce (E : Externals) (result : SubmitResult) (transferId : SpMatrixTransferId)
    (transfer : TransferEventValue) (accountId : AccountId) : Bool × Option Submission :=
  match spv2BuildTransferRequestWithNonce E transfer.federationId transfer.nonce accountId transfer.amount
    (E.transferMeta transferId.eventId) with
  | none => (false, none)
  | some request =>
    match result with
    | .refused => (false, none)
    | .failedAfter valid => (false, some ⟨transferId, transfer.federationId, request, valid⟩)
    | .submitted valid => (true, some ⟨transferId, transfer.federationId, request, valid⟩)

def SpTransfersDb.removeAwaiting (db : SpTransfersDb) (transferId : SpMatrixTransferId) : SpTransfersDb :=
  { db with
    senderAwaitingAccountAnnounceEvent := db.senderAwaitingAccountAnnounceEvent.erase transferId }

/-- One transfer of the loop; its errors are ignored by the caller. -/
def processPendingTransfer (E : Externals) (now : ℕ) (provider : SpMatrixTransferId → SubmitResult)
    (dbtx : SpTransfersDb) (transferId : SpMatrixTransferId) : SpTransfersDb × Option Submission :=
  match dbtx.transferEvent.get? transferId with
  -- pending without transfer details
  | none => (dbtx, none)
  | some transfer =>
    if resolveStatusDb E now dbtx transferId transfer ≠ .pending then (dbtx.removeAwaiting transferId, none)
    else
      match dbtx.knownReceiverAccountId.get? ⟨transferId.roomId, transfer.federationId⟩ with
      | none => (dbtx, none)
      | some accountId =>
        let (ok, submission) := spv2TransferWithNonce E (provider transferId) transferId transfer accountId
        (if ok then dbtx.removeAwaiting transferId else dbtx, submission)

/-- The loop of `run_once` over the awaiting transfers. -/
def processTransfers (E : Externals) (now : ℕ) (provider : SpMatrixTransferId → SubmitResult)
    (dbtx : SpTransfersDb) : List SpMatrixTransferId → SpTransfersDb × List Submission
  | [] => (dbtx, [])
  | item :: items =>
    let (dbtx, submission) := processPendingTransfer E now provider dbtx item
    let r := processTransfers E now provider dbtx items
    (r.1, submission.toList ++ r.2)

/-! ## Runs of a device -/

/-- The committed database and everything that was handed to the federation. -/
structure DeviceState where
  db : SpTransfersDb
  submissions : List Submission

def DeviceState.start : DeviceState := ⟨.empty, []⟩

inductive DeviceEvent where
  /-- An event of a room is delivered. -/
  | room (e : RoomEvent)
  /-- An execution of `run_once` over the awaiting transfers; with `crash = some k` the process dies
  after the first `k` of them, before the commit. -/
  | runOnce (items : List SpMatrixTransferId) (now : ℕ) (provider : SpMatrixTransferId → SubmitResult)
    (crash : Option ℕ)

/-- The transfers an execution gets to. -/
def reached (items : List SpMatrixTransferId) : Option ℕ → List SpMatrixTransferId
  | none => items
  | some k => items.take k

def deviceStep (E : Externals) (ourUserId : RpcUserId) (s : DeviceState) : DeviceEvent → Except Unit DeviceState
  | .room e => .ok { s with db := handleEvent E ourUserId s.db e }
  | .runOnce items now provider crash =>
    if items = s.db.senderAwaitingAccountAnnounceEvent.keys then
      let r := processTransfers E now provider s.db (reached items crash)
      .ok {
        db := if crash.isNone then r.1 else s.db
        submissions := s.submissions ++ r.2 }
    else .error ()

/-- The room events of a run. -/
def delivered (es : List DeviceEvent) : List RoomEvent :=
  es.filterMap fun
    | .room e => some e
    | .runOnce _ _ _ _ => none

/-- A delivered event is known by its id: deliveries with the same id are duplicates. -/
def SameEvents (events : List RoomEvent) : Prop :=
  ∀ e ∈ events, ∀ e' ∈ events, e.eventId = e'.eventId → e = e'

/-! ## Rows -/

section

variable {E : Externals} {ourUserId : RpcUserId}

/-- The row of a transfer is that of a delivered `PendingTransferStart` event. -/
def StartedBy (events : List RoomEvent) (transferId : SpMatrixTransferId) (transfer : TransferEventValue) : Prop :=
  ∃ e ∈ events, transferId = .ofEvent e ∧ ∃ amount federationId federationInvite nonce,
    e.event = .pendingTransferStart amount federationId federationInvite nonce ∧
      transfer = .ofStart e amount federationId federationInvite nonce

theorem StartedBy.mono {events events' : List RoomEvent} {transferId : SpMatrixTransferId}
    {transfer : TransferEventValue} (h : StartedBy events transferId transfer) (hsub : events ⊆ events') :
    StartedBy events' transferId transfer := by
  obtain ⟨e, he, hstart⟩ := h
  exact ⟨e, hsub he, hstart⟩

/-- A transfer has one row for ever. -/
theorem StartedBy.unique {events : List RoomEvent} (hsame : SameEvents events) {transferId : SpMatrixTransferId}
    {transfer transfer' : TransferEventValue} (h : StartedBy events transferId transfer)
    (h' : StartedBy events transferId transfer') : transfer = transfer' := by
  obtain ⟨e, he, hid, amount, federationId, invite, nonce, hevent, rfl⟩ := h
  obtain ⟨e', he', hid', amount', federationId', invite', nonce', hevent', rfl⟩ := h'
  have heq : e = e' := hsame e he e' he' (congrArg SpMatrixTransferId.eventId (hid.symm.trans hid'))
  subst heq
  rw [hevent] at hevent'
  cases hevent'
  rfl

/-- Only a `PendingTransferStart` event writes the row of a transfer. -/
theorem handleEvent_transferEvent {db : SpTransfersDb} {e : RoomEvent} {transferId : SpMatrixTransferId}
    {transfer : TransferEventValue}
    (h : (handleEvent E ourUserId db e).transferEvent.get? transferId = some transfer) :
    db.transferEvent.get? transferId = some transfer ∨ StartedBy [e] transferId transfer := by
  unfold handleEvent at h
  cases he : e.event with
  | pendingTransferStart amount federationId federationInvite nonce =>
    rw [he] at h
    have h : (db.transferEvent.insert (.ofEvent e) (.ofStart e amount federationId federationInvite nonce)).get?
        transferId = some transfer := by
      dsimp only at h
      split at h <;> exact h
    rw [BTreeMap.get?_insert] at h
    split at h
    next hid =>
      cases h
      exact .inr ⟨e, List.mem_singleton_self e, hid, amount, federationId, federationInvite, nonce, he, rfl⟩
    next => exact .inl h
  | transferSentHint pendingTransferId transactionId =>
    rw [he] at h
    exact .inl h
  | transferFailed pendingTransferId =>
    rw [he] at h
    exact .inl h
  | federationInviteDenied pendingTransferId =>
    rw [he] at h
    exact .inl h
  | announceAccount accountId federationId =>
    rw [he] at h
    dsimp only at h
    split at h
    · exact .inl h
    · split at h <;> exact .inl h

/-- The rows that decide statuses and requests: all but the queues. -/
structure SameRows (db db' : SpTransfersDb) : Prop where
  transferEvent : db'.transferEvent = db.transferEvent
  knownReceiverAccountId : db'.knownReceiverAccountId = db.knownReceiverAccountId
  transferSentHint : db'.transferSentHint = db.transferSentHint
  transferFailed : db'.transferFailed = db.transferFailed
  federationInviteDenied : db'.federationInviteDenied = db.federationInviteDenied

theorem SameRows.refl (db : SpTransfersDb) : SameRows db db := ⟨rfl, rfl, rfl, rfl, rfl⟩

theorem SameRows.trans {db db' db'' : SpTransfersDb} (h : SameRows db db') (h' : SameRows db' db'') :
    SameRows db db'' where
  transferEvent := h'.transferEvent.trans h.transferEvent
  knownReceiverAccountId := h'.knownReceiverAccountId.trans h.knownReceiverAccountId
  transferSentHint := h'.transferSentHint.trans h.transferSentHint
  transferFailed := h'.transferFailed.trans h.transferFailed
  federationInviteDenied := h'.federationInviteDenied.trans h.federationInviteDenied

theorem SameRows.resolveStatusDb {db db' : SpTransfersDb} (h : SameRows db db') (now : ℕ)
    (transferId : SpMatrixTransferId) (transfer : TransferEventValue) :
    resolveStatusDb E now db' transferId transfer = resolveStatusDb E now db transferId transfer := by
  unfold SpTransfer.resolveStatusDb
  rw [h.transferSentHint, h.transferFailed, h.federationInviteDenied]

theorem processPendingTransfer_rows (now : ℕ) (provider : SpMatrixTransferId → SubmitResult)
    (dbtx : SpTransfersDb) (transferId : SpMatrixTransferId) :
    SameRows dbtx (processPendingTransfer E now provider dbtx transferId).1 := by
  unfold processPendingTransfer
  split
  · exact .refl dbtx
  · split
    · exact ⟨rfl, rfl, rfl, rfl, rfl⟩
    · split
      · exact .refl dbtx
      · dsimp only
        split
        · exact ⟨rfl, rfl, rfl, rfl, rfl⟩
        · exact .refl dbtx

/-- Submitting changes the queue only. -/
theorem processTransfers_rows (now : ℕ) (provider : SpMatrixTransferId → SubmitResult)
    (items : List SpMatrixTransferId) (dbtx : SpTransfersDb) :
    SameRows dbtx (processTransfers E now provider dbtx items).1 := by
  induction items generalizing dbtx with
  | nil => exact .refl dbtx
  | cons item items ih => exact (processPendingTransfer_rows now provider dbtx item).trans (ih _)

theorem deviceStep_runOnce_iff {s s' : DeviceState} {items : List SpMatrixTransferId} {now : ℕ}
    {provider : SpMatrixTransferId → SubmitResult} {crash : Option ℕ} :
    deviceStep E ourUserId s (.runOnce items now provider crash) = .ok s' ↔
      items = s.db.senderAwaitingAccountAnnounceEvent.keys ∧
        s' = ⟨if crash.isNone then (processTransfers E now provider s.db (reached items crash)).1 else s.db,
          s.submissions ++ (processTransfers E now provider s.db (reached items crash)).2⟩ := by
  unfold deviceStep
  dsimp only
  split
  next hitems =>
    constructor
    · intro h
      cases h
      exact ⟨hitems, rfl⟩
    · rintro ⟨-, rfl⟩
      rfl
  next hitems => simp [hitems]

theorem runOnce_rows {s s' : DeviceState} {items : List SpMatrixTransferId} {now : ℕ}
    {provider : SpMatrixTransferId → SubmitResult} {crash : Option ℕ}
    (h : deviceStep E ourUserId s (.runOnce items now provider crash) = .ok s') : SameRows s.db s'.db := by
  obtain ⟨-, rfl⟩ := deviceStep_runOnce_iff.mp h
  cases crash with
  | none => exact processTransfers_rows now provider _ s.db
  | some k => exact .refl s.db

/-- Every row of a run is that of a delivered event. -/
theorem startedBy_of_run {es : List DeviceEvent} {s : DeviceState}
    (hrun : run (deviceStep E ourUserId) .start es = .ok s) {transferId : SpMatrixTransferId}
    {transfer : TransferEventValue} (h : s.db.transferEvent.get? transferId = some transfer) :
    StartedBy (delivered es) transferId transfer := by
  induction es using List.reverseRecOn generalizing s with
  | nil =>
    cases hrun
    cases h
  | append_singleton es e ih =>
    obtain ⟨s1, h1, h2⟩ := run_snoc.mp hrun
    have hsub : delivered es ⊆ delivered (es ++ [e]) := by
      unfold delivered
      rw [List.filterMap_append]
      exact List.subset_append_left _ _
    cases e with
    | room e =>
      cases h2
      rcases handleEvent_transferEvent h with h | h
      · exact (ih h1 h).mono hsub
      · refine h.mono fun x hx => ?_
        unfold delivered
        rw [List.filterMap_append]
        exact List.mem_append_right _ hx
    | runOnce items now provider crash =>
      rw [(runOnce_rows h2).transferEvent] at h
      exact (ih h1 h).mono hsub

end

end SpTransfer
