import Fedi.SpTransfer.Events

/-!
# Stability of the status of a chat transfer

The status of a transfer is read off three rows: the last transaction that its sender named,
whether its sender gave it up, and whether anybody denied the invite.  `Said` is what
they hold, `hear` what an event adds:

    said (handleEvent E ourUserId db e) transferId sender
      = hear transferId sender (said db transferId sender) e       (said_handleEvent)

A sent hint outranks a failure, which outranks a denial, which outranks the deadline; so
an event that comes after a status may change it, and the row of a denial does
not say who denied.  `statusStable_iff` is the exact condition under which
the status of every transfer of a room is final.
-/

namespace SpTransfer

open BTreeMaps StabilityPool

/-! ## What the rows say -/

/-- What has been said of a transfer: the transaction its sender named last, whether its sender
gave it up, whether it was denied. -/
structure Said where
  sentHint : Option TransactionId
  failed : Bool
  denied : Bool

def Said.nothing : Said := ⟨none, false, false⟩

def said (db : SpTransfersDb) (transferId : SpMatrixTransferId) (sender : RpcUserId) : Said where
  sentHint := db.transferSentHint.get? ⟨transferId, sender⟩
  failed := db.transferFailed.contains ⟨transferId, sender⟩
  denied := db.federationInviteDenied.contains transferId

/-- The transfer that an event is about and the status that it asks for. -/
def RoomEvent.asks (e : RoomEvent) : Option (SpMatrixTransferId × SpTransferStatus) :=
  match e.event with
  | .transferSentHint pendingTransferId transactionId =>
    some (⟨e.roomId, pendingTransferId⟩, .sentHint transactionId)
  | .transferFailed pendingTransferId => some (⟨e.roomId, pendingTransferId⟩, .failed)
  | .federationInviteDenied pendingTransferId => some (⟨e.roomId, pendingTransferId⟩, .federationInviteDenied)
  | .pendingTransferStart _ _ _ _ => none
  | .announceAccount _ _ => none

/-- The effect of an event on what was said of a transfer. -/
def hear (transferId : SpMatrixTransferId) (sender : RpcUserId) (x : Said) (e : RoomEvent) : Said :=
  match e.asks with
  | some (about, .sentHint transactionId) =>
    if about = transferId ∧ e.sender = sender then { x with sentHint := some transactionId } else x
  | some (about, .failed) => if about = transferId ∧ e.sender = sender then { x with failed := true } else x
  -- whoever the sender of the event is
  | some (about, .federationInviteDenied) => if about = transferId then { x with denied := true } else x
  | _ => x

/-- The deadline of a transfer has passed. -/
def Overdue (E : Externals) (now : ℕ) (transfer : TransferEventValue) : Prop :=
  E.transferExpirySecs * 1000000000 ≤ now - transfer.createdAt

instance (E : Externals) (now : ℕ) (transfer : TransferEventValue) : Decidable (Overdue E now transfer) :=
  inferInstanceAs (Decidable (_ ≤ _))

/-- The status that what was said amounts to. -/
def Said.status (E : Externals) (now : ℕ) (transfer : TransferEventValue) (x : Said) : SpTransferStatus :=
  match x.sentHint with
  | some transactionId => .sentHint transactionId
  | none =>
    if x.failed then .failed
    else if x.denied then .federationInviteDenied
    else if Overdue E now transfer then .expired
    else .pending

section

variable {E : Externals} {ourUserId : RpcUserId}

theorem said_handleEvent (db : SpTransfersDb) (e : RoomEvent) (transferId : SpMatrixTransferId)
    (sender : RpcUserId) :
    said (handleEvent E ourUserId db e) transferId sender = hear transferId sender (said db transferId sender) e := by
  unfold handleEvent hear RoomEvent.asks
  cases he : e.event with
  | pendingTransferStart amount federationId federationInvite nonce =>
    dsimp only
    split <;> rfl
  | transferSentHint pendingTransferId transactionId =>
    dsimp only
    unfold said
    simp only [BTreeMap.get?_insert, TransferSenderKey.mk.injEq]
    by_cases h : (⟨e.roomId, pendingTransferId⟩ : SpMatrixTransferId) = transferId ∧ e.sender = sender
    · rw [if_pos ⟨h.1.symm, h.2.symm⟩, if_pos h]
    · rw [if_neg fun h' => h ⟨h'.1.symm, h'.2.symm⟩, if_neg h]
  | transferFailed pendingTransferId =>
    dsimp only
    unfold said
    simp only [BTreeSet.contains_add, TransferSenderKey.mk.injEq]
    by_cases h : (⟨e.roomId, pendingTransferId⟩ : SpMatrixTransferId) = transferId ∧ e.sender = sender
    · rw [if_pos ⟨h.1.symm, h.2.symm⟩, if_pos h]
    · rw [if_neg fun h' => h ⟨h'.1.symm, h'.2.symm⟩, if_neg h]
  | federationInviteDenied pendingTransferId =>
    dsimp only
    unfold said
    simp only [BTreeSet.contains_add]
    by_cases h : (⟨e.roomId, pendingTransferId⟩ : SpMatrixTransferId) = transferId
    · rw [if_pos h.symm, if_pos h]
    · rw [if_neg fun h' => h h'.symm, if_neg h]
  | announceAccount accountId federationId =>
    dsimp only
    split
    · rfl
    · split <;> rfl

/-- All that an event can add. -/
theorem hear_cases (transferId : SpMatrixTransferId) (sender : RpcUserId) (x : Said) (e : RoomEvent) :
    (∃ transactionId, e.asks = some (transferId, .sentHint transactionId) ∧ e.sender = sender ∧
        hear transferId sender x e = { x with sentHint := some transactionId }) ∨
      (e.asks = some (transferId, .failed) ∧ e.sender = sender ∧
        hear transferId sender x e = { x with failed := true }) ∨
      (e.asks = some (transferId, .federationInviteDenied) ∧
        hear transferId sender x e = { x with denied := true }) ∨
      (e.asks ≠ some (transferId, .federationInviteDenied) ∧ hear transferId sender x e = x) := by
  unfold hear
  cases hasks : e.asks with
  | none => exact .inr (.inr (.inr ⟨by simp, rfl⟩))
  | some asks =>
    obtain ⟨about, status⟩ := asks
    cases status with
    | pending => exact .inr (.inr (.inr ⟨by simp, rfl⟩))
    | sentHint transactionId =>
      by_cases h : about = transferId ∧ e.sender = sender
      · exact .inl ⟨transactionId, by rw [h.1], h.2, if_pos h⟩
      · exact .inr (.inr (.inr ⟨by simp, if_neg h⟩))
    | failed =>
      by_cases h : about = transferId ∧ e.sender = sender
      · exact .inr (.inl ⟨by rw [h.1], h.2, if_pos h⟩)
      · exact .inr (.inr (.inr ⟨by simp, if_neg h⟩))
    | federationInviteDenied =>
      by_cases h : about = transferId
      · exact .inr (.inr (.inl ⟨by rw [h], if_pos h⟩))
      · exact .inr (.inr (.inr ⟨by simp [h], if_neg h⟩))
    | expired => exact .inr (.inr (.inr ⟨by simp, rfl⟩))

end

/-! ## Deliveries -/

/-- An event and the time at which it is handled. -/
structure Delivery where
  now : ℕ
  event : RoomEvent

/-- The database after some deliveries. -/
def deliver (E : Externals) (ourUserId : RpcUserId) (ds : List Delivery) : SpTransfersDb :=
  ds.foldl (fun db d => handleEvent E ourUserId db d.event) .empty

/-- The status of a transfer at a time, once its `PendingTransferStart` event was handled. -/
def statusAt (E : Externals) (now : ℕ) (db : SpTransfersDb) (transferId : SpMatrixTransferId) :
    Option SpTransferStatus :=
  (db.transferEvent.get? transferId).map (resolveStatusDb E now db transferId)

/-- Statuses are final, and those that an event asked for were asked for by a party to the transfer
(`receiver` names the other one of each transfer). -/
structure StatusStable (E : Externals) (ourUserId : RpcUserId) (receiver : SpMatrixTransferId → RpcUserId)
    (ds : List Delivery) : Prop where
  /-- A terminal status at `now` is the status at `now'`, whatever is handled in between. -/
  kept : ∀ before later after, ds = before ++ later ++ after → ∀ now now', now ≤ now' →
    (∀ d ∈ later, now ≤ d.now ∧ d.now ≤ now') → ∀ transferId status,
      statusAt E now (deliver E ourUserId before) transferId = some status → status ≠ .pending →
        statusAt E now' (deliver E ourUserId (before ++ later)) transferId = some status
  /-- Any terminal status but an expiry was asked for by the sender of the transfer or its receiver. -/
  byParties : ∀ before after, ds = before ++ after → ∀ now transferId transfer,
    (deliver E ourUserId before).transferEvent.get? transferId = some transfer → ∀ status,
      statusAt E now (deliver E ourUserId before) transferId = some status → status ≠ .pending →
        status ≠ .expired →
          ∃ d ∈ before, d.event.asks = some (transferId, status) ∧
            (d.event.sender = transfer.sentBy ∨ d.event.sender = receiver transferId)

/-! ## The condition -/

/-- An event about a transfer that was started comes in time: a sent hint of its sender repeats the
transaction named before, or comes before any failure, denial and deadline; a failure of its sender comes
after a sent hint or another failure, or before any denial and deadline; a denial comes after a
sent hint, a failure or another denial, or before the deadline. -/
def InTime (E : Externals) (d : Delivery) (transferId : SpMatrixTransferId) (transfer : TransferEventValue)
    (x : Said) : Prop :=
  match d.event.asks with
  | some (about, .sentHint transactionId) => about = transferId → d.event.sender = transfer.sentBy →
    x.sentHint = some transactionId ∨
      x.sentHint = none ∧ x.failed = false ∧ x.denied = false ∧ ¬ Overdue E d.now transfer
  | some (about, .failed) => about = transferId → d.event.sender = transfer.sentBy → x.sentHint = none →
    x.failed = false → x.denied = false ∧ ¬ Overdue E d.now transfer
  | some (about, .federationInviteDenied) => about = transferId → x.sentHint = none → x.failed = false →
    x.denied = false → ¬ Overdue E d.now transfer
  | _ => True

/-- Every event comes in time, and a denial that counts has been made by a party to the transfer. -/
structure Undisturbed (E : Externals) (ourUserId : RpcUserId) (receiver : SpMatrixTransferId → RpcUserId)
    (ds : List Delivery) : Prop where
  inTime : ∀ before d after, ds = before ++ d :: after → ∀ transferId transfer,
    (deliver E ourUserId before).transferEvent.get? transferId = some transfer →
      InTime E d transferId transfer (said (deliver E ourUserId before) transferId transfer.sentBy)
  denials : ∀ before after, ds = before ++ after → ∀ transferId transfer,
    (deliver E ourUserId before).transferEvent.get? transferId = some transfer →
      (said (deliver E ourUserId before) transferId transfer.sentBy).sentHint = none →
      (said (deliver E ourUserId before) transferId transfer.sentBy).failed = false →
      (∃ d ∈ before, d.event.asks = some (transferId, .federationInviteDenied)) →
        ∃ d ∈ before, d.event.asks = some (transferId, .federationInviteDenied) ∧
          (d.event.sender = transfer.sentBy ∨ d.event.sender = receiver transferId)

/-! ## Statuses along a run -/

section

variable {E : Externals} {ourUserId : RpcUserId} {receiver : SpMatrixTransferId → RpcUserId}

theorem deliver_snoc (ds : List Delivery) (d : Delivery) :
    deliver E ourUserId (ds ++ [d]) = handleEvent E ourUserId (deliver E ourUserId ds) d.event := by
  unfold deliver
  rw [List.foldl_append]
  rfl

theorem statusAt_eq_some {now : ℕ} {db : SpTransfersDb} {transferId : SpMatrixTransferId}
    {status : SpTransferStatus} : statusAt E now db transferId = some status ↔
      ∃ transfer, db.transferEvent.get? transferId = some transfer ∧
        (said db transferId transfer.sentBy).status E now transfer = status := by
  unfold statusAt
  rw [Option.map_eq_some_iff]
  rfl

/-- The row of a transfer is that of a delivered event. -/
theorem startedBy_deliver {ds : List Delivery} {transferId : SpMatrixTransferId} {transfer : TransferEventValue}
    (h : (deliver E ourUserId ds).transferEvent.get? transferId = some transfer) :
    StartedBy (ds.map Delivery.event) transferId transfer := by
  induction ds using List.reverseRecOn with
  | nil => cases h
  | append_singleton ds d ih =>
    rw [deliver_snoc] at h
    rw [List.map_append]
    rcases handleEvent_transferEvent h with h | h
    · exact (ih h).mono (List.subset_append_left _ _)
    · exact h.mono (List.subset_append_right _ _)

/-- A row that was written stays. -/
theorem handleEvent_transferEvent_isSome {db : SpTransfersDb} {e : RoomEvent} {transferId : SpMatrixTransferId}
    (h : (db.transferEvent.get? transferId).isSome = true) :
    ((handleEvent E ourUserId db e).transferEvent.get? transferId).isSome = true := by
  unfold handleEvent
  cases e.event with
  | pendingTransferStart amount federationId federationInvite nonce =>
    have hrow (v : TransferEventValue) :
        ((db.transferEvent.insert (.ofEvent e) v).get? transferId).isSome = true := by
      rw [BTreeMap.get?_insert]
      split
      · rfl
      · exact h
    dsimp only
    split
    · exact hrow _
    · exact hrow _
  | transferSentHint pendingTransferId transactionId => exact h
  | transferFailed pendingTransferId => exact h
  | federationInviteDenied pendingTransferId => exact h
  | announceAccount accountId federationId =>
    dsimp only
    split
    · exact h
    · split
      · exact h
      · exact h

/-- A transfer keeps its row: a duplicate of its start writes the same one. -/
theorem deliver_transferEvent_append {ds later : List Delivery}
    (hsame : SameEvents ((ds ++ later).map Delivery.event)) {transferId : SpMatrixTransferId}
    {transfer : TransferEventValue} (h : (deliver E ourUserId ds).transferEvent.get? transferId = some transfer) :
    (deliver E ourUserId (ds ++ later)).transferEvent.get? transferId = some transfer := by
  have hstays : ((deliver E ourUserId (ds ++ later)).transferEvent.get? transferId).isSome = true := by
    clear hsame
    induction later using List.reverseRecOn with
    | nil =>
      rw [List.append_nil, h]
      rfl
    | append_singleton later d ih =>
      rw [← List.append_assoc, deliver_snoc]
      exact handleEvent_transferEvent_isSome ih
  obtain ⟨transfer', h'⟩ := Option.isSome_iff_exists.mp hstays
  have hstart : StartedBy ((ds ++ later).map Delivery.event) transferId transfer := by
    rw [List.map_append]
    exact (startedBy_deliver h).mono (List.subset_append_left _ _)
  rw [h', StartedBy.unique hsame (startedBy_deliver h') hstart]

theorem said_deliver_snoc (ds : List Delivery) (d : Delivery) (transferId : SpMatrixTransferId)
    (sender : RpcUserId) :
    said (deliver E ourUserId (ds ++ [d])) transferId sender =
      hear transferId sender (said (deliver E ourUserId ds) transferId sender) d.event := by
  rw [deliver_snoc, said_handleEvent]

/-- What is said of a transfer, some event of its sender said; what is denied, some event denied. -/
structure Sourced (ds : List Delivery) (transferId : SpMatrixTransferId) (sender : RpcUserId) (x : Said) :
    Prop where
  sentHint : ∀ transactionId, x.sentHint = some transactionId →
    ∃ d ∈ ds, d.event.asks = some (transferId, .sentHint transactionId) ∧ d.event.sender = sender
  failed : x.failed = true → ∃ d ∈ ds, d.event.asks = some (transferId, .failed) ∧ d.event.sender = sender
  denied : x.denied = true ↔ ∃ d ∈ ds, d.event.asks = some (transferId, .federationInviteDenied)

theorem Sourced.hear {ds : List Delivery} {transferId : SpMatrixTransferId} {sender : RpcUserId} {x : Said}
    (h : Sourced ds transferId sender x) (d : Delivery) :
    Sourced (ds ++ [d]) transferId sender (hear transferId sender x d.event) := by
  have hold {p : Delivery → Prop} : (∃ d' ∈ ds, p d') → ∃ d' ∈ ds ++ [d], p d' := by
    rintro ⟨d', hd', hp⟩
    exact ⟨d', List.mem_append_left _ hd', hp⟩
  have hnew {p : Delivery → Prop} (hp : p d) : ∃ d' ∈ ds ++ [d], p d' := ⟨d, by simp, hp⟩
  have hdenied (hne : d.event.asks ≠ some (transferId, .federationInviteDenied)) : x.denied = true ↔
      ∃ d' ∈ ds ++ [d], d'.event.asks = some (transferId, .federationInviteDenied) := by
    rw [h.denied]
    constructor
    · exact hold
    · rintro ⟨d', hd', hp⟩
      rcases List.mem_append.mp hd' with hd' | hd'
      · exact ⟨d', hd', hp⟩
      · rw [List.mem_singleton.mp hd'] at hp
        exact absurd hp hne
  rcases hear_cases transferId sender x d.event with
    ⟨transactionId, hasks, hsender, heq⟩ | ⟨hasks, hsender, heq⟩ | ⟨hasks, heq⟩ | ⟨hasks, heq⟩
  · rw [heq]
    refine ⟨?_, fun hf => hold (h.failed hf), hdenied (by simp [hasks])⟩
    intro transactionId' hhint
    cases hhint
    exact hnew ⟨hasks, hsender⟩
  · rw [heq]
    exact ⟨fun _ hhint => hold (h.sentHint _ hhint), fun _ => hnew ⟨hasks, hsender⟩, hdenied (by simp [hasks])⟩
  · rw [heq]
    exact ⟨fun _ hhint => hold (h.sentHint _ hhint), fun hf => hold (h.failed hf),
      fun _ => hnew hasks, fun _ => rfl⟩
  · rw [heq]
    exact ⟨fun _ hhint => hold (h.sentHint _ hhint), fun hf => hold (h.failed hf), hdenied hasks⟩

variable (E ourUserId) in
theorem sourced_deliver (ds : List Delivery) (transferId : SpMatrixTransferId) (sender : RpcUserId) :
    Sourced ds transferId sender (said (deliver E ourUserId ds) transferId sender) := by
  induction ds using List.reverseRecOn with
  | nil =>
    exact ⟨fun _ h => (by cases h), fun h => (by cases h), fun h => (by cases h), fun ⟨_, h, _⟩ => (by cases h)⟩
  | append_singleton ds d ih =>
    rw [said_deliver_snoc]
    exact ih.hear d

/-! ## What an event in time keeps -/

/-- The status at a time is terminal. -/
def Said.Closed (E : Externals) (now : ℕ) (transfer : TransferEventValue) (x : Said) : Prop :=
  x.status E now transfer ≠ .pending

theorem Said.closed_iff {now : ℕ} {transfer : TransferEventValue} {x : Said} : x.Closed E now transfer ↔
    (∃ transactionId, x.sentHint = some transactionId) ∨ x.failed = true ∨ x.denied = true ∨
      Overdue E now transfer := by
  obtain ⟨sentHint, failed, denied⟩ := x
  unfold Said.Closed Said.status
  cases sentHint with
  | some transactionId => simp
  | none =>
    cases failed <;> cases denied <;> by_cases hdue : Overdue E now transfer <;> simp [hdue]

/-- Time leaves a terminal status as it is. -/
theorem Said.status_later {now now' : ℕ} (hnow : now ≤ now') {transfer : TransferEventValue} {x : Said}
    (hclosed : x.Closed E now transfer) : x.status E now' transfer = x.status E now transfer := by
  obtain ⟨sentHint, failed, denied⟩ := x
  unfold Said.Closed at hclosed
  unfold Said.status at hclosed ⊢
  have hdue : Overdue E now transfer → Overdue E now' transfer := by
    unfold Overdue
    omega
  cases sentHint with
  | some transactionId => rfl
  | none =>
    cases failed with
    | true => simp
    | false =>
      cases denied with
      | true => simp
      | false =>
        by_cases h : Overdue E now transfer
        · simp [h, hdue h]
        · simp [h] at hclosed

/-- A sent hint decides the status. -/
theorem Said.status_sentHint {now : ℕ} {transfer : TransferEventValue} {x : Said} {transactionId : TransactionId} :
    ({ x with sentHint := some transactionId } : Said).status E now transfer = x.status E now transfer ↔
      x.sentHint = some transactionId := by
  obtain ⟨sentHint, failed, denied⟩ := x
  unfold Said.status
  cases sentHint with
  | some known => simp [eq_comm]
  | none =>
    cases failed <;> cases denied <;> by_cases hdue : Overdue E now transfer <;> simp [hdue]

/-- A failure gives way to a sent hint only. -/
theorem Said.status_failed {now : ℕ} {transfer : TransferEventValue} {x : Said} :
    ({ x with failed := true } : Said).status E now transfer = x.status E now transfer ↔
      (x.sentHint = none → x.failed = true) := by
  obtain ⟨sentHint, failed, denied⟩ := x
  unfold Said.status
  cases sentHint with
  | some known => simp
  | none =>
    cases failed <;> cases denied <;> by_cases hdue : Overdue E now transfer <;> simp [hdue]

/-- A denial gives way to a sent hint or a failure. -/
theorem Said.status_denied {now : ℕ} {transfer : TransferEventValue} {x : Said} :
    ({ x with denied := true } : Said).status E now transfer = x.status E now transfer ↔
      (x.sentHint = none → x.failed = false → x.denied = true) := by
  obtain ⟨sentHint, failed, denied⟩ := x
  unfold Said.status
  cases sentHint with
  | some known => simp
  | none =>
    cases failed <;> cases denied <;> by_cases hdue : Overdue E now transfer <;> simp [hdue]

/-- An event keeps a terminal status exactly when it comes in time. -/
theorem inTime_iff {d : Delivery} {transferId : SpMatrixTransferId} {transfer : TransferEventValue} {x : Said} :
    InTime E d transferId transfer x ↔ (x.Closed E d.now transfer →
      (hear transferId transfer.sentBy x d.event).status E d.now transfer = x.status E d.now transfer) := by
  rw [Said.closed_iff]
  unfold InTime hear
  cases d.event.asks with
  | none => simp
  | some asks =>
    obtain ⟨about, status⟩ := asks
    cases status with
    | pending => simp
    | sentHint transactionId =>
      dsimp only
      split
      next h =>
        rw [Said.status_sentHint]
        cases x.sentHint with
        | some known => simp [h]
        | none =>
          by_cases hdue : Overdue E d.now transfer <;> cases x.failed <;> cases x.denied <;> simp [h, hdue]
      next h => exact ⟨fun _ _ => rfl, fun _ habout hsender => absurd ⟨habout, hsender⟩ h⟩
    | failed =>
      dsimp only
      split
      next h =>
        rw [Said.status_failed]
        cases x.sentHint with
        | some known => simp
        | none =>
          by_cases hdue : Overdue E d.now transfer <;> cases x.failed <;> cases x.denied <;> simp [h, hdue]
      next h => exact ⟨fun _ _ => rfl, fun _ habout hsender => absurd ⟨habout, hsender⟩ h⟩
    | federationInviteDenied =>
      dsimp only
      split
      next h =>
        rw [Said.status_denied]
        cases x.sentHint with
        | some known => simp
        | none =>
          by_cases hdue : Overdue E d.now transfer <;> cases x.failed <;> cases x.denied <;> simp [h, hdue]
      next h => exact ⟨fun _ _ => rfl, fun _ habout => absurd habout h⟩
    | expired => simp

/-- What comes before the deadline at a later time does so now. -/
theorem InTime.earlier {d : Delivery} {transferId : SpMatrixTransferId} {transfer : TransferEventValue} {x : Said}
    (h : InTime E d transferId transfer x) {now : ℕ} (hnow : now ≤ d.now) :
    InTime E ⟨now, d.event⟩ transferId transfer x := by
  have hdue : ¬ Overdue E d.now transfer → ¬ Overdue E now transfer := by
    unfold Overdue
    omega
  unfold InTime at h ⊢
  cases hasks : d.event.asks with
  | none => trivial
  | some asks =>
    obtain ⟨about, status⟩ := asks
    rw [hasks] at h
    cases status with
    | pending => trivial
    | sentHint transactionId =>
      intro habout hsender
      rcases h habout hsender with hknown | ⟨hhint, hfailed, hdenied, hd⟩
      · exact .inl hknown
      · exact .inr ⟨hhint, hfailed, hdenied, hdue hd⟩
    | failed =>
      intro habout hsender hhint hfailed
      obtain ⟨hdenied, hd⟩ := h habout hsender hhint hfailed
      exact ⟨hdenied, hdue hd⟩
    | federationInviteDenied =>
      intro habout hhint hfailed hdenied
      exact hdue (h habout hhint hfailed hdenied)
    | expired => trivial

theorem SameEvents.subset {events events' : List RoomEvent} (h : SameEvents events') (hsub : events ⊆ events') :
    SameEvents events := fun e he e' he' => h e (hsub he) e' (hsub he')

/-- A terminal status survives events that all come in time. -/
theorem Undisturbed.status_later {ds : List Delivery} (h : Undisturbed E ourUserId receiver ds)
    (hsame : SameEvents (ds.map Delivery.event)) {before : List Delivery} {transferId : SpMatrixTransferId}
    {transfer : TransferEventValue} {now : ℕ}
    (hrow : (deliver E ourUserId before).transferEvent.get? transferId = some transfer)
    (hclosed : (said (deliver E ourUserId before) transferId transfer.sentBy).Closed E now transfer)
    {later after : List Delivery} (hds : ds = before ++ later ++ after) (hnow : ∀ d ∈ later, now ≤ d.now) :
    (said (deliver E ourUserId (before ++ later)) transferId transfer.sentBy).status E now transfer =
      (said (deliver E ourUserId before) transferId transfer.sentBy).status E now transfer := by
  induction later using List.reverseRecOn generalizing after with
  | nil => rw [List.append_nil]
  | append_singleton later d ih =>
    have hsplit : ds = before ++ later ++ d :: after := by
      rw [hds]
      simp
    have hstatus := ih hsplit fun d' hd' => hnow d' (List.mem_append_left _ hd')
    have hsub : (before ++ later).map Delivery.event ⊆ ds.map Delivery.event := by
      rw [hds]
      simp
    have hin := h.inTime (before ++ later) d after hsplit transferId transfer
      (deliver_transferEvent_append (hsame.subset hsub) hrow)
    have hstays := inTime_iff.mp (hin.earlier (hnow d (by simp))) (by
      unfold Said.Closed
      rw [hstatus]
      exact hclosed)
    rw [← List.append_assoc, said_deliver_snoc, ← hstatus]
    exact hstays

/-! ## The theorem -/

theorem StatusStable.undisturbed {ds : List Delivery} (hsame : SameEvents (ds.map Delivery.event))
    (h : StatusStable E ourUserId receiver ds) : Undisturbed E ourUserId receiver ds where
  inTime := by
    intro before d after hds transferId transfer hrow
    rw [inTime_iff]
    intro hclosed
    have hstatus : statusAt E d.now (deliver E ourUserId before) transferId =
        some ((said (deliver E ourUserId before) transferId transfer.sentBy).status E d.now transfer) :=
      statusAt_eq_some.mpr ⟨transfer, hrow, rfl⟩
    have hkept := h.kept before [d] after (by rw [hds]; simp) d.now d.now (le_refl _) (by simp) transferId _
      hstatus hclosed
    obtain ⟨transfer', hrow', hstatus'⟩ := statusAt_eq_some.mp hkept
    have hsub : (before ++ [d]).map Delivery.event ⊆ ds.map Delivery.event := by
      rw [hds]
      simp
    rw [deliver_transferEvent_append (hsame.subset hsub) hrow] at hrow'
    cases hrow'
    rw [said_deliver_snoc] at hstatus'
    exact hstatus'
  denials := by
    intro before after hds transferId transfer hrow hhint hfailed hdenial
    have hdenied := (sourced_deliver E ourUserId before transferId
      transfer.sentBy).denied.mpr hdenial
    have hstatus : (said (deliver E ourUserId before) transferId transfer.sentBy).status E 0 transfer =
        .federationInviteDenied := by
      unfold Said.status
      rw [hhint, hfailed, hdenied]
      rfl
    exact h.byParties before after hds 0 transferId transfer hrow .federationInviteDenied
      (statusAt_eq_some.mpr ⟨transfer, hrow, hstatus⟩) (by simp) (by simp)

theorem Undisturbed.stable {ds : List Delivery} (hsame : SameEvents (ds.map Delivery.event))
    (h : Undisturbed E ourUserId receiver ds) : StatusStable E ourUserId receiver ds where
  kept := by
    intro before later after hds now now' hnow htimes transferId status hstatus hterminal
    obtain ⟨transfer, hrow, rfl⟩ := statusAt_eq_some.mp hstatus
    have hsub : (before ++ later).map Delivery.event ⊆ ds.map Delivery.event := by
      rw [hds]
      simp
    have hlater := h.status_later hsame hrow hterminal hds fun d hd => (htimes d hd).1
    refine statusAt_eq_some.mpr ⟨transfer, deliver_transferEvent_append (hsame.subset hsub) hrow, ?_⟩
    rw [← hlater]
    refine Said.status_later hnow ?_
    unfold Said.Closed
    rw [hlater]
    exact hterminal
  byParties := by
    intro before after hds now transferId transfer hrow status hstatus hpending hexpired
    obtain ⟨transfer', hrow', rfl⟩ := statusAt_eq_some.mp hstatus
    rw [hrow] at hrow'
    cases hrow'
    have hsourced := sourced_deliver E ourUserId before transferId transfer.sentBy
    have hdenials := h.denials before after hds transferId transfer hrow
    revert hsourced hdenials hpending hexpired
    generalize said (deliver E ourUserId before) transferId transfer.sentBy = x
    intro hpending hexpired hsourced hdenials
    unfold Said.status at hpending hexpired ⊢
    cases hhint : x.sentHint with
    | some transactionId =>
      obtain ⟨d, hd, hasks, hsender⟩ := hsourced.sentHint transactionId hhint
      exact ⟨d, hd, hasks, .inl hsender⟩
    | none =>
      rw [hhint] at hpending hexpired
      dsimp only at hpending hexpired ⊢
      cases hfailed : x.failed with
      | true =>
        obtain ⟨d, hd, hasks, hsender⟩ := hsourced.failed hfailed
        exact ⟨d, hd, hasks, .inl hsender⟩
      | false =>
        cases hdenied : x.denied with
        | true =>
          exact hdenials hhint hfailed (hsourced.denied.mp hdenied)
        | false =>
          rw [hfailed, hdenied] at hpending hexpired
          by_cases hdue : Overdue E now transfer
          · simp [hdue] at hexpired
          · simp [hdue] at hpending

/-- Statuses are final, and made so by a party to the transfer, exactly in the runs whose events
come in time and whose denials count only when a party made one. -/
theorem statusStable_iff {ds : List Delivery} (hsame : SameEvents (ds.map Delivery.event)) :
    StatusStable E ourUserId receiver ds ↔ Undisturbed E ourUserId receiver ds :=
  ⟨StatusStable.undisturbed hsame, Undisturbed.stable hsame⟩

end

/-! ## Two runs of three deliveries -/

def demoExternals : Externals where
  crypto := {
    accountHash := fun account => account.pubKeys.sum
    requestHash := fun request => request.nonce + request.recipient.hash
    xOnlyPublicKey := id
    verify := fun _ _ _ => true }
  ourAccount := fun _ => none
  parseAccountId := fun _ => none
  transferMeta := fun _ => []
  transferExpirySecs := 60

def demoTransferId : SpMatrixTransferId := ⟨0, 10⟩

/-- User 0 starts the transfer. -/
def demoStart : Delivery where
  now := 0
  event := ⟨0, 10, 0, 0, .pendingTransferStart 100 4 none 77⟩

/-- User 7, who has no part in it, says that it failed. -/
def demoOutsiderFailed : Delivery where
  now := 1
  event := ⟨0, 11, 7, 1, .transferFailed 10⟩

def demoOutsiderDenied : Delivery where
  now := 1
  event := ⟨0, 11, 7, 1, .federationInviteDenied 10⟩

/-- User 0 names the transaction. -/
def demoSentHint : Delivery where
  now := 2
  event := ⟨0, 12, 0, 2, .transferSentHint 10 5⟩

theorem statusStable_iff_demo :
    StatusStable demoExternals 1 (fun _ => 1) [demoStart, demoOutsiderFailed, demoSentHint] := by
  refine (statusStable_iff (by unfold SameEvents; decide)).mpr ⟨?_, ?_⟩
  · refine Runs.forall_splits_cons ?_ (Runs.forall_splits_cons ?_ (Runs.forall_splits_cons ?_
      Runs.forall_splits_nil))
    · intro transferId transfer hrow
      cases hrow
    · intro transferId transfer hrow habout hsender
      obtain ⟨e, he, -, _, _, _, _, -, rfl⟩ := startedBy_deliver hrow
      rw [List.mem_singleton.mp he] at hsender
      cases hsender
    · intro transferId transfer hrow habout hsender
      obtain ⟨e, he, -, _, _, _, _, hevent, rfl⟩ := startedBy_deliver hrow
      cases habout
      rcases List.mem_pair.mp he with rfl | rfl
      · cases hevent
        exact .inr (by decide +kernel)
      · cases hevent
  · intro before after hds transferId transfer hrow hhint hfailed hdenial
    obtain ⟨d, hd, hasks⟩ := hdenial
    have hd : d ∈ [demoStart, demoOutsiderFailed, demoSentHint] := by
      rw [hds]
      exact List.mem_append_left _ hd
    have hnone : ∀ d ∈ [demoStart, demoOutsiderFailed, demoSentHint],
        (d.event.asks.map Prod.snd) ≠ some .federationInviteDenied := by decide
    have hmap := congrArg (Option.map Prod.snd) hasks
    exact absurd hmap (hnone d hd)

/-- A denial of somebody else ends a transfer, which is then sent. -/
theorem denied_then_sent :
    statusAt demoExternals 1 (deliver demoExternals 1 [demoStart, demoOutsiderDenied]) demoTransferId =
        some .federationInviteDenied ∧
      statusAt demoExternals 2 (deliver demoExternals 1 [demoStart, demoOutsiderDenied, demoSentHint])
        demoTransferId = some (.sentHint 5) ∧
      ¬ StatusStable demoExternals 1 (fun _ => 1) [demoStart, demoOutsiderDenied, demoSentHint] := by
  have hdenied : statusAt demoExternals 1 (deliver demoExternals 1 [demoStart, demoOutsiderDenied])
      demoTransferId = some .federationInviteDenied := by decide +kernel
  have hsent : statusAt demoExternals 2 (deliver demoExternals 1 [demoStart, demoOutsiderDenied, demoSentHint])
      demoTransferId = some (.sentHint 5) := by decide +kernel
  refine ⟨hdenied, hsent, fun h => ?_⟩
  have hkept := h.kept [demoStart, demoOutsiderDenied] [demoSentHint] [] rfl 1 2 (by decide) (by decide)
    demoTransferId _ hdenied (by decide)
  rw [List.cons_append, List.cons_append, List.nil_append, hsent] at hkept
  cases hkept

end SpTransfer
