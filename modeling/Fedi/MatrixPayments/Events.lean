import Mathlib

/-!
# Payment events of a room timeline

A payment is a chain of timeline events with one `paymentId`: a push or a request, then its
status updates.  What can be claimed is read off the newest event of each payment that is
addressed to the local user; what can be reclaimed is every rejected event sent in the local
user's name.

    timeline:                pushed p ... accepted p ... received p ... pushed q
    getReceivablePaymentEvents:           (p is received)               [pushed q]
-/

namespace MatrixPayments

/-! ## Events -/

inductive RpcMatrixPaymentStatus
  | pushed
  | requested
  | accepted
  | rejected
  | canceled
  | received
deriving DecidableEq

structure RpcPaymentMessageContent where
  body : String
  status : RpcMatrixPaymentStatus
  paymentId : String
  recipientId : Option String
  senderOperationId : Option String
  receiverOperationId : Option String
  amount : ℕ
  senderId : Option String
  ecash : Option String
  federationId : Option String
deriving DecidableEq

/-- A payment message, as `sender` sent it to a room. -/
structure MatrixPaymentEvent where
  id : String
  roomId : String
  sender : String
  content : RpcPaymentMessageContent
deriving DecidableEq

abbrev MatrixPaymentEvent.paymentId (event : MatrixPaymentEvent) : String := event.content.paymentId

inductive MatrixEvent
  | payment (event : MatrixPaymentEvent)
  | other
deriving DecidableEq

structure LoadedFederation where
  id : String
  recovering : Bool
deriving DecidableEq

/-- An optional string that is neither missing nor empty. -/
def given : Option String → Bool
  | none => false
  | some text => decide (text ≠ "")

section

variable (myId : String) (myFederations : List LoadedFederation)

/-- The ecash is from a federation that is joined and not recovering. -/
def joined (event : MatrixPaymentEvent) : Bool :=
  match myFederations.find? fun f => decide (some f.id = event.content.federationId) with
  | none => false
  | some joinedFederation => !joinedFederation.recovering

/-- The payment events addressed to the user from a joined federation. -/
def addressed (item : Option MatrixEvent) : Option MatrixPaymentEvent :=
  match item with
  | some (.payment event) =>
    if event.content.recipientId = some myId ∧ given event.content.federationId ∧ joined myFederations event then
      some event
    else none
  | _ => none

/-- `latestPayments[paymentId] = event`, on an object literal: an entry stays where it was inserted first, and
`__proto__` makes none.  (The source lists ids that are array indices first; nothing depends on the order.) -/
def setLatest (latestPayments : List MatrixPaymentEvent) (event : MatrixPaymentEvent) : List MatrixPaymentEvent :=
  if event.paymentId = "__proto__" then latestPayments
  else if latestPayments.any fun old => decide (old.paymentId = event.paymentId) then
    latestPayments.map fun old => if old.paymentId = event.paymentId then event else old
  else latestPayments ++ [event]

def MatrixPaymentEvent.payable (event : MatrixPaymentEvent) : Bool :=
  match event.content.status with
  | .accepted | .pushed => true
  | _ => false

def getReceivablePaymentEvents (timeline : List (Option MatrixEvent)) : List MatrixPaymentEvent :=
  ((timeline.filterMap (addressed myId myFederations)).foldl setLatest []).filter (·.payable)

/-- A rejected payment of the user's. -/
def reclaimable (item : Option MatrixEvent) : Option MatrixPaymentEvent :=
  match item with
  | some (.payment event) =>
    if event.content.senderId = some myId ∧ given event.content.ecash ∧ event.content.status = .rejected ∧
        given event.content.federationId ∧ joined myFederations event then
      some event
    else none
  | _ => none

def getReclaimablePaymentEvents (timeline : List (Option MatrixEvent)) : List MatrixPaymentEvent :=
  timeline.filterMap (reclaimable myId myFederations)

end

/-! ## Checks -/

/-- The events whose payment is not marked yet; their payments are marked. -/
def attempt (receivedPayments : Finset String) : List MatrixPaymentEvent → Finset String × List MatrixPaymentEvent
  | [] => (receivedPayments, [])
  | event :: events =>
    if event.paymentId ∈ receivedPayments then attempt receivedPayments events
    else
      let r := attempt (insert event.paymentId receivedPayments) events
      (r.1, event :: r.2)

/-- What a check marks, and what it dispatches. -/
structure Check where
  receivedPayments : Finset String
  claims : List MatrixPaymentEvent
  reclaims : List MatrixPaymentEvent

/-- `checkForReceivablePayments`: the claims first, then the reclaims, with one set for both. -/
def checkForReceivablePayments (myId : String) (walletFederations : List LoadedFederation)
    (timeline : List (Option MatrixEvent)) (receivedPayments : Finset String) : Check :=
  let claims := attempt receivedPayments (getReceivablePaymentEvents myId walletFederations timeline)
  let reclaims := attempt claims.1 (getReclaimablePaymentEvents myId walletFederations timeline)
  ⟨reclaims.1, claims.2, reclaims.2⟩

/-! ## The newest event of a payment -/

def ofPayment (paymentId : String) (events : List MatrixPaymentEvent) : List MatrixPaymentEvent :=
  events.filter fun event => decide (event.paymentId = paymentId)

def newest (paymentId : String) (events : List MatrixPaymentEvent) : Option MatrixPaymentEvent :=
  (ofPayment paymentId events).getLast?

theorem newest_append (paymentId : String) (events : List MatrixPaymentEvent) (event : MatrixPaymentEvent) :
    newest paymentId (events ++ [event]) =
      if event.paymentId = paymentId then some event else newest paymentId events := by
  unfold newest ofPayment
  rw [List.filter_append]
  by_cases h : event.paymentId = paymentId
  · simp [h]
  · simp [h]

theorem newest_paymentId {paymentId : String} {events : List MatrixPaymentEvent} {event : MatrixPaymentEvent}
    (h : newest paymentId events = some event) : event.paymentId = paymentId ∧ event ∈ events := by
  have hmem := List.mem_of_getLast? h
  unfold ofPayment at hmem
  simpa [and_comm] using hmem

theorem mem_setLatest {latestPayments : List MatrixPaymentEvent} {event x : MatrixPaymentEvent} :
    x ∈ setLatest latestPayments event ↔
      if event.paymentId = "__proto__" then x ∈ latestPayments
      else x = event ∨ x ∈ latestPayments ∧ x.paymentId ≠ event.paymentId := by
  by_cases hproto : event.paymentId = "__proto__"
  · rw [setLatest, if_pos hproto, if_pos hproto]
  rw [setLatest, if_neg hproto, if_neg hproto]
  split
  next hany =>
    obtain ⟨old, hold, hid⟩ := List.any_eq_true.mp hany
    have hid := of_decide_eq_true hid
    rw [List.mem_map]
    constructor
    · rintro ⟨y, hy, rfl⟩
      by_cases h : y.paymentId = event.paymentId
      · simp [h]
      · simp only [h, if_false]
        exact .inr ⟨hy, h⟩
    · rintro (rfl | ⟨hx, h⟩)
      · exact ⟨old, hold, by simp [hid]⟩
      · exact ⟨x, hx, by simp [h]⟩
  next hnone =>
    rw [List.mem_append, List.mem_singleton]
    have hother : x ∈ latestPayments → x.paymentId ≠ event.paymentId := by
      intro hx h
      exact hnone (List.any_eq_true.mpr ⟨x, hx, by simpa using h⟩)
    constructor
    · rintro (hx | rfl)
      · exact .inr ⟨hx, hother hx⟩
      · exact .inl rfl
    · rintro (rfl | ⟨hx, -⟩)
      · exact .inr rfl
      · exact .inl hx

theorem mem_latest {events : List MatrixPaymentEvent} {x : MatrixPaymentEvent} :
    x ∈ events.foldl setLatest [] ↔ x.paymentId ≠ "__proto__" ∧ newest x.paymentId events = some x := by
  induction events using List.reverseRecOn with
  | nil => simp [newest, ofPayment]
  | append_singleton events event ih =>
    rw [List.foldl_append, List.foldl_cons, List.foldl_nil, mem_setLatest, newest_append, ih]
    by_cases h : event.paymentId = x.paymentId
    · by_cases hproto : x.paymentId = "__proto__"
      · simp [h, hproto]
      · simp [h, hproto, eq_comm]
    · simp only [h, if_false]
      split
      · exact Iff.rfl
      next hproto =>
        constructor
        · rintro (rfl | ⟨hx, -⟩)
          · exact absurd rfl h
          · exact hx
        · exact fun hx => .inr ⟨hx, fun heq => h heq.symm⟩

theorem mem_receivable {myId : String} {myFederations : List LoadedFederation} {timeline : List (Option MatrixEvent)}
    {x : MatrixPaymentEvent} : x ∈ getReceivablePaymentEvents myId myFederations timeline ↔
      x.paymentId ≠ "__proto__" ∧
        newest x.paymentId (timeline.filterMap (addressed myId myFederations)) = some x ∧ x.payable = true := by
  unfold getReceivablePaymentEvents
  rw [List.mem_filter, mem_latest, and_assoc]

/-! ## What a check attempts -/

variable {receivedPayments : Finset String} {events : List MatrixPaymentEvent} {paymentId : String}

theorem mem_attempt_fst :
    paymentId ∈ (attempt receivedPayments events).1 ↔
      paymentId ∈ receivedPayments ∨ ∃ event ∈ events, event.paymentId = paymentId := by
  induction events generalizing receivedPayments with
  | nil => simp [attempt]
  | cons event events ih =>
    unfold attempt
    split
    next hmarked =>
      rw [ih, List.exists_mem_cons_iff]
      constructor
      · rintro (h | h)
        · exact .inl h
        · exact .inr (.inr h)
      · rintro (h | rfl | h)
        · exact .inl h
        · exact .inl hmarked
        · exact .inr h
    · dsimp only
      rw [ih, Finset.mem_insert, List.exists_mem_cons_iff, or_assoc, or_left_comm, eq_comm]

/-- Only unmarked payments are attempted. -/
theorem of_mem_attempt {event : MatrixPaymentEvent} (h : event ∈ (attempt receivedPayments events).2) :
    event ∈ events ∧ event.paymentId ∉ receivedPayments := by
  induction events generalizing receivedPayments with
  | nil => simp [attempt] at h
  | cons first events ih =>
    unfold attempt at h
    split at h
    · exact ⟨List.mem_cons_of_mem _ (ih h).1, (ih h).2⟩
    next hfree =>
      rcases List.mem_cons.mp h with rfl | hrest
      · exact ⟨List.mem_cons_self, hfree⟩
      · obtain ⟨hmem, hnot⟩ := ih hrest
        exact ⟨List.mem_cons_of_mem _ hmem, fun hin => hnot (Finset.mem_insert_of_mem hin)⟩

/-- Every unmarked payment is attempted. -/
theorem exists_attempt (hfree : paymentId ∉ receivedPayments) (h : ∃ event ∈ events, event.paymentId = paymentId) :
    ∃ event ∈ (attempt receivedPayments events).2, event.paymentId = paymentId := by
  induction events generalizing receivedPayments with
  | nil => simp at h
  | cons first events ih =>
    rw [List.exists_mem_cons_iff] at h
    unfold attempt
    split
    next hmarked =>
      refine ih hfree (h.resolve_left ?_)
      rintro rfl
      exact hfree hmarked
    · rw [List.exists_mem_cons_iff]
      by_cases hfirst : first.paymentId = paymentId
      · exact .inl hfirst
      · refine .inr (ih ?_ (h.resolve_left hfirst))
        rw [Finset.mem_insert, not_or]
        exact ⟨fun heq => hfirst heq.symm, hfree⟩

/-- No payment is attempted twice. -/
theorem attempt_nodup : ((attempt receivedPayments events).2.map MatrixPaymentEvent.paymentId).Nodup := by
  induction events generalizing receivedPayments with
  | nil => exact List.nodup_nil
  | cons first events ih =>
    unfold attempt
    split
    · exact ih
    · rw [List.map_cons, List.nodup_cons]
      refine ⟨fun hmem => ?_, ih⟩
      obtain ⟨event, hevent, hid⟩ := List.mem_map.mp hmem
      exact (of_mem_attempt hevent).2 (hid ▸ Finset.mem_insert_self _ _)

end MatrixPayments
