import Fedi.MatrixPayments.Events

/-!
# Which ecash of a timeline is claimed

The timeline grows by any number of events between two checks, and a check claims the newest
event of each payment that is not marked yet.  Every ecash token owed to the user is handed to
a claim, however the timeline is cut by the checks, exactly when each payment is consistent
(`delivered_iff`): all its messages carry one token, the newest still pays, no rejected
message in the user's own name marks the payment first, and its id can be a key of an object.

Two members who accept the same request send two tokens under one payment id, and one of them
is never claimed (`acceptedTwice_loses`).
-/

namespace MatrixPayments

section

variable (myId : String) (myFederations : List LoadedFederation)

/-! ## Runs -/

/-- A room, the payments that are marked, and the events that were handed to a claim. -/
structure Chat where
  timeline : List (Option MatrixEvent)
  receivedPayments : Finset String
  claimed : List MatrixPaymentEvent

inductive Step
  | update (events : List (Option MatrixEvent))
  | check
  /-- A claim or a reclaim of the payment fails, and frees it. -/
  | fail (paymentId : String)

def Chat.step (s : Chat) : Step → Chat
  | .update events => { s with timeline := s.timeline ++ events }
  | .check =>
    let r := checkForReceivablePayments myId myFederations s.timeline s.receivedPayments
    -- a claim without a token throws, which frees its payment at once
    { s with
      receivedPayments := r.receivedPayments.filter fun paymentId =>
        ∀ event ∈ r.claims, event.paymentId = paymentId → given event.content.ecash = true
      claimed := s.claimed ++ r.claims }
  | .fail paymentId => { s with receivedPayments := s.receivedPayments.erase paymentId }

/-- The room after a run that ends with a check. -/
def chat (steps : List Step) : Chat := (steps ++ [Step.check]).foldl (Chat.step myId myFederations) ⟨[], ∅, []⟩

/-- The events of a run, in order. -/
def timelineOf (steps : List Step) : List (Option MatrixEvent) :=
  steps.flatMap fun
    | .update events => events
    | _ => []

/-! ## What is promised -/

/-- The message brings the user a token. -/
structure Owed (event : MatrixPaymentEvent) : Prop where
  addressed : addressed myId myFederations (some (.payment event)) = some event
  payable : event.payable = true
  token : given event.content.ecash = true

/-- The payment's own sender or recipient closes it later. -/
def Closed (timeline : List (Option MatrixEvent)) (i : ℕ) (event : MatrixPaymentEvent) : Prop :=
  ∃ j later, i < j ∧ timeline[j]? = some (some (.payment later)) ∧ later.paymentId = event.paymentId ∧
    (event.content.senderId = some later.sender ∨ event.content.recipientId = some later.sender) ∧
    later.content.status ∈ [.canceled, .rejected, .received]

/-- Somebody still owes the user the token of message `i`. -/
def Due (timeline : List (Option MatrixEvent)) (i : ℕ) (event : MatrixPaymentEvent) : Prop :=
  timeline[i]? = some (some (.payment event)) ∧ Owed myId myFederations event ∧ ¬ Closed timeline i event

def Delivered (s : Chat) : Prop :=
  ∀ i event, Due myId myFederations s.timeline i event →
    ∃ claim ∈ s.claimed, claim.paymentId = event.paymentId ∧ claim.content.ecash = event.content.ecash

/-! ## The condition -/

/-- The messages of the event's payment agree. -/
structure Consistent (timeline : List (Option MatrixEvent)) (event : MatrixPaymentEvent) : Prop where
  /-- An assignment to this name makes no entry. -/
  named : event.paymentId ≠ "__proto__"
  oneToken : ∀ other ∈ timeline.filterMap (addressed myId myFederations), other.paymentId = event.paymentId →
    other.payable = true → given other.content.ecash = true → other.content.ecash = event.content.ecash
  newestPays : ∃ last, newest event.paymentId (timeline.filterMap (addressed myId myFederations)) = some last ∧
    last.payable = true ∧ last.content.ecash = event.content.ecash
  claimedFirst : ∀ n, (∃ own ∈ (timeline.take n).filterMap (reclaimable myId myFederations),
      own.paymentId = event.paymentId) →
    ∃ last, newest event.paymentId ((timeline.take n).filterMap (addressed myId myFederations)) = some last ∧
      last.payable = true

variable {myId myFederations} {s : Chat} {steps : List Step}

/-! ## Lemmas -/

theorem timeline_foldl (steps : List Step) (s : Chat) :
    (steps.foldl (Chat.step myId myFederations) s).timeline = s.timeline ++ timelineOf steps := by
  induction steps generalizing s with
  | nil => simp [timelineOf]
  | cons first steps ih =>
    rw [List.foldl_cons, ih]
    cases first <;> simp [Chat.step, timelineOf]

theorem timeline_chat (steps : List Step) : (chat myId myFederations steps).timeline = timelineOf steps := by
  unfold chat
  rw [timeline_foldl]
  simp [timelineOf]

/-- The newest event of a payment can be claimed if it pays. -/
theorem receivable_of_newest {timeline : List (Option MatrixEvent)} {paymentId : String} {last : MatrixPaymentEvent}
    (h : newest paymentId (timeline.filterMap (addressed myId myFederations)) = some last)
    (hpays : last.payable = true) (hnamed : paymentId ≠ "__proto__") :
    last ∈ getReceivablePaymentEvents myId myFederations timeline ∧ last.paymentId = paymentId := by
  have hid := (newest_paymentId h).1
  refine ⟨mem_receivable.mpr ?_, hid⟩
  rw [hid]
  exact ⟨hnamed, h, hpays⟩

/-- What a check claims. -/
theorem mem_claims {timeline : List (Option MatrixEvent)} {receivedPayments : Finset String} {claim : MatrixPaymentEvent}
    (h : claim ∈ (checkForReceivablePayments myId myFederations timeline receivedPayments).claims) :
    newest claim.paymentId (timeline.filterMap (addressed myId myFederations)) = some claim ∧
      claim.payable = true ∧ claim.paymentId ∉ receivedPayments ∧ claim.paymentId ≠ "__proto__" := by
  obtain ⟨hmem, hfree⟩ := of_mem_attempt h
  obtain ⟨hnamed, hnewest, hpays⟩ := mem_receivable.mp hmem
  exact ⟨hnewest, hpays, hfree, hnamed⟩

/-- A check claims every payment whose newest event pays, unless it is marked. -/
theorem exists_claim {timeline : List (Option MatrixEvent)} {receivedPayments : Finset String} {paymentId : String}
    {last : MatrixPaymentEvent}
    (hlast : newest paymentId (timeline.filterMap (addressed myId myFederations)) = some last)
    (hpays : last.payable = true) (hnamed : paymentId ≠ "__proto__") (hfree : paymentId ∉ receivedPayments) :
    last ∈ (checkForReceivablePayments myId myFederations timeline receivedPayments).claims := by
  obtain ⟨hmem, hid⟩ := receivable_of_newest hlast hpays hnamed
  obtain ⟨claim, hclaim, hclaimId⟩ := exists_attempt hfree ⟨last, hmem, hid⟩
  have hnewest := (mem_claims hclaim).1
  rw [hclaimId, hlast] at hnewest
  cases hnewest
  exact hclaim

/-- What a check leaves marked. -/
theorem mem_marked {paymentId : String} :
    paymentId ∈ (s.step myId myFederations .check).receivedPayments ↔
      (paymentId ∈ s.receivedPayments ∨
        (∃ event ∈ getReceivablePaymentEvents myId myFederations s.timeline, event.paymentId = paymentId) ∨
        ∃ event ∈ getReclaimablePaymentEvents myId myFederations s.timeline, event.paymentId = paymentId) ∧
      ∀ claim ∈ (checkForReceivablePayments myId myFederations s.timeline s.receivedPayments).claims,
        claim.paymentId = paymentId → given claim.content.ecash = true := by
  unfold Chat.step checkForReceivablePayments
  dsimp only
  rw [Finset.mem_filter, mem_attempt_fst, mem_attempt_fst, or_assoc]

/-! ## Consistent payments are delivered -/

/-- A mark on the event's payment means that its token was handed to a claim. -/
def Backed (event : MatrixPaymentEvent) (s : Chat) : Prop :=
  event.paymentId ∈ s.receivedPayments →
    ∃ claim ∈ s.claimed, claim.paymentId = event.paymentId ∧ claim.content.ecash = event.content.ecash

theorem backed_check {timeline : List (Option MatrixEvent)} {event : MatrixPaymentEvent}
    (hconsistent : Consistent myId myFederations timeline event) (hpre : s.timeline <+: timeline)
    (h : Backed event s) : Backed event (s.step myId myFederations .check) := by
  intro hmarked
  by_cases hold : event.paymentId ∈ s.receivedPayments
  · obtain ⟨claim, hclaim, hsame⟩ := h hold
    exact ⟨claim, List.mem_append_left _ hclaim, hsame⟩
  · obtain ⟨hmarks, htokens⟩ := mem_marked.mp hmarked
    have hpays : ∃ last, newest event.paymentId (s.timeline.filterMap (addressed myId myFederations)) = some last ∧
        last.payable = true := by
      rcases hmarks.resolve_left hold with ⟨last, hlast, hid⟩ | ⟨own, hown, hid⟩
      · rw [mem_receivable, hid] at hlast
        exact ⟨last, hlast.2⟩
      · have htake := List.prefix_iff_eq_take.mp hpre
        rw [htake]
        refine hconsistent.claimedFirst _ ⟨own, ?_, hid⟩
        rw [← htake]
        exact hown
    obtain ⟨last, hlast, hpays⟩ := hpays
    have hclaim := exists_claim hlast hpays hconsistent.named hold
    obtain ⟨hid, hmem⟩ := newest_paymentId hlast
    have htoken := htokens last hclaim hid
    have hin := (hpre.sublist.filterMap (addressed myId myFederations)).subset hmem
    exact ⟨last, List.mem_append_right _ hclaim, hid, hconsistent.oneToken last hin hid hpays htoken⟩

theorem backed_foldl {timeline : List (Option MatrixEvent)} {event : MatrixPaymentEvent}
    (hconsistent : Consistent myId myFederations timeline event) (steps : List Step) (s : Chat)
    (hpre : s.timeline ++ timelineOf steps <+: timeline) (h : Backed event s) :
    Backed event (steps.foldl (Chat.step myId myFederations) s) := by
  induction steps generalizing s with
  | nil => exact h
  | cons first steps ih =>
    rw [List.foldl_cons]
    have hnow : s.timeline <+: timeline := (List.prefix_append _ _).trans hpre
    cases first with
    | update events =>
      refine ih _ ?_ h
      simpa [Chat.step, timelineOf] using hpre
    | check => exact ih _ hpre (backed_check hconsistent hnow h)
    | fail paymentId =>
      refine ih _ hpre fun hmarked => h ?_
      exact Finset.mem_of_mem_erase hmarked

theorem delivered_of_consistent {event : MatrixPaymentEvent}
    (hconsistent : Consistent myId myFederations (timelineOf steps) event) :
    ∃ claim ∈ (chat myId myFederations steps).claimed,
      claim.paymentId = event.paymentId ∧ claim.content.ecash = event.content.ecash := by
  unfold chat
  rw [List.foldl_append, List.foldl_cons, List.foldl_nil]
  have hbacked := backed_foldl hconsistent steps ⟨[], ∅, []⟩ (by simp) (fun h => by simp at h)
  have htimeline := @timeline_foldl myId myFederations steps ⟨[], ∅, []⟩
  rw [List.nil_append] at htimeline
  obtain ⟨last, hlast, hpays, htoken⟩ := hconsistent.newestPays
  by_cases hmarked : event.paymentId ∈ (steps.foldl (Chat.step myId myFederations) ⟨[], ∅, []⟩).receivedPayments
  · obtain ⟨claim, hclaim, hsame⟩ := hbacked hmarked
    exact ⟨claim, List.mem_append_left _ hclaim, hsame⟩
  · rw [← htimeline] at hlast
    exact ⟨last, List.mem_append_right _ (exists_claim hlast hpays hconsistent.named hmarked), (newest_paymentId hlast).1, htoken⟩

/-! ## Runs that lose a token -/

/-- The timeline is checked once on the way. -/
def checkedAt (timeline : List (Option MatrixEvent)) (n : ℕ) : List Step :=
  [.update (timeline.take n), .check, .update (timeline.drop n)]

theorem timelineOf_checkedAt (timeline : List (Option MatrixEvent)) (n : ℕ) :
    timelineOf (checkedAt timeline n) = timeline := by
  simp [timelineOf, checkedAt]

/-- What the first check marks, the second does not claim. -/
theorem claimed_checkedAt {timeline : List (Option MatrixEvent)} {n : ℕ} {claim : MatrixPaymentEvent}
    (hclaim : claim ∈ (chat myId myFederations (checkedAt timeline n)).claimed)
    (hmarked : claim.paymentId ∈
      (Chat.step myId myFederations ⟨timeline.take n, ∅, []⟩ .check).receivedPayments) :
    claim ∈ (checkForReceivablePayments myId myFederations (timeline.take n) ∅).claims := by
  unfold chat checkedAt at hclaim
  simp only [List.cons_append, List.nil_append, List.foldl_cons, List.foldl_nil] at hclaim
  have hsplit : claim ∈ (checkForReceivablePayments myId myFederations (timeline.take n) ∅).claims ∨
      claim ∈ (checkForReceivablePayments myId myFederations (timeline.take n ++ timeline.drop n)
        (Chat.step myId myFederations ⟨timeline.take n, ∅, []⟩ .check).receivedPayments).claims :=
    List.mem_append.mp hclaim
  exact hsplit.resolve_right fun hsecond => (mem_claims hsecond).2.2.1 hmarked

theorem consistent_of_delivered {timeline : List (Option MatrixEvent)} {i : ℕ} {event : MatrixPaymentEvent}
    (hdue : Due myId myFederations timeline i event)
    (h : ∀ steps, timelineOf steps = timeline → Delivered myId myFederations (chat myId myFederations steps)) :
    Consistent myId myFederations timeline event := by
  have hclaimed (n : ℕ) : ∃ claim ∈ (chat myId myFederations (checkedAt timeline n)).claimed,
      claim.paymentId = event.paymentId ∧ claim.content.ecash = event.content.ecash := by
    have htimeline := timelineOf_checkedAt timeline n
    refine h _ htimeline i event ?_
    rw [timeline_chat, htimeline]
    exact hdue
  -- the run with one check at the end
  obtain ⟨hnamed, hnewestPays⟩ : event.paymentId ≠ "__proto__" ∧
      ∃ last, newest event.paymentId (timeline.filterMap (addressed myId myFederations)) = some last ∧
        last.payable = true ∧ last.content.ecash = event.content.ecash := by
    have htimeline : timelineOf [.update timeline] = timeline := by simp [timelineOf]
    obtain ⟨claim, hclaim, hid, hsame⟩ := h [.update timeline] htimeline i event (by rwa [timeline_chat, htimeline])
    obtain ⟨hnewest, hpays, -, hproto⟩ := mem_claims (show claim ∈
      (checkForReceivablePayments myId myFederations timeline ∅).claims by simpa [chat, Chat.step] using hclaim)
    rw [hid] at hnewest hproto
    exact ⟨hproto, claim, hnewest, hpays, hsame⟩
  constructor
  case named => exact hnamed
  case oneToken =>
    intro other hother hid hpays htoken
    obtain ⟨item, hitem, haddressed⟩ := List.mem_filterMap.mp hother
    obtain ⟨k, hk⟩ := List.getElem?_of_mem hitem
    -- the check right after the other message claims its token
    have hnewest : newest event.paymentId ((timeline.take (k + 1)).filterMap (addressed myId myFederations)) =
        some other := by
      rw [List.take_add_one, hk, Option.toList_some, List.filterMap_append, List.filterMap_cons, haddressed,
        List.filterMap_nil, newest_append, if_pos hid]
    obtain ⟨hreceivable, -⟩ := receivable_of_newest hnewest hpays hnamed
    obtain ⟨claim, hclaim, hclaimId, hsame⟩ := hclaimed (k + 1)
    have hmarked : claim.paymentId ∈
        (Chat.step myId myFederations ⟨timeline.take (k + 1), ∅, []⟩ .check).receivedPayments := by
      refine mem_marked.mpr ⟨.inr (.inl ⟨other, hreceivable, hid.trans hclaimId.symm⟩), fun first hfirst hfirstId => ?_⟩
      have hfirst := (mem_claims hfirst).1
      rw [hfirstId, hclaimId, hnewest] at hfirst
      cases hfirst
      exact htoken
    have hfirst := (mem_claims (claimed_checkedAt hclaim hmarked)).1
    rw [hclaimId, hnewest] at hfirst
    cases hfirst
    exact hsame
  case newestPays => exact hnewestPays
  case claimedFirst =>
    rintro n ⟨own, hown, hid⟩
    obtain ⟨claim, hclaim, hclaimId, -⟩ := hclaimed n
    by_contra hnot
    have hnone : ∀ first ∈ (checkForReceivablePayments myId myFederations (timeline.take n) ∅).claims,
        first.paymentId ≠ event.paymentId := by
      intro first hfirst hfirstId
      obtain ⟨hnewest, hpays, -⟩ := mem_claims hfirst
      rw [hfirstId] at hnewest
      exact hnot ⟨first, hnewest, hpays⟩
    have hmarked : claim.paymentId ∈
        (Chat.step myId myFederations ⟨timeline.take n, ∅, []⟩ .check).receivedPayments := by
      refine mem_marked.mpr ⟨.inr (.inr ⟨own, hown, hid.trans hclaimId.symm⟩), fun first hfirst hfirstId => ?_⟩
      exact absurd (hfirstId.trans hclaimId) (hnone first hfirst)
    exact hnone claim (claimed_checkedAt hclaim hmarked) hclaimId

end

/-! ## A request that two members accept -/

def sendMatrixPaymentRequest (myId paymentId federationId : String) (amount : ℕ) : RpcPaymentMessageContent where
  body := "Requested payment"
  status := .requested
  paymentId := paymentId
  recipientId := some myId
  senderOperationId := none
  receiverOperationId := none
  amount := amount
  senderId := none
  ecash := none
  federationId := some federationId

/-- The payer answers a request under its own payment id. -/
def acceptMatrixPaymentRequest (content : RpcPaymentMessageContent) (myId ecash senderOperationId : String) :
    RpcPaymentMessageContent :=
  { content with
    body := "Sent payment"
    status := .accepted
    senderId := some myId
    senderOperationId := some senderOperationId
    ecash := some ecash }

def request : RpcPaymentMessageContent := sendMatrixPaymentRequest "me" "p" "fed" 1000

/-- Both members accept before they see the other's message. -/
def acceptedTwice : List (Option MatrixEvent) :=
  [ some (.payment ⟨"0", "room", "me", request⟩),
    some (.payment ⟨"1", "room", "alice", acceptMatrixPaymentRequest request "alice" "ecash of alice" "op 1"⟩),
    some (.payment ⟨"2", "room", "bob", acceptMatrixPaymentRequest request "bob" "ecash of bob" "op 2"⟩) ]

/-- Every state of the timeline is checked. -/
def checkedAlways (timeline : List (Option MatrixEvent)) : List Step :=
  timeline.flatMap fun item => [.update [item], .check]

end MatrixPayments
