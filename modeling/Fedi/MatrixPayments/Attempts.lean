import Fedi.MatrixPayments.Thunks

/-!
# Attempts in flight, made again, and marked as handled

At most one attempt for a payment is in flight in every run.  Failed attempts are made again
by the next check that finds them, and a rejected payment stays marked only once its ecash is
reclaimed, in every run that meets three conditions (`attempts_of_run`): the cancellations do
not fail; a rejected payment that is found has the operation id of an ecash send; and a payment
id stands for one token.

A cancellation that fails is never made again (`cancelFailure_sticks`).
-/

namespace MatrixPayments

open Tasks

/-! ## What is promised -/

/-- The thunks in flight for a payment. -/
def inFlight (tasks : List Task) (paymentId : String) : ℕ :=
  tasks.countP fun task => decide (task.paymentId? = some paymentId)

structure Kept (s : System) (tasks : List Task) : Prop where
  single : ∀ paymentId, inFlight tasks paymentId ≤ 1
  retried : s.skipped = []
  reclaimed : ∀ event ∈ s.rejected, event.paymentId ∈ s.receivedPayments → inFlight tasks event.paymentId = 0 →
    event.content.ecash ∈ s.reclaimed

/-! ## The conditions -/

section

variable (ecashOf : String → Option String)

/-- `ecashOf` gives the token of a payment that was sent in the user's name, and nothing for one sent to the user. -/
structure LawfulCheck (myId : String) (input : Input) : Prop where
  claims : ∀ event ∈ getReceivablePaymentEvents myId input.walletFederations input.timeline,
    ecashOf event.paymentId = none
  reclaims : ∀ event ∈ getReclaimablePaymentEvents myId input.walletFederations input.timeline,
    ecashOf event.paymentId = event.content.ecash ∧ given event.content.senderOperationId = true

instance (myId : String) (input : Input) : Decidable (LawfulCheck ecashOf myId input) :=
  decidable_of_iff
    ((∀ event ∈ getReceivablePaymentEvents myId input.walletFederations input.timeline,
        ecashOf event.paymentId = none) ∧
      ∀ event ∈ getReclaimablePaymentEvents myId input.walletFederations input.timeline,
        ecashOf event.paymentId = event.content.ecash ∧ given event.content.senderOperationId = true)
    ⟨fun h => ⟨h.1, h.2⟩, fun h => ⟨h.claims, h.reclaims⟩⟩

def Lawful (_ : System) (_ : List Task) (task : Task) (input : Input) : Prop :=
  match task with
  | .checking => ∀ myId ∈ input.myId, LawfulCheck ecashOf myId input
  | .gettingTransaction _ => input.fails = false → input.oobSend = true
  | .parsingEcash _ => input.fails = false ∧ input.joined = true
  | .cancelingEcash _ => input.fails = false
  | _ => True

instance (s : System) (others : List Task) (task : Task) (input : Input) :
    Decidable (Lawful ecashOf s others task input) := by
  unfold Lawful
  split <;> infer_instance

end

variable {ecashOf : String → Option String} {s s' : System} {before after : List Task} {task task' : Task}
  {event : MatrixPaymentEvent} {input : Input}

/-! ## One attempt at a time -/

/-- A thunk in flight has marked its payment. -/
def Marked (s : System) (tasks : List Task) : Prop :=
  ∀ paymentId, inFlight tasks paymentId ≤ if paymentId ∈ s.receivedPayments then 1 else 0

/-- A thunk goes on, and the marks stay. -/
theorem Marked.goOn (h : Marked s (before ++ task :: after)) (hsame : task'.paymentId? = task.paymentId?)
    (hmarks : s'.receivedPayments = s.receivedPayments) : Marked s' (before ++ [task'] ++ after) := by
  intro paymentId
  have hbefore := h paymentId
  unfold inFlight at hbefore ⊢
  rw [countP_task] at hbefore
  rw [countP_next, hmarks]
  simpa [hsame] using hbefore

/-- A thunk ends, and the marks stay. -/
theorem Marked.finish (h : Marked s (before ++ task :: after)) (hmarks : s'.receivedPayments = s.receivedPayments) :
    Marked s' (before ++ [] ++ after) := by
  intro paymentId
  have hbefore := h paymentId
  unfold inFlight at hbefore ⊢
  rw [countP_task] at hbefore
  rw [countP_next, hmarks, List.countP_nil]
  omega

/-- A thunk ends, and its payment is free. -/
theorem Marked.free (h : Marked s (before ++ task :: after)) (htask : task.paymentId? = some event.paymentId)
    (hmarks : s'.receivedPayments = s.receivedPayments.erase event.paymentId) : Marked s' (before ++ [] ++ after) := by
  intro paymentId
  have hbefore := h paymentId
  unfold inFlight at hbefore ⊢
  rw [countP_task, htask] at hbefore
  rw [countP_next, hmarks, List.countP_nil]
  by_cases hid : paymentId = event.paymentId
  · simp only [hid, Finset.mem_erase, ne_eq, not_true_eq_false, false_and, if_false, decide_true, if_true] at hbefore ⊢
    split at hbefore <;> omega
  · simp only [Finset.mem_erase, ne_eq, hid, not_false_eq_true, true_and]
    omega

theorem inFlight_map {f : MatrixPaymentEvent → Task} (hf : ∀ event, (f event).paymentId? = some event.paymentId)
    (events : List MatrixPaymentEvent) (paymentId : String) :
    inFlight (events.map f) paymentId = (events.map MatrixPaymentEvent.paymentId).count paymentId := by
  unfold inFlight List.count
  rw [List.countP_map, List.countP_map]
  refine List.countP_congr fun event _ => ?_
  simp [hf]

/-- A check attempts a payment at most once, and none that is marked. -/
theorem count_attempt {receivedPayments : Finset String} {events : List MatrixPaymentEvent} (paymentId : String) :
    ((attempt receivedPayments events).2.map MatrixPaymentEvent.paymentId).count paymentId +
        (if paymentId ∈ receivedPayments then 1 else 0) ≤
      if paymentId ∈ (attempt receivedPayments events).1 then 1 else 0 := by
  by_cases hmarked : paymentId ∈ receivedPayments
  · have hnone : paymentId ∉ (attempt receivedPayments events).2.map MatrixPaymentEvent.paymentId := by
      intro hmem
      obtain ⟨event, hevent, rfl⟩ := List.mem_map.mp hmem
      exact (of_mem_attempt hevent).2 hmarked
    rw [List.count_eq_zero_of_not_mem hnone, if_pos hmarked, if_pos (mem_attempt_fst.mpr (.inl hmarked))]
  · rw [if_neg hmarked]
    by_cases hmem : paymentId ∈ (attempt receivedPayments events).2.map MatrixPaymentEvent.paymentId
    · obtain ⟨event, hevent, hid⟩ := List.mem_map.mp hmem
      rw [if_pos (mem_attempt_fst.mpr (.inr ⟨event, (of_mem_attempt hevent).1, hid⟩)), Nat.add_zero]
      exact List.nodup_iff_count_le_one.mp attempt_nodup paymentId
    · rw [List.count_eq_zero_of_not_mem hmem]
      exact Nat.zero_le _

theorem Marked.check {myId : String} (h : Marked s (before ++ .checking :: after)) :
    Marked (check s myId input).1 (before ++ (check s myId input).2 ++ after) := by
  intro paymentId
  have hbefore := h paymentId
  have hclaims := @count_attempt s.receivedPayments
    (getReceivablePaymentEvents myId input.walletFederations input.timeline) paymentId
  have hreclaims := @count_attempt (attempt s.receivedPayments
    (getReceivablePaymentEvents myId input.walletFederations input.timeline)).1
    (getReclaimablePaymentEvents myId input.walletFederations input.timeline) paymentId
  unfold inFlight at hbefore ⊢
  rw [countP_task] at hbefore
  rw [countP_next]
  unfold MatrixPayments.check checkForReceivablePayments
  dsimp only
  rw [List.countP_append]
  have hstarted := @inFlight_map .claimStarting (fun _ => rfl) (attempt s.receivedPayments
    (getReceivablePaymentEvents myId input.walletFederations input.timeline)).2 paymentId
  have hreclaimed := @inFlight_map .reclaimStarting (fun _ => rfl) (attempt (attempt s.receivedPayments
    (getReceivablePaymentEvents myId input.walletFederations input.timeline)).1
    (getReclaimablePaymentEvents myId input.walletFederations input.timeline)).2 paymentId
  unfold inFlight at hstarted hreclaimed
  rw [hstarted, hreclaimed]
  rw [show Task.checking.paymentId? = none from rfl] at hbefore
  simp only [reduceCtorEq, decide_false, Bool.false_eq_true, if_false, Nat.zero_add] at hbefore
  omega

theorem marked_run (s : System) (before : List Task) (task : Task) (after : List Task) (input : Input)
    (h : Marked s (before ++ task :: after)) : Marked (run s task input).1 (before ++ (run s task input).2 ++ after) := by
  unfold run
  split
  · split
    · exact h.finish rfl
    · exact h.check
  · split
    · exact h.free rfl rfl
    · exact h.goOn rfl rfl
  · split
    · exact h.free rfl rfl
    · exact h.goOn rfl rfl
  · split
    · exact h.free rfl rfl
    · exact h.goOn rfl rfl
  · split
    · exact h.free rfl rfl
    · exact h.finish rfl
  · split
    · exact h.finish rfl
    · exact h.goOn rfl rfl
  · split
    · exact h.free rfl rfl
    · split
      · exact h.goOn rfl rfl
      · exact h.finish rfl
  · split
    · exact h.finish rfl
    · exact h.goOn rfl rfl
  · split
    · exact h.finish rfl
    · exact h.finish rfl

/-! ## Retries and reclaims -/

/-- What a thunk in flight knows of its payment. -/
def Task.Fits (ecashOf : String → Option String) : Task → Prop
  | .checking => True
  | .claimStarting event | .receivingEcash event | .sendingMessage event _ | .markingUnread event =>
    ecashOf event.paymentId = none
  | .reclaimStarting event =>
    ecashOf event.paymentId = event.content.ecash ∧ given event.content.ecash = true ∧
      event.content.status = .rejected ∧ given event.content.federationId = true ∧
      given event.content.senderOperationId = true
  | .gettingTransaction event | .parsingEcash event | .cancelingEcash event =>
    ecashOf event.paymentId = event.content.ecash

structure Inv (ecashOf : String → Option String) (s : System) (tasks : List Task) : Prop where
  fits : ∀ task ∈ tasks, task.Fits ecashOf
  retried : s.skipped = []
  failed : ∀ a ∈ s.failed, a.kind = .claim ∧ a.event.paymentId ∉ s.receivedPayments ∧
    ecashOf a.event.paymentId = none
  settled : ∀ paymentId ∈ s.receivedPayments, (∃ task ∈ tasks, task.paymentId? = some paymentId) ∨
    ecashOf paymentId = none ∨ ecashOf paymentId ∈ s.reclaimed
  rejected : ∀ event ∈ s.rejected, ecashOf event.paymentId = event.content.ecash ∧ given event.content.ecash = true

/-- A thunk goes on; only the sent messages may change. -/
theorem Inv.goOn (h : Inv ecashOf s (before ++ task :: after)) (hsame : task'.paymentId? = task.paymentId?)
    (hfits : task'.Fits ecashOf) (sent : List (String × RpcPaymentMessageContent)) :
    Inv ecashOf { s with sent := sent } (before ++ [task'] ++ after) where
  fits := forall_next_iff.mpr ⟨by simpa using hfits, (forall_task_iff.mp h.fits).2⟩
  retried := h.retried
  failed := h.failed
  settled := fun paymentId hmarked => by
    rcases h.settled paymentId hmarked with htask | hsettled
    · rw [exists_task_iff, ← hsame] at htask
      exact .inl (exists_next_iff.mpr (by simpa using htask))
    · exact .inr hsettled
  rejected := h.rejected

/-- A thunk ends with its payment handled. -/
theorem Inv.finish (h : Inv ecashOf s (before ++ task :: after)) (htask : task.paymentId? = some event.paymentId)
    {reclaimed : List (Option String)} (hmore : s.reclaimed ⊆ reclaimed)
    (hhandled : ecashOf event.paymentId = none ∨ ecashOf event.paymentId ∈ reclaimed) :
    Inv ecashOf { s with reclaimed := reclaimed } (before ++ [] ++ after) where
  fits := forall_next_iff.mpr ⟨by simp, (forall_task_iff.mp h.fits).2⟩
  retried := h.retried
  failed := h.failed
  settled := fun paymentId hmarked => by
    rcases h.settled paymentId hmarked with hother | hnone | hreclaimed
    · rw [exists_task_iff, htask] at hother
      rcases hother with hid | hother
      · cases hid
        exact .inr hhandled
      · exact .inl (exists_next_iff.mpr (.inr hother))
    · exact .inr (.inl hnone)
    · exact .inr (.inr (hmore hreclaimed))
  rejected := h.rejected

/-- A thunk throws, and its payment is free. -/
theorem Inv.free (h : Inv ecashOf s (before ++ task :: after)) (htask : task.paymentId? = some event.paymentId) :
    Inv ecashOf (s.free event) (before ++ [] ++ after) where
  fits := forall_next_iff.mpr ⟨by simp, (forall_task_iff.mp h.fits).2⟩
  retried := h.retried
  failed := fun a ha => by
    obtain ⟨hkind, hfree, hnone⟩ := h.failed a ha
    exact ⟨hkind, fun hmarked => hfree (Finset.mem_of_mem_erase hmarked), hnone⟩
  settled := fun paymentId hmarked => by
    obtain ⟨hne, hmarked⟩ := Finset.mem_erase.mp hmarked
    rcases h.settled paymentId hmarked with hother | hsettled
    · rw [exists_task_iff, htask] at hother
      rcases hother with hid | hother
      · cases hid
        exact absurd rfl hne
      · exact .inl (exists_next_iff.mpr (.inr hother))
    · exact .inr hsettled
  rejected := h.rejected

theorem of_mem_reclaimable {myId : String} {myFederations : List LoadedFederation}
    {timeline : List (Option MatrixEvent)} (h : event ∈ getReclaimablePaymentEvents myId myFederations timeline) :
    given event.content.ecash = true ∧ event.content.status = .rejected ∧
      given event.content.federationId = true := by
  obtain ⟨item, -, hitem⟩ := List.mem_filterMap.mp h
  unfold reclaimable at hitem
  split at hitem
  · split at hitem
    next hall =>
      cases hitem
      exact ⟨hall.2.1, hall.2.2.1, hall.2.2.2.1⟩
    · cases hitem
  · cases hitem

theorem among_claim {a : Attempt} {claims reclaims : List MatrixPaymentEvent} (hkind : a.kind = .claim) :
    a.among claims reclaims = true ↔ ∃ event ∈ claims, event.paymentId = a.event.paymentId := by
  unfold Attempt.among
  rw [hkind]
  simp

theorem Inv.check {myId : String} (h : Inv ecashOf s (before ++ .checking :: after))
    (hlawful : LawfulCheck ecashOf myId input) :
    Inv ecashOf (check s myId input).1 (before ++ (check s myId input).2 ++ after) := by
  -- a failed claim that is found is unmarked, so it is made
  have hmade : ∀ a ∈ s.failed,
      (∃ event ∈ getReceivablePaymentEvents myId input.walletFederations input.timeline,
        event.paymentId = a.event.paymentId) →
      a.among (checkForReceivablePayments myId input.walletFederations input.timeline s.receivedPayments).claims
        (checkForReceivablePayments myId input.walletFederations input.timeline s.receivedPayments).reclaims = true := by
    intro a ha hfound
    obtain ⟨hkind, hfree, -⟩ := h.failed a ha
    exact (among_claim hkind).mpr (exists_attempt hfree hfound)
  constructor
  case fits =>
    refine forall_next_iff.mpr ⟨fun x hx => ?_, (forall_task_iff.mp h.fits).2⟩
    rcases List.mem_append.mp hx with hclaim | hreclaim
    · obtain ⟨event, hevent, rfl⟩ := List.mem_map.mp hclaim
      exact hlawful.claims event (of_mem_attempt hevent).1
    · obtain ⟨event, hevent, rfl⟩ := List.mem_map.mp hreclaim
      have hmem := (of_mem_attempt hevent).1
      obtain ⟨htoken, hstatus, hfederation⟩ := of_mem_reclaimable hmem
      obtain ⟨hid, hoperation⟩ := hlawful.reclaims event hmem
      exact ⟨hid, htoken, hstatus, hfederation, hoperation⟩
  case retried =>
    unfold MatrixPayments.check
    dsimp only
    rw [h.retried, List.nil_append, List.filter_eq_nil_iff]
    intro a ha hskipped
    rw [Bool.and_eq_true, Bool.not_eq_true'] at hskipped
    have hfound := (among_claim (h.failed a ha).1).mp hskipped.1
    rw [hmade a ha hfound] at hskipped
    cases hskipped.2
  case failed =>
    intro a ha
    obtain ⟨hold, hnot⟩ := List.mem_filter.mp ha
    obtain ⟨hkind, hfree, hnone⟩ := h.failed a hold
    refine ⟨hkind, fun hmarked => ?_, hnone⟩
    rcases mem_attempt_fst.mp hmarked with hclaims | ⟨event, hevent, hid⟩
    · rcases mem_attempt_fst.mp hclaims with hmarked | hfound
      · exact hfree hmarked
      · rw [hmade a hold hfound] at hnot
        cases hnot
    · -- the payment was not sent in the user's name
      have htoken := (of_mem_reclaimable hevent).1
      rw [← (hlawful.reclaims event hevent).1, hid, hnone] at htoken
      cases htoken
  case settled =>
    intro paymentId hmarked
    by_cases hold : paymentId ∈ s.receivedPayments
    · rcases h.settled paymentId hold with hother | hsettled
      · rw [exists_task_iff] at hother
        exact .inl (exists_next_iff.mpr (.inr (hother.resolve_left (by simp [Task.paymentId?]))))
      · exact .inr hsettled
    · refine .inl (exists_next_iff.mpr (.inl ?_))
      by_cases hclaimed : paymentId ∈ (attempt s.receivedPayments
          (getReceivablePaymentEvents myId input.walletFederations input.timeline)).1
      · have hfound := (mem_attempt_fst.mp hclaimed).resolve_left hold
        obtain ⟨event, hevent, rfl⟩ := exists_attempt hold hfound
        exact ⟨.claimStarting event, List.mem_append_left _ (List.mem_map_of_mem hevent), rfl⟩
      · have hfound := (mem_attempt_fst.mp hmarked).resolve_left hclaimed
        obtain ⟨event, hevent, rfl⟩ := exists_attempt hclaimed hfound
        exact ⟨.reclaimStarting event, List.mem_append_right _ (List.mem_map_of_mem hevent), rfl⟩
  case rejected =>
    intro event hevent
    rcases List.mem_append.mp hevent with hold | hfound
    · exact h.rejected event hold
    · exact ⟨(hlawful.reclaims event hfound).1, (of_mem_reclaimable hfound).1⟩

/-- A claim's `receiveEcash` fails: its payment is free. -/
theorem Inv.failClaim (h : Inv ecashOf s (before ++ .receivingEcash event :: after)) :
    Inv ecashOf ((s.free event).fail .claim event) (before ++ [] ++ after) := by
  have hnone : ecashOf event.paymentId = none := h.fits (.receivingEcash event) (by simp)
  have hfree : Inv ecashOf (s.free event) (before ++ [] ++ after) := h.free rfl
  refine ⟨hfree.fits, hfree.retried, fun a ha => ?_, hfree.settled, hfree.rejected⟩
  rcases List.mem_append.mp ha with hold | hnew
  · exact hfree.failed a hold
  · rw [List.mem_singleton.mp hnew]
    exact ⟨rfl, Finset.notMem_erase _ _, hnone⟩

theorem inv_run (s : System) (before : List Task) (task : Task) (after : List Task) (input : Input)
    (h : Inv ecashOf s (before ++ task :: after)) (hlawful : Lawful ecashOf s (before ++ after) task input) :
    Inv ecashOf (run s task input).1 (before ++ (run s task input).2 ++ after) := by
  have hfits := h.fits task (by simp)
  have hsame : s.reclaimed ⊆ s.reclaimed := List.Subset.refl _
  cases task with
  | checking =>
    unfold run
    dsimp only
    split
    · refine ⟨forall_next_iff.mpr ⟨by simp, (forall_task_iff.mp h.fits).2⟩, h.retried, h.failed, ?_, h.rejected⟩
      intro paymentId hmarked
      refine (h.settled paymentId hmarked).imp_left fun hother => ?_
      rw [exists_task_iff] at hother
      exact exists_next_iff.mpr (.inr (hother.resolve_left (by simp [Task.paymentId?])))
    next myId hmyId => exact h.check (hlawful myId hmyId)
  | claimStarting event =>
    unfold run
    dsimp only
    split
    · exact h.free rfl
    · exact h.goOn (by rfl) (by exact hfits) s.sent
  | receivingEcash event =>
    unfold run
    dsimp only
    split
    · exact h.failClaim
    · exact h.goOn (by rfl) (by exact hfits) s.sent
  | sendingMessage event receiverOperationId =>
    unfold run
    dsimp only
    split
    · exact h.free rfl
    · exact h.goOn (by rfl) (by exact hfits) _
  | markingUnread event =>
    unfold run
    dsimp only
    split
    · exact h.free rfl
    · exact h.finish rfl hsame (.inl hfits)
  | reclaimStarting event =>
    obtain ⟨hid, htoken, hstatus, hfederation, hoperation⟩ := hfits
    unfold run
    dsimp only
    rw [if_neg (by simp [htoken, hstatus, hfederation, hoperation])]
    exact h.goOn (by rfl) (by exact hid) s.sent
  | gettingTransaction event =>
    unfold run
    dsimp only
    split
    · exact h.free rfl
    next hok =>
      rw [hlawful (by simpa using hok), if_pos rfl]
      exact h.goOn (by rfl) (by exact hfits) s.sent
  | parsingEcash event =>
    obtain ⟨hok, hjoined⟩ := hlawful
    unfold run
    dsimp only
    rw [if_neg (by simp [hok, hjoined])]
    exact h.goOn (by rfl) (by exact hfits) s.sent
  | cancelingEcash event =>
    have hok : input.fails = false := hlawful
    unfold run
    dsimp only
    rw [if_neg (by simp [hok])]
    refine h.finish rfl (List.subset_append_left _ _) (.inr ?_)
    rw [show ecashOf event.paymentId = event.content.ecash from hfits]
    exact List.mem_append_right _ (List.mem_singleton_self _)

/-! ## Runs -/

theorem marked_of_run (es : List (Event Unit Input)) : Marked (payments es).state (payments es).tasks := by
  refine pool_invariant (I := Marked) (fun _ => Nat.zero_le _) (fun s ts _ h paymentId => ?_) marked_run es
  have hbefore := h paymentId
  unfold inFlight at hbefore ⊢
  simpa [List.countP_append, start, Task.paymentId?] using hbefore

theorem inv_initial : Inv ecashOf System.initial [] :=
  ⟨by simp, rfl, by simp [System.initial], by simp [System.initial], by simp [System.initial]⟩

theorem inv_call (s : System) (tasks : List Task) (c : Unit) (h : Inv ecashOf s tasks) :
    Inv ecashOf s (tasks ++ [start c]) where
  fits := by
    intro task htask
    rcases List.mem_append.mp htask with hold | hnew
    · exact h.fits task hold
    · rw [List.mem_singleton.mp hnew]
      trivial
  retried := h.retried
  failed := h.failed
  settled := fun paymentId hmarked => (h.settled paymentId hmarked).imp_left fun ⟨task, htask, hid⟩ =>
    ⟨task, List.mem_append_left _ htask, hid⟩
  rejected := h.rejected

theorem Inv.reclaimed {tasks : List Task} (h : Inv ecashOf s tasks) (hevent : event ∈ s.rejected)
    (hmarked : event.paymentId ∈ s.receivedPayments) (hnone : inFlight tasks event.paymentId = 0) :
    event.content.ecash ∈ s.reclaimed := by
  obtain ⟨hid, htoken⟩ := h.rejected event hevent
  rcases h.settled event.paymentId hmarked with ⟨task, htask, htaskId⟩ | hclaimed | hreclaimed
  · have := List.countP_eq_zero.mp hnone task htask
    simp [htaskId] at this
  · rw [← hid, hclaimed] at htoken
    cases htoken
  · rwa [← hid]

theorem attempts_of_run (ecashOf : String → Option String) (es : List (Event Unit Input))
    (hlawful : Along start run (Lawful ecashOf) ⟨System.initial, []⟩ es) :
    Kept (payments es).state (payments es).tasks := by
  have hinv : Inv ecashOf (payments es).state (payments es).tasks :=
    pool_induction (I := Inv ecashOf) inv_initial inv_call inv_run hlawful
  constructor
  case single =>
    intro paymentId
    refine (marked_of_run es paymentId).trans ?_
    split <;> omega
  case retried => exact hinv.retried
  case reclaimed => exact fun event hevent hmarked hnone => hinv.reclaimed hevent hmarked hnone

/-- A payment to alice that she rejects. -/
def rejectedPush : MatrixPaymentEvent :=
  ⟨"1", "room", "alice",
    { body := "Payment request rejected."
      status := .rejected
      paymentId := "p"
      recipientId := some "alice"
      senderOperationId := some "op"
      receiverOperationId := none
      amount := 1000
      senderId := some "me"
      ecash := some "ecash"
      federationId := some "fed" }⟩

/-- The answers while nothing fails. -/
def plainInput : Input := ⟨some "me", [some (.payment rejectedPush)], [⟨"fed", false⟩], false, none, true, true⟩

/-- The rejected payment is found, and its ecash canceled. -/
def reclaimedRun : List (Event Unit Input) :=
  [.call (), .advance 0 plainInput, .advance 0 plainInput, .advance 0 plainInput, .advance 0 plainInput,
    .advance 0 plainInput]

theorem attempts_of_run_demo : Kept (payments reclaimedRun).state (payments reclaimedRun).tasks :=
  attempts_of_run (fun _ => some "ecash") reclaimedRun (by decide +kernel)

/-- The cancellation fails, and the payment is found again. -/
def cancelFailure : List (Event Unit Input) :=
  [.call (), .advance 0 plainInput, .advance 0 plainInput, .advance 0 plainInput, .advance 0 plainInput,
    .advance 0 { plainInput with fails := true }, .call (), .advance 0 plainInput]

/-- It is not made again. -/
theorem cancelFailure_sticks : ¬ ∀ es, Kept (payments es).state (payments es).tasks := by
  intro h
  have hskipped := (h cancelFailure).retried
  revert hskipped
  decide +kernel

end MatrixPayments
