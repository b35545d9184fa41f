import Fedi.Multispend.Events

/-!
# Multispend: withdrawal service (`multispend/src/withdrawal_service.rs`)

`runOnce` submits the approved requests one after the other and removes them from the
queue in one transaction, which is dropped on the first failure: the requests that
were submitted before it are in the queue again.  Over a run of the service,

    SubmittedAsQueued ↔ OnlyLastFails        (submitted_as_queued_iff)
-/

namespace Multispend

open BTreeMaps StabilityPool Runs

/-! ## The service -/

abbrev ApprovedRequest := MultispendPendingApprovedWithdrawalRequestKey

def MultispendDb.removeApprovedRequest (db : MultispendDb) (request : ApprovedRequest) : MultispendDb :=
  { db with pendingApprovedWithdrawalRequests := db.pendingApprovedWithdrawalRequests.erase request }

/-- The loop of `run_once` in the transaction `dbtx`: the transaction as it is committed, nothing
when a failure dropped it, and the calls of `spv2_transfer` with their success. -/
def processRequests (spv2Transfer : ApprovedRequest → Bool) (dbtx : MultispendDb) :
    List ApprovedRequest → Option MultispendDb × List (ApprovedRequest × Bool)
  | [] => (some dbtx, [])
  | request :: requests =>
    let dbtx := dbtx.removeApprovedRequest request
    if spv2Transfer request then
      let r := processRequests spv2Transfer dbtx requests
      (r.1, (request, true) :: r.2)
    else (none, [(request, false)])

/-- One execution; `approvedRequests` are the keys of the queue in database order. -/
def runOnce (spv2Transfer : ApprovedRequest → Bool) (approvedRequests : List ApprovedRequest)
    (db : MultispendDb) : MultispendDb × List (ApprovedRequest × Bool) :=
  let r := processRequests spv2Transfer db approvedRequests
  (r.1.getD db, r.2)

/-! ## Runs of the service -/

/-- The database, all calls so far, and every request that was ever in the queue. -/
structure ServiceState where
  db : MultispendDb
  calls : List (ApprovedRequest × Bool)
  queued : Finset ApprovedRequest

inductive ServiceEvent where
  /-- The final approval of a request queues it. -/
  | approve (request : ApprovedRequest)
  | runOnce (approvedRequests : List ApprovedRequest) (spv2Transfer : ApprovedRequest → Bool)

def ServiceState.start (db : MultispendDb) : ServiceState := ⟨db, [], db.pendingApprovedWithdrawalRequests⟩

/-- A request is queued once, and an execution goes through the queue; nothing else happens. -/
def serviceStep (s : ServiceState) : ServiceEvent → Except Unit ServiceState
  | .approve request =>
    if request ∈ s.queued then .error ()
    else .ok {
      db := { s.db with
        pendingApprovedWithdrawalRequests := insert request s.db.pendingApprovedWithdrawalRequests }
      calls := s.calls
      queued := insert request s.queued }
  | .runOnce approvedRequests spv2Transfer =>
    if approvedRequests.Nodup ∧ approvedRequests.toFinset = s.db.pendingApprovedWithdrawalRequests then
      let r := runOnce spv2Transfer approvedRequests s.db
      .ok { db := r.1, calls := s.calls ++ r.2, queued := s.queued }
    else .error ()

theorem serviceStep_approve_iff {s s' : ServiceState} {request : ApprovedRequest} :
    serviceStep s (.approve request) = .ok s' ↔ request ∉ s.queued ∧ s' = {
      db := { s.db with
        pendingApprovedWithdrawalRequests := insert request s.db.pendingApprovedWithdrawalRequests }
      calls := s.calls
      queued := insert request s.queued } := by
  unfold serviceStep
  dsimp only
  split
  next hold => simp [hold]
  next hnew =>
    constructor
    · intro h
      cases h
      exact ⟨hnew, rfl⟩
    · rintro ⟨-, rfl⟩
      rfl

theorem serviceStep_runOnce_iff {s s' : ServiceState} {requests : List ApprovedRequest}
    {spv2Transfer : ApprovedRequest → Bool} :
    serviceStep s (.runOnce requests spv2Transfer) = .ok s' ↔
      (requests.Nodup ∧ requests.toFinset = s.db.pendingApprovedWithdrawalRequests) ∧
      s' = ⟨(runOnce spv2Transfer requests s.db).1, s.calls ++ (runOnce spv2Transfer requests s.db).2,
        s.queued⟩ := by
  unfold serviceStep
  dsimp only
  split
  next hqueue =>
    constructor
    · intro h
      cases h
      exact ⟨hqueue, rfl⟩
    · rintro ⟨-, rfl⟩
      rfl
  next hqueue => simp [hqueue]

/-- Each request succeeds at most once, none is submitted again after it succeeded, and every
execution submits every request of the queue. -/
structure SubmittedAsQueued (db : MultispendDb) (es : List ServiceEvent) (s : ServiceState) : Prop where
  once : ∀ request, s.calls.count (request, true) ≤ 1
  settled : ∀ before request after, s.calls = before ++ (request, true) :: after →
    ∀ ok, (request, ok) ∉ after
  tried : ∀ before approvedRequests spv2Transfer after,
    es = before ++ .runOnce approvedRequests spv2Transfer :: after →
    ∀ s1, run serviceStep (.start db) before = .ok s1 →
    ∀ request ∈ s1.db.pendingApprovedWithdrawalRequests,
      ∃ ok, (request, ok) ∈ (runOnce spv2Transfer approvedRequests s1.db).2

/-- In every execution only the last request may fail, and then it is the only one, or no execution
follows. -/
def OnlyLastFails (es : List ServiceEvent) : Prop :=
  ∀ before approvedRequests spv2Transfer after,
    es = before ++ .runOnce approvedRequests spv2Transfer :: after →
    (∀ request ∈ approvedRequests.dropLast, spv2Transfer request = true) ∧
      ((∃ request ∈ approvedRequests, spv2Transfer request = false) →
        approvedRequests.length = 1 ∨ ∀ requests transfer, .runOnce requests transfer ∉ after)

/-! ## One execution -/

section

variable {spv2Transfer : ApprovedRequest → Bool} {requests : List ApprovedRequest} {db : MultispendDb}

/-- The requests are submitted in order, up to the first failure. -/
theorem first_failure {α : Type} {p : α → Bool} {l : List α} (h : ∃ a ∈ l, p a = false) :
    ∃ before a after, l = before ++ a :: after ∧ (∀ x ∈ before, p x = true) ∧ p a = false := by
  induction l with
  | nil =>
    obtain ⟨a, ha, -⟩ := h
    cases ha
  | cons a l ih =>
    cases hp : p a with
    | false => exact ⟨[], a, l, rfl, by simp, hp⟩
    | true =>
      obtain ⟨x, hx, hfail⟩ := h
      rcases List.mem_cons.mp hx with rfl | hx
      · rw [hp] at hfail
        cases hfail
      · obtain ⟨before, b, after, rfl, hbefore, hb⟩ := ih ⟨x, hx, hfail⟩
        exact ⟨a :: before, b, after, rfl, List.forall_mem_cons.mpr ⟨hp, hbefore⟩, hb⟩

theorem processRequests_succeeded (h : ∀ request ∈ requests, spv2Transfer request = true) :
    processRequests spv2Transfer db requests =
      (some (requests.foldl MultispendDb.removeApprovedRequest db), requests.map fun r => (r, true)) := by
  induction requests generalizing db with
  | nil => rfl
  | cons request requests ih =>
    obtain ⟨hrequest, hrest⟩ := List.forall_mem_cons.mp h
    unfold processRequests
    rw [if_pos hrequest, ih hrest]
    rfl

theorem processRequests_failed {before after : List ApprovedRequest} {request : ApprovedRequest}
    (hbefore : ∀ request ∈ before, spv2Transfer request = true) (hfail : spv2Transfer request = false) :
    processRequests spv2Transfer db (before ++ request :: after) =
      (none, (before.map fun r => (r, true)) ++ [(request, false)]) := by
  induction before generalizing db with
  | nil =>
    unfold processRequests
    dsimp only [List.nil_append]
    rw [hfail]
    rfl
  | cons first before ih =>
    obtain ⟨hfirst, hrest⟩ := List.forall_mem_cons.mp hbefore
    rw [List.cons_append]
    unfold processRequests
    rw [if_pos hfirst, ih hrest]
    rfl

theorem pending_foldl_remove (requests : List ApprovedRequest) (db : MultispendDb) :
    (requests.foldl MultispendDb.removeApprovedRequest db).pendingApprovedWithdrawalRequests =
      db.pendingApprovedWithdrawalRequests \ requests.toFinset := by
  induction requests generalizing db with
  | nil => simp
  | cons request requests ih =>
    rw [List.foldl_cons, ih, List.toFinset_cons]
    ext x
    simp only [MultispendDb.removeApprovedRequest, Finset.mem_sdiff, Finset.mem_erase, Finset.mem_insert]
    tauto

/-- An execution without failures empties the queue. -/
theorem runOnce_succeeded (h : ∀ request ∈ requests, spv2Transfer request = true) :
    (runOnce spv2Transfer requests db).1.pendingApprovedWithdrawalRequests =
        db.pendingApprovedWithdrawalRequests \ requests.toFinset ∧
      (runOnce spv2Transfer requests db).2 = requests.map fun r => (r, true) := by
  unfold runOnce
  rw [processRequests_succeeded h]
  exact ⟨pending_foldl_remove requests db, rfl⟩

/-- A failure leaves the database as it was. -/
theorem runOnce_failed {before after : List ApprovedRequest} {request : ApprovedRequest}
    (hbefore : ∀ request ∈ before, spv2Transfer request = true) (hfail : spv2Transfer request = false) :
    runOnce spv2Transfer (before ++ request :: after) db =
      (db, (before.map fun r => (r, true)) ++ [(request, false)]) := by
  unfold runOnce
  rw [processRequests_failed hbefore hfail]
  rfl

theorem exists_failure (h : ¬∀ request ∈ requests, spv2Transfer request = true) :
    ∃ before failed after, requests = before ++ failed :: after ∧
      (∀ x ∈ before, spv2Transfer x = true) ∧ spv2Transfer failed = false := by
  apply first_failure
  simp only [not_forall] at h
  obtain ⟨request, hmem, hne⟩ := h
  exact ⟨request, hmem, by simpa using hne⟩

/-- Every request is tried exactly when none but the last fails. -/
theorem tried_iff (hnodup : requests.Nodup) :
    (∀ request ∈ requests, ∃ ok, (request, ok) ∈ (runOnce spv2Transfer requests db).2) ↔
      ∀ request ∈ requests.dropLast, spv2Transfer request = true := by
  by_cases hall : ∀ request ∈ requests, spv2Transfer request = true
  · rw [(runOnce_succeeded hall).2]
    constructor
    · intro _ request hmem
      exact hall request (List.mem_of_mem_dropLast hmem)
    · intro _ request hmem
      exact ⟨true, List.mem_map.mpr ⟨request, hmem, rfl⟩⟩
  · obtain ⟨before, failed, after, rfl, hbefore, hfail⟩ := exists_failure hall
    rw [runOnce_failed hbefore hfail]
    cases after with
    | nil =>
      rw [List.dropLast_concat]
      constructor
      · exact fun _ => hbefore
      · intro _ request hmem
        rcases List.mem_append.mp hmem with hmem | hmem
        · exact ⟨true, List.mem_append_left _ (List.mem_map.mpr ⟨request, hmem, rfl⟩)⟩
        · rw [List.mem_singleton.mp hmem]
          exact ⟨false, List.mem_append_right _ List.mem_cons_self⟩
    | cons next after =>
      constructor
      · intro htried
        -- the request after the failure is not tried
        obtain ⟨ok, hcall⟩ := htried next (by simp)
        have hnew : next ∉ before ∧ next ≠ failed := by
          have h := List.nodup_append.mp hnodup
          have hcons := List.nodup_cons.mp h.2.1
          refine ⟨fun hmem => h.2.2 next hmem next (by simp) rfl, ?_⟩
          rintro rfl
          exact hcons.1 List.mem_cons_self
        rcases List.mem_append.mp hcall with hcall | hcall
        · obtain ⟨x, hx, heq⟩ := List.mem_map.mp hcall
          cases heq
          exact absurd hx hnew.1
        · have heq := List.mem_singleton.mp hcall
          cases heq
          exact absurd rfl hnew.2
      · intro hlast
        have hmem : failed ∈ (before ++ failed :: next :: after).dropLast := by
          rw [List.dropLast_append_of_ne_nil (List.cons_ne_nil _ _), List.dropLast_cons_of_ne_nil (List.cons_ne_nil _ _)]
          simp
        rw [hlast failed hmem] at hfail
        cases hfail

/-- Only requests of the execution are called. -/
theorem mem_of_called {request : ApprovedRequest} {ok : Bool}
    (h : (request, ok) ∈ (runOnce spv2Transfer requests db).2) : request ∈ requests := by
  by_cases hall : ∀ request ∈ requests, spv2Transfer request = true
  · rw [(runOnce_succeeded hall).2] at h
    obtain ⟨x, hx, heq⟩ := List.mem_map.mp h
    cases heq
    exact hx
  · obtain ⟨before, failed, after, rfl, hbefore, hfail⟩ := exists_failure hall
    rw [runOnce_failed hbefore hfail] at h
    rcases List.mem_append.mp h with h | h
    · obtain ⟨x, hx, heq⟩ := List.mem_map.mp h
      cases heq
      exact List.mem_append_left _ hx
    · cases List.mem_singleton.mp h
      simp

/-- Within one execution no request is called twice. -/
theorem calls_pairwise (hnodup : requests.Nodup) :
    (runOnce spv2Transfer requests db).2.Pairwise fun a b => b.1 ≠ a.1 := by
  have hmap : ∀ {l : List ApprovedRequest}, l.Nodup →
      (l.map fun r => (r, true)).Pairwise fun a b => b.1 ≠ a.1 := by
    intro l hl
    exact List.pairwise_map.mpr (hl.imp fun h => Ne.symm h)
  by_cases hall : ∀ request ∈ requests, spv2Transfer request = true
  · rw [(runOnce_succeeded hall).2]
    exact hmap hnodup
  · obtain ⟨before, failed, after, rfl, hbefore, hfail⟩ := exists_failure hall
    rw [runOnce_failed hbefore hfail]
    have h := List.nodup_append.mp hnodup
    refine List.pairwise_append.mpr ⟨hmap h.1, List.pairwise_singleton _ _, ?_⟩
    intro a ha b hb
    obtain ⟨x, hx, rfl⟩ := List.mem_map.mp ha
    rw [List.mem_singleton.mp hb]
    exact Ne.symm (h.2.2 x hx failed List.mem_cons_self)

end

/-! ## Runs whose failures come last -/

section

variable {es : List ServiceEvent} {s : ServiceState} {db : MultispendDb}

/-- No request is called after a success. -/
def Settled (calls : List (ApprovedRequest × Bool)) : Prop :=
  calls.Pairwise fun a b => a.2 = true → b.1 ≠ a.1

theorem settled_iff {calls : List (ApprovedRequest × Bool)} : Settled calls ↔
    ∀ before request after, calls = before ++ (request, true) :: after → ∀ ok, (request, ok) ∉ after := by
  constructor
  · rintro h before request after rfl ok hmem
    have htail := (List.pairwise_append.mp h).2.1
    exact (List.pairwise_cons.mp htail).1 (request, ok) hmem rfl rfl
  · intro h
    unfold Settled
    induction calls with
    | nil => exact List.Pairwise.nil
    | cons a calls ih =>
      refine List.pairwise_cons.mpr ⟨?_, ih fun before request after hcalls =>
        h (a :: before) request after (by rw [hcalls, List.cons_append])⟩
      rintro ⟨request, ok⟩ hmem hok rfl
      obtain ⟨request, b⟩ := a
      have hok : b = true := hok
      subst hok
      exact h [] request calls rfl ok hmem

theorem Settled.once {calls : List (ApprovedRequest × Bool)} (h : Settled calls) (request : ApprovedRequest) :
    calls.count (request, true) ≤ 1 := by
  induction calls with
  | nil => simp
  | cons a calls ih =>
    obtain ⟨hhead, htail⟩ := List.pairwise_cons.mp h
    by_cases ha : a = (request, true)
    · have hnone : calls.count (request, true) = 0 := by
        refine List.count_eq_zero_of_not_mem fun hmem => ?_
        rw [ha] at hhead
        exact hhead _ hmem rfl rfl
      rw [ha, List.count_cons_self, hnone]
    · rw [List.count_cons_of_ne ha]
      exact ih htail

/-- No failed execution had several requests, so no request that succeeded is in the queue. -/
def NoneLeft (es : List ServiceEvent) : Prop :=
  ∀ before requests transfer after, es = before ++ .runOnce requests transfer :: after →
    (∃ request ∈ requests, transfer request = false) → requests.length = 1

/-- The state of a run whose failures come last. -/
structure ServiceInv (es : List ServiceEvent) (s : ServiceState) : Prop where
  settled : Settled s.calls
  gone : NoneLeft es → ∀ request, (request, true) ∈ s.calls →
    request ∉ s.db.pendingApprovedWithdrawalRequests
  pending : s.db.pendingApprovedWithdrawalRequests ⊆ s.queued
  called : ∀ request ok, (request, ok) ∈ s.calls → request ∈ s.queued

theorem ServiceInv.approve {s' : ServiceState} {request : ApprovedRequest} (h : ServiceInv es s)
    (hstep : serviceStep s (.approve request) = .ok s') : ServiceInv (es ++ [.approve request]) s' := by
  obtain ⟨hnew, rfl⟩ := serviceStep_approve_iff.mp hstep
  constructor
  · exact h.settled
  · intro hnone r hr
    have hes : NoneLeft es := fun before requests transfer after hsplit =>
      hnone before requests transfer (after ++ [.approve request])
        (by rw [hsplit, List.append_assoc, List.cons_append])
    rw [Finset.mem_insert, not_or]
    refine ⟨?_, h.gone hes r hr⟩
    rintro rfl
    exact hnew (h.called r true hr)
  · exact Finset.insert_subset_insert request h.pending
  · exact fun r ok hr => Finset.mem_insert_of_mem (h.called r ok hr)

theorem ServiceInv.runOnce {s' : ServiceState} {requests : List ApprovedRequest}
    {transfer : ApprovedRequest → Bool} (h : ServiceInv es s) (hnone : NoneLeft es)
    (hlast : ∀ request ∈ requests.dropLast, transfer request = true)
    (hstep : serviceStep s (.runOnce requests transfer) = .ok s') :
    ServiceInv (es ++ [.runOnce requests transfer]) s' := by
  obtain ⟨⟨hnodup, hkeys⟩, rfl⟩ := serviceStep_runOnce_iff.mp hstep
  have hmem : ∀ request, request ∈ requests ↔ request ∈ s.db.pendingApprovedWithdrawalRequests := by
    intro request
    rw [← hkeys, List.mem_toFinset]
  constructor
  · have hpairs : Settled (Multispend.runOnce transfer requests s.db).2 := by
      refine List.Pairwise.imp ?_ (calls_pairwise hnodup)
      intro a b hne _
      exact hne
    refine List.pairwise_append.mpr ⟨h.settled, hpairs, ?_⟩
    rintro ⟨a, oka⟩ ha ⟨b, okb⟩ hb hok rfl
    have hok : oka = true := hok
    subst hok
    exact h.gone hnone b ha ((hmem b).mp (mem_of_called hb))
  · intro hleft request hcall
    by_cases hall : ∀ request ∈ requests, transfer request = true
    · rw [(runOnce_succeeded hall).1, hkeys, Finset.sdiff_self]
      exact Finset.notMem_empty request
    · obtain ⟨before, failed, after, rfl, hbefore, hfail⟩ := exists_failure hall
      have hlen := hleft es (before ++ failed :: after) transfer [] rfl ⟨failed, by simp, hfail⟩
      obtain ⟨rfl, rfl⟩ : before = [] ∧ after = [] := by
        simp only [List.length_append, List.length_cons] at hlen
        exact ⟨List.eq_nil_of_length_eq_zero (by omega), List.eq_nil_of_length_eq_zero (by omega)⟩
      rw [runOnce_failed hbefore hfail] at hcall ⊢
      rcases List.mem_append.mp hcall with hcall | hcall
      · exact h.gone hnone request hcall
      · cases List.mem_singleton.mp hcall
  · by_cases hall : ∀ request ∈ requests, transfer request = true
    · rw [(runOnce_succeeded hall).1]
      exact Finset.sdiff_subset.trans h.pending
    · obtain ⟨before, failed, after, rfl, hbefore, hfail⟩ := exists_failure hall
      rw [runOnce_failed hbefore hfail]
      exact h.pending
  · intro request ok hcall
    rcases List.mem_append.mp hcall with hcall | hcall
    · exact h.called request ok hcall
    · exact h.pending ((hmem request).mp (mem_of_called hcall))

theorem OnlyLastFails.init {e : ServiceEvent} (h : OnlyLastFails (es ++ [e])) : OnlyLastFails es := by
  intro before requests transfer after hsplit
  obtain ⟨hlast, hfail⟩ := h before requests transfer (after ++ [e])
    (by rw [hsplit, List.append_assoc, List.cons_append])
  refine ⟨hlast, fun hex => ?_⟩
  rcases hfail hex with hlen | hnone
  · exact .inl hlen
  · exact .inr fun requests' transfer' hmem => hnone requests' transfer' (List.mem_append_left _ hmem)

theorem OnlyLastFails.noneLeft {requests : List ApprovedRequest} {transfer : ApprovedRequest → Bool}
    (h : OnlyLastFails (es ++ [.runOnce requests transfer])) : NoneLeft es := by
  intro before requests' transfer' after hsplit hex
  obtain ⟨-, hfail⟩ := h before requests' transfer' (after ++ [.runOnce requests transfer])
    (by rw [hsplit, List.append_assoc, List.cons_append])
  rcases hfail hex with hlen | hnone
  · exact hlen
  · exact absurd (List.mem_append_right _ List.mem_cons_self) (hnone requests transfer)

theorem serviceInv_of_run (hrun : run serviceStep (.start db) es = .ok s) :
    OnlyLastFails es → ServiceInv es s := by
  refine run_induction (P := fun es s => OnlyLastFails es → ServiceInv es s) ?_ ?_ hrun
  · intro _
    exact ⟨List.Pairwise.nil, fun _ _ h => (by cases h), Finset.Subset.refl _, fun _ _ h => (by cases h)⟩
  · intro es s e s' _ ih hstep hsafe
    cases e with
    | approve request => exact (ih hsafe.init).approve hstep
    | runOnce requests transfer =>
      exact (ih hsafe.init).runOnce hsafe.noneLeft (hsafe es requests transfer [] rfl).1 hstep

/-- What an execution of a run goes through. -/
theorem runOnce_of_run {before after : List ServiceEvent} {requests : List ApprovedRequest}
    {transfer : ApprovedRequest → Bool}
    (hrun : run serviceStep (.start db) (before ++ .runOnce requests transfer :: after) = .ok s) :
    ∃ s1, run serviceStep (.start db) before = .ok s1 ∧ requests.Nodup ∧
      requests.toFinset = s1.db.pendingApprovedWithdrawalRequests ∧
      run serviceStep ⟨(Multispend.runOnce transfer requests s1.db).1,
        s1.calls ++ (Multispend.runOnce transfer requests s1.db).2, s1.queued⟩ after = .ok s := by
  obtain ⟨s1, h1, h2⟩ := run_append.mp hrun
  obtain ⟨s2, h2, h3⟩ := run_cons.mp h2
  obtain ⟨⟨hnodup, hkeys⟩, rfl⟩ := serviceStep_runOnce_iff.mp h2
  exact ⟨s1, h1, hnodup, hkeys, h3⟩

theorem submitted_of_onlyLastFails (hrun : run serviceStep (.start db) es = .ok s) (h : OnlyLastFails es) :
    SubmittedAsQueued db es s := by
  have hinv := serviceInv_of_run hrun h
  refine ⟨hinv.settled.once, settled_iff.mp hinv.settled, ?_⟩
  rintro before requests transfer after rfl s1 h1 request hmem
  obtain ⟨s1', h1', hnodup, hkeys, -⟩ := runOnce_of_run hrun
  rw [h1] at h1'
  cases h1'
  rw [← hkeys, List.mem_toFinset] at hmem
  exact (tried_iff hnodup).mpr (h before requests transfer after rfl).1 request hmem

/-! ## Runs that do as queued -/

theorem calls_grow {s s' : ServiceState} (hrun : run serviceStep s es = .ok s') :
    ∃ more, s'.calls = s.calls ++ more := by
  refine run_rel (R := fun s s' : ServiceState => ∃ more, s'.calls = s.calls ++ more) ?_ ?_ ?_ hrun
  · exact fun s => ⟨[], (List.append_nil _).symm⟩
  · rintro a b c ⟨more, hb⟩ ⟨more', hc⟩
    exact ⟨more ++ more', by rw [hc, hb, List.append_assoc]⟩
  · intro s e s' hstep
    cases e with
    | approve request =>
      obtain ⟨-, rfl⟩ := serviceStep_approve_iff.mp hstep
      exact ⟨[], (List.append_nil _).symm⟩
    | runOnce requests transfer =>
      obtain ⟨-, rfl⟩ := serviceStep_runOnce_iff.mp hstep
      exact ⟨_, rfl⟩

/-- A request in the queue is called by the next execution, if every execution tries all. -/
theorem called_next {s s' : ServiceState} {request : ApprovedRequest}
    (hrun : run serviceStep s es = .ok s') (hmem : request ∈ s.db.pendingApprovedWithdrawalRequests)
    (htried : ∀ before requests transfer after, es = before ++ .runOnce requests transfer :: after →
      ∀ s1, run serviceStep s before = .ok s1 → ∀ request ∈ s1.db.pendingApprovedWithdrawalRequests,
        ∃ ok, (request, ok) ∈ (Multispend.runOnce transfer requests s1.db).2)
    {requests : List ApprovedRequest} {transfer : ApprovedRequest → Bool}
    (hexec : .runOnce requests transfer ∈ es) : ∃ more ok, s'.calls = s.calls ++ more ∧ (request, ok) ∈ more := by
  induction es generalizing s with
  | nil => cases hexec
  | cons e es ih =>
    obtain ⟨s1, h1, h2⟩ := run_cons.mp hrun
    cases e with
    | approve queued =>
      have hexec : .runOnce requests transfer ∈ es := by simpa using hexec
      have hkeep : request ∈ s1.db.pendingApprovedWithdrawalRequests ∧ s1.calls = s.calls := by
        obtain ⟨-, rfl⟩ := serviceStep_approve_iff.mp h1
        exact ⟨Finset.mem_insert_of_mem hmem, rfl⟩
      rw [← hkeep.2]
      refine ih h2 hkeep.1 ?_ hexec
      intro before requests transfer after hsplit s2 hs2
      exact htried (.approve queued :: before) requests transfer after (by rw [hsplit, List.cons_append]) s2
        (run_cons.mpr ⟨s1, h1, hs2⟩)
    | runOnce requests' transfer' =>
      obtain ⟨ok, hcall⟩ := htried [] requests' transfer' es rfl s rfl request hmem
      obtain ⟨more, hmore⟩ := calls_grow h2
      have hcalls : s1.calls = s.calls ++ (Multispend.runOnce transfer' requests' s.db).2 := by
        obtain ⟨-, rfl⟩ := serviceStep_runOnce_iff.mp h1
        rfl
      exact ⟨_, ok, by rw [hmore, hcalls, List.append_assoc], List.mem_append_left _ hcall⟩

theorem onlyLastFails_of_submitted (hrun : run serviceStep (.start db) es = .ok s)
    (h : SubmittedAsQueued db es s) : OnlyLastFails es := by
  rintro before requests transfer after rfl
  obtain ⟨s1, h1, hnodup, hkeys, h2⟩ := runOnce_of_run hrun
  have hlast : ∀ request ∈ requests.dropLast, transfer request = true := by
    refine (@tried_iff transfer requests s1.db hnodup).mp fun request hmem => ?_
    refine h.tried before requests transfer after rfl s1 h1 request ?_
    rw [← hkeys, List.mem_toFinset]
    exact hmem
  refine ⟨hlast, fun hex => ?_⟩
  by_contra hnot
  rw [not_or] at hnot
  obtain ⟨hlen, hmore⟩ := hnot
  simp only [not_forall, not_not] at hmore
  obtain ⟨requests', transfer', hexec⟩ := hmore
  obtain ⟨submitted, failed, rest, rfl, hsubmitted, hfail⟩ := first_failure hex
  -- a request that was submitted before the failure is in the queue again
  obtain ⟨request, hrequest⟩ : ∃ request, request ∈ submitted := by
    cases submitted with
    | cons request submitted => exact ⟨request, List.mem_cons_self⟩
    | nil =>
      cases rest with
      | nil => exact absurd rfl hlen
      | cons next rest =>
        rw [List.nil_append, List.dropLast_cons_of_ne_nil (List.cons_ne_nil _ _)] at hlast
        rw [hlast failed List.mem_cons_self] at hfail
        cases hfail
  rw [runOnce_failed hsubmitted hfail] at h2
  have hpending : request ∈ s1.db.pendingApprovedWithdrawalRequests := by
    rw [← hkeys, List.mem_toFinset]
    exact List.mem_append_left _ hrequest
  obtain ⟨more, ok, hcalls, hcall⟩ := called_next h2 hpending (fun mid requests' transfer' rest' hsplit s2 hs2 => by
    refine h.tried (before ++ .runOnce (submitted ++ failed :: rest) transfer :: mid) requests' transfer' rest' ?_
      s2 ?_
    · rw [hsplit, List.append_assoc, List.cons_append]
    · refine run_append.mpr ⟨s1, h1, run_cons.mpr ⟨_, ?_, hs2⟩⟩
      exact serviceStep_runOnce_iff.mpr ⟨⟨hnodup, hkeys⟩, by rw [runOnce_failed hsubmitted hfail]⟩) hexec
  obtain ⟨l, r, hsplit⟩ := List.append_of_mem (List.mem_map.mpr ⟨request, hrequest, rfl⟩ :
    (request, true) ∈ submitted.map fun r => (r, true))
  refine h.settled (s1.calls ++ l) request (r ++ [(failed, false)] ++ more) ?_ ok
    (List.mem_append_right _ hcall)
  rw [hcalls, hsplit]
  simp

end

/-- A run of the service submits the approved requests as queued exactly when failures come last. -/
theorem submitted_as_queued_iff {db : MultispendDb} {es : List ServiceEvent} {s : ServiceState}
    (hrun : run serviceStep (.start db) es = .ok s) : SubmittedAsQueued db es s ↔ OnlyLastFails es :=
  ⟨onlyLastFails_of_submitted hrun, submitted_of_onlyLastFails hrun⟩

/-! ## Three requests -/

/-- Request `id` of room 0, waiting for submission. -/
def demoApproved (id : RpcEventId) : ApprovedRequest where
  roomId := 0
  requestEventId := id
  federationId := 1
  transferRequest := ⟨.empty, ⟨50, .single 10 .seeker, 5, ⟨.seeker, 9⟩, [], 1, none⟩⟩

/-- A queue of two requests. -/
def demoQueue : MultispendDb :=
  { MultispendDb.empty with pendingApprovedWithdrawalRequests := {demoApproved 102, demoApproved 103} }

/-- Two requests are submitted, then a third one fails once. -/
def demoService : List ServiceEvent :=
  [.runOnce [demoApproved 102, demoApproved 103] fun _ => true, .approve (demoApproved 104),
    .runOnce [demoApproved 104] fun _ => false, .runOnce [demoApproved 104] fun _ => true]

theorem demoService_onlyLastFails : OnlyLastFails demoService := by
  have hsplits : ∀ before e after, demoService = before ++ e :: after → ∀ requests transfer,
      e = .runOnce requests transfer →
      (∀ request ∈ requests.dropLast, transfer request = true) ∧
        ((∃ request ∈ requests, transfer request = false) →
          requests.length = 1 ∨ ∀ requests transfer, .runOnce requests transfer ∉ after) := by
    refine forall_splits_cons ?_ (forall_splits_cons ?_ (forall_splits_cons ?_ (forall_splits_cons ?_
      forall_splits_nil)))
    · rintro _ _ ⟨⟩
      exact ⟨fun _ _ => rfl, fun ⟨_, _, h⟩ => (by cases h)⟩
    · rintro _ _ ⟨⟩
    · rintro _ _ ⟨⟩
      exact ⟨fun _ h => (by cases h), fun _ => .inl rfl⟩
    · rintro _ _ ⟨⟩
      exact ⟨fun _ _ => rfl, fun ⟨_, _, h⟩ => (by cases h)⟩
  exact fun before requests transfer after hsplit => hsplits before _ after hsplit requests transfer rfl

theorem submitted_as_queued_iff_demo : ∃ s, run serviceStep (.start demoQueue) demoService = .ok s ∧
    SubmittedAsQueued demoQueue demoService s := by
  obtain ⟨s, hs⟩ := exists_of_succeeds
    (show succeeds (run serviceStep (.start demoQueue) demoService) = true by decide +kernel)
  exact ⟨s, hs, (submitted_as_queued_iff hs).mpr demoService_onlyLastFails⟩

/-- The second of two requests fails: the first one is submitted again. -/
def demoFailingService : List ServiceEvent :=
  [.runOnce [demoApproved 102, demoApproved 103] fun request => request.requestEventId = 102,
    .runOnce [demoApproved 102, demoApproved 103] fun _ => true]

theorem submitted_twice : ∃ s, run serviceStep (.start demoQueue) demoFailingService = .ok s ∧
    s.calls.count (demoApproved 102, true) = 2 ∧ ¬SubmittedAsQueued demoQueue demoFailingService s := by
  have hrun : (run serviceStep (.start demoQueue) demoFailingService).map (fun s =>
      s.calls.count (demoApproved 102, true)) = .ok 2 := by decide +kernel
  cases hs : run serviceStep (.start demoQueue) demoFailingService with
  | error e =>
    rw [hs] at hrun
    cases hrun
  | ok s =>
    rw [hs] at hrun
    have hcount : s.calls.count (demoApproved 102, true) = 2 := Except.ok.inj hrun
    refine ⟨s, rfl, hcount, fun h => ?_⟩
    have honce := h.once (demoApproved 102)
    omega

end Multispend
