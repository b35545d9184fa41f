import Fedi.Lib.Runs
import Fedi.RpcStreams.VectorDiffs

/-!
# Stream subscriptions (`ui/common/utils/fedimint.ts`, `runtime/src/rpc_stream.rs`)

`rpcStream` counts the streams; its handler and the bridge's task are found under that id.  Requests, responses,
updates and cancellations are messages on their way, and each end takes them when it comes to it.  The bridge
registers ids of 64 bits; its `streamCancel` reads an id of 32 bits.

    callbacks see the batches in order, so the mirror is exact       (mirrored)
    no callback runs after unsubscribe                               (run_silent)
    what is registered and unsubscribed leaves the pool, if the
      id fits                                                        (released)
-/

namespace RpcStreams

open Runs

/-! ## One stream -/

/-- An `RpcStreamUpdate`; its stream id is where it is queued. -/
structure Update (α : Type) where
  sequence : ℕ
  data : List (VectorDiff α)

/-- The task that forwards a stream of diffs. -/
structure Task (α : Type) where
  vector : List α
  /-- The vector itself is still to be sent. -/
  snapshotDue : Bool
  sequence : ℕ

structure Subscription (α : Type) where
  -- the front end
  handler : Bool
  cancelled : Bool
  initializationFailed : Bool
  /-- `initPromise` is resolved. -/
  settled : Bool
  /-- How often `unsubscribe` waits for it. -/
  thens : ℕ
  nextSequence : ℕ
  -- on the way
  request : Bool
  response : Option Bool
  updates : List (Update α)
  cancels : ℕ
  -- the bridge
  pooled : Bool
  task : Option (Task α)
  -- history
  registered : Bool
  callbacks : List (List (VectorDiff α))
  sent : List (List (VectorDiff α))
  /-- The vector after each batch. -/
  vectors : List (List α)

/-- What `rpcStream` leaves. -/
def Subscription.start (α : Type) : Subscription α where
  handler := true
  cancelled := false
  initializationFailed := false
  settled := false
  thens := 0
  nextSequence := 0
  request := true
  response := none
  updates := []
  cancels := 0
  pooled := false
  task := none
  registered := false
  callbacks := []
  sent := []
  vectors := []

inductive StreamEvent (α : Type) where
  /-- The bridge fails before it registers the stream. -/
  | refuse
  /-- `register_stream`, of a vector that is sent first or is empty. -/
  | register (vector : List α) (snapshot : Bool)
  /-- Something happens to the vector. -/
  | batch (diffs : List (VectorDiff α))
  | respond
  | emit
  | unsubscribe
  /-- The bridge handles a `streamCancel`. -/
  | cancel
  | shutdown

variable {α : Type}

/-- Ids that `streamCancel` reads. -/
def cancellable (id : ℕ) : Bool := decide (id < 2 ^ 32)

def Subscription.registerStream (s : Subscription α) (vector : List α) (snapshot : Bool) : Subscription α :=
  if s.pooled then { s with request := false, response := some false }
  else
    { s with
      request := false
      response := some true
      pooled := true
      task := some ⟨vector, snapshot, 0⟩
      registered := true }

/-- The batch that a task sends, and the task after it. -/
def Task.send (task : Task α) (diffs : List (VectorDiff α)) (vector : List α) : Update α × Task α :=
  let data := if task.snapshotDue then .reset task.vector :: diffs else diffs
  (⟨task.sequence, data⟩, ⟨vector, false, task.sequence + 1⟩)

def Subscription.respond (s : Subscription α) (ok : Bool) : Subscription α :=
  if ok then { s with response := none, settled := true, thens := 0, cancels := s.cancels + s.thens }
  else { s with response := none, settled := true, thens := 0, initializationFailed := true, handler := false }

/-- The handler counts the updates and does not insist on their numbers. -/
def Subscription.emit (s : Subscription α) (update : Update α) (rest : List (Update α)) : Subscription α :=
  if s.handler && !s.cancelled then
    { s with updates := rest, nextSequence := s.nextSequence + 1, callbacks := s.callbacks ++ [update.data] }
  else { s with updates := rest }

def Subscription.unsubscribe (s : Subscription α) : Subscription α :=
  if s.settled then
    { s with
      cancelled := true
      handler := false
      cancels := if s.initializationFailed then s.cancels else s.cancels + 1 }
  else { s with cancelled := true, handler := false, thens := s.thens + 1 }

def Subscription.cancelStream (s : Subscription α) (id : ℕ) : Subscription α :=
  if cancellable id && s.pooled then { s with cancels := s.cancels - 1, pooled := false }
  else { s with cancels := s.cancels - 1 }

def Subscription.step (id : ℕ) (s : Subscription α) : StreamEvent α → Except Unit (Subscription α)
  | .refuse => if s.request then .ok { s with request := false, response := some false } else .error ()
  | .register vector snapshot =>
    if s.request && (snapshot || vector.isEmpty) then .ok (s.registerStream vector snapshot) else .error ()
  | .batch diffs =>
    match s.task with
    | none => .error ()
    | some task =>
      match runBatch diffs task.vector with
      | none => .error ()
      | some vector =>
        .ok { s with
          updates := s.updates ++ [(task.send diffs vector).1]
          task := some (task.send diffs vector).2
          sent := s.sent ++ [(task.send diffs vector).1.data]
          vectors := s.vectors ++ [vector] }
  | .respond =>
    match s.response with
    | none => .error ()
    | some ok => .ok (s.respond ok)
  | .emit =>
    match s.updates with
    | [] => .error ()
    | update :: rest => .ok (s.emit update rest)
  | .unsubscribe => .ok s.unsubscribe
  | .cancel => if 0 < s.cancels then .ok (s.cancelStream id) else .error ()
  | .shutdown => if s.task.isSome && !s.pooled then .ok { s with task := none } else .error ()

/-! ## All streams -/

/-- A stream is opened, or something happens to one of them. -/
inductive Event (α : Type) where
  | rpcStream
  | stream (id : ℕ) (e : StreamEvent α)

def step (s : List (Subscription α)) : Event α → Except Unit (List (Subscription α))
  | .rpcStream => .ok (s ++ [.start α])
  | .stream id e =>
    match s[id]? with
    | none => .error ()
    | some subscription => subscription.step id e >>= fun subscription' => .ok (s.set id subscription')

/-! ## What is promised -/

/-- After every callback the mirror is the mapped vector after that batch. -/
def Subscription.Mirrored {β : Type} (s : Subscription α) (f : α → β) : Prop :=
  ∀ j < s.callbacks.length, ∃ v, s.vectors[j]? = some v ∧ mirror f (s.callbacks.take (j + 1)) = v.map f

/-- Registered and unsubscribed, it is out of the pool when its messages are handled. -/
def Subscription.Released (s : Subscription α) : Prop :=
  s.registered = true → s.cancelled = true → s.response = none → s.cancels = 0 → s.pooled = false

/-- The next stream gets an id that can be cancelled. -/
def OpensBelow (s : List (Subscription α)) : Event α → Prop
  | .rpcStream => s.length < 2 ^ 32
  | .stream _ _ => True

/-! ## What a step does -/

inductive Subscription.Outcome (id : ℕ) (s : Subscription α) : StreamEvent α → Subscription α → Prop
  | refused : s.request = true → Outcome id s .refuse { s with request := false, response := some false }
  | duplicate (vector : List α) (snapshot : Bool) : s.request = true → s.pooled = true →
    Outcome id s (.register vector snapshot) { s with request := false, response := some false }
  | registered (vector : List α) (snapshot : Bool) : s.request = true → s.pooled = false →
    (snapshot = false → vector = []) →
    Outcome id s (.register vector snapshot)
      { s with
        request := false, response := some true, pooled := true, task := some ⟨vector, snapshot, 0⟩, registered := true }
  | sent (task : Task α) (diffs : List (VectorDiff α)) (vector : List α) : s.task = some task →
    runBatch diffs task.vector = some vector →
    Outcome id s (.batch diffs)
      { s with
        updates := s.updates ++ [(task.send diffs vector).1], task := some (task.send diffs vector).2
        sent := s.sent ++ [(task.send diffs vector).1.data], vectors := s.vectors ++ [vector] }
  | accepted : s.response = some true →
    Outcome id s .respond { s with response := none, settled := true, thens := 0, cancels := s.cancels + s.thens }
  | rejected : s.response = some false →
    Outcome id s .respond
      { s with response := none, settled := true, thens := 0, initializationFailed := true, handler := false }
  | called (update : Update α) (rest : List (Update α)) : s.updates = update :: rest → s.handler = true →
    s.cancelled = false →
    Outcome id s .emit
      { s with updates := rest, nextSequence := s.nextSequence + 1, callbacks := s.callbacks ++ [update.data] }
  | dropped (update : Update α) (rest : List (Update α)) : s.updates = update :: rest →
    (s.cancelled = false → s.handler = false) → Outcome id s .emit { s with updates := rest }
  | unsubscribed : s.settled = true → s.initializationFailed = false →
    Outcome id s .unsubscribe { s with cancelled := true, handler := false, cancels := s.cancels + 1 }
  | unsubscribedFailed : s.settled = true → s.initializationFailed = true →
    Outcome id s .unsubscribe { s with cancelled := true, handler := false }
  | unsubscribedEarly : s.settled = false →
    Outcome id s .unsubscribe { s with cancelled := true, handler := false, thens := s.thens + 1 }
  | removed : 0 < s.cancels → Outcome id s .cancel { s with cancels := s.cancels - 1, pooled := false }
  | unknown : 0 < s.cancels → (id < 2 ^ 32 → s.pooled = false) → Outcome id s .cancel { s with cancels := s.cancels - 1 }
  | stopped : s.pooled = false → Outcome id s .shutdown { s with task := none }

theorem step_outcome {id : ℕ} {s s' : Subscription α} {e : StreamEvent α} (h : s.step id e = .ok s') :
    s.Outcome id e s' := by
  cases e with
  | refuse =>
    simp only [Subscription.step] at h
    split_ifs at h with hrequest
    cases h
    exact .refused hrequest
  | register vector snapshot =>
    simp only [Subscription.step] at h
    split_ifs at h with hguard
    cases h
    rw [Bool.and_eq_true, Bool.or_eq_true, List.isEmpty_iff] at hguard
    obtain ⟨hrequest, hvector⟩ := hguard
    unfold Subscription.registerStream
    by_cases hpooled : s.pooled = true
    · rw [if_pos hpooled]
      exact .duplicate vector snapshot hrequest hpooled
    · rw [if_neg hpooled]
      refine .registered vector snapshot hrequest (Bool.eq_false_of_not_eq_true hpooled) ?_
      intro hsnapshot
      rw [hsnapshot] at hvector
      exact hvector.resolve_left Bool.false_ne_true
  | batch diffs =>
    cases htask : s.task with
    | none =>
      simp only [Subscription.step, htask, reduceCtorEq] at h
    | some task =>
      cases hrun : runBatch diffs task.vector with
      | none => simp only [Subscription.step, htask, hrun, reduceCtorEq] at h
      | some vector =>
        simp only [Subscription.step, htask, hrun] at h
        cases h
        exact .sent task diffs vector htask hrun
  | respond =>
    cases hresponse : s.response with
    | none => simp only [Subscription.step, hresponse, reduceCtorEq] at h
    | some ok =>
      simp only [Subscription.step, hresponse] at h
      cases h
      cases ok with
      | false => exact .rejected hresponse
      | true => exact .accepted hresponse
  | emit =>
    cases hupdates : s.updates with
    | nil => simp only [Subscription.step, hupdates, reduceCtorEq] at h
    | cons update rest =>
      simp only [Subscription.step, hupdates] at h
      cases h
      unfold Subscription.emit
      by_cases hlive : (s.handler && !s.cancelled) = true
      · rw [if_pos hlive]
        rw [Bool.and_eq_true, Bool.not_eq_true'] at hlive
        exact .called update rest hupdates hlive.1 hlive.2
      · rw [if_neg hlive]
        refine .dropped update rest hupdates ?_
        intro hcancelled
        rw [hcancelled, Bool.not_false, Bool.and_true] at hlive
        exact Bool.eq_false_of_not_eq_true hlive
  | unsubscribe =>
    simp only [Subscription.step] at h
    cases h
    unfold Subscription.unsubscribe
    by_cases hsettled : s.settled = true
    · rw [if_pos hsettled]
      by_cases hfailed : s.initializationFailed = true
      · rw [if_pos hfailed]
        exact .unsubscribedFailed hsettled hfailed
      · rw [if_neg hfailed]
        exact .unsubscribed hsettled (Bool.eq_false_of_not_eq_true hfailed)
    · rw [if_neg hsettled]
      exact .unsubscribedEarly (Bool.eq_false_of_not_eq_true hsettled)
  | cancel =>
    simp only [Subscription.step] at h
    split_ifs at h with hcancels
    cases h
    unfold Subscription.cancelStream
    by_cases hfits : (cancellable id && s.pooled) = true
    · rw [if_pos hfits]
      exact .removed hcancels
    · rw [if_neg hfits]
      refine .unknown hcancels ?_
      intro hid
      have hcancellable : cancellable id = true := decide_eq_true hid
      rw [hcancellable, Bool.true_and] at hfits
      exact Bool.eq_false_of_not_eq_true hfits
  | shutdown =>
    simp only [Subscription.step] at h
    split_ifs at h with hguard
    cases h
    rw [Bool.and_eq_true, Bool.not_eq_true'] at hguard
    exact .stopped hguard.2

/-! ## The request -/

/-- The request is on its way, or its response is, or both ends know how it ended. -/
def Subscription.Asked (s : Subscription α) : Prop :=
  (s.request = true ∧ s.response = none ∧ s.settled = false ∧ s.initializationFailed = false ∧ s.registered = false) ∨
  (s.request = false ∧ s.response = some s.registered ∧ s.settled = false ∧ s.initializationFailed = false) ∨
  (s.request = false ∧ s.response = none ∧ s.settled = true ∧ s.initializationFailed = !s.registered)

structure Subscription.Agreed (s : Subscription α) : Prop where
  asked : s.Asked
  pooled : s.pooled = true → s.registered = true
  task : s.task.isSome = true → s.registered = true

variable {id : ℕ} {s s' : Subscription α} {e : StreamEvent α}

theorem Subscription.Agreed.requested (h : s.Agreed) (hrequest : s.request = true) :
    s.settled = false ∧ s.initializationFailed = false ∧ s.registered = false := by
  rcases h.asked with ⟨-, -, hsettled, hfailed, hregistered⟩ | ⟨hno, -⟩ | ⟨hno, -⟩
  · exact ⟨hsettled, hfailed, hregistered⟩
  · rw [hrequest] at hno
    cases hno
  · rw [hrequest] at hno
    cases hno

theorem Subscription.Agreed.answered (h : s.Agreed) {ok : Bool} (hresponse : s.response = some ok) :
    s.request = false ∧ s.registered = ok ∧ s.settled = false ∧ s.initializationFailed = false := by
  rcases h.asked with ⟨-, hno, -⟩ | ⟨hrequest, hok, hsettled, hfailed⟩ | ⟨-, hno, -⟩
  · rw [hresponse] at hno
    cases hno
  · rw [hresponse] at hok
    exact ⟨hrequest, (Option.some.inj hok).symm, hsettled, hfailed⟩
  · rw [hresponse] at hno
    cases hno

theorem Subscription.Agreed.failed (h : s.Agreed) (hfailed : s.initializationFailed = true) : s.registered = false := by
  rcases h.asked with ⟨-, -, -, hno, -⟩ | ⟨-, -, -, hno⟩ | ⟨-, -, -, hregistered⟩
  · rw [hfailed] at hno
    cases hno
  · rw [hfailed] at hno
    cases hno
  · rw [hfailed] at hregistered
    cases hvalue : s.registered with
    | false => rfl
    | true =>
      rw [hvalue] at hregistered
      cases hregistered

theorem agreed_start : (Subscription.start α).Agreed where
  asked := .inl ⟨rfl, rfl, rfl, rfl, rfl⟩
  pooled h := h
  task h := h

theorem agreed_step (h : s.Agreed) (hstep : s.Outcome id e s') : s'.Agreed := by
  cases hstep with
  | refused hrequest =>
    obtain ⟨hsettled, hfailed, hregistered⟩ := h.requested hrequest
    refine ⟨.inr (.inl ⟨rfl, ?_, hsettled, hfailed⟩), h.pooled, h.task⟩
    show some false = some s.registered
    rw [hregistered]
  | duplicate vector snapshot hrequest hpooled =>
    obtain ⟨-, -, hregistered⟩ := h.requested hrequest
    rw [h.pooled hpooled] at hregistered
    cases hregistered
  | registered vector snapshot hrequest =>
    obtain ⟨hsettled, hfailed, -⟩ := h.requested hrequest
    exact ⟨.inr (.inl ⟨rfl, rfl, hsettled, hfailed⟩), fun _ => rfl, fun _ => rfl⟩
  | sent task diffs vector htask =>
    refine ⟨h.asked, h.pooled, fun _ => h.task ?_⟩
    rw [htask]
    rfl
  | accepted hresponse =>
    obtain ⟨hrequest, hregistered, -, hfailed⟩ := h.answered hresponse
    refine ⟨.inr (.inr ⟨hrequest, rfl, rfl, ?_⟩), h.pooled, h.task⟩
    show s.initializationFailed = !s.registered
    rw [hfailed, hregistered]
    rfl
  | rejected hresponse =>
    obtain ⟨hrequest, hregistered, -, -⟩ := h.answered hresponse
    refine ⟨.inr (.inr ⟨hrequest, rfl, rfl, ?_⟩), h.pooled, h.task⟩
    show true = !s.registered
    rw [hregistered]
    rfl
  | called update rest hupdates hhandler hcancelled => exact ⟨h.asked, h.pooled, h.task⟩
  | dropped update rest hupdates hhandler => exact ⟨h.asked, h.pooled, h.task⟩
  | unsubscribed hsettled hfailed => exact ⟨h.asked, h.pooled, h.task⟩
  | unsubscribedFailed hsettled hfailed => exact ⟨h.asked, h.pooled, h.task⟩
  | unsubscribedEarly hsettled => exact ⟨h.asked, h.pooled, h.task⟩
  | removed hcancels => exact ⟨h.asked, fun hno => absurd hno Bool.false_ne_true, h.task⟩
  | unknown hcancels hid => exact ⟨h.asked, h.pooled, h.task⟩
  | stopped hpooled => exact ⟨h.asked, h.pooled, fun hno => absurd hno Bool.false_ne_true⟩

/-! ## The updates -/

section

variable {β : Type} {f : α → β}

/-- Callbacks see what was sent from its start, and what was sent mirrors the vector. -/
structure Subscription.InStep (s : Subscription α) (f : α → β) : Prop where
  handler : s.cancelled = false → s.initializationFailed = false → s.handler = true
  unregistered : s.registered = false → s.sent = []
  queue : s.cancelled = false → s.sent = s.callbacks ++ s.updates.map (·.data)
  seen : s.callbacks <+: s.sent
  lengths : s.vectors.length = s.sent.length
  faithful : ∀ j v, s.vectors[j]? = some v → mirror f (s.sent.take (j + 1)) = v.map f
  current : ∀ task, s.task = some task → task.snapshotDue = false → mirror f s.sent = task.vector.map f

theorem inStep_start (f : α → β) : (Subscription.start α).InStep f where
  handler _ _ := rfl
  unregistered _ := rfl
  queue _ := rfl
  seen := List.prefix_refl _
  lengths := rfl
  faithful j v h := by cases h
  current task h := by cases h

/-- The batch that is sent makes the mirror the mapped vector after it. -/
theorem send_exact (h : s.InStep f) {task : Task α} {diffs : List (VectorDiff α)} {vector : List α}
    (htask : s.task = some task) (hrun : runBatch diffs task.vector = some vector) :
    mirror f (s.sent ++ [(task.send diffs vector).1.data]) = vector.map f := by
  unfold Task.send
  cases hdue : task.snapshotDue with
  | true => exact mirror_snapshot f hrun
  | false => exact mirror_snoc (h.current task htask hdue) hrun

theorem inStep_step (hagreed : s.Agreed) (h : s.InStep f) (hstep : s.Outcome id e s') : s'.InStep f := by
  cases hstep with
  | refused hrequest => exact ⟨h.handler, h.unregistered, h.queue, h.seen, h.lengths, h.faithful, h.current⟩
  | duplicate vector snapshot hrequest hpooled =>
    exact ⟨h.handler, h.unregistered, h.queue, h.seen, h.lengths, h.faithful, h.current⟩
  | registered vector snapshot hrequest hpooled hvector =>
    have hsent : s.sent = [] := h.unregistered (hagreed.requested hrequest).2.2
    refine ⟨h.handler, fun hno => absurd hno.symm Bool.false_ne_true, h.queue, h.seen, h.lengths, h.faithful, ?_⟩
    intro task htask hsnapshot
    cases htask
    show mirror f s.sent = vector.map f
    rw [hsent, hvector hsnapshot]
    rfl
  | sent task diffs vector htask hrun =>
    have hexact := send_exact h htask hrun
    refine ⟨h.handler, ?_, ?_, h.seen.trans (List.prefix_append _ _), ?_, ?_, ?_⟩
    · intro hno
      have hregistered : s.registered = true := hagreed.task (by rw [htask]; rfl)
      rw [hregistered] at hno
      cases hno
    · intro hcancelled
      show s.sent ++ _ = s.callbacks ++ List.map _ (s.updates ++ _)
      rw [List.map_append, ← List.append_assoc, ← h.queue hcancelled]
      rfl
    · show (s.vectors ++ [vector]).length = (s.sent ++ _).length
      rw [List.length_append, List.length_append, h.lengths]
      rfl
    · intro j v hv
      show mirror f ((s.sent ++ _).take (j + 1)) = v.map f
      rcases Nat.lt_or_ge j s.vectors.length with hlt | hge
      · rw [List.getElem?_append_left hlt] at hv
        rw [List.take_append_of_le_length (by rw [← h.lengths]; exact hlt)]
        exact h.faithful j v hv
      · rw [List.getElem?_append_right hge, List.getElem?_singleton] at hv
        split_ifs at hv with hlast
        cases hv
        rw [List.take_of_length_le]
        · exact hexact
        · rw [List.length_append, ← h.lengths, List.length_singleton]
          omega
    · intro task' htask' _
      cases htask'
      exact hexact
  | accepted hresponse => exact ⟨h.handler, h.unregistered, h.queue, h.seen, h.lengths, h.faithful, h.current⟩
  | rejected hresponse =>
    exact ⟨fun _ hno => absurd hno.symm Bool.false_ne_true, h.unregistered, h.queue, h.seen, h.lengths, h.faithful,
      h.current⟩
  | called update rest hupdates hhandler hcancelled =>
    have hqueue : s.sent = (s.callbacks ++ [update.data]) ++ rest.map (·.data) := by
      rw [h.queue hcancelled, hupdates, List.map_cons, List.append_assoc, List.singleton_append]
    refine ⟨h.handler, h.unregistered, fun _ => hqueue, ?_, h.lengths, h.faithful, h.current⟩
    show s.callbacks ++ [update.data] <+: s.sent
    rw [hqueue]
    exact List.prefix_append _ _
  | dropped update rest hupdates hhandler =>
    refine ⟨h.handler, h.unregistered, ?_, h.seen, h.lengths, h.faithful, h.current⟩
    intro hcancelled
    -- only a failed request leaves a subscription without a handler, and then nothing is sent
    have hfailed : s.initializationFailed = true := by
      by_contra hok
      have hlive := h.handler hcancelled (Bool.eq_false_of_not_eq_true hok)
      rw [hhandler hcancelled] at hlive
      cases hlive
    have hqueue := h.queue hcancelled
    rw [h.unregistered (hagreed.failed hfailed), hupdates] at hqueue
    exact absurd hqueue.symm (by simp)
  | unsubscribed hsettled hfailed =>
    exact ⟨fun hno => absurd hno.symm Bool.false_ne_true, h.unregistered, fun hno => absurd hno.symm Bool.false_ne_true,
      h.seen, h.lengths, h.faithful, h.current⟩
  | unsubscribedFailed hsettled hfailed =>
    exact ⟨fun hno => absurd hno.symm Bool.false_ne_true, h.unregistered, fun hno => absurd hno.symm Bool.false_ne_true,
      h.seen, h.lengths, h.faithful, h.current⟩
  | unsubscribedEarly hsettled =>
    exact ⟨fun hno => absurd hno.symm Bool.false_ne_true, h.unregistered, fun hno => absurd hno.symm Bool.false_ne_true,
      h.seen, h.lengths, h.faithful, h.current⟩
  | removed hcancels => exact ⟨h.handler, h.unregistered, h.queue, h.seen, h.lengths, h.faithful, h.current⟩
  | unknown hcancels hid => exact ⟨h.handler, h.unregistered, h.queue, h.seen, h.lengths, h.faithful, h.current⟩
  | stopped hpooled =>
    refine ⟨h.handler, h.unregistered, h.queue, h.seen, h.lengths, h.faithful, ?_⟩
    intro task htask
    cases htask

theorem mirrored (h : s.InStep f) : s.Mirrored f := by
  intro j hj
  have hle : s.callbacks.length ≤ s.sent.length := h.seen.length_le
  have hlt : j < s.vectors.length := by
    rw [h.lengths]
    omega
  refine ⟨s.vectors[j], List.getElem?_eq_getElem hlt, ?_⟩
  obtain ⟨rest, hrest⟩ := h.seen
  rw [← h.faithful j _ (List.getElem?_eq_getElem hlt), ← hrest, List.take_append_of_le_length hj]

end

/-! ## Unsubscribing -/

/-- No callback runs in a step after `unsubscribe`. -/
theorem silent_step (hcancelled : s.cancelled = true) (hstep : s.Outcome id e s') :
    s'.cancelled = true ∧ s'.callbacks = s.callbacks := by
  cases hstep with
  | called update rest hupdates hhandler hlive =>
    rw [hcancelled] at hlive
    cases hlive
  | unsubscribed => exact ⟨rfl, rfl⟩
  | unsubscribedFailed => exact ⟨rfl, rfl⟩
  | unsubscribedEarly => exact ⟨rfl, rfl⟩
  | _ => exact ⟨hcancelled, rfl⟩

/-- Whoever unsubscribes has a cancellation on its way, now or when the response comes. -/
structure Subscription.Releasing (s : Subscription α) (id : ℕ) : Prop where
  waiting : s.cancelled = true → s.settled = false → 0 < s.thens
  onItsWay : id < 2 ^ 32 → s.cancelled = true → s.settled = true → s.pooled = true → 0 < s.cancels

theorem releasing_start (id : ℕ) : (Subscription.start α).Releasing id where
  waiting h := by cases h
  onItsWay _ h := by cases h

theorem releasing_step (hagreed : s.Agreed) (h : s.Releasing id) (hstep : s.Outcome id e s') : s'.Releasing id := by
  cases hstep with
  | refused hrequest => exact ⟨h.waiting, h.onItsWay⟩
  | duplicate vector snapshot hrequest hpooled => exact ⟨h.waiting, h.onItsWay⟩
  | registered vector snapshot hrequest =>
    refine ⟨h.waiting, ?_⟩
    intro _ _ hsettled
    rw [(hagreed.requested hrequest).1] at hsettled
    cases hsettled
  | sent => exact ⟨h.waiting, h.onItsWay⟩
  | accepted hresponse =>
    refine ⟨fun _ hno => absurd hno.symm Bool.false_ne_true, ?_⟩
    intro _ hcancelled _ _
    have hwaiting := h.waiting hcancelled (hagreed.answered hresponse).2.2.1
    exact Nat.lt_of_lt_of_le hwaiting (Nat.le_add_left _ _)
  | rejected hresponse =>
    refine ⟨fun _ hno => absurd hno.symm Bool.false_ne_true, ?_⟩
    intro _ _ _ hpooled
    have hregistered := hagreed.pooled hpooled
    rw [(hagreed.answered hresponse).2.1] at hregistered
    cases hregistered
  | called => exact ⟨h.waiting, h.onItsWay⟩
  | dropped => exact ⟨h.waiting, h.onItsWay⟩
  | unsubscribed hsettled hfailed =>
    refine ⟨?_, fun _ _ _ _ => Nat.succ_pos _⟩
    intro _ hno
    rw [hsettled] at hno
    cases hno
  | unsubscribedFailed hsettled hfailed =>
    refine ⟨?_, ?_⟩
    · intro _ hno
      rw [hsettled] at hno
      cases hno
    · intro _ _ _ hpooled
      have hregistered := hagreed.pooled hpooled
      rw [hagreed.failed hfailed] at hregistered
      cases hregistered
  | unsubscribedEarly hsettled =>
    refine ⟨fun _ _ => Nat.succ_pos _, ?_⟩
    intro _ _ hno
    rw [hsettled] at hno
    cases hno
  | removed hcancels => exact ⟨h.waiting, fun _ _ _ hno => absurd hno Bool.false_ne_true⟩
  | unknown hcancels hunknown =>
    refine ⟨h.waiting, ?_⟩
    intro hid _ _ hpooled
    rw [hunknown hid] at hpooled
    cases hpooled
  | stopped => exact ⟨h.waiting, h.onItsWay⟩

theorem released (hagreed : s.Agreed) (h : s.Releasing id) (hid : id < 2 ^ 32) : s.Released := by
  intro hregistered hcancelled hresponse hcancels
  by_contra hpooled
  have hsettled : s.settled = true := by
    rcases hagreed.asked with ⟨-, -, -, -, hno⟩ | ⟨-, hno, -⟩ | ⟨-, -, hsettled, -⟩
    · rw [hregistered] at hno
      cases hno
    · rw [hresponse] at hno
      cases hno
    · exact hsettled
  have hpos := h.onItsWay hid hcancelled hsettled (Bool.eq_true_of_not_eq_false hpooled)
  omega

/-! ## Runs -/

section

variable {β : Type} {f : α → β} {streams streams' : List (Subscription α)}

/-- What is kept of the stream with an id. -/
structure Kept (f : α → β) (id : ℕ) (s : Subscription α) : Prop where
  agreed : s.Agreed
  inStep : s.InStep f
  releasing : s.Releasing id

/-- A step opens a stream, or does something to one. -/
theorem step_cases {event : Event α} (h : step streams event = .ok streams') :
    (event = .rpcStream ∧ streams' = streams ++ [.start α]) ∨
      ∃ id e s s', event = .stream id e ∧ streams[id]? = some s ∧ s.Outcome id e s' ∧ streams' = streams.set id s' := by
  cases event with
  | rpcStream =>
    cases h
    exact .inl ⟨rfl, rfl⟩
  | stream id e =>
    cases hs : streams[id]? with
    | none => simp only [step, hs, reduceCtorEq] at h
    | some s =>
      simp only [step, hs] at h
      obtain ⟨s', hstep, hset⟩ := bind_eq_ok.mp h
      cases hset
      exact .inr ⟨id, e, s, s', rfl, hs, step_outcome hstep, rfl⟩

/-- One stream is what it was, or a step was taken on it. -/
theorem getElem_set {i id : ℕ} {s s' t : Subscription α} (hs : streams[id]? = some s)
    (h : (streams.set id s')[i]? = some t) : (i = id ∧ t = s') ∨ (i ≠ id ∧ streams[i]? = some t) := by
  by_cases hi : id = i
  · rw [hi, List.getElem?_set_self (List.getElem?_eq_some_iff.mp (hi ▸ hs)).1] at h
    exact .inl ⟨hi.symm, (Option.some.inj h).symm⟩
  · rw [List.getElem?_set_ne hi] at h
    exact .inr ⟨fun heq => hi heq.symm, h⟩

theorem kept_step {event : Event α} (h : ∀ id s, streams[id]? = some s → Kept f id s)
    (hstep : step streams event = .ok streams') : ∀ id s, streams'[id]? = some s → Kept f id s := by
  intro i t ht
  rcases step_cases hstep with ⟨-, rfl⟩ | ⟨id, e, s, s', -, hs, houtcome, rfl⟩
  · rcases Nat.lt_or_ge i streams.length with hlt | hge
    · rw [List.getElem?_append_left hlt] at ht
      exact h i t ht
    · rw [List.getElem?_append_right hge, List.getElem?_singleton] at ht
      split_ifs at ht
      cases ht
      exact ⟨agreed_start, inStep_start f, releasing_start i⟩
  · rcases getElem_set hs ht with ⟨rfl, rfl⟩ | ⟨-, ht⟩
    · have hkept := h i s hs
      exact ⟨agreed_step hkept.agreed houtcome, inStep_step hkept.agreed hkept.inStep houtcome,
        releasing_step hkept.agreed hkept.releasing houtcome⟩
    · exact h i t ht

theorem run_kept (f : α → β) {events : List (Event α)} (h : run step [] events = .ok streams) :
    ∀ id s, streams[id]? = some s → Kept f id s := by
  have hstart : ∀ id s, ([] : List (Subscription α))[id]? = some s → Kept f id s := by
    intro id s hs
    cases hs
  exact run_invariant (P := fun streams => ∀ id s, streams[id]? = some s → Kept f id s)
    (fun _ _ _ hkept hstep => kept_step hkept hstep) hstart h

/-- An unsubscribed stream has the callbacks it had. -/
def Silent (streams streams' : List (Subscription α)) : Prop :=
  ∀ (id : ℕ) (s : Subscription α), streams[id]? = some s → s.cancelled = true →
    ∃ s' : Subscription α, streams'[id]? = some s' ∧ s'.cancelled = true ∧ s'.callbacks = s.callbacks

theorem step_silent (streams : List (Subscription α)) (event : Event α) (streams' : List (Subscription α))
    (hstep : step streams event = .ok streams') : Silent streams streams' := by
  intro i t ht hcancelled
  rcases step_cases hstep with ⟨-, rfl⟩ | ⟨id, e, s, s', -, hs, houtcome, rfl⟩
  · refine ⟨t, ?_, hcancelled, rfl⟩
    rw [List.getElem?_append_left (List.getElem?_eq_some_iff.mp ht).1]
    exact ht
  · by_cases hi : id = i
    · rw [hi, ht] at hs
      cases hs
      obtain ⟨hstill, hcallbacks⟩ := silent_step hcancelled houtcome
      refine ⟨s', ?_, hstill, hcallbacks⟩
      rw [hi, List.getElem?_set_self (List.getElem?_eq_some_iff.mp ht).1]
    · refine ⟨t, ?_, hcancelled, rfl⟩
      rw [List.getElem?_set_ne hi]
      exact ht

theorem run_silent {events : List (Event α)} (h : run step streams events = .ok streams') : Silent streams streams' := by
  apply run_rel (R := Silent) _ _ (fun s e s' hstep => step_silent s e s' hstep) h
  · intro streams id s hs hcancelled
    exact ⟨s, hs, hcancelled, rfl⟩
  · intro a b c hab hbc id s hs hcancelled
    obtain ⟨s1, hs1, hcancelled1, hcallbacks1⟩ := hab id s hs hcancelled
    obtain ⟨s2, hs2, hcancelled2, hcallbacks2⟩ := hbc id s1 hs1 hcancelled1
    exact ⟨s2, hs2, hcancelled2, hcallbacks2.trans hcallbacks1⟩

/-- As long as each stream is opened in time, the ids fit. -/
theorem length_le {events : List (Event α)} (h : run step [] events = .ok streams)
    (hopens : EveryStep step [] (fun s e _ => OpensBelow s e) events) : streams.length ≤ 2 ^ 32 := by
  apply run_induction (P := fun events streams => EveryStep step [] (fun s e _ => OpensBelow s e) events →
    streams.length ≤ 2 ^ 32) _ _ h hopens
  · intro _
    exact Nat.zero_le _
  · intro es streams event streams' hrun ih hstep hall
    obtain ⟨hbefore, hlast⟩ := (everyStep_snoc hrun hstep).mp hall
    rcases step_cases hstep with ⟨rfl, rfl⟩ | ⟨id, e, s, s', -, -, -, rfl⟩
    · rw [List.length_append, List.length_singleton]
      exact hlast
    · rw [List.length_set]
      exact ih hbefore

/-- A run of few events opens each stream in time. -/
theorem opensBelow_of_length {events : List (Event α)} (hevents : events.length ≤ 2 ^ 32) :
    EveryStep step [] (fun s e _ => OpensBelow s e) events := by
  have hgrows : ∀ {events : List (Event α)} {streams}, run step [] events = .ok streams →
      streams.length ≤ events.length := by
    apply run_induction
    · exact Nat.le_refl _
    · intro es streams event streams' _ ih hstep
      rcases step_cases hstep with ⟨-, rfl⟩ | ⟨id, e, s, s', -, -, -, rfl⟩
      · rw [List.length_append, List.length_append]
        exact Nat.add_le_add_right ih _
      · rw [List.length_set, List.length_append]
        exact Nat.le_add_right_of_le ih
  intro before event after hsplit streams streams' hrun _
  have hle := hgrows hrun
  rw [hsplit, List.length_append, List.length_cons] at hevents
  cases event with
  | rpcStream =>
    show streams.length < 2 ^ 32
    omega
  | stream id e => trivial

end

/-! ## Main result -/

/-- Every mirror is exact after every batch, unsubscribing silences a stream, and if no stream is opened after 2^32
others, what is registered and unsubscribed is cancelled. -/
theorem streams_mirrored {β : Type} (f : α → β) (events : List (Event α)) (streams : List (Subscription α))
    (h : run step [] events = .ok streams) (hopens : EveryStep step [] (fun s e _ => OpensBelow s e) events) :
    (∀ (id : ℕ) (s : Subscription α), streams[id]? = some s → s.Mirrored f ∧ s.Released) ∧
      ∀ before after streams0, events = before ++ after → run step [] before = .ok streams0 → Silent streams0 streams := by
  constructor
  · intro id s hs
    have hkept := run_kept f h id s hs
    have hid : id < streams.length := (List.getElem?_eq_some_iff.mp hs).1
    have hle := length_le h hopens
    exact ⟨mirrored hkept.inStep, released hkept.agreed hkept.releasing (Nat.lt_of_lt_of_le hid hle)⟩
  · intro before after streams0 hsplit hbefore
    rw [hsplit, run_append] at h
    obtain ⟨streams1, hrun1, hafter⟩ := h
    rw [hbefore] at hrun1
    cases hrun1
    exact run_silent hafter

/-- One stream: a batch that arrives before the response, and an early goodbye. -/
theorem streams_mirrored_one :
    let events : List (Event ℕ) := [.rpcStream, .stream 0 (.register [1] true), .stream 0 (.batch [.pushBack 2]),
      .stream 0 .emit, .stream 0 .unsubscribe, .stream 0 .respond, .stream 0 .cancel]
    ∃ streams, run step [] events = .ok streams ∧
      EveryStep step [] (fun s e _ => OpensBelow s e) events ∧
      ((∀ (id : ℕ) (s : Subscription ℕ), streams[id]? = some s → s.Mirrored (· + 1) ∧ s.Released) ∧
        ∀ before after streams0, events = before ++ after → run step [] before = .ok streams0 →
          Silent streams0 streams) := by
  intro events
  have hopens : EveryStep step [] (fun s e _ => OpensBelow s e) events := opensBelow_of_length (by decide)
  exact ⟨_, rfl, hopens, streams_mirrored (· + 1) events _ rfl hopens⟩

/-! ## The last id -/

theorem run_open (n : ℕ) : ∀ streams : List (Subscription α),
    run step streams (List.replicate n .rpcStream) = .ok (streams ++ List.replicate n (.start α)) := by
  induction n with
  | zero =>
    intro streams
    rw [List.replicate_zero, List.replicate_zero, List.append_nil]
    rfl
  | succ n ih =>
    intro streams
    rw [List.replicate_succ, run_cons]
    refine ⟨streams ++ [.start α], rfl, ?_⟩
    rw [ih, List.append_assoc, List.singleton_append, ← List.replicate_succ]

theorem run_stream {id : ℕ} {es : List (StreamEvent α)} {s' : Subscription α} :
    ∀ {streams : List (Subscription α)} {s : Subscription α}, streams[id]? = some s →
      run (Subscription.step id) s es = .ok s' → run step streams (es.map (.stream id)) = .ok (streams.set id s') := by
  induction es with
  | nil =>
    intro streams s hs hrun
    cases hrun
    obtain ⟨hlt, rfl⟩ := List.getElem?_eq_some_iff.mp hs
    rw [List.set_getElem_self]
    rfl
  | cons e es ih =>
    intro streams s hs hrun
    obtain ⟨s1, hstep, hrest⟩ := run_cons.mp hrun
    rw [List.map_cons, run_cons]
    refine ⟨streams.set id s1, ?_, ?_⟩
    · simp only [step, hs, hstep, ok_bind]
    · have hs1 : (streams.set id s1)[id]? = some s1 := List.getElem?_set_self (List.getElem?_eq_some_iff.mp hs).1
      rw [ih hs1 hrest, List.set_set]

/-- An id that does not fit: the stream stays in the pool. -/
theorem not_released {id : ℕ} (hid : ¬ id < 2 ^ 32) : ∃ (events : List (Event ℕ)) (streams : List (Subscription ℕ))
    (s : Subscription ℕ), run step [] events = .ok streams ∧ streams[id]? = some s ∧ ¬ s.Released := by
  have hopen := run_open (α := ℕ) (id + 1) []
  rw [List.nil_append] at hopen
  have hlast : (List.replicate (id + 1) (Subscription.start ℕ))[id]? = some (.start ℕ) := by
    rw [List.getElem?_replicate, if_pos (Nat.lt_succ_self id)]
  have hcancellable : cancellable id = false := decide_eq_false hid
  let s : Subscription ℕ := { Subscription.start ℕ with
    request := false, pooled := true, task := some ⟨[], false, 0⟩, registered := true, settled := true
    cancelled := true, handler := false }
  have hstream : run (Subscription.step id) (Subscription.start ℕ) [.register [] false, .respond, .unsubscribe, .cancel] =
      .ok s := by
    simp [run, Subscription.step, Subscription.start, Subscription.registerStream, Subscription.respond,
      Subscription.unsubscribe, Subscription.cancelStream, hcancellable, ok_bind, s]
  refine ⟨_, _, s, run_append.mpr ⟨_, hopen, run_stream hlast hstream⟩, ?_, ?_⟩
  · rw [List.getElem?_set_self]
    rw [List.length_replicate]
    exact Nat.lt_succ_self id
  · intro hreleased
    have hpooled : true = false := hreleased rfl rfl rfl rfl
    cases hpooled

/-- The stream after 2^32 others is never cancelled. -/
theorem last_not_cancelled :
    ¬ ∀ (events : List (Event ℕ)) (streams : List (Subscription ℕ)), run step [] events = .ok streams →
      ∀ (id : ℕ) (s : Subscription ℕ), streams[id]? = some s → s.Released := by
  intro hall
  obtain ⟨events, streams, s, hrun, hs, hnot⟩ := not_released (Nat.lt_irrefl (2 ^ 32))
  exact hnot (hall events streams hrun (2 ^ 32) s hs)

end RpcStreams
