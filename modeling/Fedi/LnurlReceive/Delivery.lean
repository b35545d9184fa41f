import Fedi.LnurlReceive.Consumer

/-!
# Delivery of lnurl receives

In every run an lnurl receive logged from the first cursor on lies ahead of the cursor, or has a
pending entry, or was accepted by the sink; an entry is removed only after that; and
while nothing crashed and the entry of an operation could be removed, its event was
accepted once at most (`delivered_of_run`).

The cursor and the pending entry move in one commit, a subscriber holds the claim on its operation while it looks
at the entry, emits and removes, and an operation that is pending or was accepted lies behind the cursor.
-/

namespace LnurlReceive

open BTreeMaps Optimistic

/-! ## What is promised -/

/-- The event of an operation at a place of the log. -/
def ReceiveDb.ReceivesAt (db : ReceiveDb) (i : EventLogId) (operationId : OperationId) : Prop :=
  ∃ entry, db.log[i]? = some entry ∧ entry.receives = some operationId

def ReceiveDb.LnurlAt (db : ReceiveDb) (i : EventLogId) (operationId : OperationId) : Prop :=
  db.ReceivesAt i operationId ∧ db.operations.get? operationId = some .lnurlReceive

def ReceiveDb.Pending (db : ReceiveDb) (operationId : OperationId) : Prop := db.pending.get? operationId = some ()

/-- No receive is lost. -/
def Delivered (s : System) : Prop :=
  ∀ first i operationId, s.initial = some first → first ≤ i → s.db.LnurlAt i operationId →
    (∃ next, s.db.cursor = some next ∧ next ≤ i) ∨ s.db.Pending operationId ∨ operationId ∈ s.accepted

/-- A pending entry is removed only after acceptance. -/
def RemovesAccepted (s : System) : Prop :=
  ∀ e operationId, s.db.Pending operationId → ¬ (step s e).db.Pending operationId → operationId ∈ s.accepted

/-- Without a crash, or a removal that failed, the sink accepts once at most. -/
def AtMostOnce (s : System) : Prop :=
  s.crashed = false → ∀ operationId, operationId ∉ s.failedRemovals → s.accepted.count operationId ≤ 1

/-! ## The invariant -/

/-- The subscriber has found the entry, and has not removed it. -/
def SubscriberPhase.Owing : SubscriberPhase → Prop
  | .checking => False
  | _ => True

/-- The sink has accepted the event. -/
def SubscriberPhase.Emitted : SubscriberPhase → Prop
  | .emitted => True
  | .removing _ => True
  | _ => False

/-- What the rows say about the log and the sink. -/
structure RowsAgree (db : ReceiveDb) (start : Option EventLogId) (accepted : List OperationId) : Prop where
  once : ∀ i j operationId, db.ReceivesAt i operationId → db.ReceivesAt j operationId → i = j
  known : ∀ i operationId, db.ReceivesAt i operationId → db.operations.get? operationId ≠ none
  bound : db.log.length < 2 ^ 64
  tail : ∀ next : ℕ, db.cursor = some next → next ≤ db.log.length
  started : ∀ first, start = some first → db.cursor ≠ none
  delivered : ∀ first i operationId, start = some first → first ≤ i → db.LnurlAt i operationId →
    (∃ next, db.cursor = some next ∧ next ≤ i) ∨ db.Pending operationId ∨ operationId ∈ accepted
  passed : ∀ operationId, db.Pending operationId ∨ operationId ∈ accepted →
    ∃ i next : ℕ, db.cursor = some next ∧ i < next ∧ db.ReceivesAt i operationId

/-- What the subscribers know; `quiet` operations saw no crash and no failed removal. -/
structure SubscribersAgree (db : ReceiveDb) (subscribers : List Subscriber) (accepted : List OperationId)
    (quiet : OperationId → Prop) : Prop where
  claims : (subscribers.map Subscriber.operationId).Nodup
  owing : ∀ sub ∈ subscribers, sub.phase.Owing → db.Pending sub.operationId
  emitted : ∀ sub ∈ subscribers, sub.phase.Emitted → sub.operationId ∈ accepted
  once : ∀ operationId, quiet operationId → accepted.count operationId ≤ 1
  removing : ∀ operationId, quiet operationId → operationId ∈ accepted → db.Pending operationId →
    ∃ sub ∈ subscribers, sub.operationId = operationId ∧ sub.phase.Emitted

def System.Quiet (s : System) (operationId : OperationId) : Prop :=
  s.crashed = false ∧ operationId ∉ s.failedRemovals

structure Inv (s : System) : Prop where
  rows : RowsAgree s.db s.initial s.accepted
  reading : ∀ attempt, s.consumer = .reading attempt → attempt.snapshot.log <+: s.db.log
  subscribers : SubscribersAgree s.db s.subscribers s.accepted s.Quiet

section

variable {s s' : System} {operationId : OperationId}

/-! ## The log -/

theorem ReceiveDb.ReceivesAt.append {db db' : ReceiveDb} {i : EventLogId} (h : db.ReceivesAt i operationId)
    (hlog : db.log <+: db'.log) : db'.ReceivesAt i operationId := by
  obtain ⟨entry, hget, hreceives⟩ := h
  obtain ⟨rest, hrest⟩ := hlog
  refine ⟨entry, ?_, hreceives⟩
  rw [← hrest, List.getElem?_append_left (List.getElem?_eq_some_iff.mp hget).1]
  exact hget

/-- An event of a longer log is an old one, or the new one. -/
theorem receivesAt_snoc {db : ReceiveDb} {entry : EventLogEntry} {i : ℕ}
    (h : ({ db with log := db.log ++ [entry] } : ReceiveDb).ReceivesAt i operationId) :
    db.ReceivesAt i operationId ∨ (i = db.log.length ∧ entry.receives = some operationId) := by
  obtain ⟨entry', hget, hreceives⟩ := h
  dsimp only at hget
  rw [List.getElem?_append] at hget
  split at hget
  · exact .inl ⟨entry', hget, hreceives⟩
  next hle =>
    obtain ⟨hlt, heq⟩ := List.getElem?_eq_some_iff.mp hget
    have hi : i - db.log.length = 0 := by
      simp only [List.length_singleton] at hlt
      omega
    rw [List.getElem_singleton] at heq
    exact .inr ⟨by omega, heq ▸ hreceives⟩

theorem receives_of_handle {operations : BTreeMap OperationId OperationMeta} {entry : EventLogEntry}
    (h : handleEventLogEntry operations entry = some operationId) : entry.receives = some operationId := by
  unfold handleEventLogEntry at h
  unfold EventLogEntry.receives
  split at h
  · cases h
  next hkind =>
    rw [not_or, not_not, not_not] at hkind
    rw [if_pos hkind]
    split at h
    · cases h
    next operationId' hpayload =>
      split at h
      · cases h
        exact hpayload
      · cases h

/-- The event of an lnurl receive is never skipped. -/
theorem handle_of_lnurl {operations : BTreeMap OperationId OperationMeta} {entry : EventLogEntry}
    (h : entry.receives = some operationId) (hmeta : operations.get? operationId = some .lnurlReceive) :
    handleEventLogEntry operations entry = some operationId := by
  unfold EventLogEntry.receives at h
  split at h
  next hkind =>
    unfold handleEventLogEntry
    rw [if_neg (by rw [not_or, not_not, not_not]; exact hkind), h]
    dsimp only
    rw [hmeta]
  · cases h

/-! ## The commits -/

/-- A commit of the consumer handles the entry at the cursor. -/
theorem consume_cases {refused : Bool} {attempt : Attempt ReceiveDb} {discovered : Option OperationId} {db' : ReceiveDb}
    (hlog : attempt.snapshot.log <+: s.db.log)
    (h : autocommit receiveRows (consumeNext s.db.operations) refused attempt s.db = .committed discovered db') :
    ∃ next entry, s.db.cursor = some next ∧ s.db.log[next]? = some entry ∧
      discovered = handleEventLogEntry s.db.operations entry ∧
      db' = { s.db with
        cursor := some (saturatingAdd next 1)
        pending := discovered.elim s.db.pending fun operationId => s.db.pending.insert operationId () } := by
  obtain ⟨writes, hclosure, hunchanged, rfl⟩ := autocommit_committed h
  unfold consumeNext at hclosure
  split at hclosure
  · cases hclosure
  next next hcursor =>
    split at hclosure
    · cases hclosure
    next entry hentry =>
      cases hclosure
      have hsame : s.db.cursor = attempt.snapshot.cursor :=
        hunchanged (.cursor (saturatingAdd next 1)) (List.mem_append_right _ List.mem_cons_self)
      obtain ⟨rest, hrest⟩ := hlog
      refine ⟨next, entry, hsame.trans hcursor, ?_, rfl, ?_⟩
      · rw [← hrest, List.getElem?_append_left (List.getElem?_eq_some_iff.mp hentry).1]
        exact hentry
      · cases handleEventLogEntry s.db.operations entry <;> rfl

theorem remove_cases {refused : Bool} {attempt : Attempt ReceiveDb} {u : Unit} {db' : ReceiveDb}
    (h : autocommit receiveRows (removePending operationId) refused attempt s.db = .committed u db') :
    db' = { s.db with pending := s.db.pending.erase operationId } := by
  obtain ⟨writes, hclosure, -, rfl⟩ := autocommit_committed h
  cases hclosure
  rfl

/-! ## The client's own steps -/

theorem Inv.operation (h : Inv s) {metadata : OperationMeta} (hnew : s.db.operations.get? operationId = none) :
    Inv { s with db := { s.db with operations := s.db.operations.insert operationId metadata } } := by
  have hold {i : EventLogId} {operationId' : OperationId} (hat : s.db.ReceivesAt i operationId') :
      operationId' ≠ operationId := by
    rintro rfl
    exact h.rows.known i operationId' hat hnew
  refine ⟨⟨h.rows.once, fun i operationId' hat => ?_, h.rows.bound, h.rows.tail, h.rows.started,
    fun first i operationId' hfirst hle hlnurl => ?_, h.rows.passed⟩, h.reading, ⟨h.subscribers.claims,
    h.subscribers.owing, h.subscribers.emitted, h.subscribers.once, h.subscribers.removing⟩⟩
  · have hat : s.db.ReceivesAt i operationId' := hat
    dsimp only
    rw [BTreeMap.get?_insert_ne _ _ (hold hat)]
    exact h.rows.known i operationId' hat
  · obtain ⟨hat, hmeta⟩ := hlnurl
    have hat : s.db.ReceivesAt i operationId' := hat
    dsimp only at hmeta
    rw [BTreeMap.get?_insert_ne _ _ (hold hat)] at hmeta
    exact h.rows.delivered first i operationId' hfirst hle ⟨hat, hmeta⟩

theorem Inv.logged (h : Inv s) {entry : EventLogEntry} (hloggable : s.db.Loggable entry) :
    Inv { s with db := { s.db with log := s.db.log ++ [entry] } } := by
  obtain ⟨hnew, hbound⟩ := hloggable
  have hunseen {i : EventLogId} {operationId : OperationId} (hreceives : entry.receives = some operationId)
      (hat : s.db.ReceivesAt i operationId) : False := by
    obtain ⟨entry', hget, hreceives'⟩ := hat
    exact (hnew operationId hreceives).2 entry' (List.mem_of_getElem? hget) hreceives'
  have hpre : s.db.log <+: s.db.log ++ [entry] := ⟨[entry], rfl⟩
  have hpassed (operationId : OperationId) (hsome : s.db.Pending operationId ∨ operationId ∈ s.accepted) :
      ∃ i next : ℕ, s.db.cursor = some next ∧ i < next ∧
        ({ s.db with log := s.db.log ++ [entry] } : ReceiveDb).ReceivesAt i operationId := by
    obtain ⟨i, next, hcursor, hlt, hat⟩ := h.rows.passed operationId hsome
    exact ⟨i, next, hcursor, hlt, hat.append hpre⟩
  refine ⟨⟨fun i j operationId hi hj => ?_, fun i operationId hi => ?_, ?_, fun next hcursor => ?_, h.rows.started,
    fun first i operationId hfirst hle hlnurl => ?_, hpassed⟩, fun attempt hreading =>
    (h.reading attempt hreading).trans hpre, ⟨h.subscribers.claims, h.subscribers.owing, h.subscribers.emitted,
    h.subscribers.once, h.subscribers.removing⟩⟩
  · rcases receivesAt_snoc hi with hi | ⟨rfl, hreceives⟩
    · rcases receivesAt_snoc hj with hj | ⟨rfl, hreceives'⟩
      · exact h.rows.once i j operationId hi hj
      · exact (hunseen hreceives' hi).elim
    · rcases receivesAt_snoc hj with hj | ⟨rfl, -⟩
      · exact (hunseen hreceives hj).elim
      · rfl
  · rcases receivesAt_snoc hi with hi | ⟨-, hreceives⟩
    · exact h.rows.known i operationId hi
    · exact (hnew operationId hreceives).1
  · rw [List.length_append, List.length_singleton]
    exact hbound
  · have hle := h.rows.tail next hcursor
    rw [List.length_append, List.length_singleton]
    omega
  · obtain ⟨hat, hmeta⟩ := hlnurl
    rcases receivesAt_snoc hat with hat | ⟨rfl, hreceives⟩
    · exact h.rows.delivered first i operationId hfirst hle ⟨hat, hmeta⟩
    · obtain ⟨next, hcursor⟩ := Option.ne_none_iff_exists'.mp (h.rows.started first hfirst)
      exact .inl ⟨next, hcursor, h.rows.tail next hcursor⟩

/-! ## The consumer's steps -/

theorem Inv.initCursor (h : Inv s) : Inv (initEventLogCursorIfAbsent s) := by
  unfold initEventLogCursorIfAbsent
  split
  · exact h
  next hnone =>
    have hempty (operationId : OperationId) : ¬ (s.db.Pending operationId ∨ operationId ∈ s.accepted) := fun hsome => by
      obtain ⟨_, _, hcursor, -⟩ := h.rows.passed operationId hsome
      rw [hnone] at hcursor
      cases hcursor
    refine ⟨⟨h.rows.once, h.rows.known, h.rows.bound, fun next hcursor => ?_, fun _ _ => by simp,
      fun first i operationId hfirst hle hlnurl => ?_, fun operationId hsome => absurd hsome (hempty operationId)⟩,
      h.reading, ⟨h.subscribers.claims, h.subscribers.owing, h.subscribers.emitted, h.subscribers.once,
      h.subscribers.removing⟩⟩
    · cases hcursor
      exact le_refl _
    · obtain ⟨⟨entry, hget, -⟩, -⟩ := hlnurl
      have hlt := (List.getElem?_eq_some_iff.mp hget).1
      cases hfirst
      exact absurd hlt (Nat.not_lt.mpr hle)

/-- The entry at the cursor is handled: the cursor passes it, and what it owes is pending. -/
theorem Inv.consumed (h : Inv s) {next : ℕ} {entry : EventLogEntry} (hcursor : s.db.cursor = some next)
    (hentry : s.db.log[next]? = some entry) {consumer : Consumer}
    (hconsumer : ∀ attempt, consumer ≠ .reading attempt) :
    Inv { s with
      db := { s.db with
        cursor := some (saturatingAdd next 1)
        pending := (handleEventLogEntry s.db.operations entry).elim s.db.pending
          fun operationId => s.db.pending.insert operationId () }
      consumer := consumer } := by
  have hlt := (List.getElem?_eq_some_iff.mp hentry).1
  have hbound := h.rows.bound
  have hadvance : saturatingAdd next 1 = next + 1 := min_eq_left (by omega)
  rw [hadvance]
  have hat {operationId : OperationId} (hhandle : handleEventLogEntry s.db.operations entry = some operationId) :
      s.db.ReceivesAt next operationId := ⟨entry, hentry, receives_of_handle hhandle⟩
  have hpending (operationId : OperationId) :
      ((handleEventLogEntry s.db.operations entry).elim s.db.pending
          fun operationId => s.db.pending.insert operationId ()).get? operationId = some () ↔
        handleEventLogEntry s.db.operations entry = some operationId ∨ s.db.Pending operationId := by
    unfold ReceiveDb.Pending
    rcases handleEventLogEntry s.db.operations entry with _ | operationId'
    · simp
    · rw [Option.elim_some, BTreeMap.get?_insert]
      split
      next heq => simp [heq]
      next hne => simp [Ne.symm hne]
  refine ⟨⟨h.rows.once, h.rows.known, h.rows.bound, fun next' hnext' => ?_, fun _ _ => by simp,
    fun first i operationId hfirst hle hlnurl => ?_, fun operationId hsome => ?_⟩,
    fun attempt hreading => absurd hreading (hconsumer attempt), ⟨h.subscribers.claims,
    fun sub hsub howing => (hpending sub.operationId).mpr (.inr (h.subscribers.owing sub hsub howing)),
    h.subscribers.emitted, h.subscribers.once, fun operationId hquiet haccepted hsome => ?_⟩⟩
  · cases hnext'
    exact hlt
  · -- The event at the old cursor is pending now; the others are where they were.
    rcases h.rows.delivered first i operationId hfirst hle hlnurl with ⟨next', hnext', hle'⟩ | hsome | haccepted
    · rw [hcursor] at hnext'
      cases hnext'
      rcases Nat.lt_or_eq_of_le hle' with hlt' | rfl
      · exact .inl ⟨next + 1, rfl, hlt'⟩
      · obtain ⟨⟨entry', hget, hreceives⟩, hmeta⟩ := hlnurl
        rw [hentry] at hget
        cases hget
        exact .inr (.inl ((hpending operationId).mpr (.inl (handle_of_lnurl hreceives hmeta))))
    · exact .inr (.inl ((hpending operationId).mpr (.inr hsome)))
    · exact .inr (.inr haccepted)
  · have hold (hsome : s.db.Pending operationId ∨ operationId ∈ s.accepted) :
        ∃ i next', some (next + 1) = some next' ∧ i < next' ∧ s.db.ReceivesAt i operationId := by
      obtain ⟨i, next', hnext', hlt', hat'⟩ := h.rows.passed operationId hsome
      rw [hcursor] at hnext'
      cases hnext'
      exact ⟨i, next + 1, rfl, Nat.lt_succ_of_lt hlt', hat'⟩
    rcases hsome with hsome | haccepted
    · rcases (hpending operationId).mp hsome with hhandle | hsome
      · exact ⟨next, next + 1, rfl, Nat.lt_succ_self next, hat hhandle⟩
      · exact hold (.inl hsome)
    · exact hold (.inr haccepted)
  · rcases (hpending operationId).mp hsome with hhandle | hsome
    · -- Its event lies at the cursor, and what was accepted lies behind it.
      obtain ⟨i, next', hnext', hlt', hat'⟩ := h.rows.passed operationId (.inr haccepted)
      rw [hcursor] at hnext'
      cases hnext'
      exact absurd (h.rows.once i next operationId hat' (hat hhandle)) (Nat.ne_of_lt hlt')
    · exact h.subscribers.removing operationId hquiet haccepted hsome

theorem Inv.commit (h : Inv s) (refused : Bool) : Inv (step s (.commit refused)) := by
  unfold step
  dsimp only
  split
  next attempt hconsumer =>
    have hlog := h.reading attempt hconsumer
    split
    next operationId db hcommit =>
      obtain ⟨next, entry, hcursor, hentry, hhandle, rfl⟩ := consume_cases hlog hcommit
      have hinv := @Inv.consumed _ h _ _ hcursor hentry (.spawning operationId) (fun _ => by simp)
      rw [← hhandle] at hinv
      exact hinv
    next db hcommit =>
      obtain ⟨next, entry, hcursor, hentry, hhandle, rfl⟩ := consume_cases hlog hcommit
      have hinv := @Inv.consumed _ h _ _ hcursor hentry .idle (fun _ => by simp)
      rw [← hhandle] at hinv
      exact hinv
    · exact ⟨h.rows, fun _ heq => (by cases heq), h.subscribers⟩
    · exact ⟨h.rows, fun _ heq => (by cases heq), h.subscribers⟩
    next attempt' hretry =>
      refine ⟨h.rows, fun attempt'' heq => ?_, h.subscribers⟩
      cases heq
      rw [autocommit_retry hretry]
    · exact ⟨h.rows, fun _ heq => (by cases heq), h.subscribers⟩
  · exact h

/-! ## The subscribers' steps -/

theorem Inv.spawn (h : Inv s) (operationId : OperationId) : Inv (spawnLnurlReceiveSubscriber s operationId) := by
  unfold spawnLnurlReceiveSubscriber
  split
  · exact h
  next hfree =>
    refine ⟨h.rows, h.reading, ⟨?_, fun sub hsub howing => ?_, fun sub hsub hemitted => ?_, h.subscribers.once,
      fun operationId' hquiet haccepted hpending => ?_⟩⟩
    · rw [List.map_append, List.nodup_append]
      refine ⟨h.subscribers.claims, by simp, fun a ha b hb heq => ?_⟩
      rw [List.map_singleton, List.mem_singleton] at hb
      subst hb heq
      exact hfree ha
    · rcases List.mem_append.mp hsub with hsub | hsub
      · exact h.subscribers.owing sub hsub howing
      · cases List.mem_singleton.mp hsub
        exact howing.elim
    · rcases List.mem_append.mp hsub with hsub | hsub
      · exact h.subscribers.emitted sub hsub hemitted
      · cases List.mem_singleton.mp hsub
        exact hemitted.elim
    · obtain ⟨sub, hsub, hrest⟩ := h.subscribers.removing operationId' hquiet haccepted hpending
      exact ⟨sub, List.mem_append_left _ hsub, hrest⟩

/-- The subscriber at a place, next to those of other operations. -/
theorem SubscribersAgree.others (h : SubscribersAgree s.db s.subscribers s.accepted s.Quiet) {i : ℕ} {sub : Subscriber}
    (hsub : s.subscribers[i]? = some sub) :
    (∀ sub' ∈ s.subscribers.eraseIdx i, sub' ∈ s.subscribers ∧ sub'.operationId ≠ sub.operationId) ∧
      ∀ sub' ∈ s.subscribers, sub' = sub ∨ sub' ∈ s.subscribers.eraseIdx i := by
  obtain ⟨hlt, rfl⟩ := List.getElem?_eq_some_iff.mp hsub
  have hsplit := List.take_append_drop i s.subscribers
  rw [List.drop_eq_getElem_cons hlt] at hsplit
  have hnodup := h.claims
  rw [← hsplit, List.map_append, List.map_cons, List.nodup_append, List.nodup_cons] at hnodup
  obtain ⟨-, ⟨htail, -⟩, hdisjoint⟩ := hnodup
  rw [List.eraseIdx_eq_take_drop_succ]
  refine ⟨fun sub' hmem => ?_, fun sub' hmem => ?_⟩
  · rcases List.mem_append.mp hmem with hmem | hmem
    · exact ⟨List.mem_of_mem_take hmem, fun heq => hdisjoint _ (List.mem_map_of_mem hmem) _ List.mem_cons_self heq⟩
    · exact ⟨List.mem_of_mem_drop hmem, fun heq => htail (heq ▸ List.mem_map_of_mem hmem)⟩
  · rw [← hsplit] at hmem
    rcases List.mem_append.mp hmem with hmem | hmem
    · exact .inr (List.mem_append_left _ hmem)
    · rcases List.mem_cons.mp hmem with rfl | hmem
      · exact .inl rfl
      · exact .inr (List.mem_append_right _ hmem)

/-- A subscriber ends that does not hold back a removal. -/
theorem Inv.ends (h : Inv s) {i : ℕ} {sub : Subscriber} (hsub : s.subscribers[i]? = some sub)
    (hemitted : ¬ sub.phase.Emitted) : Inv { s with subscribers := s.subscribers.eraseIdx i } := by
  obtain ⟨hothers, hall⟩ := h.subscribers.others hsub
  refine ⟨h.rows, h.reading, ⟨?_, fun sub' hmem => h.subscribers.owing sub' (hothers sub' hmem).1,
    fun sub' hmem => h.subscribers.emitted sub' (hothers sub' hmem).1, h.subscribers.once,
    fun operationId hquiet haccepted hpending => ?_⟩⟩
  · exact h.subscribers.claims.sublist ((List.eraseIdx_sublist _ _).map _)
  · obtain ⟨sub', hmem, hoperation, hphase⟩ := h.subscribers.removing operationId hquiet haccepted hpending
    rcases hall sub' hmem with rfl | hmem
    · exact absurd hphase hemitted
    · exact ⟨sub', hmem, hoperation, hphase⟩

theorem mem_set_of_ne {l : List Subscriber} {i : ℕ} {sub sub' new : Subscriber} (hsub : l[i]? = some sub)
    (hmem : sub' ∈ l) (hne : sub' ≠ sub) : sub' ∈ l.set i new := by
  obtain ⟨j, hj, rfl⟩ := List.getElem_of_mem hmem
  have hij : i ≠ j := by
    rintro rfl
    rw [List.getElem?_eq_getElem hj] at hsub
    exact hne (Option.some.inj hsub)
  rw [← List.getElem_set_ne hij (by simpa using hj)]
  exact List.getElem_mem _

theorem claims_set {l : List Subscriber} {i : ℕ} {sub : Subscriber} (h : (l.map Subscriber.operationId).Nodup)
    (hsub : l[i]? = some sub) (phase : SubscriberPhase) :
    ((l.set i ⟨sub.operationId, phase⟩).map Subscriber.operationId).Nodup := by
  have hsame : (l.set i ⟨sub.operationId, phase⟩).map Subscriber.operationId = l.map Subscriber.operationId := by
    refine List.ext_getElem? fun j => ?_
    rw [List.getElem?_map, List.getElem?_map, List.getElem?_set]
    split
    next heq =>
      subst heq
      rw [if_pos (List.getElem?_eq_some_iff.mp hsub).1, hsub]
      rfl
    next => rfl
  rw [hsame]
  exact h

/-- A subscriber goes on, knowing what its phase says. -/
theorem Inv.goOn (h : Inv s) {i : ℕ} {sub : Subscriber} (hsub : s.subscribers[i]? = some sub) {phase : SubscriberPhase}
    (howing : phase.Owing → s.db.Pending sub.operationId)
    (hemitted : phase.Emitted ↔ sub.phase.Emitted) :
    Inv { s with subscribers := s.subscribers.set i ⟨sub.operationId, phase⟩ } := by
  have hmem := List.mem_of_getElem? hsub
  refine ⟨h.rows, h.reading, ⟨?_, fun sub' hsub' howing' => ?_, fun sub' hsub' hemitted' => ?_, h.subscribers.once,
    fun operationId hquiet haccepted hpending => ?_⟩⟩
  · exact claims_set h.subscribers.claims hsub phase
  · rcases List.mem_or_eq_of_mem_set hsub' with hsub' | rfl
    · exact h.subscribers.owing sub' hsub' howing'
    · exact howing howing'
  · rcases List.mem_or_eq_of_mem_set hsub' with hsub' | rfl
    · exact h.subscribers.emitted sub' hsub' hemitted'
    · exact h.subscribers.emitted sub hmem (hemitted.mp hemitted')
  · obtain ⟨sub', hsub', hoperation, hphase⟩ := h.subscribers.removing operationId hquiet haccepted hpending
    by_cases heq : sub' = sub
    · subst heq
      exact ⟨⟨sub'.operationId, phase⟩, List.mem_set (List.getElem?_eq_some_iff.mp hsub).1 _, hoperation,
        hemitted.mpr hphase⟩
    · exact ⟨sub', mem_set_of_ne hsub hsub' heq, hoperation, hphase⟩

/-- The sink accepts the event: it was owed, so it had not been accepted before. -/
theorem Inv.accept (h : Inv s) {i : ℕ} {sub : Subscriber} (hsub : s.subscribers[i]? = some sub)
    (howing : sub.phase.Owing) (hnew : ¬ sub.phase.Emitted) :
    Inv { s with
      accepted := s.accepted ++ [sub.operationId]
      subscribers := s.subscribers.set i ⟨sub.operationId, .emitted⟩ } := by
  have hmem := List.mem_of_getElem? hsub
  have hpending := h.subscribers.owing sub hmem howing
  have hgrows {operationId : OperationId} (haccepted : operationId ∈ s.accepted) :
      operationId ∈ s.accepted ++ [sub.operationId] := List.mem_append_left _ haccepted
  have hself : sub.operationId ∈ s.accepted ++ [sub.operationId] := List.mem_append_right _ List.mem_cons_self
  -- No other subscriber of the operation could have emitted it.
  have hfirst (hquiet : s.Quiet sub.operationId) : sub.operationId ∉ s.accepted := fun haccepted => by
    obtain ⟨sub', hsub', hoperation, hphase⟩ := h.subscribers.removing _ hquiet haccepted hpending
    obtain ⟨hothers, hall⟩ := h.subscribers.others hsub
    rcases hall sub' hsub' with rfl | hmem'
    · exact hnew hphase
    · exact (hothers sub' hmem').2 hoperation
  refine ⟨⟨h.rows.once, h.rows.known, h.rows.bound, h.rows.tail, h.rows.started,
    fun first j operationId hstart hle hlnurl => ?_, fun operationId hsome => ?_⟩, h.reading, ⟨?_,
    fun sub' hsub' howing' => ?_, fun sub' hsub' hemitted' => ?_, fun operationId hquiet => ?_,
    fun operationId hquiet haccepted hpending' => ?_⟩⟩
  · rcases h.rows.delivered first j operationId hstart hle hlnurl with hahead | hsome | haccepted
    · exact .inl hahead
    · exact .inr (.inl hsome)
    · exact .inr (.inr (hgrows haccepted))
  · rcases hsome with hsome | haccepted
    · exact h.rows.passed operationId (.inl hsome)
    · rcases List.mem_append.mp haccepted with haccepted | heq
      · exact h.rows.passed operationId (.inr haccepted)
      · rw [List.mem_singleton.mp heq]
        exact h.rows.passed sub.operationId (.inl hpending)
  · exact claims_set h.subscribers.claims hsub .emitted
  · rcases List.mem_or_eq_of_mem_set hsub' with hsub' | rfl
    · exact h.subscribers.owing sub' hsub' howing'
    · exact hpending
  · rcases List.mem_or_eq_of_mem_set hsub' with hsub' | rfl
    · exact hgrows (h.subscribers.emitted sub' hsub' hemitted')
    · exact hself
  · have honce := h.subscribers.once operationId hquiet
    rw [List.count_append, List.count_singleton]
    split
    next heq =>
      have heq : sub.operationId = operationId := by simpa using heq
      subst heq
      rw [List.count_eq_zero_of_not_mem (hfirst hquiet)]
    next => exact honce
  · by_cases heq : operationId = sub.operationId
    · subst heq
      exact ⟨⟨sub.operationId, .emitted⟩, List.mem_set (List.getElem?_eq_some_iff.mp hsub).1 _, rfl, trivial⟩
    · have haccepted : operationId ∈ s.accepted := by
        rcases List.mem_append.mp haccepted with haccepted | hmem'
        · exact haccepted
        · exact absurd (List.mem_singleton.mp hmem') heq
      obtain ⟨sub', hsub', hoperation, hphase⟩ := h.subscribers.removing operationId hquiet haccepted hpending'
      refine ⟨sub', mem_set_of_ne hsub hsub' ?_, hoperation, hphase⟩
      rintro rfl
      exact hnew hphase

/-- The entry goes after its event was accepted. -/
theorem Inv.remove (h : Inv s) {i : ℕ} {sub : Subscriber} (hsub : s.subscribers[i]? = some sub)
    (hemitted : sub.phase.Emitted) :
    Inv { s with
      db := { s.db with pending := s.db.pending.erase sub.operationId }
      subscribers := s.subscribers.eraseIdx i } := by
  obtain ⟨hothers, hall⟩ := h.subscribers.others hsub
  have haccepted := h.subscribers.emitted sub (List.mem_of_getElem? hsub) hemitted
  have hpending (operationId : OperationId) : (s.db.pending.erase sub.operationId).get? operationId = some () ↔
      operationId ≠ sub.operationId ∧ s.db.Pending operationId := by
    rw [BTreeMap.get?_erase]
    split
    next heq => simp [heq]
    next hne => exact ⟨fun hsome => ⟨hne, hsome⟩, fun hsome => hsome.2⟩
  refine ⟨⟨h.rows.once, h.rows.known, h.rows.bound, h.rows.tail, h.rows.started,
    fun first j operationId hstart hle hlnurl => ?_, fun operationId hsome => ?_⟩, h.reading, ⟨?_,
    fun sub' hsub' howing' => ?_, fun sub' hsub' => h.subscribers.emitted sub' (hothers sub' hsub').1,
    h.subscribers.once, fun operationId hquiet haccepted' hsome => ?_⟩⟩
  · rcases h.rows.delivered first j operationId hstart hle hlnurl with hahead | hsome | haccepted'
    · exact .inl hahead
    · by_cases heq : operationId = sub.operationId
      · rw [heq]
        exact .inr (.inr haccepted)
      · exact .inr (.inl ((hpending operationId).mpr ⟨heq, hsome⟩))
    · exact .inr (.inr haccepted')
  · rcases hsome with hsome | haccepted'
    · exact h.rows.passed operationId (.inl ((hpending operationId).mp hsome).2)
    · exact h.rows.passed operationId (.inr haccepted')
  · exact h.subscribers.claims.sublist ((List.eraseIdx_sublist _ _).map _)
  · obtain ⟨hmem, hne⟩ := hothers sub' hsub'
    exact (hpending sub'.operationId).mpr ⟨hne, h.subscribers.owing sub' hmem howing'⟩
  · obtain ⟨hne, hsome⟩ := (hpending operationId).mp hsome
    obtain ⟨sub', hsub', hoperation, hphase⟩ := h.subscribers.removing operationId hquiet haccepted' hsome
    rcases hall sub' hsub' with rfl | hmem
    · exact absurd hoperation.symm hne
    · exact ⟨sub', hmem, hoperation, hphase⟩

/-- A removal that failed for good leaves the entry to the next repair pass. -/
theorem Inv.failRemoval (h : Inv s) {i : ℕ} {sub : Subscriber} (hsub : s.subscribers[i]? = some sub) :
    Inv { s with
      failedRemovals := s.failedRemovals ++ [sub.operationId]
      subscribers := s.subscribers.eraseIdx i } := by
  obtain ⟨hothers, hall⟩ := h.subscribers.others hsub
  have hquiet {operationId : OperationId} (hquiet : s.crashed = false ∧ operationId ∉ s.failedRemovals ++ [sub.operationId]) :
      s.Quiet operationId ∧ operationId ≠ sub.operationId := by
    obtain ⟨hcrashed, hremovals⟩ := hquiet
    rw [List.mem_append, not_or, List.mem_singleton] at hremovals
    exact ⟨⟨hcrashed, hremovals.1⟩, hremovals.2⟩
  refine ⟨h.rows, h.reading, ⟨h.subscribers.claims.sublist ((List.eraseIdx_sublist _ _).map _),
    fun sub' hmem => h.subscribers.owing sub' (hothers sub' hmem).1,
    fun sub' hmem => h.subscribers.emitted sub' (hothers sub' hmem).1,
    fun operationId hq => h.subscribers.once operationId (hquiet hq).1, fun operationId hq haccepted hpending => ?_⟩⟩
  obtain ⟨sub', hmem, hoperation, hphase⟩ := h.subscribers.removing operationId (hquiet hq).1 haccepted hpending
  rcases hall sub' hmem with rfl | hmem
  · exact absurd hoperation.symm (hquiet hq).2
  · exact ⟨sub', hmem, hoperation, hphase⟩

theorem Inv.advance (h : Inv s) (i : ℕ) (w : World) : Inv (step s (.advance i w)) := by
  unfold step
  dsimp only
  split
  · exact h
  next sub hsub =>
    have hmem := List.mem_of_getElem? hsub
    obtain ⟨operationId, phase⟩ := sub
    unfold LnurlReceive.advance
    dsimp only
    cases phase with
    | checking =>
      dsimp only
      split
      next heq =>
        split at heq
        next hpending =>
          cases heq
          exact h.goOn hsub (fun _ => hpending) Iff.rfl
        next => cases heq
      next heq =>
        split at heq
        · cases heq
        · cases heq
          exact h.ends hsub id
    | subscribing =>
      dsimp only
      cases w.subscribed with
      | none => exact h.ends hsub id
      | some updates => exact h.goOn hsub (fun _ => h.subscribers.owing _ hmem trivial) Iff.rfl
    | following updates =>
      obtain ⟨ongoing, outcome⟩ := updates
      have howing := h.subscribers.owing _ hmem trivial
      cases ongoing with
      | succ ongoing => exact h.goOn hsub (fun _ => howing) Iff.rfl
      | zero =>
        cases outcome with
        | none => exact h.ends hsub id
        | some outcome =>
          dsimp only
          cases w.accepts with
          | true => exact h.accept hsub trivial id
          | false => exact h.ends hsub id
    | emitted => exact h.goOn hsub (fun _ => h.subscribers.owing _ hmem trivial) Iff.rfl
    | removing attempt =>
      dsimp only
      rcases hcommit : autocommit receiveRows (removePending operationId) w.refused attempt s.db with
        ⟨u, db⟩ | attempt' | e | _
      · dsimp only
        rw [remove_cases hcommit]
        exact h.remove hsub trivial
      · exact h.goOn hsub (fun _ => h.subscribers.owing _ hmem trivial) Iff.rfl
      · unfold autocommit removePending at hcommit
        dsimp only at hcommit
        split at hcommit
        · cases hcommit
        · split at hcommit <;> cases hcommit
      · exact h.failRemoval hsub

/-! ## Every run -/

theorem step_inv (h : Inv s) (e : Event) : Inv (step s e) := by
  cases e with
  | operation operationId metadata =>
    unfold step
    dsimp only
    split
    next hnew => exact h.operation hnew
    next => exact h
  | logged entry =>
    unfold step
    dsimp only
    split
    next hloggable => exact h.logged hloggable
    next => exact h
  | load lnv2 =>
    unfold step
    dsimp only
    have hinit := h.initCursor
    split
    · exact h
    · split
      · exact ⟨hinit.rows, fun _ heq => (by cases heq), hinit.subscribers⟩
      · exact ⟨hinit.rows, hinit.reading, hinit.subscribers⟩
  | consume =>
    unfold step
    dsimp only
    split
    · refine ⟨h.rows, fun attempt heq => ?_, h.subscribers⟩
      cases heq
      exact List.prefix_rfl
    · exact h
  | commit refused => exact h.commit refused
  | spawnDiscovered =>
    unfold step
    dsimp only
    split
    next operationId _ =>
      have hidle : Inv { s with consumer := .idle } := ⟨h.rows, fun _ heq => (by cases heq), h.subscribers⟩
      exact hidle.spawn operationId
    · exact h
  | repair =>
    unfold step
    dsimp only
    split
    · exact ⟨h.rows, h.reading, h.subscribers⟩
    · exact h
  | respawn i =>
    unfold step
    dsimp only
    split
    · exact h
    · exact ⟨h.rows, h.reading, h.subscribers⟩
    next operationId pass _ =>
      have hpass : Inv { s with passes := s.passes.set i pass } := ⟨h.rows, h.reading, h.subscribers⟩
      exact hpass.spawn operationId
  | advance i w => exact h.advance i w
  | crash =>
    refine ⟨h.rows, fun _ heq => (by cases heq), ⟨List.nodup_nil, fun _ hmem => (by cases hmem),
      fun _ hmem => (by cases hmem), fun _ hquiet => (by cases hquiet.1), fun _ hquiet => (by cases hquiet.1)⟩⟩

theorem inv_start : Inv .start where
  rows :=
    { once := fun _ _ _ ⟨_, hget, _⟩ => by cases hget
      known := fun _ _ ⟨_, hget, _⟩ => by cases hget
      bound := Nat.pow_pos (by decide)
      tail := fun _ hcursor => by cases hcursor
      started := fun _ hstart => by cases hstart
      delivered := fun _ _ _ hstart => by cases hstart
      passed := fun _ hsome => by rcases hsome with hsome | hsome <;> cases hsome }
  reading := fun _ heq => by cases heq
  subscribers := ⟨List.nodup_nil, fun _ hmem => (by cases hmem), fun _ hmem => (by cases hmem),
    fun _ _ => Nat.zero_le 1, fun _ _ hmem => (by cases hmem)⟩

theorem run_inv (h : Inv s) (es : List Event) : Inv (es.foldl step s) := by
  induction es generalizing s with
  | nil => exact h
  | cons e es ih => exact ih (step_inv h e)

theorem spawn_db (s : System) (operationId : OperationId) : (spawnLnurlReceiveSubscriber s operationId).db = s.db := by
  unfold spawnLnurlReceiveSubscriber
  split <;> rfl

theorem commit_pending (h : Inv s) (refused : Bool) (hpending : s.db.Pending operationId) :
    (step s (.commit refused)).db.Pending operationId := by
  have hgrows {discovered : Option OperationId} {attempt : Attempt ReceiveDb} {db' : ReceiveDb}
      (hconsumer : s.consumer = .reading attempt)
      (hcommit : autocommit receiveRows (consumeNext s.db.operations) refused attempt s.db = .committed discovered db') :
      db'.Pending operationId := by
    obtain ⟨next, entry, -, -, -, rfl⟩ := consume_cases (h.reading attempt hconsumer) hcommit
    unfold ReceiveDb.Pending at hpending ⊢
    cases discovered with
    | none => exact hpending
    | some operationId' =>
      dsimp only [Option.elim_some]
      rw [BTreeMap.get?_insert]
      split
      · rfl
      · exact hpending
  unfold step
  dsimp only
  split
  next attempt hconsumer =>
    split
    next hcommit => exact hgrows hconsumer hcommit
    next hcommit => exact hgrows hconsumer hcommit
    all_goals exact hpending
  · exact hpending

theorem advance_pending (h : Inv s) (i : ℕ) (w : World) (hpending : s.db.Pending operationId) :
    (step s (.advance i w)).db.Pending operationId ∨ operationId ∈ s.accepted := by
  unfold step
  dsimp only
  split
  · exact .inl hpending
  next sub hsub =>
    have hkept {s' : System} {next : Next} (heq : LnurlReceive.advance w s sub = (s', next)) :
        s'.db.Pending operationId ∨ operationId ∈ s.accepted := by
      unfold LnurlReceive.advance at heq
      split at heq
      case h_7 attempt hphase =>
        split at heq
        next u db hcommit =>
          cases heq
          rw [remove_cases hcommit]
          by_cases hoperation : operationId = sub.operationId
          · refine .inr ?_
            rw [hoperation]
            exact h.subscribers.emitted sub (List.mem_of_getElem? hsub) (by rw [hphase]; trivial)
          · refine .inl ?_
            unfold ReceiveDb.Pending at hpending ⊢
            dsimp only
            rw [BTreeMap.get?_erase, if_neg hoperation]
            exact hpending
        all_goals
          cases heq
          exact .inl hpending
      all_goals
        (repeat' split at heq) <;> cases heq <;> exact .inl hpending
    split
    next heq =>
      have hdb := hkept heq
      exact hdb
    next heq =>
      have hdb := hkept heq
      exact hdb

/-- Only a subscriber whose event was accepted removes an entry. -/
theorem removesAccepted (h : Inv s) : RemovesAccepted s := by
  intro e operationId hpending hremoved
  have hkept : (step s e).db.Pending operationId ∨ operationId ∈ s.accepted := by
    cases e with
    | commit refused => exact .inl (commit_pending h refused hpending)
    | advance i w => exact advance_pending h i w hpending
    | operation operationId' metadata =>
      unfold step
      dsimp only
      split <;> exact .inl hpending
    | logged entry =>
      unfold step
      dsimp only
      split <;> exact .inl hpending
    | load lnv2 =>
      unfold step initEventLogCursorIfAbsent
      dsimp only
      split
      · exact .inl hpending
      · split <;> split <;> exact .inl hpending
    | consume =>
      unfold step
      dsimp only
      split <;> exact .inl hpending
    | spawnDiscovered =>
      unfold step
      dsimp only
      split
      · rw [spawn_db]
        exact .inl hpending
      · exact .inl hpending
    | repair =>
      unfold step
      dsimp only
      split <;> exact .inl hpending
    | respawn i =>
      unfold step
      dsimp only
      split
      · exact .inl hpending
      · exact .inl hpending
      · rw [spawn_db]
        exact .inl hpending
    | crash => exact .inl hpending
  exact hkept.resolve_left hremoved

/-- In every run no receive is lost, an entry is removed only after acceptance, and without a crash or
a failed removal an event is accepted once at most. -/
theorem delivered_of_run (es : List Event) :
    Delivered (receives es) ∧ RemovesAccepted (receives es) ∧ AtMostOnce (receives es) := by
  have hinv : Inv (receives es) := run_inv inv_start es
  exact ⟨hinv.rows.delivered, removesAccepted hinv,
    fun hcrashed operationId hremovals => hinv.subscribers.once operationId ⟨hcrashed, hremovals⟩⟩

end

end LnurlReceive
