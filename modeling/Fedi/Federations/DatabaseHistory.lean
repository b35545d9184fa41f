import Fedi.Federations.DatabaseIsolation

/-!
# Leaving a federation, and the reset of the FI client

A database that a leave has deleted stays empty, also when the federation is joined again
(`deleted_stays_empty`).  The namespace of the FI client is wiped at most once for each request,
and in the builds for users never (`fiClient_clears_le`).
-/

namespace FederationDbs

open KeySpaces

/-! ## What a step adds to the history -/

def Entry.clearsFiClient (e : Entry) : Bool :=
  match e.command with
  | .clear (.bridge .fiClient) => true
  | _ => false

/-- Not a transaction of the FI reset. -/
def Entry.Plain (e : Entry) : Prop :=
  e.clearsFiClient = false ∧ e.command.space ≠ .bridge .fiClientResetPending

section
variable {encode : ℕ → List UInt8} {s0 s s' : System}

structure Extends (s s' : System) : Prop where
  log : ∃ added, s'.log = s.log ++ added ∧ ∀ e ∈ added, e.Plain
  deleted : s.deleted ⊆ s'.deleted

theorem extends_refl (s : System) : Extends s s :=
  ⟨⟨[], (List.append_nil _).symm, fun _ he => absurd he List.not_mem_nil⟩, fun _ hdb => hdb⟩

theorem Extends.frame (h : Extends s s') {s'' : System} (hlog : s''.log = s'.log) (hdeleted : s'.deleted ⊆ s''.deleted) :
    Extends s s'' := by
  obtain ⟨added, hadded, hplain⟩ := h.log
  exact ⟨⟨added, hlog.trans hadded, hplain⟩, fun _ hdb => hdeleted (h.deleted hdb)⟩

theorem extends_exec {author : Option String} {c : Command Space UInt8 Value}
    (hplain : (⟨author, c⟩ : Entry).Plain) : Extends s (s.exec encode author c) := by
  refine ⟨⟨[⟨author, c⟩], exec_log, ?_⟩, ?_⟩
  · intro e he
    rw [List.mem_singleton.mp he]
    exact hplain
  · rw [exec_deleted]
    exact fun _ hdb => hdb

theorem extends_commit (a : AppState) : Extends s (s.commit encode a) :=
  (extends_exec ⟨rfl, by simp [Command.space]⟩).frame rfl fun _ hdb => hdb

theorem extends_withWriteLock {α : Type} {closure : AppState → Option (AppState × α)} {result : α}
    (h : s.withWriteLock encode closure = some (s', result)) : Extends s s' := by
  unfold System.withWriteLock at h
  split at h
  · cases h
  · split at h
    · cases h
    · cases h
      exact extends_commit _

theorem plain_set (author : Option String) (db : DatabaseInfo) (key : List UInt8) (value : Option Value) :
    (⟨author, .set (.federation db) key value⟩ : Entry).Plain := ⟨rfl, by simp [Command.space]⟩

theorem extends_act (s : System) (id : String) (action : Action) : Extends s (act encode s id action) := by
  have hslot : ∀ slot, Extends s (s.setSlot id slot) := fun slot => (extends_refl s).frame rfl fun _ hdb => hdb
  cases action with
  | join =>
    show Extends s (if _ then join encode s id else s)
    split_ifs
    · unfold join
      split
      · exact extends_refl s
      · rename_i s' n hlock
        exact (extends_withWriteLock hlock).frame rfl fun _ hdb => hdb
    · exact extends_refl s
  | write key value =>
    show Extends s (write encode s id key value)
    unfold write
    split
    · exact extends_exec (plain_set _ _ key value)
    · exact extends_exec (plain_set _ _ key value)
    · exact extends_exec (plain_set _ _ key value)
    · exact extends_exec (plain_set _ _ key value)
    · exact extends_refl s
    · exact extends_refl s
  | finish =>
    show Extends s (finish encode s id)
    unfold finish
    split
    · split
      · exact hslot .absent
      · rename_i s' r hlock
        exact (extends_withWriteLock hlock).frame rfl fun _ hdb => hdb
    · exact hslot _
    · exact extends_refl s
  | fail =>
    show Extends s (fail s id)
    unfold fail
    split
    · exact hslot .absent
    · exact hslot .absent
    · exact hslot .loadFailed
    · exact extends_refl s
  | reopen =>
    show Extends s (reopen s id)
    unfold reopen
    split
    · split
      · exact hslot .absent
      · exact hslot _
    · exact extends_refl s
  | leave =>
    show Extends s (leave encode s id)
    unfold leave
    split
    · split
      · exact extends_refl s
      · rename_i s' hlock
        exact (extends_withWriteLock hlock).frame rfl fun _ hdb => hdb
      · rename_i s' info hlock
        exact (extends_withWriteLock hlock).frame rfl fun _ hdb => hdb
    · exact extends_refl s
  | delete =>
    show Extends s (delete encode s id)
    unfold delete
    split
    · rename_i db removed hslot
      have hexec : Extends s (s.exec encode (some id) (.clear (.federation removed))) :=
        extends_exec ⟨rfl, by simp [Command.space]⟩
      refine hexec.frame rfl ?_
      rw [exec_deleted]
      exact List.subset_cons_self _ _
    · exact extends_refl s

/-- Every event but the two of the reset. -/
theorem extends_step (environment : RuntimeEnvironment) (s : System) {e : Event}
    (hschedule : e ≠ .scheduleFiClientReset) (happly : e ≠ .applyScheduledFiClientReset) :
    Extends s (step encode environment s e) := by
  cases e with
  | federation id action => exact extends_act s id action
  | bridge tag key value =>
    show Extends s (if _ then s else s.exec encode none _)
    split_ifs with htag
    · exact extends_refl s
    · apply extends_exec
      exact ⟨rfl, fun heq => htag (.inr (Space.bridge.inj heq))⟩
  | updateAppState others =>
    show Extends s (updateAppState encode s others)
    unfold updateAppState
    split
    · exact extends_refl s
    · rename_i s' r hlock
      exact extends_withWriteLock hlock
  | scheduleFiClientReset => exact absurd rfl hschedule
  | applyScheduledFiClientReset => exact absurd rfl happly
  | restart =>
    show Extends s (restart encode s)
    unfold restart
    split
    · exact extends_refl s
    · exact (extends_refl s).frame rfl fun _ hdb => hdb

/-! ## Deleted databases -/

theorem step_deleted (environment : RuntimeEnvironment) (s : System) (e : Event) :
    s.deleted ⊆ (step encode environment s e).deleted := by
  by_cases hschedule : e = .scheduleFiClientReset
  · subst hschedule
    show s.deleted ⊆ (scheduleFiClientReset encode s environment).deleted
    unfold scheduleFiClientReset
    split_ifs <;> simp
  by_cases happly : e = .applyScheduledFiClientReset
  · subst happly
    show s.deleted ⊆ (applyScheduledFiClientReset encode s environment).deleted
    unfold applyScheduledFiClientReset
    split_ifs <;> simp
  exact (extends_step environment s hschedule happly).deleted

theorem run_deleted (environment : RuntimeEnvironment) (s : System) (es : List Event) :
    s.deleted ⊆ (run encode environment s es).deleted := by
  induction es generalizing s with
  | nil => exact fun _ hdb => hdb
  | cons e es ih => exact fun _ hdb => ih _ (step_deleted environment s e hdb)

/-- What a leave has deleted stays empty, and no federation gets it again. -/
theorem deleted_stays_empty (hencode : Encodes encode) (environment : RuntimeEnvironment) (h : Startable encode s0)
    {es es' : List Event} (hes : s0.appState.nextFederationDbPrefix + (es ++ es').length < 2 ^ 64) {db : DatabaseInfo}
    (hdb : db ∈ (run encode environment s0 es).deleted) :
    (run encode environment s0 (es ++ es')).space encode (.federation db) = KeySpaces.empty ∧
      ∀ id info, (run encode environment s0 (es ++ es')).appState.joinedFederations id = some info →
        info.database ≠ db := by
  have hinv := inv_run hencode environment h hes
  have hdeleted : db ∈ (run encode environment s0 (es ++ es')).deleted := by
    rw [run_append]
    exact run_deleted environment _ es' hdb
  refine ⟨hinv.stored.emptied db hdeleted, ?_⟩
  intro id info hinfo heq
  exact (hinv.registry.joined id info hinfo).2 (heq ▸ hdeleted)

theorem deleted_stays_empty_demo :
    (run encodeU64 .staging newInstall (joinedAndLeft ++ restartedAndRejoined)).space encodeU64
        (.federation (.databasePrefix 1)) = KeySpaces.empty ∧
      ∀ id info, (run encodeU64 .staging newInstall
        (joinedAndLeft ++ restartedAndRejoined)).appState.joinedFederations id = some info →
          info.database ≠ .databasePrefix 1 :=
  deleted_stays_empty encodes_encodeU64 .staging startable_newInstall (by decide) (by decide +kernel)

/-! ## The reset of the FI client -/

def System.fiClientClears (s : System) : ℕ := s.log.countP Entry.clearsFiClient

def System.fiClientResetPending (encode : ℕ → List UInt8) (s : System) : Bool :=
  (s.space encode (.bridge .fiClientResetPending) []).isSome

def Event.schedules : Event → Bool
  | .scheduleFiClientReset => true
  | _ => false

theorem Extends.clears (h : Extends s s') : s'.fiClientClears = s.fiClientClears := by
  obtain ⟨added, hlog, hadded⟩ := h.log
  have hnone : added.countP Entry.clearsFiClient = 0 := by
    rw [List.countP_eq_zero]
    intro e he
    rw [(hadded e he).1]
    exact Bool.false_ne_true
  unfold System.fiClientClears
  rw [hlog, List.countP_append, hnone, Nat.add_zero]

theorem Extends.pending (h : Extends s s') (hs : Stored encode s0 s) (hs' : Stored encode s0 s') :
    s'.fiClientResetPending encode = s.fiClientResetPending encode := by
  obtain ⟨added, hlog, hadded⟩ := h.log
  have hnone : (added.map Entry.command).filter (·.space = .bridge .fiClientResetPending) = [] := by
    rw [List.filter_eq_nil_iff]
    intro c hc
    obtain ⟨e, he, rfl⟩ := List.mem_map.mp hc
    simpa using (hadded e he).2
  unfold System.fiClientResetPending
  rw [hs.contents (.bridge .fiClientResetPending) trivial, hs'.contents (.bridge .fiClientResetPending) trivial, hlog,
    List.map_append]
  unfold spaceAfter
  rw [List.filter_append, hnone, List.append_nil]

/-- Every wipe of the FI namespace was asked for, and takes a request with it. -/
def ResetBudget (encode : ℕ → List UInt8) (environment : RuntimeEnvironment) (requests : ℕ) (s : System) : Prop :=
  s.fiClientClears + (s.fiClientResetPending encode).toNat ≤ requests ∧
    (fiClientResetIsAllowed environment = false → s.fiClientClears = 0)

theorem pending_exec (hencode : Encodes encode) {author : Option String} {c : Command Space UInt8 Value}
    (hc : c.space.Valid) : (s.exec encode author c).fiClientResetPending encode =
      if c.space = .bridge .fiClientResetPending then
        (c.onSpace (s.space encode (.bridge .fiClientResetPending)) []).isSome else s.fiClientResetPending encode := by
  unfold System.fiClientResetPending
  rw [space_exec hencode s author hc (i := .bridge .fiClientResetPending) trivial]
  split_ifs <;> rfl

theorem clears_exec {author : Option String} {c : Command Space UInt8 Value} :
    (s.exec encode author c).fiClientClears =
      s.fiClientClears + ((⟨author, c⟩ : Entry).clearsFiClient).toNat := by
  unfold System.fiClientClears
  rw [exec_log, List.countP_append, List.countP_singleton]
  cases (⟨author, c⟩ : Entry).clearsFiClient <;> rfl

theorem budget_schedule {environment : RuntimeEnvironment} {requests : ℕ}
    (h : ResetBudget encode environment requests s) :
    ResetBudget encode environment (requests + 1) (scheduleFiClientReset encode s environment) := by
  unfold scheduleFiClientReset
  split_ifs with hallowed
  · obtain ⟨hbudget, -⟩ := h
    have hclears := @clears_exec encode s none (.set (.bridge .fiClientResetPending) [] (some (.bytes [])))
    refine ⟨?_, ?_⟩
    · have hpending := Bool.toNat_le ((s.exec encode none (.set (.bridge .fiClientResetPending) []
        (some (.bytes [])))).fiClientResetPending encode)
      have hnone : (⟨none, .set (.bridge .fiClientResetPending) [] (some (.bytes []))⟩ : Entry).clearsFiClient.toNat = 0 :=
        rfl
      omega
    · intro hforbidden
      rw [hallowed] at hforbidden
      cases hforbidden
  · exact ⟨h.1.trans (Nat.le_succ _), h.2⟩

theorem budget_apply (hencode : Encodes encode) {environment : RuntimeEnvironment} {requests : ℕ}
    (h : ResetBudget encode environment requests s) :
    ResetBudget encode environment requests (applyScheduledFiClientReset encode s environment) := by
  unfold applyScheduledFiClientReset
  split_ifs with hallowed hpending
  · exact h
  · exact h
  · obtain ⟨hbudget, -⟩ := h
    have hwas : s.fiClientResetPending encode = true := by
      unfold System.fiClientResetPending
      exact Option.isSome_iff_ne_none.mpr (by simpa using hpending)
    refine ⟨?_, fun hforbidden => absurd hforbidden hallowed⟩
    have hgone : (((s.exec encode none (.clear (.bridge .fiClient))).exec encode none
        (.set (.bridge .fiClientResetPending) [] none)).fiClientResetPending encode) = false := by
      have hset : (Command.set (.bridge .fiClientResetPending) [] none : Command Space UInt8 Value).space.Valid := trivial
      rw [pending_exec hencode hset]
      refine (if_pos rfl).trans ?_
      show (Store.set _ [] (none : Option Value) []).isSome = false
      unfold Store.set
      rw [Function.update_self]
      rfl
    rw [hgone, clears_exec, clears_exec]
    rw [hwas] at hbudget
    exact hbudget

/-- The FI namespace is wiped at most once for each request, and in a build for users never. -/
theorem fiClient_clears_le (hencode : Encodes encode) (environment : RuntimeEnvironment) (h : Startable encode s0)
    {es : List Event} (hes : s0.appState.nextFederationDbPrefix + es.length < 2 ^ 64) :
    ResetBudget encode environment ((s0.fiClientResetPending encode).toNat + es.countP Event.schedules)
      (run encode environment s0 es) := by
  induction es using List.reverseRecOn with
  | nil =>
    have hnone : s0.fiClientClears = 0 := by
      unfold System.fiClientClears
      rw [h.history.1]
      rfl
    refine ⟨?_, fun _ => hnone⟩
    show s0.fiClientClears + _ ≤ _
    rw [hnone, Nat.zero_add]
    exact Nat.le_add_right _ _
  | append_singleton es e ih =>
    have hlength : (es ++ [e]).length = es.length + 1 := List.length_append
    have hbefore : s0.appState.nextFederationDbPrefix + es.length < 2 ^ 64 := by omega
    have hinv := inv_run hencode environment h hbefore
    have hnext := inv_run hencode environment h hes
    have hbudget := ih hbefore
    rw [run_append] at hnext ⊢
    rw [List.countP_append, List.countP_singleton]
    generalize run encode environment s0 es = s at *
    by_cases hschedule : e = .scheduleFiClientReset
    · subst hschedule
      exact budget_schedule hbudget
    by_cases happly : e = .applyScheduledFiClientReset
    · subst happly
      exact budget_apply hencode hbudget
    have hextends : Extends s (step encode environment s e) := extends_step environment s hschedule happly
    have hsame : e.schedules = false := by
      cases e <;> first | rfl | exact absurd rfl hschedule
    unfold ResetBudget
    rw [hsame]
    show (step encode environment s e).fiClientClears + ((step encode environment s e).fiClientResetPending encode).toNat
      ≤ _ ∧ (_ → (step encode environment s e).fiClientClears = 0)
    rw [hextends.clears, hextends.pending hinv.stored hnext.stored]
    exact hbudget

theorem fiClient_clears_le_demo :
    ResetBudget encodeU64 .staging 1 (run encodeU64 .staging newInstall (joinedAndLeft ++ restartedAndRejoined)) :=
  fiClient_clears_le encodes_encodeU64 .staging startable_newInstall
    (show 1 + (joinedAndLeft ++ restartedAndRejoined).length < 2 ^ 64 by decide)

end

end FederationDbs
