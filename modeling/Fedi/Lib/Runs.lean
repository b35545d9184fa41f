import Mathlib

/-!
# Fallible steps and their runs

A system whose step `σ → ε → Except φ σ` may fail is run over a list of events;
a failed event ends the run, so the runs that reach a state are the sequences of
events that all succeed.  An invariant is proved once per step
(`run_invariant`), and every state of a run is a run of a prefix (`run_append`).
-/

namespace Runs

section
variable {φ α β : Type}

/-- A bind succeeds when both halves do. -/
@[simp] theorem bind_eq_ok {x : Except φ α} {f : α → Except φ β} {b : β} :
    (x >>= f) = .ok b ↔ ∃ a, x = .ok a ∧ f a = .ok b := by
  cases x with
  | error e => simp [bind, Except.bind]
  | ok a => simp [bind, Except.bind]

@[simp] theorem pure_eq_ok {a b : α} : (pure a : Except φ α) = .ok b ↔ a = b := by
  simp [pure, Except.pure]

theorem ok_bind (a : α) (f : α → Except φ β) : ((Except.ok a : Except φ α) >>= f) = f a := rfl

/-- A bind fails when its first half does, or its second. -/
theorem bind_eq_error {x : Except φ α} {f : α → Except φ β} {e : φ} :
    (x >>= f) = .error e ↔ x = .error e ∨ ∃ a, x = .ok a ∧ f a = .error e := by
  cases x with
  | error e' => simp [bind, Except.bind]
  | ok a => simp [bind, Except.bind]

theorem exists_ok_bind {x : Except φ α} {f : α → Except φ β} :
    (∃ b, (x >>= f) = .ok b) ↔ ∃ a, x = .ok a ∧ ∃ b, f a = .ok b := by
  simp only [bind_eq_ok]
  constructor
  · rintro ⟨b, a, h1, h2⟩
    exact ⟨a, h1, b, h2⟩
  · rintro ⟨a, h1, b, h2⟩
    exact ⟨b, a, h1, h2⟩

/-- A bind whose second half never fails succeeds when its first half does. -/
theorem exists_ok_bind_total {x : Except φ α} {f : α → Except φ β} (hf : ∀ a, ∃ b, f a = .ok b) :
    (∃ b, (x >>= f) = .ok b) ↔ ∃ a, x = .ok a := by
  rw [exists_ok_bind]
  constructor
  · rintro ⟨a, ha, -⟩
    exact ⟨a, ha⟩
  · rintro ⟨a, ha⟩
    exact ⟨a, ha, hf a⟩

theorem toOption_eq_some {x : Except φ α} {a : α} : x.toOption = some a ↔ x = .ok a := by
  cases x with
  | error e => simp [Except.toOption]
  | ok b => simp [Except.toOption]

/-- Every failure of a computation satisfies `P`. -/
def FailsOnly (P : φ → Prop) (x : Except φ α) : Prop := ∀ e, x = .error e → P e

theorem failsOnly_ok {P : φ → Prop} (a : α) : FailsOnly P (.ok a : Except φ α) := fun _ h => by cases h

theorem failsOnly_error {P : φ → Prop} {e : φ} (h : P e) : FailsOnly P (.error e : Except φ α) :=
  fun _ he => by cases he; exact h

theorem FailsOnly.bind {P : φ → Prop} {x : Except φ α} {f : α → Except φ β} (hx : FailsOnly P x)
    (hf : ∀ a, x = .ok a → FailsOnly P (f a)) : FailsOnly P (x >>= f) := by
  intro e he
  rcases bind_eq_error.mp he with h | ⟨a, ha, h⟩
  · exact hx e h
  · exact hf a ha e h

/-- `mapM` succeeds when every element does. -/
theorem exists_mapM_ok {f : α → Except φ β} :
    ∀ {l : List α}, (∃ bs, l.mapM f = .ok bs) ↔ ∀ a ∈ l, ∃ b, f a = .ok b
  | [] => by simp [pure, Except.pure]
  | a :: l => by
    have ih := exists_mapM_ok (f := f) (l := l)
    rw [List.mapM_cons, exists_ok_bind, List.forall_mem_cons, ← ih]
    constructor
    · rintro ⟨b, hb, _, h⟩
      obtain ⟨bs, hbs, -⟩ := bind_eq_ok.mp h
      exact ⟨⟨b, hb⟩, bs, hbs⟩
    · rintro ⟨⟨b, hb⟩, bs, hbs⟩
      exact ⟨b, hb, b :: bs, bind_eq_ok.mpr ⟨bs, hbs, rfl⟩⟩

/-- The results of a `mapM` whose elements succeed with `g`. -/
theorem mapM_ok_of {f : α → Except φ β} {g : α → β} :
    ∀ {l : List α}, (∀ a ∈ l, f a = .ok (g a)) → l.mapM f = .ok (l.map g)
  | [], _ => rfl
  | a :: l, h => by
    have ih := mapM_ok_of (f := f) (g := g) (l := l) fun x hx => h x (List.mem_cons_of_mem _ hx)
    rw [List.mapM_cons, h a List.mem_cons_self, ih]
    rfl

/-- `forM` succeeds exactly when every element does. -/
theorem forM_ok_iff {f : α → Except φ Unit} :
    ∀ {l : List α}, l.forM f = .ok () ↔ ∀ a ∈ l, f a = .ok ()
  | [] => by simp [pure, Except.pure]
  | a :: l => by
    have ih := forM_ok_iff (f := f) (l := l)
    show (f a >>= fun _ => l.forM f) = .ok () ↔ _
    rw [bind_eq_ok, List.forall_mem_cons, ← ih]
    constructor
    · rintro ⟨_, ha, hl⟩
      exact ⟨ha, hl⟩
    · rintro ⟨ha, hl⟩
      exact ⟨(), ha, hl⟩

/-- Whether a result is a success, for evaluation. -/
def succeeds : Except φ α → Bool
  | .ok _ => true
  | .error _ => false

theorem exists_of_succeeds {x : Except φ α} (h : succeeds x = true) : ∃ a, x = .ok a := by
  cases x with
  | error e => cases h
  | ok a => exact ⟨a, rfl⟩

end

section
variable {σ ε φ : Type} (step : σ → ε → Except φ σ)

/-- Run a list of events. -/
def run : σ → List ε → Except φ σ
  | s, [] => .ok s
  | s, e :: es => step s e >>= fun s' => run s' es

variable {step}

theorem run_cons {s s' : σ} {e : ε} {es : List ε} :
    run step s (e :: es) = .ok s' ↔ ∃ s1, step s e = .ok s1 ∧ run step s1 es = .ok s' := bind_eq_ok

theorem run_append {s s' : σ} {es es' : List ε} :
    run step s (es ++ es') = .ok s' ↔ ∃ s1, run step s es = .ok s1 ∧ run step s1 es' = .ok s' := by
  induction es generalizing s with
  | nil => simp [run]
  | cons e es ih =>
    simp only [List.cons_append, run_cons, ih]
    constructor
    · rintro ⟨s1, h1, s2, h2, h3⟩
      exact ⟨s2, ⟨s1, h1, h2⟩, h3⟩
    · rintro ⟨s2, ⟨s1, h1, h2⟩, h3⟩
      exact ⟨s1, h1, s2, h2, h3⟩

theorem run_snoc {s s' : σ} {es : List ε} {e : ε} :
    run step s (es ++ [e]) = .ok s' ↔ ∃ s1, run step s es = .ok s1 ∧ step s1 e = .ok s' := by
  rw [run_append]
  simp [run]

/-- A run ends without a fault when every step does, from the state before it. -/
theorem exists_run_iff {s0 : σ} {es : List ε} : (∃ s, run step s0 es = .ok s) ↔
    ∀ pre e post, es = pre ++ e :: post → ∀ s, run step s0 pre = .ok s → ∃ s', step s e = .ok s' := by
  constructor
  · rintro ⟨s', h⟩ pre e post rfl s hs
    obtain ⟨s1, h1, h2⟩ := run_append.mp h
    rw [hs] at h1
    cases h1
    obtain ⟨s2, h3, -⟩ := run_cons.mp h2
    exact ⟨s2, h3⟩
  · intro h
    induction es generalizing s0 with
    | nil => exact ⟨s0, rfl⟩
    | cons e es ih =>
      obtain ⟨s1, h1⟩ := h [] e es rfl s0 rfl
      obtain ⟨s', h2⟩ := ih fun pre e' post hes s hs =>
        h (e :: pre) e' post (by rw [hes, List.cons_append]) s (run_cons.mpr ⟨s1, h1, hs⟩)
      exact ⟨s', run_cons.mpr ⟨s1, h1, h2⟩⟩

/-- What holds of every step of a run, from the state before it to the state after it. -/
def EveryStep (step : σ → ε → Except φ σ) (s0 : σ) (P : σ → ε → σ → Prop) (es : List ε) : Prop :=
  ∀ before e after, es = before ++ e :: after → ∀ s s', run step s0 before = .ok s → step s e = .ok s' → P s e s'

/-- What is equivalent for each step from a state that is reached is equivalent along every run. -/
theorem everyStep_congr {P Q : σ → ε → σ → Prop} {s0 : σ}
    (h : ∀ before s e s', run step s0 before = .ok s → step s e = .ok s' → (P s e s' ↔ Q s e s')) (es : List ε) :
    EveryStep step s0 P es ↔ EveryStep step s0 Q es := by
  constructor
  · intro hP before e after hes s s' hrun hstep
    exact (h before s e s' hrun hstep).mp (hP before e after hes s s' hrun hstep)
  · intro hQ before e after hes s s' hrun hstep
    exact (h before s e s' hrun hstep).mpr (hQ before e after hes s s' hrun hstep)

/-- What every step keeps, every run keeps. -/
theorem run_invariant {P : σ → Prop} (hstep : ∀ s e s', P s → step s e = .ok s' → P s') {s s' : σ}
    {es : List ε} (hs : P s) (h : run step s es = .ok s') : P s' := by
  induction es generalizing s with
  | nil => cases h; exact hs
  | cons e es ih =>
    obtain ⟨s1, h1, h2⟩ := run_cons.mp h
    exact ih (hstep s e s1 hs h1) h2

/-- The rule for the faults of a run over events of one kind. -/
theorem run_failsOnly {P : σ → Prop} {Q : φ → Prop} {R : ε → Prop} (hfails : ∀ s e, P s → R e → FailsOnly Q (step s e))
    (hstep : ∀ s e s', P s → R e → step s e = .ok s' → P s') {s : σ} (hs : P s) {es : List ε}
    (hes : ∀ e ∈ es, R e) : FailsOnly Q (run step s es) := by
  induction es generalizing s with
  | nil => exact failsOnly_ok s
  | cons e es ih =>
    have he := hes e List.mem_cons_self
    exact (hfails s e hs he).bind fun s' hs' => ih (hstep s e s' hs he hs') fun e he => hes e (List.mem_cons_of_mem _ he)

/-- The rule for properties of the events so far and the state they lead to. -/
theorem run_induction {P : List ε → σ → Prop} {s0 : σ} (h0 : P [] s0)
    (hstep : ∀ es s e s', run step s0 es = .ok s → P es s → step s e = .ok s' → P (es ++ [e]) s') :
    ∀ {es : List ε} {s : σ}, run step s0 es = .ok s → P es s := by
  intro es
  induction es using List.reverseRecOn with
  | nil => intro s h; cases h; exact h0
  | append_singleton es e ih =>
    intro s h
    obtain ⟨s1, h1, h2⟩ := run_snoc.mp h
    exact hstep es s1 e s h1 (ih h1) h2

/-- Related states stay related: a reflexive, transitive relation that the steps of the
events respect holds along a run of them. -/
theorem run_rel_of_mem {R : σ → σ → Prop} {Q : ε → Prop} (hrefl : ∀ s, R s s)
    (htrans : ∀ a b c, R a b → R b c → R a c) (hstep : ∀ s e s', Q e → step s e = .ok s' → R s s')
    {s s' : σ} {es : List ε} (hes : ∀ e ∈ es, Q e) (h : run step s es = .ok s') : R s s' := by
  induction es generalizing s with
  | nil => cases h; exact hrefl _
  | cons e es ih =>
    obtain ⟨s1, h1, h2⟩ := run_cons.mp h
    have hfirst := hstep _ e s1 (hes e List.mem_cons_self) h1
    exact htrans _ s1 s' hfirst (ih (fun e he => hes e (List.mem_cons_of_mem _ he)) h2)

/-- A reflexive, transitive relation that every step respects holds along a run. -/
theorem run_rel {R : σ → σ → Prop} (hrefl : ∀ s, R s s) (htrans : ∀ a b c, R a b → R b c → R a c)
    (hstep : ∀ s e s', step s e = .ok s' → R s s') {s s' : σ} {es : List ε}
    (h : run step s es = .ok s') : R s s' :=
  run_rel_of_mem (Q := fun _ => True) hrefl htrans (fun s e s' _ => hstep s e s') (fun _ _ => trivial) h

end

/-! ## The moments of a run -/

section
variable {α : Type} {P : List α → α → List α → Prop}

/-- Every moment of a list: the first element, and the moments of the rest. -/
theorem forall_splits_cons {a : α} {l : List α}
    (h0 : P [] a l) (h : ∀ before e after, l = before ++ e :: after → P (a :: before) e after) :
    ∀ before e after, a :: l = before ++ e :: after → P before e after := by
  intro before e after hsplit
  rcases List.cons_eq_append_iff.mp hsplit with ⟨rfl, hl⟩ | ⟨before', rfl, hl⟩
  · cases hl
    exact h0
  · exact h before' e after hl

theorem forall_splits_nil : ∀ before e after, [] = before ++ e :: after → P before e after :=
  fun _ _ _ h => by simp at h

/-- The moments of a list with one more element: those of the list, and the last. -/
theorem exists_split_snoc {Q : List α → α → Prop} {l : List α} {a : α} :
    (∃ before e after, l ++ [a] = before ++ e :: after ∧ Q before e) ↔
      (∃ before e after, l = before ++ e :: after ∧ Q before e) ∨ Q l a := by
  constructor
  · rintro ⟨before, e, after, hsplit, hq⟩
    rcases List.eq_nil_or_concat after with rfl | ⟨after', b, rfl⟩
    · obtain ⟨rfl, he⟩ := List.append_inj' hsplit rfl
      cases he
      exact .inr hq
    · rw [List.concat_eq_append, ← List.cons_append, ← List.append_assoc] at hsplit
      obtain ⟨rfl, -⟩ := List.append_inj' hsplit rfl
      exact .inl ⟨before, e, after', rfl, hq⟩
  · rintro (⟨before, e, after, rfl, hq⟩ | hq)
    · exact ⟨before, e, after ++ [a], by simp, hq⟩
    · exact ⟨l, a, [], rfl, hq⟩

end

section
variable {σ ε φ : Type} {step : σ → ε → Except φ σ} {P : σ → ε → σ → Prop} {s0 s s' : σ} {es : List ε} {e : ε}

theorem everyStep_nil : EveryStep step s0 P [] := by
  intro before e after hsplit
  simp at hsplit

/-- The steps of a run with one more event: those of the run, and the last. -/
theorem everyStep_snoc (hrun : run step s0 es = .ok s) (hstep : step s e = .ok s') :
    EveryStep step s0 P (es ++ [e]) ↔ EveryStep step s0 P es ∧ P s e s' := by
  constructor
  · intro h
    refine ⟨?_, h es e [] rfl s s' hrun hstep⟩
    intro before e' after hsplit s1 s2 hbefore hstep'
    refine h before e' (after ++ [e]) ?_ s1 s2 hbefore hstep'
    rw [hsplit, List.append_assoc, List.cons_append]
  · rintro ⟨hall, hlast⟩ before e' after hsplit s1 s2 hbefore hstep'
    rcases List.eq_nil_or_concat after with rfl | ⟨after', last, rfl⟩
    · obtain ⟨rfl, he⟩ := List.append_inj' hsplit rfl
      cases he
      rw [hrun] at hbefore
      cases hbefore
      rw [hstep] at hstep'
      cases hstep'
      exact hlast
    · rw [List.concat_eq_append, ← List.cons_append, ← List.append_assoc] at hsplit
      obtain ⟨hes, -⟩ := List.append_inj' hsplit rfl
      exact hall before e' after' hes s1 s2 hbefore hstep'

end

/-! ## The moments of a run that may fail -/

/-- What holds of every event of a run that is reached, and the state before it. -/
def EveryMoment {σ ε φ : Type} (step : σ → ε → Except φ σ) (s0 : σ) (Q : σ → ε → Prop) (es : List ε) : Prop :=
  ∀ before e after, es = before ++ e :: after → ∀ s, run step s0 before = .ok s → Q s e

section
variable {σ ε φ : Type} {step : σ → ε → Except φ σ} {Q : σ → ε → Prop} {s0 : σ} {es : List ε} {e : ε}

theorem everyMoment_nil : EveryMoment step s0 Q [] := by
  intro before e after hsplit
  simp at hsplit

/-- The moments of a run: the first event, and those from the state after it. -/
theorem everyMoment_cons : EveryMoment step s0 Q (e :: es) ↔
    Q s0 e ∧ ∀ s, step s0 e = .ok s → EveryMoment step s Q es := by
  constructor
  · intro h
    refine ⟨h [] e es rfl s0 rfl, ?_⟩
    intro s hstep before e' after hsplit s' hrun
    refine h (e :: before) e' after ?_ s' (run_cons.mpr ⟨s, hstep, hrun⟩)
    rw [hsplit, List.cons_append]
  · rintro ⟨hfirst, hrest⟩
    intro before e' after hsplit
    refine forall_splits_cons (P := fun before e' _ => ∀ s, run step s0 before = .ok s → Q s e') ?_ ?_ before e' after
      hsplit
    · intro s hrun
      cases hrun
      exact hfirst
    · intro before' e' after' hsplit' s hrun
      obtain ⟨s1, hstep, hrun'⟩ := run_cons.mp hrun
      exact hrest s1 hstep before' e' after' hsplit' s hrun'

/-- Two conditions that agree wherever an invariant holds, which the first of them keeps,
agree along every run. -/
theorem everyMoment_congr_of_invariant {R : σ → ε → Prop} {P : σ → Prop} (hagree : ∀ s e, P s → (Q s e ↔ R s e))
    (hkeep : ∀ s e s', P s → Q s e → step s e = .ok s' → P s') (h0 : P s0) :
    EveryMoment step s0 Q es ↔ EveryMoment step s0 R es := by
  induction es generalizing s0 with
  | nil => exact ⟨fun _ => everyMoment_nil, fun _ => everyMoment_nil⟩
  | cons e es ih =>
    rw [everyMoment_cons, everyMoment_cons, ← hagree s0 e h0]
    constructor
    · rintro ⟨hfirst, hrest⟩
      exact ⟨hfirst, fun s hstep => (ih (hkeep s0 e s h0 hfirst hstep)).mp (hrest s hstep)⟩
    · rintro ⟨hfirst, hrest⟩
      exact ⟨hfirst, fun s hstep => (ih (hkeep s0 e s h0 hfirst hstep)).mpr (hrest s hstep)⟩

end

/-! ## The moments of a total run -/

section
variable {σ ε : Type} {step : σ → ε → σ} {s0 : σ} {es : List ε}

theorem foldl_take_succ {n : ℕ} {e : ε} (h : es[n]? = some e) :
    (es.take (n + 1)).foldl step s0 = step ((es.take n).foldl step s0) e := by
  rw [List.take_add_one, h, Option.toList_some, List.foldl_append]
  rfl

theorem foldl_take_end {n : ℕ} (h : es[n]? = none) :
    (es.take (n + 1)).foldl step s0 = (es.take n).foldl step s0 := by
  have hend : es.length ≤ n := List.getElem?_eq_none_iff.mp h
  rw [List.take_of_length_le hend, List.take_of_length_le (Nat.le_succ_of_le hend)]

/-- What every step that meets its condition keeps holds at every moment of a run whose steps do. -/
theorem moments_induction {P : σ → Prop} {Q : σ → ε → Prop} (h0 : P s0)
    (hstep : ∀ s e, P s → Q s e → P (step s e))
    (h : ∀ n e, es[n]? = some e → Q ((es.take n).foldl step s0) e) (n : ℕ) :
    P ((es.take n).foldl step s0) := by
  induction n with
  | zero => exact h0
  | succ n ih =>
    cases he : es[n]? with
    | none =>
      rw [foldl_take_end he]
      exact ih
    | some e =>
      rw [foldl_take_succ he]
      exact hstep _ e ih (h n e he)

/-- Earlier and later moments of a run are related as the states around a step are. -/
theorem moments_rel {R : σ → σ → Prop} (hrefl : ∀ s, R s s) (htrans : ∀ a b c, R a b → R b c → R a c)
    (hstep : ∀ s e, R s (step s e)) {m n : ℕ} (h : m ≤ n) :
    R ((es.take m).foldl step s0) ((es.take n).foldl step s0) := by
  induction n, h using Nat.le_induction with
  | base => exact hrefl _
  | succ n _ ih =>
    refine htrans _ _ _ ih ?_
    cases he : es[n]? with
    | none =>
      rw [foldl_take_end he]
      exact hrefl _
    | some e =>
      rw [foldl_take_succ he]
      exact hstep _ e

end

end Runs
