import Mathlib

/-!
# Tasks that interleave at their awaits

A pool is a shared state and the tasks in flight.  A call adds a task; an advance lets one
task run to its next await, with an input from outside (what a request brings back, whether a
step fails), and puts the tasks that it continues with in its place.  Tasks at an await are
values, so whatever a task captured before the await is what it still holds after it.

An invariant over the state and the tasks in flight is proved once for every call and once for
every advance (`pool_invariant`); where an advance has to meet a condition on the state, the
other tasks and the input, the invariant holds along every run whose advances do
(`pool_induction`).
-/

namespace Tasks

structure Pool (σ τ : Type) where
  state : σ
  tasks : List τ

inductive Event (κ ι : Type)
  | call (c : κ)
  | advance (i : ℕ) (input : ι)

section
variable {σ τ κ ι : Type} (start : κ → τ) (run : σ → τ → ι → σ × List τ)

/-- One task runs to its next await. -/
def Pool.advance (p : Pool σ τ) (i : ℕ) (input : ι) : Pool σ τ :=
  match p.tasks[i]? with
  | none => p
  | some t => ⟨(run p.state t input).1, p.tasks.take i ++ (run p.state t input).2 ++ p.tasks.drop (i + 1)⟩

def Pool.step (p : Pool σ τ) : Event κ ι → Pool σ τ
  | .call c => ⟨p.state, p.tasks ++ [start c]⟩
  | .advance i input => p.advance run i input

/-- The pool after a run. -/
def pool (p0 : Pool σ τ) (es : List (Event κ ι)) : Pool σ τ := es.foldl (Pool.step start run) p0

/-- The task that advances meets a condition, given the state, the other tasks in flight and the input. -/
def Meets (Q : σ → List τ → τ → ι → Prop) (p : Pool σ τ) : Event κ ι → Prop
  | .call _ => True
  | .advance i input =>
    match p.tasks[i]? with
    | none => True
    | some t => Q p.state (p.tasks.take i ++ p.tasks.drop (i + 1)) t input

/-- Every advance of a run meets the condition. -/
def Along (Q : σ → List τ → τ → ι → Prop) : Pool σ τ → List (Event κ ι) → Prop
  | _, [] => True
  | p, e :: es => Meets Q p e ∧ Along Q (p.step start run e) es

instance (Q : σ → List τ → τ → ι → Prop) [∀ s ts t input, Decidable (Q s ts t input)] (p : Pool σ τ)
    (e : Event κ ι) : Decidable (Meets Q p e) :=
  match e with
  | .call _ => .isTrue trivial
  | .advance i input =>
    match h : p.tasks[i]? with
    | none => .isTrue (by simp [Meets, h])
    | some t => decidable_of_iff (Q p.state (p.tasks.take i ++ p.tasks.drop (i + 1)) t input) (by simp [Meets, h])

instance decidableAlong (Q : σ → List τ → τ → ι → Prop) [∀ s ts t input, Decidable (Q s ts t input)] :
    ∀ (p : Pool σ τ) (es : List (Event κ ι)), Decidable (Along start run Q p es)
  | _, [] => .isTrue trivial
  | p, e :: es =>
    have := decidableAlong Q (p.step start run e) es
    inferInstanceAs (Decidable (_ ∧ _))

variable {start run}

theorem tasks_split {l : List τ} {i : ℕ} {t : τ} (h : l[i]? = some t) : l = l.take i ++ t :: l.drop (i + 1) := by
  obtain ⟨hi, rfl⟩ := List.getElem?_eq_some_iff.mp h
  rw [← List.drop_eq_getElem_cons hi, List.take_append_drop]

/-- The rule for invariants of the state and the tasks in flight, along runs that meet a condition. -/
theorem pool_induction {I : σ → List τ → Prop} {Q : σ → List τ → τ → ι → Prop} {p0 : Pool σ τ}
    (h0 : I p0.state p0.tasks)
    (hcall : ∀ s ts (c : κ), I s ts → I s (ts ++ [start c]))
    (hrun : ∀ s before t after input, I s (before ++ t :: after) → Q s (before ++ after) t input →
      I (run s t input).1 (before ++ (run s t input).2 ++ after))
    {es : List (Event κ ι)} (h : Along start run Q p0 es) :
    I (pool start run p0 es).state (pool start run p0 es).tasks := by
  have hkeeps : ∀ (es : List (Event κ ι)) (p : Pool σ τ), I p.state p.tasks → Along start run Q p es →
      I (es.foldl (Pool.step start run) p).state (es.foldl (Pool.step start run) p).tasks := by
    intro es
    induction es with
    | nil => exact fun _ hp _ => hp
    | cons e es ih =>
      rintro p hp ⟨hmeets, halong⟩
      refine ih _ ?_ halong
      cases e with
      | call c => exact hcall p.state p.tasks c hp
      | advance i input =>
        unfold Meets at hmeets
        unfold Pool.step Pool.advance
        dsimp only at hmeets ⊢
        cases ht : p.tasks[i]? with
        | none => exact hp
        | some t =>
          rw [ht] at hmeets
          rw [tasks_split ht] at hp
          exact hrun p.state _ t _ input hp hmeets
  exact hkeeps es p0 h0 h

theorem along_of_forall {Q : σ → List τ → τ → ι → Prop} (h : ∀ s ts t input, Q s ts t input) :
    ∀ (es : List (Event κ ι)) (p : Pool σ τ), Along start run Q p es
  | [], _ => trivial
  | e :: es, p => by
    refine ⟨?_, along_of_forall h es _⟩
    cases e with
    | call c => trivial
    | advance i input =>
      unfold Meets
      dsimp only
      split
      · trivial
      · exact h _ _ _ _

/-- What every call and every advance keeps, every run keeps. -/
theorem pool_invariant {I : σ → List τ → Prop} {p0 : Pool σ τ} (h0 : I p0.state p0.tasks)
    (hcall : ∀ s ts (c : κ), I s ts → I s (ts ++ [start c]))
    (hrun : ∀ s before t after input, I s (before ++ t :: after) →
      I (run s t input).1 (before ++ (run s t input).2 ++ after))
    (es : List (Event κ ι)) : I (pool start run p0 es).state (pool start run p0 es).tasks :=
  @pool_induction _ _ _ _ start run I (fun _ _ _ _ => True) p0 h0 hcall
    (fun s before t after input hinv _ => hrun s before t after input hinv) es
    (along_of_forall (fun _ _ _ _ => trivial) es _)

/-! ### The tasks around the one that advances -/

variable {before after ts : List τ} {t : τ} {P : τ → Prop}

theorem exists_task_iff : (∃ x ∈ before ++ t :: after, P x) ↔ P t ∨ ∃ x ∈ before ++ after, P x := by
  simp only [List.mem_append, List.mem_cons, or_and_right, exists_or, exists_eq_left]
  exact or_left_comm

theorem exists_next_iff : (∃ x ∈ before ++ ts ++ after, P x) ↔ (∃ x ∈ ts, P x) ∨ ∃ x ∈ before ++ after, P x := by
  simp only [List.mem_append, or_and_right, exists_or]
  rw [or_assoc]
  exact or_left_comm

theorem forall_task_iff : (∀ x ∈ before ++ t :: after, P x) ↔ P t ∧ ∀ x ∈ before ++ after, P x := by
  simp only [List.mem_append, List.mem_cons, or_imp, forall_and, forall_eq]
  tauto

theorem forall_next_iff : (∀ x ∈ before ++ ts ++ after, P x) ↔ (∀ x ∈ ts, P x) ∧ ∀ x ∈ before ++ after, P x := by
  simp only [List.mem_append, or_imp, forall_and]
  tauto

theorem countP_task (p : τ → Bool) :
    (before ++ t :: after).countP p = (if p t then 1 else 0) + (before ++ after).countP p := by
  simp only [List.countP_append, List.countP_cons]
  omega

theorem countP_next (p : τ → Bool) :
    (before ++ ts ++ after).countP p = ts.countP p + (before ++ after).countP p := by
  simp only [List.countP_append]
  omega

end

end Tasks
