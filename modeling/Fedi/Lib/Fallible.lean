import Mathlib.Data.List.Forall2

/-!
# Programs with a state that may fail

Two readings of a postcondition: `Ensures` is about the runs that return, `Yields` also says that every run does.

    Yields m P → (P a → Yields (f a) Q) → Yields (m >>= f) Q      (Yields.bind)
-/

namespace Fallible

variable {σ ε α β : Type}

structure Ensures (m : StateT σ (Except ε) α) (P : α → Prop) : Prop where
  of_run : ∀ s a s', m s = .ok (a, s') → P a

structure Yields (m : StateT σ (Except ε) α) (P : α → Prop) : Prop where
  run : ∀ s, ∃ a s', m s = .ok (a, s') ∧ P a

theorem ensures_pure {a : α} {P : α → Prop} (h : P a) : Ensures (pure a : StateT σ (Except ε) α) P := by
  constructor
  intro s a' s' hrun
  have heq : (a, s) = (a', s') := Except.ok.inj hrun
  rw [← (Prod.mk.inj heq).1]
  exact h

theorem ensures_throw {e : ε} {P : α → Prop} : Ensures (throw e : StateT σ (Except ε) α) P := by
  constructor
  intro s a s' hrun
  exact absurd hrun (by simp [throw, throwThe, MonadExceptOf.throw, StateT.lift, bind, Except.bind])

theorem bind_ok {m : StateT σ (Except ε) α} {s s' : σ} {a : α} (f : α → StateT σ (Except ε) β) (h : m s = .ok (a, s')) :
    (m >>= f) s = f a s' := by
  simp [Bind.bind, StateT.bind, Except.bind, h]

theorem bind_error {m : StateT σ (Except ε) α} {s : σ} {e : ε} (f : α → StateT σ (Except ε) β) (h : m s = .error e) :
    (m >>= f) s = .error e := by
  simp [Bind.bind, StateT.bind, Except.bind, h]

theorem Ensures.bind {m : StateT σ (Except ε) α} {f : α → StateT σ (Except ε) β} {P : α → Prop} {Q : β → Prop}
    (hm : Ensures m P) (hf : ∀ a, P a → Ensures (f a) Q) : Ensures (m >>= f) Q := by
  constructor
  intro s b s' hrun
  cases hfirst : m s with
  | error e =>
    rw [bind_error f hfirst] at hrun
    exact absurd hrun (by simp)
  | ok r =>
    rw [bind_ok f hfirst] at hrun
    exact (hf r.1 (hm.of_run s r.1 r.2 hfirst)).of_run r.2 b s' hrun

theorem ensures_any (m : StateT σ (Except ε) α) : Ensures m (fun _ => True) := ⟨fun _ _ _ _ => trivial⟩

theorem yields_pure {a : α} {P : α → Prop} (h : P a) : Yields (pure a : StateT σ (Except ε) α) P :=
  ⟨fun s => ⟨a, s, rfl, h⟩⟩

theorem yields_lift {outcome : Except ε α} {a : α} {P : α → Prop} (houtcome : outcome = .ok a) (h : P a) :
    Yields (liftM outcome : StateT σ (Except ε) α) P := by
  constructor
  intro s
  rw [houtcome]
  exact ⟨a, s, rfl, h⟩

theorem Yields.bind {m : StateT σ (Except ε) α} {f : α → StateT σ (Except ε) β} {P : α → Prop} {Q : β → Prop}
    (hm : Yields m P) (hf : ∀ a, P a → Yields (f a) Q) : Yields (m >>= f) Q := by
  constructor
  intro s
  obtain ⟨a, s', hfirst, ha⟩ := hm.run s
  rw [bind_ok f hfirst]
  exact (hf a ha).run s'

/-- A loop over a list, with a postcondition for each item. -/
theorem ensures_mapM {f : α → StateT σ (Except ε) β} {R : α → β → Prop} (hf : ∀ a, Ensures (f a) (R a)) (items : List α) :
    Ensures (items.mapM f) (List.Forall₂ R items) := by
  induction items with
  | nil => exact ensures_pure List.Forall₂.nil
  | cons a items ih =>
    rw [List.mapM_cons]
    apply (hf a).bind
    intro b hb
    apply ih.bind
    intro rest hrest
    exact ensures_pure (List.Forall₂.cons hb hrest)

theorem yields_mapM {f : α → StateT σ (Except ε) β} {R : α → β → Prop} {items : List α}
    (hf : ∀ a ∈ items, Yields (f a) (R a)) : Yields (items.mapM f) (List.Forall₂ R items) := by
  induction items with
  | nil => exact yields_pure List.Forall₂.nil
  | cons a items ih =>
    rw [List.mapM_cons]
    apply (hf a (by simp)).bind
    intro b hb
    apply (ih fun a' ha' => hf a' (List.mem_cons_of_mem a ha')).bind
    intro rest hrest
    exact yields_pure (List.Forall₂.cons hb hrest)

theorem forall_left {R : α → β → Prop} {p : α → Prop} {as : List α} {bs : List β}
    (h : List.Forall₂ R as bs) (hp : ∀ a b, R a b → p a) : ∀ a ∈ as, p a := by
  induction h with
  | nil => simp
  | cons hfirst _ ih => exact List.forall_mem_cons.mpr ⟨hp _ _ hfirst, ih⟩

/-- A loop over what is related to the items of `bs` makes something related to each. -/
theorem mapM_ok {γ : Type} {R : α → β → Prop} {S : γ → β → Prop} {f : α → Except ε γ} {as : List α}
    {bs : List β} (h : List.Forall₂ R as bs) (hstep : ∀ a b, R a b → ∃ c, f a = .ok c ∧ S c b) :
    ∃ cs, as.mapM f = .ok cs ∧ List.Forall₂ S cs bs := by
  induction h with
  | nil => exact ⟨[], rfl, .nil⟩
  | cons hfirst _ ih =>
    obtain ⟨c, hc, hS⟩ := hstep _ _ hfirst
    obtain ⟨cs, hcs, hall⟩ := ih
    refine ⟨c :: cs, ?_, .cons hS hall⟩
    rw [List.mapM_cons, hc, hcs]
    rfl

end Fallible
