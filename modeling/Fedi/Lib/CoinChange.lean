import Mathlib.Data.List.Perm.Basic
import Mathlib.Algebra.BigOperators.Group.List.Basic
import Mathlib.Algebra.Group.Action.Defs
import Mathlib.Algebra.Ring.Nat

/-!
# Sums of coins

A list of coins represents a target when its costs add up to it; a coin may be used any number of times.
The fewest coins for a target are one more than the fewest for what a last coin leaves:

    Fewest (t - cost c) n  for the coin c that leaves the least n  →  Fewest t (n + 1)   (fewest_succ)
-/

namespace CoinChange

variable {α : Type} {coins : List α} {cost : α → ℕ} {t u n : ℕ} {l l' : List α}

structure Represents (coins : List α) (cost : α → ℕ) (t : ℕ) (l : List α) : Prop where
  mem : ∀ c ∈ l, c ∈ coins
  sum : (l.map cost).sum = t

def Representable (coins : List α) (cost : α → ℕ) (t : ℕ) : Prop := ∃ l, Represents coins cost t l

/-- `n` coins represent the target, and no fewer do. -/
structure Fewest (coins : List α) (cost : α → ℕ) (t n : ℕ) : Prop where
  exists_rep : ∃ l, Represents coins cost t l ∧ l.length = n
  le : ∀ l, Represents coins cost t l → n ≤ l.length

theorem represents_nil (coins : List α) (cost : α → ℕ) : Represents coins cost 0 [] :=
  ⟨fun _ h => absurd h List.not_mem_nil, rfl⟩

theorem Represents.cons {c : α} (hc : c ∈ coins) (h : Represents coins cost t l) :
    Represents coins cost (cost c + t) (c :: l) where
  mem := by
    intro d hd
    rcases List.mem_cons.mp hd with rfl | hd
    · exact hc
    · exact h.mem d hd
  sum := by rw [List.map_cons, List.sum_cons, h.sum]

theorem Represents.append (h : Represents coins cost t l) (h' : Represents coins cost u l') :
    Represents coins cost (t + u) (l ++ l') where
  mem := by
    intro d hd
    rcases List.mem_append.mp hd with hd | hd
    · exact h.mem d hd
    · exact h'.mem d hd
  sum := by rw [List.map_append, List.sum_append, h.sum, h'.sum]

theorem Represents.replicate {c : α} (hc : c ∈ coins) (k : ℕ) :
    Represents coins cost (k * cost c) (List.replicate k c) where
  mem := by
    intro d hd
    rw [List.eq_of_mem_replicate hd]
    exact hc
  sum := by rw [List.map_replicate, List.sum_replicate, smul_eq_mul]

theorem Represents.of_perm (h : Represents coins cost t l) (hperm : l'.Perm l) : Represents coins cost t l' where
  mem := fun d hd => h.mem d (hperm.mem_iff.mp hd)
  sum := by rw [← h.sum, (hperm.map cost).sum_eq]

theorem Represents.mono {coins' : List α} (h : Represents coins cost t l) (hsub : ∀ c ∈ l, c ∈ coins') :
    Represents coins' cost t l :=
  ⟨hsub, h.sum⟩

/-- One coin that costs something can be taken out. -/
theorem Represents.take_out (h : Represents coins cost t l) (ht : t ≠ 0) :
    ∃ c ∈ coins, cost c ≠ 0 ∧ cost c ≤ t ∧ ∃ l', Represents coins cost (t - cost c) l' ∧ l'.length + 1 = l.length := by
  have hpaid : ∃ c ∈ l, cost c ≠ 0 := by
    by_contra hnone
    push Not at hnone
    apply ht
    rw [← h.sum]
    exact List.sum_eq_zero fun x hx => by
      obtain ⟨c, hc, rfl⟩ := List.mem_map.mp hx
      exact hnone c hc
  obtain ⟨c, hc, hne⟩ := hpaid
  obtain ⟨before, after, rfl⟩ := List.append_of_mem hc
  have hperm : (c :: (before ++ after)).Perm (before ++ c :: after) := List.perm_middle.symm
  have hcons := h.of_perm hperm
  have hsum := hcons.sum
  rw [List.map_cons, List.sum_cons] at hsum
  refine ⟨c, h.mem c hc, hne, by omega, before ++ after, ⟨fun d hd => ?_, by omega⟩, ?_⟩
  · exact hcons.mem d (List.mem_cons_of_mem c hd)
  · rw [List.length_append, List.length_append, List.length_cons]
    omega

theorem fewest_zero (coins : List α) (cost : α → ℕ) : Fewest coins cost 0 0 :=
  ⟨⟨[], represents_nil coins cost, rfl⟩, fun _ _ => Nat.zero_le _⟩

/-- The coin that leaves the fewest is the last of the fewest. -/
theorem fewest_succ (ht : t ≠ 0) {c : α} (hc : c ∈ coins) (hle : cost c ≤ t) (h : Fewest coins cost (t - cost c) n)
    (hleast : ∀ d ∈ coins, cost d ≠ 0 → cost d ≤ t → ∀ l, Represents coins cost (t - cost d) l → n ≤ l.length) :
    Fewest coins cost t (n + 1) where
  exists_rep := by
    obtain ⟨l, hl, hlength⟩ := h.exists_rep
    have hcons := hl.cons hc
    rw [Nat.add_sub_cancel' hle] at hcons
    exact ⟨c :: l, hcons, by rw [List.length_cons, hlength]⟩
  le := by
    intro l hl
    obtain ⟨d, hd, hne, hdle, l', hl', hlength⟩ := hl.take_out ht
    have := hleast d hd hne hdle l' hl'
    omega

/-- A target is not represented if no last coin leaves one that is. -/
theorem not_represents (ht : t ≠ 0)
    (h : ∀ d ∈ coins, cost d ≠ 0 → cost d ≤ t → ∀ l, ¬ Represents coins cost (t - cost d) l) (l : List α) :
    ¬ Represents coins cost t l := by
  intro hl
  obtain ⟨d, hd, hne, hdle, l', hl', -⟩ := hl.take_out ht
  exact h d hd hne hdle l' hl'

end CoinChange
