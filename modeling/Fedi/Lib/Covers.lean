import Mathlib.Algebra.BigOperators.Group.Multiset.Basic
import Mathlib.Algebra.BigOperators.Ring.Multiset
import Mathlib.Algebra.Order.BigOperators.Group.Multiset
import Mathlib.Algebra.Order.Ring.Nat
import Mathlib.Data.Multiset.UnionInter

/-!
# Covers of an amount

Things have a worth and a price.  Those taken in order until their worth covers an amount are a dearest choice
among all that are worth no more than the amount, if the price of none that is left is a larger share of
its worth than that of one that is taken:

    share of each one taken ≥ share of each one left   →   price of A ≤ price of the cover   (dearest_cover)
-/

namespace Covers

variable {α : Type} {worth price : α → ℕ}

def sumOf (f : α → ℕ) (s : Multiset α) : ℕ := (s.map f).sum

@[simp] theorem sumOf_zero (f : α → ℕ) : sumOf f 0 = 0 := rfl

@[simp] theorem sumOf_add (f : α → ℕ) (s t : Multiset α) : sumOf f (s + t) = sumOf f s + sumOf f t := by
  unfold sumOf
  rw [Multiset.map_add, Multiset.sum_add]

@[simp] theorem sumOf_cons (f : α → ℕ) (x : α) (s : Multiset α) : sumOf f (x ::ₘ s) = f x + sumOf f s := by
  unfold sumOf
  rw [Multiset.map_cons, Multiset.sum_cons]

@[simp] theorem sumOf_singleton (f : α → ℕ) (x : α) : sumOf f {x} = f x := by
  unfold sumOf
  rw [Multiset.map_singleton, Multiset.sum_singleton]

theorem sumOf_coe (f : α → ℕ) (l : List α) : sumOf f l = (l.map f).sum := by
  unfold sumOf
  rw [Multiset.map_coe, Multiset.sum_coe]

theorem sumOf_le_of_le (f : α → ℕ) {s t : Multiset α} (h : s ≤ t) : sumOf f s ≤ sumOf f t := by
  obtain ⟨u, rfl⟩ := Multiset.le_iff_exists_add.mp h
  rw [sumOf_add]
  exact Nat.le_add_right _ _

theorem mul_sumOf_le {c d : ℕ} {f g : α → ℕ} {s : Multiset α} (h : ∀ x ∈ s, c * f x ≤ d * g x) :
    c * sumOf f s ≤ d * sumOf g s := by
  unfold sumOf
  rw [← Multiset.sum_map_mul_left, ← Multiset.sum_map_mul_left]
  exact Multiset.sum_map_le_sum_map _ _ h

/-- A choice is at most as dear as what is kept of the things, if it is worth no more, and nothing that is left
pays a larger share of its worth than something that is kept. -/
theorem price_le_of_share [DecidableEq α] {A kept left : Multiset α} (hsub : A ≤ kept + left)
    (hworth : sumOf worth A ≤ sumOf worth kept) (hpos : ∀ y ∈ left, 0 < worth y)
    (hshare : ∀ x ∈ kept, ∀ y ∈ left, worth x * price y ≤ price x * worth y) : sumOf price A ≤ sumOf price kept := by
  have hin : A - kept ≤ left := Multiset.sub_le_iff_le_add'.mpr hsub
  have hout : kept - A ≤ kept := Multiset.sub_le_self _ _
  have hsplit : ∀ f : α → ℕ, sumOf f A = sumOf f (A - kept) + sumOf f (A ∩ kept) := by
    intro f
    rw [← sumOf_add, Multiset.sub_add_inter]
  have hsplit' : ∀ f : α → ℕ, sumOf f kept = sumOf f (kept - A) + sumOf f (A ∩ kept) := by
    intro f
    rw [← sumOf_add, Multiset.inter_comm, Multiset.sub_add_inter]
  rw [hsplit worth, hsplit' worth] at hworth
  rw [hsplit price, hsplit' price]
  -- What is swapped in is worth no more than what is swapped out, each for each.
  have hcross : sumOf price (A - kept) * sumOf worth (kept - A) ≤ sumOf worth (A - kept) * sumOf price (kept - A) := by
    refine mul_sumOf_le fun x hx => ?_
    rw [Nat.mul_comm _ (worth x), Nat.mul_comm _ (price x)]
    exact mul_sumOf_le fun y hy => hshare x (Multiset.mem_of_le hout hx) y (Multiset.mem_of_le hin hy)
  have hswap : sumOf price (A - kept) ≤ sumOf price (kept - A) := by
    rcases Nat.eq_zero_or_pos (sumOf worth (kept - A)) with hzero | hmore
    · have hnone : A - kept = 0 := by
        refine Multiset.eq_zero_of_forall_notMem fun y hy => ?_
        have hworthy := hpos y (Multiset.mem_of_le hin hy)
        have hle := sumOf_le_of_le worth (Multiset.singleton_le.mpr hy)
        rw [sumOf_singleton] at hle
        omega
      rw [hnone]
      exact Nat.zero_le _
    · refine Nat.le_of_mul_le_mul_right (hcross.trans ?_) hmore
      rw [Nat.mul_comm (sumOf price (kept - A))]
      exact Nat.mul_le_mul_right _ (by omega)
  omega

/-! ## Taking in order -/

/-- Things in order until they cover the amount. -/
def takeCover (worth : α → ℕ) : List α → ℕ → List α
  | [], _ => []
  | x :: xs, t => if t = 0 then [] else x :: takeCover worth xs (t - worth x)

theorem takeCover_zero (worth : α → ℕ) (xs : List α) : takeCover worth xs 0 = [] := by
  cases xs with
  | nil => rfl
  | cons x xs => exact if_pos rfl

theorem takeCover_cons {t : ℕ} (h : t ≠ 0) (x : α) (xs : List α) :
    takeCover worth (x :: xs) t = x :: takeCover worth xs (t - worth x) := if_neg h

/-- A cover is a first part of the things, with nothing to spare but its last one. -/
theorem takeCover_spec (worth : α → ℕ) (xs : List α) (t : ℕ) (h : t ≠ 0) (hcover : t ≤ sumOf worth xs) :
    ∃ (before : List α) (last : α) (after : List α), xs = before ++ last :: after ∧ takeCover worth xs t = before ++ [last] ∧
      sumOf worth before < t ∧ t ≤ sumOf worth before + worth last := by
  induction xs generalizing t with
  | nil =>
    have hzero : sumOf worth (([] : List α) : Multiset α) = 0 := rfl
    omega
  | cons x xs ih =>
    rw [takeCover_cons h]
    have hsum : sumOf worth ((x :: xs : List α) : Multiset α) = worth x + sumOf worth xs := sumOf_cons worth x xs
    by_cases hx : t ≤ worth x
    · refine ⟨[], x, xs, rfl, ?_, by show 0 < t; omega, by show t ≤ 0 + worth x; omega⟩
      rw [Nat.sub_eq_zero_of_le hx, takeCover_zero]
      rfl
    · obtain ⟨before, last, after, rfl, htake, hlt, hle⟩ := ih (t - worth x) (by omega) (by omega)
      have hbefore : sumOf worth ((x :: before : List α) : Multiset α) = worth x + sumOf worth before :=
        sumOf_cons worth x before
      exact ⟨x :: before, last, after, rfl, by rw [htake]; rfl, by omega, by omega⟩

/-- Equal things are taken as often as they are needed, or all of them. -/
theorem takeCover_replicate (c : ℕ) {x : α} (h : 0 < worth x) (xs : List α) (t : ℕ) :
    takeCover worth (List.replicate c x ++ xs) t =
      List.replicate (min ((t + worth x - 1) / worth x) c) x ++
        takeCover worth xs (t - worth x * min ((t + worth x - 1) / worth x) c) := by
  induction c generalizing t with
  | zero => rw [Nat.min_zero, Nat.mul_zero, Nat.sub_zero, List.replicate_zero, List.nil_append, List.nil_append]
  | succ c ih =>
    by_cases ht : t = 0
    · have hnone : (t + worth x - 1) / worth x = 0 := Nat.div_eq_of_lt (by omega)
      rw [hnone, Nat.zero_min, ht, takeCover_zero, Nat.zero_sub, takeCover_zero]
      rfl
    · have hnext : (t + worth x - 1) / worth x = (t - worth x + worth x - 1) / worth x + 1 := by
        by_cases hle : worth x ≤ t
        · have hmove : t + worth x - 1 = t - worth x + worth x - 1 + worth x := by omega
          rw [hmove, Nat.add_div_right _ h]
        · rw [Nat.div_eq_of_lt_le (m := t + worth x - 1) (k := 1) (by omega) (by omega),
            Nat.div_eq_of_lt (a := t - worth x + worth x - 1) (by omega)]
      rw [hnext, Nat.add_min_add_right, List.replicate_succ, List.cons_append, takeCover_cons ht, ih,
        List.replicate_succ, List.cons_append, Nat.mul_add, Nat.mul_one, Nat.sub_sub, Nat.add_comm (worth x)]

/-- The cover is a dearest choice, if nothing after it pays a larger share than something in it. -/
theorem dearest_cover [DecidableEq α] {xs : List α} {t : ℕ} (hcover : t ≤ sumOf worth xs) (hworth : ∀ x ∈ xs, 0 < worth x)
    (hshare : ∀ (before : List α) (last : α) (after : List α), xs = before ++ last :: after → sumOf worth before < t →
      t ≤ sumOf worth before + worth last → ∀ x ∈ before ++ [last], ∀ y ∈ after, worth x * price y ≤ price x * worth y)
    {A : Multiset α} (hsub : A ≤ xs) (hA : sumOf worth A ≤ t) :
    sumOf price A ≤ sumOf price (takeCover worth xs t) := by
  by_cases h : t = 0
  · -- Nothing is worth nothing.
    rw [h, takeCover_zero]
    have hleft : A ≤ ((([] : List α) : Multiset α) + (xs : Multiset α)) := by simpa using hsub
    refine price_le_of_share hleft (by omega) (fun y hy => hworth y (Multiset.mem_coe.mp hy)) ?_
    exact fun x hx => absurd hx (Multiset.notMem_zero x)
  · obtain ⟨before, last, after, rfl, htake, hlt, hle⟩ := takeCover_spec worth xs t h hcover
    have hsplit := hshare before last after rfl hlt hle
    have hlist : ((before ++ [last] : List α) : Multiset α) + (after : Multiset α) =
        ((before ++ last :: after : List α) : Multiset α) := by
      rw [Multiset.coe_add, List.append_assoc]
      rfl
    rw [← hlist] at hsub
    have hkept : sumOf worth ((before ++ [last] : List α) : Multiset α) = sumOf worth before + worth last := by
      rw [← Multiset.coe_add, sumOf_add, Multiset.coe_singleton, sumOf_singleton]
    rw [htake]
    refine price_le_of_share hsub (by omega) (fun y hy => ?_) fun x hx y hy =>
      hsplit x (Multiset.mem_coe.mp hx) y (Multiset.mem_coe.mp hy)
    exact hworth y (List.mem_append_right _ (List.mem_cons_of_mem _ (Multiset.mem_coe.mp hy)))

end Covers
