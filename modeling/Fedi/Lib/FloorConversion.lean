import Mathlib

/-!
# Floor conversions between two units

`K` fine units are worth `p` coarse ones.  Both conversions round down; for `p ≤ K` the way
back has a right adjoint, the greatest coarse amount whose fine value does not exceed `m`:

    expand p K f ≤ m ↔ f ≤ greatest p K m                            (expand_le_iff)
    greatest p K (expand p K f) = f                                  (greatest_expand)

The adjoint is the floor or one more (`greatest_eq`).  A sum of adjoints and the adjoint of the
sum differ by at most one upwards, for few parts, and by less than the number of parts
downwards (`sum_greatest_le`, `greatest_sum_le`).  Going down and up again with floors loses at
most `⌈K / p⌉`, and nothing exactly for the multiples (`expand_shrink_eq_iff`).
-/

namespace FloorConversion

/-- Fine value of a coarse amount. -/
def expand (p K f : ℕ) : ℕ := f * K / p

/-- Coarse value of a fine amount. -/
def shrink (p K m : ℕ) : ℕ := m * p / K

/-- The greatest coarse amount whose fine value does not exceed `m`. -/
def greatest (p K m : ℕ) : ℕ := ((m + 1) * p - 1) / K

theorem shrink_le_greatest {p K : ℕ} (hp : 0 < p) (m : ℕ) : shrink p K m ≤ greatest p K m := by
  unfold shrink greatest
  refine Nat.div_le_div_right ?_
  rw [Nat.add_mul]
  omega

section
variable {p K : ℕ} (hp : 0 < p) (hle : p ≤ K)

include hp hle

theorem expand_le_iff {f m : ℕ} : expand p K f ≤ m ↔ f ≤ greatest p K m := by
  have hK : 0 < K := hp.trans_le hle
  have hpos : 0 < (m + 1) * p := Nat.mul_pos (Nat.succ_pos m) hp
  unfold expand greatest
  rw [← Nat.lt_add_one_iff, Nat.div_lt_iff_lt_mul hp, Nat.le_div_iff_mul_le hK]
  omega

theorem gc_expand : GaloisConnection (expand p K) (greatest p K) := fun _ _ => expand_le_iff hp hle

/-- One coarse unit more is worth at least one fine unit more. -/
theorem expand_succ (f : ℕ) : expand p K f + 1 ≤ expand p K (f + 1) := by
  unfold expand
  rw [Nat.le_div_iff_mul_le hp, Nat.add_mul, Nat.add_mul, Nat.one_mul, Nat.one_mul]
  exact Nat.add_le_add (Nat.div_mul_le_self _ _) hle

theorem expand_strictMono : StrictMono (expand p K) := strictMono_nat_of_lt_succ fun f => expand_succ hp hle f

/-- Converting there and back gives the coarse amount again. -/
theorem greatest_expand (f : ℕ) : greatest p K (expand p K f) = f := by
  refine le_antisymm ?_ ((gc_expand hp hle).le_u_l f)
  have hback : expand p K (greatest p K (expand p K f)) ≤ expand p K f := (gc_expand hp hle).l_u_le _
  exact (expand_strictMono hp hle).le_iff_le.mp hback

theorem greatest_mono : Monotone (greatest p K) := (gc_expand hp hle).monotone_u

theorem greatest_le_self (m : ℕ) : greatest p K m ≤ m := by
  have hfine : greatest p K m ≤ expand p K (greatest p K m) := (expand_strictMono hp hle).le_apply
  exact hfine.trans ((gc_expand hp hle).l_u_le m)

theorem greatest_le_succ_shrink (m : ℕ) : greatest p K m ≤ shrink p K m + 1 := by
  have hK : 0 < K := hp.trans_le hle
  unfold shrink greatest
  rw [← Nat.add_div_right _ hK]
  refine Nat.div_le_div_right ?_
  rw [Nat.add_mul]
  omega

/-- The value of one more than the floor is beyond `m`, or `m` itself. -/
theorem le_expand_succ_shrink (m : ℕ) : m ≤ expand p K (shrink p K m + 1) := by
  have hK : 0 < K := hp.trans_le hle
  have hlt := Nat.lt_mul_div_succ (m * p) hK
  unfold expand shrink
  rw [Nat.le_div_iff_mul_le hp, Nat.mul_comm _ K]
  exact hlt.le

/-- The adjoint is the floor, or one more where that converts back to `m`. -/
theorem greatest_eq (m : ℕ) :
    greatest p K m = if expand p K (shrink p K m + 1) = m then shrink p K m + 1 else shrink p K m := by
  have hlow := shrink_le_greatest (K := K) hp m
  have hhigh := greatest_le_succ_shrink hp hle m
  have hvalue := le_expand_succ_shrink hp hle m
  have hiff : shrink p K m + 1 ≤ greatest p K m ↔ expand p K (shrink p K m + 1) ≤ m :=
    (expand_le_iff hp hle).symm
  split_ifs with h
  · have := hiff.mpr h.le
    omega
  · have : ¬ shrink p K m + 1 ≤ greatest p K m := fun hlt => h (le_antisymm (hiff.mp hlt) hvalue)
    omega

end

/-! ## Sums -/

/-- Rounding each term down loses at least as much as rounding the sum. -/
theorem sum_div_le (K : ℕ) : ∀ xs : List ℕ, (xs.map (· / K)).sum ≤ xs.sum / K
  | [] => Nat.zero_le _
  | x :: xs => by
    have ih := sum_div_le K xs
    rw [List.map_cons, List.sum_cons, List.sum_cons]
    exact (Nat.add_le_add_left ih _).trans Nat.div_add_div_le_add_div

/-- Rounding each of `n` terms down loses less than `n`. -/
theorem sum_lt_sum_div {K : ℕ} (hK : 0 < K) :
    ∀ xs : List ℕ, xs ≠ [] → xs.sum + xs.length ≤ ((xs.map (· / K)).sum + xs.length) * K
  | [x], _ => by
    have := Nat.lt_mul_div_succ x hK
    simp only [List.sum_singleton, List.length_singleton, List.map_cons, List.map_nil]
    rw [Nat.mul_comm]
    omega
  | x :: y :: ys, _ => by
    have ih := sum_lt_sum_div hK (y :: ys) (List.cons_ne_nil _ _)
    have hx := Nat.lt_mul_div_succ x hK
    rw [List.map_cons, List.sum_cons (a := x), List.sum_cons (a := x / K), List.length_cons (a := x)]
    have hsplit : (x / K + ((y :: ys).map (· / K)).sum + ((y :: ys).length + 1)) * K =
        K * (x / K + 1) + (((y :: ys).map (· / K)).sum + (y :: ys).length) * K := by ring
    rw [hsplit]
    omega

section
variable {p K : ℕ} (hp : 0 < p) (hle : p ≤ K)

theorem map_greatest (p K : ℕ) (parts : List ℕ) :
    parts.map (greatest p K) = (parts.map fun m => (m + 1) * p - 1).map (· / K) := by
  rw [List.map_map]
  rfl

include hp in
theorem sum_numerators : ∀ parts : List ℕ,
    (parts.map fun m => (m + 1) * p - 1).sum + parts.length = (parts.sum + parts.length) * p
  | [] => by simp
  | m :: parts => by
    have ih := sum_numerators parts
    have hpos : 0 < (m + 1) * p := Nat.mul_pos (Nat.succ_pos m) hp
    have hsplit : (m + parts.sum + (parts.length + 1)) * p = (m + 1) * p + (parts.sum + parts.length) * p := by ring
    rw [List.map_cons, List.sum_cons, List.length_cons, List.sum_cons, hsplit]
    omega

include hp hle

/-- The parts add up to at most one more than the whole, when they are few for the rate. -/
theorem sum_greatest_le {parts : List ℕ} (hne : parts ≠ []) (hfew : (parts.length - 1) * p ≤ K) :
    (parts.map (greatest p K)).sum ≤ greatest p K parts.sum + 1 := by
  have hK : 0 < K := hp.trans_le hle
  have hlen : 0 < parts.length := List.length_pos_of_ne_nil hne
  have hnum := sum_numerators hp parts
  have hpos : 0 < (parts.sum + 1) * p := Nat.mul_pos (Nat.succ_pos _) hp
  have hparts : (parts.sum + parts.length) * p = (parts.sum + 1) * p + (parts.length - 1) * p := by
    rw [← Nat.add_mul]
    congr 1
    omega
  rw [map_greatest]
  refine (sum_div_le K _).trans ?_
  unfold greatest
  rw [← Nat.add_div_right _ hK]
  refine Nat.div_le_div_right ?_
  omega

/-- The whole is at most one less than the number of parts above their sum. -/
theorem greatest_sum_le {parts : List ℕ} (hne : parts ≠ []) :
    greatest p K parts.sum ≤ (parts.map (greatest p K)).sum + (parts.length - 1) := by
  have hK : 0 < K := hp.trans_le hle
  have hlen : 0 < parts.length := List.length_pos_of_ne_nil hne
  have hnum := sum_numerators hp parts
  have hloss := sum_lt_sum_div hK (parts.map fun m => (m + 1) * p - 1) (by simpa using hne)
  rw [← map_greatest, List.length_map] at hloss
  have hpos : 0 < (parts.sum + 1) * p := Nat.mul_pos (Nat.succ_pos _) hp
  have hmore : (parts.sum + 1) * p ≤ (parts.sum + parts.length) * p :=
    Nat.mul_le_mul_right _ (by omega)
  have hlt : greatest p K parts.sum < (parts.map (greatest p K)).sum + parts.length := by
    conv_lhs => unfold greatest
    rw [Nat.div_lt_iff_lt_mul hK]
    omega
  omega

end

/-! ## Down and up again -/

section
variable {p K : ℕ} (hp : 0 < p) (hK : 0 < K)

theorem shrink_mul (p K m : ℕ) : shrink p K m * K + m * p % K = m * p := by
  rw [shrink, Nat.mul_comm]
  exact Nat.div_add_mod _ _

theorem expand_shrink_le (p K m : ℕ) : expand p K (shrink p K m) ≤ m := by
  have h := shrink_mul p K m
  unfold expand
  refine Nat.div_le_of_le_mul ?_
  rw [Nat.mul_comm p m]
  omega

include hp

theorem expand_shrink_eq_iff (m : ℕ) : expand p K (shrink p K m) = m ↔ K ∣ m * p := by
  have h := shrink_mul p K m
  have hlow := expand_shrink_le p K m
  have hiff : m ≤ expand p K (shrink p K m) ↔ m * p % K = 0 := by
    unfold expand
    rw [Nat.le_div_iff_mul_le hp]
    omega
  rw [Nat.dvd_iff_mod_eq_zero, ← hiff]
  exact ⟨fun heq => heq.ge, fun hge => le_antisymm hlow hge⟩

include hK in
theorem le_expand_shrink (m : ℕ) : m ≤ expand p K (shrink p K m) + (K + p - 1) / p := by
  have h := shrink_mul p K m
  have hmod := Nat.mod_lt (m * p) hK
  have hceil : K ≤ (K + p - 1) / p * p := by
    have := Nat.lt_div_mul_add (a := K + p - 1) hp
    omega
  have hfloor := Nat.lt_div_mul_add (a := shrink p K m * K) hp
  have hlt : m * p < (expand p K (shrink p K m) + (K + p - 1) / p + 1) * p := by
    unfold expand
    rw [Nat.add_mul, Nat.add_mul, Nat.one_mul]
    omega
  exact Nat.lt_succ_iff.mp (Nat.lt_of_mul_lt_mul_right hlt)

theorem shrink_expand_eq_iff (hle : p ≤ K) (f : ℕ) : K ∣ expand p K f * p ↔ p ∣ f * K := by
  have hsplit : expand p K f * p + f * K % p = f * K := by
    rw [expand, Nat.mul_comm]
    exact Nat.div_add_mod _ _
  have hmod : f * K % p < K := (Nat.mod_lt _ hp).trans_le hle
  constructor
  · intro h
    have hrest : K ∣ f * K % p := by
      rw [Nat.dvd_add_right h |>.symm, hsplit]
      exact Nat.dvd_mul_left K f
    exact Nat.dvd_of_mod_eq_zero (Nat.eq_zero_of_dvd_of_lt hrest hmod)
  · intro h
    rw [Nat.mod_eq_zero_of_dvd h, Nat.add_zero] at hsplit
    rw [hsplit]
    exact Nat.dvd_mul_left K f

end

end FloorConversion
