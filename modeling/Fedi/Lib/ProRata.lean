import Fedi.Lib.FloorConversion

/-!
# Pro-rata splits with a remainder

A pool is divided among holders in proportion to their weights, each share
rounded down, and the remainder goes to one holder chosen by an index.

    xs.sum ≠ 0 → (split pool xs i).sum = pool                        (sum_split)
    (shares pool xs).sum ≤ pool                                      (sum_shares_le)
    xs.sum ≠ 0 → leftover pool xs < xs.length                        (leftover_lt_length)
-/

namespace ProRata

/-- Rounded-down shares of `pool` in proportion to `xs`. -/
def shares (pool : ℕ) (xs : List ℕ) : List ℕ := xs.map fun x => pool * x / xs.sum

/-- What the rounded-down shares leave over. -/
def leftover (pool : ℕ) (xs : List ℕ) : ℕ := pool - (shares pool xs).sum

/-- The shares, with the remainder given to holder `i % length`. -/
def split (pool : ℕ) (xs : List ℕ) (i : ℕ) : List ℕ :=
  (shares pool xs).modify (i % xs.length) (· + leftover pool xs)

theorem shares_eq (pool : ℕ) (xs : List ℕ) : shares pool xs = (xs.map (pool * ·)).map (· / xs.sum) := by
  rw [List.map_map]
  rfl

theorem sum_map_mul (pool : ℕ) (xs : List ℕ) : (xs.map (pool * ·)).sum = pool * xs.sum := by
  rw [List.sum_map_mul_left, List.map_id']

theorem sum_shares_le (pool : ℕ) (xs : List ℕ) : (shares pool xs).sum ≤ pool := by
  rw [shares_eq]
  refine (FloorConversion.sum_div_le xs.sum _).trans ?_
  rw [sum_map_mul]
  rcases Nat.eq_zero_or_pos xs.sum with h | h
  · rw [h, Nat.div_zero]
    exact Nat.zero_le _
  · rw [Nat.mul_div_cancel _ h]

/-- Each share loses less than one, so together they lose less than their number. -/
theorem leftover_lt_length (pool : ℕ) {xs : List ℕ} (h : xs.sum ≠ 0) : leftover pool xs < xs.length := by
  have hne : xs.map (pool * ·) ≠ [] := by
    intro hnil
    rw [List.map_eq_nil_iff.mp hnil] at h
    exact h rfl
  have hfloors := FloorConversion.sum_lt_sum_div (Nat.pos_of_ne_zero h) (xs.map (pool * ·)) hne
  rw [sum_map_mul, List.length_map, ← shares_eq] at hfloors
  have hpos : 0 < xs.length := by
    rw [← List.length_map]
    exact List.length_pos_of_ne_nil hne
  have hlt : pool * xs.sum < ((shares pool xs).sum + xs.length) * xs.sum := by omega
  have := Nat.lt_of_mul_lt_mul_right hlt
  unfold leftover
  omega

@[simp] theorem length_shares (pool : ℕ) (xs : List ℕ) : (shares pool xs).length = xs.length :=
  List.length_map _

@[simp] theorem length_split (pool : ℕ) (xs : List ℕ) (i : ℕ) : (split pool xs i).length = xs.length := by
  rw [split, List.length_modify, length_shares]

/-- Raising the entry at a valid index raises the sum. -/
theorem sum_modify_add (c : ℕ) :
    ∀ (xs : List ℕ) (i : ℕ), i < xs.length → (xs.modify i (· + c)).sum = xs.sum + c
  | [], i, h => by simp at h
  | x :: xs, 0, _ => by
    simp only [List.modify_zero_cons, List.sum_cons]
    omega
  | x :: xs, i + 1, h => by
    have ih := sum_modify_add c xs i (by simpa using h)
    simp only [List.modify_succ_cons, List.sum_cons, ih]
    omega

/-- Nothing of the pool is lost. -/
theorem sum_split {pool : ℕ} {xs : List ℕ} (h : xs.sum ≠ 0) (i : ℕ) : (split pool xs i).sum = pool := by
  have hne : xs ≠ [] := by
    rintro rfl
    exact h rfl
  rw [split, sum_modify_add]
  · have := sum_shares_le pool xs
    rw [leftover]
    omega
  · rw [length_shares]
    exact Nat.mod_lt _ (List.length_pos_of_ne_nil hne)

/-- Every holder has its share, and one holder the remainder besides. -/
theorem getElem?_split {pool : ℕ} {xs : List ℕ} {i k x : ℕ} (h : xs[k]? = some x) :
    (split pool xs i)[k]? = some (pool * x / xs.sum + if k = i % xs.length then leftover pool xs else 0) := by
  rw [split, shares, List.getElem?_modify, List.getElem?_map, h]
  by_cases hk : i % xs.length = k
  · simp [hk]
  · simp [hk, Ne.symm hk]

/-- With no remainder the shares are exact. -/
theorem split_of_leftover_zero {pool : ℕ} {xs : List ℕ} (h : leftover pool xs = 0) (i : ℕ) :
    split pool xs i = shares pool xs := by
  rw [split, h]
  exact List.modify_id _ _

end ProRata
