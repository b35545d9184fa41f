import Mathlib

/-!
# Order statistics

The element at position `i` of a list sorted by a key has at least `i + 1`
elements at or below it and at least `length - i` at or above it.  So a majority
of good elements encloses the median, and the element `k` places from the end is
the greatest value that `k` elements reach:

    2 * l.countP bad < l.length  →  ∃ good x y ∈ l, key x ≤ median ≤ key y    (median_between)
    sorted[l.length - k]? = some x  →  IsGreatest {y | k ≤ l.countP (y ≤ ·)} x  (isGreatest_quorum)
-/

namespace OrderStat

variable {α β : Type} [LinearOrder β]

/-- At least `i + 1` elements are at or below the one at position `i`. -/
theorem lt_countP_le {l : List β} (hl : l.Pairwise (· ≤ ·)) {i : ℕ} {x : β} (h : l[i]? = some x) :
    i < l.countP (· ≤ x) := by
  induction l generalizing i with
  | nil => cases h
  | cons y l ih =>
    obtain ⟨hy, hl⟩ := List.pairwise_cons.mp hl
    cases i with
    | zero =>
      cases h
      simp
    | succ i =>
      have hi := ih hl h
      have hyx : y ≤ x := hy x (List.mem_of_getElem? h)
      rw [List.countP_cons_of_pos (by simpa using hyx)]
      omega

/-- At most `i` elements are below the one at position `i`. -/
theorem length_le_countP_ge {l : List β} (hl : l.Pairwise (· ≤ ·)) {i : ℕ} {x : β} (h : l[i]? = some x) :
    l.length ≤ i + l.countP (x ≤ ·) := by
  induction l generalizing i with
  | nil => cases h
  | cons y l ih =>
    obtain ⟨hy, hl⟩ := List.pairwise_cons.mp hl
    cases i with
    | zero =>
      cases h
      have hall : (x :: l).countP (x ≤ ·) = (x :: l).length := by
        rw [List.countP_eq_length]
        intro z hz
        rcases List.mem_cons.mp hz with rfl | hz
        · simp
        · simpa using hy z hz
      omega
    | succ i =>
      have hi := ih hl h
      have hmono : l.countP (x ≤ ·) ≤ (y :: l).countP (x ≤ ·) :=
        (List.sublist_cons_self y l).countP_le
      rw [List.length_cons]
      omega

section

variable {key : α → β} {l : List α} {i : ℕ} {x : α}

theorem keys_sorted (key : α → β) (l : List α) :
    ((l.insertionSort fun a b => key a ≤ key b).map key).Pairwise (· ≤ ·) := by
  have : IsTrans α (fun a b => key a ≤ key b) := ⟨fun _ _ _ => le_trans⟩
  have : Std.Total (fun a b : α => key a ≤ key b) := ⟨fun _ _ => le_total _ _⟩
  exact List.pairwise_map.mpr (List.pairwise_insertionSort _ l)

theorem countP_keys (key : α → β) (l : List α) (p : β → Bool) :
    ((l.insertionSort fun a b => key a ≤ key b).map key).countP p = l.countP (p ∘ key) := by
  rw [List.countP_map]
  exact (List.perm_insertionSort _ l).countP_eq _

theorem rank_le (h : (l.insertionSort fun a b => key a ≤ key b)[i]? = some x) :
    i < l.countP fun a => key a ≤ key x := by
  have hi := lt_countP_le (keys_sorted key l) (i := i) (x := key x) (by rw [List.getElem?_map, h]; rfl)
  rw [countP_keys] at hi
  exact hi

theorem rank_ge (h : (l.insertionSort fun a b => key a ≤ key b)[i]? = some x) :
    l.length ≤ i + l.countP fun a => key x ≤ key a := by
  have hi := length_le_countP_ge (keys_sorted key l) (i := i) (x := key x)
    (by rw [List.getElem?_map, h]; rfl)
  rw [countP_keys, List.length_map, (List.perm_insertionSort _ l).length_eq] at hi
  exact hi

end

/-- The value at position `length - k` of the sorted list is the greatest one with `k` elements
at or above it. -/
theorem isGreatest_quorum {l : List β} {k : ℕ} {x : β} (hlen : k ≤ l.length)
    (h : (l.insertionSort (· ≤ ·))[l.length - k]? = some x) :
    IsGreatest {y | k ≤ l.countP (y ≤ ·)} x := by
  have hle := @rank_le β β _ id l (l.length - k) x h
  have hge := @rank_ge β β _ id l (l.length - k) x h
  constructor
  · show k ≤ l.countP (x ≤ ·)
    have hx : l.length ≤ l.length - k + l.countP (x ≤ ·) := hge
    omega
  · intro y hy
    by_contra hxy
    have hlt : x < y := not_le.mp hxy
    have hcompl : l.length = l.countP (y ≤ ·) + l.countP (· < y) := by
      have := List.length_eq_countP_add_countP (l := l) (fun a => decide (y ≤ a))
      simpa using this
    have hbelow : l.countP (· ≤ x) ≤ l.countP (· < y) := by
      apply List.countP_mono_left
      intro a _ ha
      have hax : a ≤ x := of_decide_eq_true ha
      exact decide_eq_true (lt_of_le_of_lt hax hlt)
    have hx : l.length - k < l.countP (· ≤ x) := hle
    have hmany : k ≤ l.countP (y ≤ ·) := hy
    omega

/-- More elements satisfy `p` than are bad: a good one satisfies `p`. -/
theorem exists_good {l : List α} {p bad : α → Bool} (h : l.countP bad < l.countP p) :
    ∃ x ∈ l, p x = true ∧ bad x = false := by
  by_contra hnone
  push Not at hnone
  refine absurd (List.countP_mono_left (p := p) (q := bad) (l := l) fun x hx hp => ?_) (not_le.mpr h)
  simpa using hnone x hx hp

/-- A good majority encloses the median, even when values of labelled elements are sorted
without their labels. -/
theorem median_between {l : List α} {γ : Type} {value : α → γ} {key : γ → β} {bad : α → Bool} {m : γ}
    (h : ((l.map value).insertionSort fun a b => key a ≤ key b)[(l.map value).length / 2]? = some m)
    (hbad : 2 * l.countP bad < l.length) :
    ∃ x ∈ l, ∃ y ∈ l, bad x = false ∧ bad y = false ∧ key (value x) ≤ key m ∧ key m ≤ key (value y) := by
  have hle := rank_le h
  have hge := rank_ge h
  rw [List.countP_map, List.length_map] at hle hge
  have hlow : l.countP bad < l.countP ((fun c => decide (key c ≤ key m)) ∘ value) := by omega
  have hhigh : l.countP bad < l.countP ((fun c => decide (key m ≤ key c)) ∘ value) := by omega
  obtain ⟨x, hx, hxm, hgood⟩ := exists_good hlow
  obtain ⟨y, hy, hym, hgood'⟩ := exists_good hhigh
  exact ⟨x, hx, y, hy, hgood, hgood', of_decide_eq_true hxm, of_decide_eq_true hym⟩

end OrderStat
