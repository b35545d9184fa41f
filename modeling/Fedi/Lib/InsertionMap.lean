import Mathlib

/-!
# Maps in insertion order

A map whose keys are part of its values, as the list of its values in insertion order: a value
that is set keeps the place of the one with its key, else it goes to the end.

    set [a, b] b' = [a, b']        set [a, b] c = [a, b, c]
-/

namespace InsertionMaps

variable {T K : Type} [DecidableEq K] (keyOf : T → K)

def set (m : List T) (x : T) : List T :=
  if keyOf x ∈ m.map keyOf then m.map fun y => if keyOf y = keyOf x then x else y else m ++ [x]

def setIfAbsent (m : List T) (x : T) : List T := if keyOf x ∈ m.map keyOf then m else set keyOf m x

variable {keyOf} {m xs : List T} {x y : T}

theorem keys_set (m : List T) (x : T) :
    (set keyOf m x).map keyOf = if keyOf x ∈ m.map keyOf then m.map keyOf else m.map keyOf ++ [keyOf x] := by
  unfold set
  by_cases hmem : keyOf x ∈ m.map keyOf
  · rw [if_pos hmem, if_pos hmem, List.map_map]
    refine List.map_congr_left fun y _ => ?_
    by_cases hkey : keyOf y = keyOf x
    · simp [hkey]
    · simp [hkey]
  · rw [if_neg hmem, if_neg hmem, List.map_append, List.map_singleton]

theorem mem_set : y ∈ set keyOf m x ↔ y = x ∨ y ∈ m ∧ keyOf y ≠ keyOf x := by
  unfold set
  by_cases hmem : keyOf x ∈ m.map keyOf
  · rw [if_pos hmem, List.mem_map]
    constructor
    · rintro ⟨z, hz, rfl⟩
      by_cases hkey : keyOf z = keyOf x
      · simp [hkey]
      · simp [hkey, hz]
    · rintro (rfl | ⟨hy, hkey⟩)
      · obtain ⟨z, hz, hkey⟩ := List.mem_map.mp hmem
        exact ⟨z, hz, if_pos hkey⟩
      · exact ⟨y, hy, if_neg hkey⟩
  · have hne : ∀ z ∈ m, keyOf z ≠ keyOf x := fun z hz heq => hmem (List.mem_map.mpr ⟨z, hz, heq⟩)
    rw [if_neg hmem, List.mem_append, List.mem_singleton]
    constructor
    · rintro (hy | rfl)
      · exact .inr ⟨hy, hne y hy⟩
      · exact .inl rfl
    · rintro (rfl | ⟨hy, -⟩)
      · exact .inr rfl
      · exact .inl hy

theorem nodup_set (h : (m.map keyOf).Nodup) : ((set keyOf m x).map keyOf).Nodup := by
  rw [keys_set]
  split
  · exact h
  next hnew =>
    rw [List.nodup_append]
    refine ⟨h, List.nodup_singleton _, ?_⟩
    rintro key hkey _ hx rfl
    exact hnew (List.mem_singleton.mp hx ▸ hkey)

theorem nodup_setIfAbsent (h : (m.map keyOf).Nodup) : ((setIfAbsent keyOf m x).map keyOf).Nodup := by
  unfold setIfAbsent
  split
  · exact h
  · exact nodup_set h

theorem mem_setIfAbsent : y ∈ setIfAbsent keyOf m x ↔ y ∈ m ∨ y = x ∧ keyOf x ∉ m.map keyOf := by
  unfold setIfAbsent
  by_cases hmem : keyOf x ∈ m.map keyOf
  · rw [if_pos hmem]
    simp only [hmem, not_true_eq_false, and_false, or_false]
  · rw [if_neg hmem, mem_set]
    have hne : ∀ z ∈ m, keyOf z ≠ keyOf x := fun z hz heq => hmem (List.mem_map.mpr ⟨z, hz, heq⟩)
    constructor
    · rintro (rfl | ⟨hy, -⟩)
      · exact .inr ⟨rfl, hmem⟩
      · exact .inl hy
    · rintro (hy | ⟨rfl, -⟩)
      · exact .inr ⟨hy, hne y hy⟩
      · exact .inl rfl

/-! ### Many values -/

theorem nodup_foldl_set (h : (m.map keyOf).Nodup) : ((xs.foldl (set keyOf) m).map keyOf).Nodup := by
  induction xs generalizing m with
  | nil => exact h
  | cons x xs ih => exact ih (nodup_set h)

theorem nodup_foldl_setIfAbsent (h : (m.map keyOf).Nodup) :
    ((xs.foldl (setIfAbsent keyOf) m).map keyOf).Nodup := by
  induction xs generalizing m with
  | nil => exact h
  | cons x xs ih => exact ih (nodup_setIfAbsent h)

theorem keys_foldl_set {key : K} :
    key ∈ (xs.foldl (set keyOf) m).map keyOf ↔ key ∈ m.map keyOf ∨ key ∈ xs.map keyOf := by
  induction xs generalizing m with
  | nil => simp
  | cons x xs ih =>
    rw [List.foldl_cons, ih, keys_set, List.map_cons, List.mem_cons]
    by_cases hmem : keyOf x ∈ m.map keyOf
    · rw [if_pos hmem]
      constructor
      · rintro (hm | hxs)
        · exact .inl hm
        · exact .inr (.inr hxs)
      · rintro (hm | rfl | hxs)
        · exact .inl hm
        · exact .inl hmem
        · exact .inr hxs
    · rw [if_neg hmem, List.mem_append, List.mem_singleton, or_assoc]

/-- What is there was set, or is there still. -/
theorem of_mem_foldl_set (h : y ∈ xs.foldl (set keyOf) m) : y ∈ xs ∨ y ∈ m ∧ keyOf y ∉ xs.map keyOf := by
  induction xs generalizing m with
  | nil => exact .inr ⟨h, by simp⟩
  | cons x xs ih =>
    rcases ih h with hxs | ⟨hset, hkey⟩
    · exact .inl (List.mem_cons_of_mem _ hxs)
    · rcases mem_set.mp hset with rfl | ⟨hy, hne⟩
      · exact .inl List.mem_cons_self
      · exact .inr ⟨hy, by simp [hne, hkey]⟩

theorem mem_foldl_set_of_mem (h : y ∈ m) (hkey : keyOf y ∉ xs.map keyOf) : y ∈ xs.foldl (set keyOf) m := by
  induction xs generalizing m with
  | nil => exact h
  | cons x xs ih =>
    rw [List.map_cons, List.mem_cons, not_or] at hkey
    exact ih (mem_set.mpr (.inr ⟨h, hkey.1⟩)) hkey.2

/-- The only value of its key is there once it is set. -/
theorem mem_foldl_set (h : y ∈ xs) (honly : ∀ x ∈ xs, keyOf x = keyOf y → x = y) : y ∈ xs.foldl (set keyOf) m := by
  induction xs generalizing m with
  | nil => simp at h
  | cons x xs ih =>
    by_cases hrest : y ∈ xs
    · exact ih hrest fun z hz => honly z (List.mem_cons_of_mem _ hz)
    · obtain rfl : y = x := (List.mem_cons.mp h).resolve_right hrest
      rw [List.foldl_cons]
      refine mem_foldl_set_of_mem (mem_set.mpr (.inl rfl)) fun hkey => ?_
      obtain ⟨z, hz, hsame⟩ := List.mem_map.mp hkey
      exact hrest (honly z (List.mem_cons_of_mem _ hz) hsame ▸ hz)

theorem keys_foldl_setIfAbsent {key : K} :
    key ∈ (xs.foldl (setIfAbsent keyOf) m).map keyOf ↔ key ∈ m.map keyOf ∨ key ∈ xs.map keyOf := by
  induction xs generalizing m with
  | nil => simp
  | cons x xs ih =>
    have hkeys : key ∈ (setIfAbsent keyOf m x).map keyOf ↔ key ∈ m.map keyOf ∨ key = keyOf x := by
      unfold setIfAbsent
      by_cases hmem : keyOf x ∈ m.map keyOf
      · rw [if_pos hmem]
        constructor
        · exact .inl
        · rintro (hm | rfl)
          · exact hm
          · exact hmem
      · rw [if_neg hmem, keys_set, if_neg hmem, List.mem_append, List.mem_singleton]
    rw [List.foldl_cons, ih, hkeys, List.map_cons, List.mem_cons, or_assoc]

theorem of_mem_foldl_setIfAbsent (h : y ∈ xs.foldl (setIfAbsent keyOf) m) :
    y ∈ m ∨ y ∈ xs ∧ keyOf y ∉ m.map keyOf := by
  induction xs generalizing m with
  | nil => exact .inl h
  | cons x xs ih =>
    have hkept : ∀ z, keyOf z ∈ m.map keyOf → keyOf z ∈ (setIfAbsent keyOf m x).map keyOf := by
      intro z hz
      obtain ⟨w, hw, hkey⟩ := List.mem_map.mp hz
      exact List.mem_map.mpr ⟨w, mem_setIfAbsent.mpr (.inl hw), hkey⟩
    rcases ih h with hset | ⟨hxs, hkey⟩
    · rcases mem_setIfAbsent.mp hset with hy | ⟨rfl, hnew⟩
      · exact .inl hy
      · exact .inr ⟨List.mem_cons_self, hnew⟩
    · exact .inr ⟨List.mem_cons_of_mem _ hxs, fun hold => hkey (hkept y hold)⟩

theorem mem_foldl_setIfAbsent_of_mem (h : y ∈ m) : y ∈ xs.foldl (setIfAbsent keyOf) m := by
  induction xs generalizing m with
  | nil => exact h
  | cons x xs ih => exact ih (mem_setIfAbsent.mpr (.inl h))

theorem mem_foldl_setIfAbsent (hxs : (xs.map keyOf).Nodup) (h : y ∈ xs) (hkey : keyOf y ∉ m.map keyOf) :
    y ∈ xs.foldl (setIfAbsent keyOf) m := by
  induction xs generalizing m with
  | nil => simp at h
  | cons x xs ih =>
    rw [List.map_cons, List.nodup_cons] at hxs
    rw [List.foldl_cons]
    rcases List.mem_cons.mp h with rfl | hrest
    · exact mem_foldl_setIfAbsent_of_mem (mem_setIfAbsent.mpr (.inr ⟨rfl, hkey⟩))
    · refine ih hxs.2 hrest fun hold => ?_
      obtain ⟨z, hz, hsame⟩ := List.mem_map.mp hold
      rcases mem_setIfAbsent.mp hz with hm | ⟨rfl, -⟩
      · exact hkey (hsame ▸ List.mem_map_of_mem hm)
      · exact hxs.1 (hsame ▸ List.mem_map_of_mem hrest)

end InsertionMaps
