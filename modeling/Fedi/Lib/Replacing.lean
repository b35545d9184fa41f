import Mathlib.Data.List.Infix

/-!
# Replacing and splitting at matches

A pattern is what it matches at the head of a list.  Replacing and splitting go from left to right and leave out what a
match covers.  An alphabet some of whose letters are written as words is written and read by replacing one letter at a
time; that works as long as no word begins inside another one.

    replaceAll p r s = s              if p does not occur in s, and is shorter if it does  (length_replaceAll)
    replaceAll (w c) [c] (coded (c :: keys) s) = coded keys s                              (replaceAll_coded)
-/

namespace Replacing

/-! ## Replacing -/

section
variable {α : Type}

/-- `matchAt` is the length of the match at the head, `skip` what is left of the last one. -/
def replaceFrom (matchAt : List α → Option ℕ) (r : List α) : ℕ → List α → List α
  | _, [] => []
  | skip + 1, _ :: rest => replaceFrom matchAt r skip rest
  | 0, c :: rest =>
    match matchAt (c :: rest) with
    | some n => r ++ replaceFrom matchAt r (n - 1) rest
    | none => c :: replaceFrom matchAt r 0 rest

def replaceMatches (matchAt : List α → Option ℕ) (r s : List α) : List α := replaceFrom matchAt r 0 s

/-- The pieces between the matches. -/
def splitFrom (matchAt : List α → Option ℕ) : ℕ → List α → List (List α)
  | _, [] => [[]]
  | skip + 1, _ :: rest => splitFrom matchAt skip rest
  | 0, c :: rest =>
    match matchAt (c :: rest) with
    | some n => [] :: splitFrom matchAt (n - 1) rest
    | none => (splitFrom matchAt 0 rest).modifyHead (c :: ·)

def splitMatches (matchAt : List α → Option ℕ) (s : List α) : List (List α) := splitFrom matchAt 0 s

variable {matchAt : List α → Option ℕ} {r s t : List α} {c : α} {n : ℕ}

theorem replaceFrom_eq_drop : ∀ (skip : ℕ) (s : List α),
    replaceFrom matchAt r skip s = replaceMatches matchAt r (s.drop skip)
  | 0, _ => rfl
  | skip + 1, [] => rfl
  | skip + 1, _ :: rest => by
    rw [replaceFrom, replaceFrom_eq_drop skip rest, List.drop_succ_cons]

theorem replaceMatches_nil : replaceMatches matchAt r [] = [] := rfl

theorem replaceMatches_cons_none (h : matchAt (c :: s) = none) :
    replaceMatches matchAt r (c :: s) = c :: replaceMatches matchAt r s := by
  unfold replaceMatches
  rw [replaceFrom, h]

theorem replaceMatches_cons_some (h : matchAt (c :: s) = some n) :
    replaceMatches matchAt r (c :: s) = r ++ replaceMatches matchAt r (s.drop (n - 1)) := by
  unfold replaceMatches
  rw [replaceFrom, h]
  dsimp only
  rw [replaceFrom_eq_drop]
  rfl

/-- Where nothing matches nothing is replaced. -/
theorem replaceMatches_eq_self (h : ∀ v, v <:+ s → v ≠ [] → matchAt v = none) : replaceMatches matchAt r s = s := by
  induction s with
  | nil => rfl
  | cons c s ih =>
    rw [replaceMatches_cons_none (h (c :: s) List.suffix_rfl (List.cons_ne_nil c s)), ih]
    intro v hv hne
    exact h v (hv.trans (List.suffix_cons c s)) hne

/-- Where nothing matches nothing is split. -/
theorem splitMatches_eq_self (h : ∀ v, v <:+ s → v ≠ [] → matchAt v = none) : splitMatches matchAt s = [s] := by
  unfold splitMatches
  induction s with
  | nil => rfl
  | cons c s ih =>
    rw [splitFrom, h (c :: s) List.suffix_rfl (List.cons_ne_nil c s)]
    dsimp only
    rw [ih]
    · rfl
    · intro v hv hne
      exact h v (hv.trans (List.suffix_cons c s)) hne

/-- What stands in the result stood in the list or in the replacement. -/
theorem mem_replaceMatches {x : α} (h : x ∈ replaceMatches matchAt r s) : x ∈ s ∨ x ∈ r := by
  induction hn : s.length using Nat.strong_induction_on generalizing s with
  | _ k ih =>
    cases s with
    | nil => exact absurd h (List.not_mem_nil)
    | cons c s =>
      rw [List.length_cons] at hn
      cases hmatch : matchAt (c :: s) with
      | none =>
        rw [replaceMatches_cons_none hmatch] at h
        rcases List.mem_cons.mp h with rfl | hrest
        · exact .inl List.mem_cons_self
        · exact (ih s.length (by omega) hrest rfl).imp (List.mem_cons_of_mem c) id
      | some n =>
        rw [replaceMatches_cons_some hmatch] at h
        rcases List.mem_append.mp h with hr | hrest
        · exact .inr hr
        · have hlen : (s.drop (n - 1)).length < k := by
            rw [List.length_drop]
            omega
          exact (ih _ hlen hrest rfl).imp (fun hmem => List.mem_cons_of_mem c (List.mem_of_mem_drop hmem)) id

/-- No occurrence of `p` begins in `w`, whatever comes after it. -/
def Clashes (p w : List α) : Prop := ∀ v ∈ w.tails, v ≠ [] → ¬ p <+: v ∧ ¬ v <+: p

theorem clashes_singleton {h : α} {w : List α} (hc : c ≠ h) : Clashes (h :: w) [c] := by
  intro v hv hne
  rw [List.mem_tails] at hv
  have hv1 : v = [c] := by
    rcases List.suffix_cons_iff.mp hv with heq | hnil
    · exact heq
    · exact absurd (List.suffix_nil.mp hnil) hne
  subst hv1
  constructor
  · intro hbegins
    exact hc (List.cons_prefix_cons.mp hbegins).1.symm
  · intro hbegins
    exact hc (List.cons_prefix_cons.mp hbegins).1

end

/-! ## A word as a pattern -/

section
variable {α : Type} [DecidableEq α]

instance (p w : List α) : Decidable (Clashes p w) := inferInstanceAs (Decidable (∀ v ∈ w.tails, _))

def literal (p s : List α) : Option ℕ := if p <+: s then some p.length else none

def replaceAll (p r s : List α) : List α := replaceMatches (literal p) r s

variable {p r s t w : List α} {c h : α}

theorem replaceAll_nil : replaceAll p r [] = [] := rfl

theorem replaceAll_cons_of_not_head (hnot : ¬ p <+: c :: s) : replaceAll p r (c :: s) = c :: replaceAll p r s :=
  replaceMatches_cons_none (if_neg hnot)

/-- An occurrence at the head is replaced. -/
theorem replaceAll_append_self (hp : p ≠ []) (r t : List α) : replaceAll p r (p ++ t) = r ++ replaceAll p r t := by
  obtain ⟨c, w, rfl⟩ := List.exists_cons_of_ne_nil hp
  have hmatch : literal (c :: w) (c :: (w ++ t)) = some (w.length + 1) := if_pos (List.prefix_append (c :: w) t)
  show replaceMatches _ r (c :: (w ++ t)) = _
  rw [replaceMatches_cons_some hmatch, Nat.add_sub_cancel, List.drop_left]
  rfl

/-- What clashes stays. -/
theorem replaceAll_append_of_clashes (hclash : Clashes p w) (r t : List α) :
    replaceAll p r (w ++ t) = w ++ replaceAll p r t := by
  induction w with
  | nil => rfl
  | cons c w ih =>
    have hrest : Clashes p w := by
      intro v hv hne
      exact hclash v ((List.mem_tails _ _).mpr (((List.mem_tails _ _).mp hv).trans (List.suffix_cons c w))) hne
    obtain ⟨hleft, hright⟩ := hclash (c :: w) ((List.mem_tails _ _).mpr List.suffix_rfl) (List.cons_ne_nil c w)
    have hnot : ¬ p <+: c :: (w ++ t) := by
      intro hbegins
      rcases List.prefix_or_prefix_of_prefix hbegins (List.prefix_append (c :: w) t) with h | h
      · exact hleft h
      · exact hright h
    rw [List.cons_append, replaceAll_cons_of_not_head hnot, ih hrest]
    rfl

/-- A letter is replaced wherever it stands. -/
theorem replaceAll_singleton (c : α) (r s : List α) :
    replaceAll [c] r s = s.flatMap fun x => if x = c then r else [x] := by
  induction s with
  | nil => rfl
  | cons x s ih =>
    rw [List.flatMap_cons, ← ih]
    by_cases hx : x = c
    · subst hx
      rw [if_pos rfl]
      exact replaceAll_append_self (List.cons_ne_nil x []) r s
    · rw [if_neg hx]
      exact replaceAll_append_of_clashes (w := [x]) (clashes_singleton hx) r s

theorem replaceAll_eq_self (h : ¬ p <:+: s) : replaceAll p r s = s := by
  apply replaceMatches_eq_self
  intro v hv _
  refine if_neg ?_
  intro hbegins
  exact h (hbegins.isInfix.trans hv.isInfix)

/-- Replacing by something shorter makes a list shorter exactly if there is an occurrence. -/
theorem length_replaceAll (hr : r.length < p.length) (s : List α) :
    (replaceAll p r s).length ≤ s.length ∧ (p <:+: s → (replaceAll p r s).length < s.length) := by
  have hp : p ≠ [] := by
    rintro rfl
    exact absurd hr (Nat.not_lt_zero _)
  induction hn : s.length using Nat.strong_induction_on generalizing s with
  | _ k ih =>
    by_cases hbegins : p <+: s
    · obtain ⟨t, rfl⟩ := hbegins
      rw [List.length_append] at hn
      have hpos : 0 < p.length := List.length_pos_iff.mpr hp
      obtain ⟨hle, -⟩ := ih t.length (by omega) t rfl
      rw [replaceAll_append_self hp, List.length_append]
      constructor
      · omega
      · intro _
        omega
    · cases s with
      | nil =>
        refine ⟨?_, ?_⟩
        · rw [← hn]
          exact le_refl _
        · intro hinfix
          exact absurd (List.infix_nil.mp hinfix) hp
      | cons c s =>
        rw [List.length_cons] at hn
        obtain ⟨hle, hlt⟩ := ih s.length (by omega) s rfl
        rw [replaceAll_cons_of_not_head hbegins, List.length_cons]
        constructor
        · omega
        · intro hinfix
          have hinfix' := (List.infix_cons_iff.mp hinfix).resolve_left hbegins
          have := hlt hinfix'
          omega

/-! ## Letters that are written as words -/

/-- The letters of `keys` are written as words, the others as they are. -/
def coded (word : α → List α) (keys : List α) (s : List α) : List α :=
  s.flatMap fun x => if x ∈ keys then word x else [x]

variable {word : α → List α} {keys keys' : List α}

theorem coded_nil : coded word keys [] = [] := rfl

theorem coded_cons (x : α) (s : List α) :
    coded word keys (x :: s) = (if x ∈ keys then word x else [x]) ++ coded word keys s := rfl

theorem coded_append (s t : List α) : coded word keys (s ++ t) = coded word keys s ++ coded word keys t :=
  List.flatMap_append

theorem coded_no_keys (s : List α) : coded word [] s = s := by
  induction s with
  | nil => rfl
  | cons x s ih =>
    rw [coded_cons, ih, if_neg List.not_mem_nil]
    rfl

theorem coded_eq_self (h : ∀ x ∈ s, x ∉ keys) : coded word keys s = s := by
  induction s with
  | nil => rfl
  | cons x s ih =>
    rw [List.forall_mem_cons] at h
    rw [coded_cons, ih h.2, if_neg h.1]
    rfl

theorem coded_perm (h : keys.Perm keys') (s : List α) : coded word keys s = coded word keys' s := by
  unfold coded
  congr 1
  funext x
  simp only [h.mem_iff]

/-- What stands in the written text stands in the text or in a word. -/
theorem mem_coded {x : α} (h : x ∈ coded word keys s) : (x ∈ s ∧ x ∉ keys) ∨ ∃ k ∈ keys, x ∈ word k := by
  obtain ⟨y, hy, hx⟩ := List.mem_flatMap.mp h
  by_cases hkey : y ∈ keys
  · rw [if_pos hkey] at hx
    exact .inr ⟨y, hkey, hx⟩
  · rw [if_neg hkey, List.mem_singleton] at hx
    subst hx
    exact .inl ⟨hy, hkey⟩

/-- One more letter is written as its word. -/
theorem replaceAll_letter (word : α → List α) (c : α) (keys : List α) (hc : c ∉ keys) (hwords : ∀ k ∈ keys, c ∉ word k)
    (s : List α) :
    replaceAll [c] (word c) (coded word keys s) = coded word (c :: keys) s := by
  rw [replaceAll_singleton]
  unfold coded
  rw [List.flatMap_assoc]
  congr 1
  funext x
  by_cases hkey : x ∈ keys
  · rw [if_pos hkey, if_pos (List.mem_cons_of_mem c hkey)]
    have hsame : ∀ y ∈ word x, (if y = c then word c else [y]) = [y] := by
      intro y hy
      refine if_neg ?_
      rintro rfl
      exact hwords x hkey hy
    rw [List.flatMap_congr hsame]
    exact List.flatMap_singleton' (word x)
  · rw [if_neg hkey, List.flatMap_singleton]
    by_cases hx : x = c
    · subst hx
      rw [if_pos rfl, if_pos List.mem_cons_self]
    · rw [if_neg hx, if_neg]
      rw [List.mem_cons, not_or]
      exact ⟨hx, hkey⟩

/-- A word that begins in no other word is read back as its letter. -/
theorem replaceAll_coded (word : α → List α) (c : α) (keys : List α) (hword : word c = h :: w) (hhead : h ∈ c :: keys)
    (hc : c ∉ keys) (hclash : ∀ k ∈ keys, Clashes (word c) (word k)) (s : List α) :
    replaceAll (word c) [c] (coded word (c :: keys) s) = coded word keys s := by
  have hne : word c ≠ [] := by
    rw [hword]
    exact List.cons_ne_nil h w
  induction s with
  | nil => rfl
  | cons x s ih =>
    rw [coded_cons, coded_cons]
    by_cases hx : x = c
    · subst hx
      rw [if_pos List.mem_cons_self, if_neg hc, replaceAll_append_self hne, ih]
    · by_cases hkey : x ∈ keys
      · rw [if_pos (List.mem_cons_of_mem c hkey), if_pos hkey, replaceAll_append_of_clashes (hclash x hkey), ih]
      · have hnot : x ∉ c :: keys := by
          rw [List.mem_cons, not_or]
          exact ⟨hx, hkey⟩
        have hclash' : Clashes (word c) [x] := by
          rw [hword]
          apply clashes_singleton
          rintro rfl
          exact hnot hhead
        rw [if_neg hnot, if_neg hkey, replaceAll_append_of_clashes hclash', ih]

/-- A pattern that clashes with every word, and begins with a letter that is written as one, does not occur. -/
theorem replaceAll_coded_eq_self (word : α → List α) (keys : List α) (hhead : h ∈ keys) (hclash : ∀ k ∈ keys, Clashes (h :: w) (word k)) (r s : List α) :
    replaceAll (h :: w) r (coded word keys s) = coded word keys s := by
  induction s with
  | nil => rfl
  | cons x s ih =>
    rw [coded_cons]
    by_cases hkey : x ∈ keys
    · rw [if_pos hkey, replaceAll_append_of_clashes (hclash x hkey), ih]
    · have hclash' : Clashes (h :: w) [x] := by
        apply clashes_singleton
        rintro rfl
        exact hkey hhead
      rw [if_neg hkey, replaceAll_append_of_clashes hclash', ih]

end

end Replacing
