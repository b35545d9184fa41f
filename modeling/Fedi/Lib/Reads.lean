import Mathlib.Data.List.Infix

/-!
# Readers of a prefix code

A reader goes over a fixed input from an offset on, and says what it read and where it stopped.
`Reads input outcome offset word value`: if `word` stands at the offset, the outcome is `value` and the end of
`word`; if the input ends inside of `word`, the outcome is an error.

    word, then word' from where it ended → word ++ word'                  (reads_bind)
    a payload whose length is known, refused where the input is too short (reads_payload)
-/

namespace Reader

variable {α β γ ε : Type} {input : List γ}

def Reads (input : List γ) (outcome : Except ε (α × ℕ)) (offset : ℕ) (word : List γ) (value : α) : Prop :=
  (word <+: input.drop offset → outcome = .ok (value, offset + word.length)) ∧
  (input.drop offset <+: word → input.drop offset ≠ word → ∃ e, outcome = .error e)

theorem length_lt_of_cut {word : List γ} {offset : ℕ} (hcut : input.drop offset <+: word)
    (hne : input.drop offset ≠ word) : input.length < offset + word.length := by
  have hle : (input.drop offset).length ≤ word.length := hcut.length_le
  have hlt : (input.drop offset).length ≠ word.length := by
    intro heq
    exact hne (hcut.eq_of_length heq)
  rw [List.length_drop] at hle hlt
  omega

theorem length_le_of_starts {word : List γ} {offset : ℕ} (hword : word <+: input.drop offset) (hne : word ≠ []) :
    offset + word.length ≤ input.length := by
  have hle : word.length ≤ (input.drop offset).length := hword.length_le
  have hpos : 0 < word.length := List.length_pos_iff.mpr hne
  rw [List.length_drop] at hle
  omega

theorem end_le_of_starts {word : List γ} {offset : ℕ} (hword : word <+: input.drop offset)
    (hoffset : offset ≤ input.length) : offset + word.length ≤ input.length := by
  have hle : word.length ≤ (input.drop offset).length := hword.length_le
  rw [List.length_drop] at hle
  omega

/-- Where the input is at its end, nothing but an error is due. -/
theorem reads_end (e : ε) {offset : ℕ} {word : List γ} (value : α) (hend : input.length ≤ offset) (hne : word ≠ []) :
    Reads input (.error e) offset word value := by
  constructor
  · intro hword
    have hpos : 0 < word.length := List.length_pos_iff.mpr hne
    have hle : offset + word.length ≤ input.length := length_le_of_starts hword hne
    omega
  · intro _ _
    exact ⟨e, rfl⟩

theorem reads_nil (offset : ℕ) (value : α) : Reads input (.ok (value, offset) : Except ε (α × ℕ)) offset [] value := by
  constructor
  · intro _
    rfl
  · intro hstarts hne
    exact absurd (List.prefix_nil.mp hstarts) hne

theorem drop_append_of_starts {word : List γ} {offset : ℕ} (hword : word <+: input.drop offset) :
    input.drop offset = word ++ input.drop (offset + word.length) := by
  obtain ⟨tail, htail⟩ := hword
  rw [← List.drop_drop, ← htail, List.drop_left]

theorem reads_bind {outcome : Except ε (α × ℕ)} {next : α × ℕ → Except ε (β × ℕ)} {offset : ℕ} {word word' : List γ}
    {a : α} {b : β} (hread : Reads input outcome offset word a)
    (hnext : word <+: input.drop offset →
      Reads input (next (a, offset + word.length)) (offset + word.length) word' b) :
    Reads input (outcome >>= next) offset (word ++ word') b := by
  have hthen : word <+: input.drop offset → (outcome >>= next) = next (a, offset + word.length) := by
    intro hword
    rw [hread.1 hword]
    rfl
  constructor
  · intro hwords
    have hword : word <+: input.drop offset := (List.prefix_append word word').trans hwords
    have hword' : word' <+: input.drop (offset + word.length) := by
      rw [drop_append_of_starts hword] at hwords
      exact (List.prefix_append_right_inj word).mp hwords
    rw [hthen hword, (hnext hword).1 hword', List.length_append, Nat.add_assoc]
  · intro hcut hne
    by_cases hword : word <+: input.drop offset
    · rw [drop_append_of_starts hword] at hcut hne
      rw [hthen hword]
      apply (hnext hword).2 ((List.prefix_append_right_inj word).mp hcut)
      intro heq
      exact hne (by rw [heq])
    · have hshort : input.drop offset <+: word := by
        apply (List.prefix_or_prefix_of_prefix hcut (List.prefix_append word word')).resolve_right hword
      have hne' : input.drop offset ≠ word := by
        intro heq
        exact hword (by rw [heq])
      obtain ⟨e, he⟩ := hread.2 hshort hne'
      exact ⟨e, by rw [he]; rfl⟩

theorem reads_map {outcome : Except ε (α × ℕ)} {offset : ℕ} {word : List γ} {a : α} (f : α → β)
    (hread : Reads input outcome offset word a) :
    Reads input (outcome >>= fun r => .ok (f r.1, r.2)) offset word (f a) := by
  rw [← List.append_nil word]
  apply reads_bind hread
  intro _
  exact reads_nil _ (f a)

/-- A payload whose length is known before it is read. -/
theorem reads_payload (e : ε) (f : List γ → β) {offset : ℕ} {word : List γ} (hoffset : offset ≤ input.length) :
    Reads input
      (if input.length < offset + word.length then .error e
        else .ok (f ((input.drop offset).take word.length), offset + word.length)) offset word (f word) := by
  constructor
  · intro hword
    have htake : (input.drop offset).take word.length = word := List.prefix_iff_eq_take.mp hword |>.symm
    have hle : word.length ≤ (input.drop offset).length := hword.length_le
    rw [List.length_drop] at hle
    rw [if_neg (by omega), htake]
  · intro hcut hne
    exact ⟨e, if_pos (length_lt_of_cut hcut hne)⟩

end Reader
