import Mathlib

/-!
# Idempotency keys

A receiver that takes each idempotency key once: of the messages `log` sent to it, in order, it
takes those whose key is new.  A sender has an item taken once exactly when it sends
the item with one key only:

    (taken key log).countP p ≤ 1 ↔
      ∀ a ∈ log, ∀ b ∈ log, p a → p b → key a = key b           (countP_taken_le_one_iff)
-/

namespace Idempotency

variable {α κ : Type} [DecidableEq κ] (key : α → κ)

/-- The messages a receiver takes. -/
def taken : List α → List α
  | [] => []
  | a :: log => a :: (taken log).filter fun b => decide (key b ≠ key a)

theorem taken_sublist (log : List α) : (taken key log).Sublist log := by
  induction log with
  | nil => exact List.Sublist.refl []
  | cons a log ih => exact (List.filter_sublist.trans ih).cons_cons a

theorem taken_pairwise (log : List α) : (taken key log).Pairwise fun a b => key b ≠ key a := by
  induction log with
  | nil => exact List.Pairwise.nil
  | cons a log ih =>
    refine List.pairwise_cons.mpr ⟨?_, ih.sublist List.filter_sublist⟩
    intro b hb
    exact of_decide_eq_true (List.mem_filter.mp hb).2

/-- Every key that was sent is taken. -/
theorem exists_taken {log : List α} {a : α} (h : a ∈ log) : ∃ b ∈ taken key log, key b = key a := by
  induction log with
  | nil => cases h
  | cons c log ih =>
    by_cases hkey : key a = key c
    · exact ⟨c, List.mem_cons_self, hkey.symm⟩
    · rcases List.mem_cons.mp h with rfl | h
      · exact absurd rfl hkey
      · obtain ⟨b, hb, hba⟩ := ih h
        refine ⟨b, List.mem_cons_of_mem _ (List.mem_filter.mpr ⟨hb, ?_⟩), hba⟩
        rw [hba]
        exact decide_eq_true hkey

variable {key}

/-- Messages that share one key are taken once. -/
theorem countP_taken_le_one {log : List α} {p : α → Bool}
    (h : ∀ a ∈ log, ∀ b ∈ log, p a = true → p b = true → key a = key b) :
    (taken key log).countP p ≤ 1 := by
  rw [List.countP_eq_length_filter]
  have hpairs : ((taken key log).filter p).Pairwise fun a b => key b ≠ key a :=
    (taken_pairwise key log).sublist List.filter_sublist
  have hsame : ∀ a ∈ (taken key log).filter p, ∀ b ∈ (taken key log).filter p, key a = key b := by
    intro a ha b hb
    obtain ⟨ha, hpa⟩ := List.mem_filter.mp ha
    obtain ⟨hb, hpb⟩ := List.mem_filter.mp hb
    exact h a ((taken_sublist key log).subset ha) b ((taken_sublist key log).subset hb) hpa hpb
  match hl : (taken key log).filter p with
  | [] => simp
  | [a] => simp
  | a :: b :: rest =>
    rw [hl] at hpairs hsame
    have hne := (List.pairwise_cons.mp hpairs).1 b List.mem_cons_self
    exact absurd (hsame b (by simp) a (by simp)) hne

theorem eq_of_countP_le_one {l : List α} {p : α → Bool} (h : l.countP p ≤ 1) {a b : α} (ha : a ∈ l) (hb : b ∈ l)
    (hpa : p a = true) (hpb : p b = true) : a = b := by
  rw [List.countP_eq_length_filter] at h
  have ha' := List.mem_filter.mpr ⟨ha, hpa⟩
  have hb' := List.mem_filter.mpr ⟨hb, hpb⟩
  match hl : l.filter p with
  | [] =>
    rw [hl] at ha'
    cases ha'
  | [c] =>
    rw [hl] at ha' hb'
    rw [List.mem_singleton.mp ha', List.mem_singleton.mp hb']
  | c :: d :: rest =>
    rw [hl] at h
    simp at h

/-- An item is taken at most once exactly when its messages share one key, provided that no message
of another item has that key. -/
theorem countP_taken_le_one_iff {log : List α} {p : α → Bool}
    (hown : ∀ a ∈ log, ∀ c ∈ log, p a = true → key c = key a → p c = true) :
    (taken key log).countP p ≤ 1 ↔ ∀ a ∈ log, ∀ b ∈ log, p a = true → p b = true → key a = key b := by
  constructor
  · intro h a ha b hb hpa hpb
    obtain ⟨c, hc, hca⟩ := exists_taken key ha
    obtain ⟨d, hd, hdb⟩ := exists_taken key hb
    have hpc := hown a ha c ((taken_sublist key log).subset hc) hpa hca
    have hpd := hown b hb d ((taken_sublist key log).subset hd) hpb hdb
    rw [← hca, ← hdb, eq_of_countP_le_one h hc hd hpc hpd]
  · exact countP_taken_le_one

end Idempotency
