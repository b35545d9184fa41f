import Mathlib.Data.Finset.Card
import Mathlib.Data.Finset.Dedup
import Mathlib.Order.Defs.LinearOrder

/-!
# Rotation over changing sets

Every call picks from its own list the least element above the last pick, or the least of all if none is above.
An element that is in every list cannot be passed: until it is picked the others come in one order, those above it
before those below it.

    picks without g: no repetition          (Rotates.nodup)
    as many picks as there are elements: g  (Rotates.mem_of_card_le)
-/

namespace Rotation

variable {α : Type} [LinearOrder α] {g last pick : α} {prev : Option α} {there : List α}

/-- The pick that follows `prev` in the cyclic order of what is there. -/
structure Follows (prev : Option α) (there : List α) (pick : α) : Prop where
  mem : pick ∈ there
  least : (∃ last, prev = some last ∧ last < pick ∧ ∀ a ∈ there, last < a → pick ≤ a) ∨
    ((∀ last, prev = some last → ∀ a ∈ there, a ≤ last) ∧ ∀ a ∈ there, pick ≤ a)

/-- One pick after another. -/
inductive Rotates : Option α → List (List α) → List α → Prop
  | nil (prev : Option α) : Rotates prev [] []
  | cons (prev : Option α) (there : List α) (pick : α) (rest : List (List α)) (picks : List α) :
    Follows prev there pick → Rotates (some pick) rest picks → Rotates prev (there :: rest) (pick :: picks)

/-- On a lap that starts at `g`, `b` comes after `a`. -/
def Ahead (g a b : α) : Prop := (g < a ∧ (a < b ∨ b < g)) ∨ (a < g ∧ a < b ∧ b < g)

theorem not_ahead_self (g a : α) : ¬ Ahead g a a := by
  intro h
  rcases h with ⟨habove, hlt | hbelow⟩ | ⟨_, hlt, _⟩
  · exact lt_irrefl a hlt
  · exact lt_asymm habove hbelow
  · exact lt_irrefl a hlt

theorem Ahead.trans {a b c : α} (h : Ahead g a b) (h' : Ahead g b c) : Ahead g a c := by
  rcases h with ⟨ha, hab | hb⟩ | ⟨ha, hab, hb⟩
  · rcases h' with ⟨_, hbc | hc⟩ | ⟨hb, _, _⟩
    · exact .inl ⟨ha, .inl (hab.trans hbc)⟩
    · exact .inl ⟨ha, .inr hc⟩
    · exact absurd (ha.trans hab) (lt_asymm hb)
  · rcases h' with ⟨hb', _⟩ | ⟨_, _, hc⟩
    · exact absurd hb (lt_asymm hb')
    · exact .inl ⟨ha, .inr hc⟩
  · rcases h' with ⟨hb', _⟩ | ⟨_, hbc, hc⟩
    · exact absurd hb (lt_asymm hb')
    · exact .inr ⟨ha, hab.trans hbc, hc⟩

/-- With `g` there, the next pick is ahead, or it is `g`. -/
theorem Follows.ahead (h : Follows (some last) there pick) (hg : g ∈ there) (hlast : last ≠ g) (hpick : pick ≠ g) :
    Ahead g last pick := by
  rcases h.least with ⟨last', hprev, hlt, hleast⟩ | ⟨htop, hleast⟩
  · rw [← Option.some.inj hprev] at hlt hleast
    rcases lt_or_gt_of_ne hlast with hbelow | habove
    · exact .inr ⟨hbelow, hlt, lt_of_le_of_ne (hleast g hg hbelow) hpick⟩
    · exact .inl ⟨habove, .inl hlt⟩
  · have habove : g < last := lt_of_le_of_ne (htop last rfl g hg) hlast.symm
    exact .inl ⟨habove, .inr (lt_of_le_of_ne (hleast g hg) hpick)⟩

theorem Rotates.mem {lists : List (List α)} {picks : List α} (h : Rotates prev lists picks) :
    ∀ a ∈ picks, ∃ there ∈ lists, a ∈ there := by
  induction h with
  | nil => simp
  | cons prev there pick rest picks hfollows _ ih =>
    intro a ha
    rcases List.mem_cons.mp ha with rfl | ha
    · exact ⟨there, List.mem_cons_self, hfollows.mem⟩
    · obtain ⟨there', hthere, hmem⟩ := ih a ha
      exact ⟨there', List.mem_cons_of_mem there hthere, hmem⟩

/-- The start of a rotation is a rotation. -/
theorem Rotates.left {lists : List (List α)} {picks : List α} (h : Rotates prev lists picks) :
    ∀ window after, picks = window ++ after →
    ∃ lists', Rotates prev lists' window ∧ ∀ there ∈ lists', there ∈ lists := by
  induction h with
  | nil prev =>
    intro window after hpicks
    rw [(List.append_eq_nil_iff.mp hpicks.symm).1]
    exact ⟨[], .nil prev, by simp⟩
  | cons prev there pick rest picks hfollows _ ih =>
    intro window after hpicks
    cases window with
    | nil => exact ⟨[], .nil prev, by simp⟩
    | cons w window =>
      rw [List.cons_append, List.cons.injEq] at hpicks
      obtain ⟨rfl, hpicks⟩ := hpicks
      obtain ⟨lists', hrotates, hsub⟩ := ih window after hpicks
      refine ⟨there :: lists', .cons prev there pick lists' window hfollows hrotates, ?_⟩
      intro there' hthere
      rcases List.mem_cons.mp hthere with rfl | hthere
      · exact List.mem_cons_self
      · exact List.mem_cons_of_mem there (hsub there' hthere)

/-- The end of a rotation is a rotation. -/
theorem Rotates.right {lists : List (List α)} {picks : List α} (h : Rotates prev lists picks) :
    ∀ before window, picks = before ++ window →
    ∃ prev' lists', Rotates prev' lists' window ∧ ∀ there ∈ lists', there ∈ lists := by
  induction h with
  | nil prev =>
    intro before window hpicks
    rw [(List.append_eq_nil_iff.mp hpicks.symm).2]
    exact ⟨prev, [], .nil prev, by simp⟩
  | cons prev there pick rest picks hfollows hrest ih =>
    intro before window hpicks
    cases before with
    | nil =>
      rw [List.nil_append] at hpicks
      rw [← hpicks]
      exact ⟨prev, there :: rest, .cons prev there pick rest picks hfollows hrest, by simp⟩
    | cons b before =>
      rw [List.cons_append, List.cons.injEq] at hpicks
      obtain ⟨prev', lists', hwindow, hsub⟩ := ih before window hpicks.2
      exact ⟨prev', lists', hwindow, fun there' h' => List.mem_cons_of_mem there (hsub there' h')⟩

theorem Rotates.window {lists : List (List α)} {before window after : List α}
    (h : Rotates prev lists (before ++ (window ++ after))) :
    ∃ prev' lists', Rotates prev' lists' window ∧ ∀ there ∈ lists', there ∈ lists := by
  obtain ⟨prev', rest, hrest, hsub⟩ := h.right before (window ++ after) rfl
  obtain ⟨lists', hwindow, hsub'⟩ := hrest.left window after rfl
  exact ⟨prev', lists', hwindow, fun there hthere => hsub there (hsub' there hthere)⟩

/-- Until `g` is picked, the picks are one lap. -/
theorem Rotates.pairwise {lists : List (List α)} {picks : List α} (h : Rotates prev lists picks)
    (hg : ∀ there ∈ lists, g ∈ there) (hpicks : g ∉ picks) :
    picks.Pairwise (Ahead g) ∧ ∀ last, prev = some last → last ≠ g → ∀ a ∈ picks, Ahead g last a := by
  induction h with
  | nil => simp
  | cons prev there pick rest picks hfollows _ ih =>
    rw [List.mem_cons, not_or] at hpicks
    have hpick : pick ≠ g := fun heq => hpicks.1 heq.symm
    obtain ⟨hlap, hnext⟩ := ih (fun there' h' => hg there' (List.mem_cons_of_mem there h')) hpicks.2
    have hahead : ∀ a ∈ picks, Ahead g pick a := hnext pick rfl hpick
    refine ⟨List.pairwise_cons.mpr ⟨hahead, hlap⟩, ?_⟩
    rintro last rfl hlast a ha
    have hfirst : Ahead g last pick := hfollows.ahead (hg there List.mem_cons_self) hlast hpick
    rcases List.mem_cons.mp ha with rfl | ha
    · exact hfirst
    · exact hfirst.trans (hahead a ha)

theorem Rotates.nodup {lists : List (List α)} {picks : List α} (h : Rotates prev lists picks)
    (hg : ∀ there ∈ lists, g ∈ there) (hpicks : g ∉ picks) : picks.Nodup := by
  apply (h.pairwise hg hpicks).1.imp
  intro a b hahead heq
  rw [heq] at hahead
  exact not_ahead_self g b hahead

theorem Rotates.mem_of_card_le {lists : List (List α)} {picks : List α} {ever : Finset α} (h : Rotates prev lists picks)
    (hever : ∀ there ∈ lists, ∀ a ∈ there, a ∈ ever) (hg : ∀ there ∈ lists, g ∈ there) (hgEver : g ∈ ever)
    (hcard : ever.card ≤ picks.length) : g ∈ picks := by
  by_contra hpicks
  have hsub : picks.toFinset ⊆ ever.erase g := by
    intro a ha
    rw [List.mem_toFinset] at ha
    obtain ⟨there, hthere, hmem⟩ := h.mem a ha
    have hne : a ≠ g := by
      intro heq
      rw [heq] at ha
      exact hpicks ha
    exact Finset.mem_erase.mpr ⟨hne, hever there hthere a hmem⟩
  have hlength : picks.toFinset.card = picks.length := List.toFinset_card_of_nodup (h.nodup hg hpicks)
  have hle := Finset.card_le_card hsub
  have hlt := Finset.card_erase_lt_of_mem hgEver
  omega

end Rotation
