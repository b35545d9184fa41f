import Mathlib

/-!
# Lists of entities with an id

The slice keeps its federations and communities in lists.  An item is put into a list by its
id: `merge old item` replaces an old item with that id, else the item goes to the end.

    upsertListItem [a, b] b' = [a, merge b b']        upsertListItem [a, b] c = [a, b, c]
-/

namespace FederationSlice

variable {T : Type} {idOf : T → String}

def ids (idOf : T → String) (list : List T) : List String := list.map idOf

/-- The items whose ids are not in the list. -/
def newItems (idOf : T → String) (list items : List T) : List T :=
  items.filter fun item => decide (idOf item ∉ ids idOf list)

theorem eq_of_nodup {list : List T} (hnodup : (ids idOf list).Nodup) {x y : T} (hx : x ∈ list) (hy : y ∈ list)
    (hid : idOf x = idOf y) : x = y :=
  List.inj_on_of_nodup_map hnodup hx hy hid

theorem nodup_newItems {list list' items : List T} (hlist : (ids idOf list').Sublist (ids idOf list))
    (hnodup : (ids idOf list).Nodup) (hitems : (ids idOf items).Nodup) :
    (ids idOf (list' ++ newItems idOf list items)).Nodup := by
  unfold ids at *
  rw [List.map_append, List.nodup_append]
  refine ⟨hnodup.sublist hlist, hitems.sublist (List.filter_sublist.map idOf), ?_⟩
  rintro id hid _ hnew rfl
  obtain ⟨item, hitem, rfl⟩ := List.mem_map.mp hnew
  unfold newItems at hitem
  rw [List.mem_filter, decide_eq_true_eq] at hitem
  exact hitem.2 (hlist.subset hid)

theorem nodup_ids_filter {list : List T} (p : T → Bool) (hnodup : (ids idOf list).Nodup) :
    (ids idOf (list.filter p)).Nodup := hnodup.sublist (List.filter_sublist.map idOf)

section

variable [DecidableEq T] {merge : T → T → T}

/-- An item that changes nothing leaves the list as it is. -/
def upsertListItem (idOf : T → String) (merge : T → T → T) (list : List T) (item : T) : List T :=
  let newList := list.map fun oldItem => if idOf oldItem = idOf item then merge oldItem item else oldItem
  match (list.filter fun oldItem => decide (idOf oldItem = idOf item)).getLast? with
  | none => newList ++ [item]
  | some oldItem => if merge oldItem item = oldItem then list else newList

/-- What an upsert leaves in the list. -/
theorem of_mem_upsertListItem {list : List T} {item x : T} (hnodup : (ids idOf list).Nodup)
    (h : x ∈ upsertListItem idOf merge list item) :
    (x ∈ list ∧ idOf x ≠ idOf item) ∨ x = item ∨ ∃ old ∈ list, idOf old = idOf item ∧ x = merge old item := by
  have hmapped : x ∈ list.map (fun oldItem => if idOf oldItem = idOf item then merge oldItem item else oldItem) →
      (x ∈ list ∧ idOf x ≠ idOf item) ∨ ∃ old ∈ list, idOf old = idOf item ∧ x = merge old item := by
    intro hx
    obtain ⟨old, hold, rfl⟩ := List.mem_map.mp hx
    by_cases hid : idOf old = idOf item
    · exact .inr ⟨old, hold, hid, by rw [if_pos hid]⟩
    · exact .inl (by simp [hid, hold])
  unfold upsertListItem at h
  dsimp only at h
  split at h
  · rcases List.mem_append.mp h with hx | hx
    · exact (hmapped hx).imp_right .inr
    · exact .inr (.inl (List.mem_singleton.mp hx))
  next oldItem hlast =>
    split at h
    next hsame =>
      have hold := List.mem_of_getLast? hlast
      rw [List.mem_filter, decide_eq_true_eq] at hold
      by_cases hid : idOf x = idOf item
      · have heq := eq_of_nodup hnodup h hold.1 (hid.trans hold.2.symm)
        exact .inr (.inr ⟨oldItem, hold.1, hold.2, heq.trans hsame.symm⟩)
      · exact .inl ⟨h, hid⟩
    · exact (hmapped h).imp_right .inr

/-- An upsert adds the id of its item, if it is new. -/
theorem ids_upsertListItem (hmerge : ∀ old item : T, idOf (merge old item) = idOf item) (list : List T) (item : T) :
    ids idOf (upsertListItem idOf merge list item) =
      if idOf item ∈ ids idOf list then ids idOf list else ids idOf list ++ [idOf item] := by
  have hmapped : ids idOf
      (list.map fun oldItem => if idOf oldItem = idOf item then merge oldItem item else oldItem) = ids idOf list := by
    unfold ids
    rw [List.map_map]
    refine List.map_congr_left fun old _ => ?_
    by_cases hid : idOf old = idOf item
    · simp [hid, hmerge]
    · simp [hid]
  unfold upsertListItem
  dsimp only
  split
  next hnone =>
    have hnew : idOf item ∉ ids idOf list := by
      intro hmem
      obtain ⟨old, hold, hid⟩ := List.mem_map.mp hmem
      rw [List.getLast?_eq_none_iff, List.filter_eq_nil_iff] at hnone
      exact hnone old hold (by simpa using hid)
    rw [if_neg hnew]
    unfold ids at hmapped ⊢
    rw [List.map_append, hmapped, List.map_singleton]
  next oldItem hlast =>
    have hold := List.mem_of_getLast? hlast
    rw [List.mem_filter, decide_eq_true_eq] at hold
    have hin : idOf item ∈ ids idOf list := List.mem_map.mpr ⟨oldItem, hold.1, hold.2⟩
    rw [if_pos hin]
    split
    · rfl
    · exact hmapped

theorem mem_ids_upsertListItem (hmerge : ∀ old item : T, idOf (merge old item) = idOf item) {list : List T} {item : T}
    {id : String} : id ∈ ids idOf (upsertListItem idOf merge list item) ↔ id ∈ ids idOf list ∨ id = idOf item := by
  rw [ids_upsertListItem hmerge]
  split
  next hold =>
    constructor
    · exact .inl
    · rintro (h | rfl)
      · exact h
      · exact hold
  · simp

theorem nodup_upsertListItem (hmerge : ∀ old item : T, idOf (merge old item) = idOf item) {list : List T} {item : T}
    (hnodup : (ids idOf list).Nodup) : (ids idOf (upsertListItem idOf merge list item)).Nodup := by
  rw [ids_upsertListItem hmerge]
  split
  · exact hnodup
  next hnew =>
    rw [List.nodup_append]
    refine ⟨hnodup, List.nodup_singleton _, ?_⟩
    rintro id hid _ hitem rfl
    exact hnew (List.mem_singleton.mp hitem ▸ hid)

end

end FederationSlice
