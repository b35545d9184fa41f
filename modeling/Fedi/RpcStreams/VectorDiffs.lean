import Mathlib.Data.List.InsertIdx

/-!
# Vector diffs (`runtime/src/ts.rs`, `ui/common/utils/stream.ts`)

The bridge describes what happens to a vector as diffs; the front end maps their values and applies them to a list by
cutting it into slices.

    mapping and applying commute                                    (applyStreamUpdates_map)
    applying a diff that is in range is what happens to the vector  (applyStreamUpdates_of_run)
-/

namespace RpcStreams

/-- `TsVectorDiff`. -/
inductive VectorDiff (α : Type) where
  | append (values : List α)
  | clear
  | pushFront (value : α)
  | pushBack (value : α)
  | popFront
  | popBack
  | insert (index : ℕ) (value : α)
  | set (index : ℕ) (value : α)
  | remove (index : ℕ)
  | truncate (length : ℕ)
  | reset (values : List α)
deriving DecidableEq

section

variable {α β : Type}

/-! ## The vector -/

/-- What a diff says has happened to the vector, if it can have. -/
def VectorDiff.run : VectorDiff α → List α → Option (List α)
  | .append values, v => some (v ++ values)
  | .clear, _ => some []
  | .pushFront value, v => some (value :: v)
  | .pushBack value, v => some (v.concat value)
  | .popFront, v => if v.isEmpty then none else some v.tail
  | .popBack, v => if v.isEmpty then none else some v.dropLast
  | .insert index value, v => if index ≤ v.length then some (v.insertIdx index value) else none
  | .set index value, v => if index < v.length then some (v.set index value) else none
  | .remove index, v => if index < v.length then some (v.eraseIdx index) else none
  | .truncate length, v => if length ≤ v.length then some (v.take length) else none
  | .reset values, _ => some values

/-- A batch, each diff in range for the vector at that point. -/
def runBatch : List (VectorDiff α) → List α → Option (List α)
  | [], v => some v
  | diff :: diffs, v => diff.run v >>= runBatch diffs

/-! ## The front end -/

/-- `prev.slice(from)` and `prev.slice(from, to)` for positions that are not negative. -/
def sliceFrom (prev : List α) (start : ℕ) : List α := prev.drop start

def slice (prev : List α) (start stop : ℕ) : List α := (prev.take stop).drop start

/-- `prev.slice(0, prev.length - 1)`; for the empty list the end is -1, which stands for no position. -/
def withoutLast (prev : List α) : List α := if prev.isEmpty then [] else slice prev 0 (prev.length - 1)

def applyStreamUpdate (prev : List α) : VectorDiff α → List α
  | .clear => []
  | .popFront => sliceFrom prev 1
  | .popBack => withoutLast prev
  | .append values => prev ++ values
  | .pushFront value => value :: prev
  | .pushBack value => prev ++ [value]
  | .insert index value => slice prev 0 index ++ value :: sliceFrom prev index
  | .set index value => slice prev 0 index ++ value :: sliceFrom prev (index + 1)
  | .remove index => slice prev 0 index ++ sliceFrom prev (index + 1)
  | .truncate length => slice prev 0 length
  | .reset values => values

def applyStreamUpdates (original : List α) (updates : List (VectorDiff α)) : List α :=
  updates.foldl applyStreamUpdate original

def mapStreamUpdate (update : VectorDiff α) (map : α → β) : VectorDiff β :=
  match update with
  | .clear => .clear
  | .popFront => .popFront
  | .popBack => .popBack
  | .append values => .append (values.map map)
  | .pushFront value => .pushFront (map value)
  | .pushBack value => .pushBack (map value)
  | .insert index value => .insert index (map value)
  | .set index value => .set index (map value)
  | .remove index => .remove index
  | .truncate length => .truncate length
  | .reset values => .reset (values.map map)

def mapStreamUpdates (updates : List (VectorDiff α)) (map : α → β) : List (VectorDiff β) :=
  updates.map fun update => mapStreamUpdate update map

/-- What a subscriber keeps: the mapped batches applied to the empty list. -/
def mirror (map : α → β) (batches : List (List (VectorDiff α))) : List β :=
  batches.foldl (fun prev batch => applyStreamUpdates prev (mapStreamUpdates batch map)) []

/-! ## Mapping -/

theorem slice_map (f : α → β) (prev : List α) (start stop : ℕ) : slice (prev.map f) start stop = (slice prev start stop).map f := by
  unfold slice
  rw [List.map_drop, List.map_take]

theorem sliceFrom_map (f : α → β) (prev : List α) (start : ℕ) : sliceFrom (prev.map f) start = (sliceFrom prev start).map f :=
  List.map_drop.symm

theorem withoutLast_map (f : α → β) (prev : List α) : withoutLast (prev.map f) = (withoutLast prev).map f := by
  unfold withoutLast
  rw [List.isEmpty_map, List.length_map, slice_map]
  split_ifs
  · rfl
  · rfl

theorem applyStreamUpdate_map (f : α → β) (prev : List α) (update : VectorDiff α) :
    applyStreamUpdate (prev.map f) (mapStreamUpdate update f) = (applyStreamUpdate prev update).map f := by
  cases update with
  | append values => exact List.map_append.symm
  | clear => rfl
  | pushFront value => rfl
  | pushBack value => simp only [mapStreamUpdate, applyStreamUpdate, List.map_append, List.map_cons, List.map_nil]
  | popFront => exact sliceFrom_map f prev 1
  | popBack => exact withoutLast_map f prev
  | insert index value =>
    simp only [mapStreamUpdate, applyStreamUpdate, slice_map, sliceFrom_map, List.map_append, List.map_cons]
  | set index value =>
    simp only [mapStreamUpdate, applyStreamUpdate, slice_map, sliceFrom_map, List.map_append, List.map_cons]
  | remove index => simp only [mapStreamUpdate, applyStreamUpdate, slice_map, sliceFrom_map, List.map_append]
  | truncate length => exact slice_map f prev 0 length
  | reset values => rfl

theorem applyStreamUpdates_map (f : α → β) (updates : List (VectorDiff α)) :
    ∀ prev : List α, applyStreamUpdates (prev.map f) (mapStreamUpdates updates f) = (applyStreamUpdates prev updates).map f := by
  induction updates with
  | nil =>
    intro prev
    rfl
  | cons update updates ih =>
    intro prev
    show applyStreamUpdates (applyStreamUpdate (prev.map f) (mapStreamUpdate update f)) (mapStreamUpdates updates f) = _
    rw [applyStreamUpdate_map, ih]
    rfl

/-! ## Applying -/

theorem slice_zero (prev : List α) (stop : ℕ) : slice prev 0 stop = prev.take stop := List.drop_zero

theorem take_cons_drop_eq_insertIdx (value : α) (v : List α) :
    ∀ index, index ≤ v.length → v.take index ++ value :: v.drop index = v.insertIdx index value := by
  induction v with
  | nil =>
    intro index hle
    rw [Nat.le_zero.mp hle]
    rfl
  | cons a v ih =>
    intro index hle
    cases index with
    | zero => rfl
    | succ index =>
      rw [List.take_succ_cons, List.drop_succ_cons, List.insertIdx_succ_cons, List.cons_append,
        ih index (Nat.le_of_succ_le_succ hle)]

theorem applyStreamUpdate_of_run {update : VectorDiff α} {v v' : List α} (h : update.run v = some v') :
    applyStreamUpdate v update = v' := by
  cases update with
  | append values => exact Option.some.inj h
  | clear => exact Option.some.inj h
  | pushFront value => exact Option.some.inj h
  | pushBack value =>
    rw [← Option.some.inj h]
    exact List.concat_eq_append.symm
  | popFront =>
    simp only [VectorDiff.run] at h
    split_ifs at h
    rw [← Option.some.inj h]
    exact List.drop_one
  | popBack =>
    simp only [VectorDiff.run] at h
    split_ifs at h with hempty
    rw [← Option.some.inj h]
    show withoutLast v = v.dropLast
    unfold withoutLast
    rw [if_neg hempty, slice_zero, List.dropLast_eq_take]
  | insert index value =>
    simp only [VectorDiff.run] at h
    split_ifs at h with hle
    rw [← Option.some.inj h]
    show slice v 0 index ++ value :: v.drop index = v.insertIdx index value
    rw [slice_zero, take_cons_drop_eq_insertIdx value v index hle]
  | set index value =>
    simp only [VectorDiff.run] at h
    split_ifs at h with hlt
    rw [← Option.some.inj h]
    show slice v 0 index ++ value :: v.drop (index + 1) = v.set index value
    rw [slice_zero, List.set_eq_take_append_cons_drop, if_pos hlt]
  | remove index =>
    simp only [VectorDiff.run] at h
    split_ifs at h with hlt
    rw [← Option.some.inj h]
    show slice v 0 index ++ v.drop (index + 1) = v.eraseIdx index
    rw [slice_zero, List.eraseIdx_eq_take_drop_succ]
  | truncate length =>
    simp only [VectorDiff.run] at h
    split_ifs at h
    rw [← Option.some.inj h]
    exact slice_zero v length
  | reset values => exact Option.some.inj h

/-- A batch in range does to a list what happened to the vector. -/
theorem applyStreamUpdates_of_run {updates : List (VectorDiff α)} :
    ∀ {v v' : List α}, runBatch updates v = some v' → applyStreamUpdates v updates = v' := by
  induction updates with
  | nil =>
    intro v v' h
    exact Option.some.inj h
  | cons update updates ih =>
    intro v v' h
    obtain ⟨v1, hupdate, hrest⟩ := Option.bind_eq_some_iff.mp h
    show applyStreamUpdates (applyStreamUpdate v update) updates = v'
    rw [applyStreamUpdate_of_run hupdate, ih hrest]

theorem mirror_nil (f : α → β) : mirror f [] = [] := rfl

/-- The mirror after one more batch, if it was exact before. -/
theorem mirror_snoc {f : α → β} {batches : List (List (VectorDiff α))} {batch : List (VectorDiff α)} {v v' : List α}
    (hbefore : mirror f batches = v.map f) (hbatch : runBatch batch v = some v') :
    mirror f (batches ++ [batch]) = v'.map f := by
  unfold mirror at hbefore ⊢
  rw [List.foldl_append, List.foldl_cons, List.foldl_nil, hbefore, applyStreamUpdates_map,
    applyStreamUpdates_of_run hbatch]

/-- A snapshot makes it exact, whatever was before. -/
theorem mirror_snapshot (f : α → β) {batches : List (List (VectorDiff α))} {batch : List (VectorDiff α)} {v v' : List α}
    (hbatch : runBatch batch v = some v') : mirror f (batches ++ [.reset v :: batch]) = v'.map f := by
  unfold mirror
  rw [List.foldl_append, List.foldl_cons, List.foldl_nil]
  show applyStreamUpdates (v.map f) (mapStreamUpdates batch f) = _
  rw [applyStreamUpdates_map, applyStreamUpdates_of_run hbatch]

end

end RpcStreams
