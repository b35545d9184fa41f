import Mathlib

/-!
# Ordered maps as sorted association lists

`BTreeMap K V` is a list of entries with strictly increasing keys; the order is
part of the value, so iterating over a map is iterating over `entries`.  Both
in-memory ordered maps and the tables of a key-value store read by key prefix
are of this form.

Everything a client needs of the representation is here:

    (m.insert k v).get? k' = if k' = k then some v else m.get? k'    (get?_insert)
    (∀ k, m.get? k = m'.get? k) → m = m'                             (ext_get?)
    sumBy f (insert k v m) + (what k held) = sumBy f m + f k v       (sumBy_insert)

`sumBy` is the sum of a quantity over the entries, `groupMap` collects the values
of equal keys, and `flat` / `refill` read and overwrite the values of a map of
lists in key order.
-/

namespace BTreeMaps

/-- A finite map: entries in strictly increasing key order. -/
structure BTreeMap (K V : Type) [LinearOrder K] where
  entries : List (K × V)
  sorted : entries.Pairwise (fun a b => a.1 < b.1)
deriving DecidableEq

/-! ## Entry lists -/

section
variable {K V : Type} [LinearOrder K]

/-- Value of the first entry with key `k`. -/
def lookupEntry (k : K) : List (K × V) → Option V
  | [] => none
  | (k', v) :: t => if k = k' then some v else lookupEntry k t

/-- Put `(k, v)` at its place, replacing an entry with the same key. -/
def insertEntry (k : K) (v : V) : List (K × V) → List (K × V)
  | [] => [(k, v)]
  | (k', v') :: t =>
    if k < k' then (k, v) :: (k', v') :: t
    else if k = k' then (k, v) :: t
    else (k', v') :: insertEntry k v t

theorem mem_insertEntry {k : K} {v : V} {e : K × V} :
    ∀ {l : List (K × V)}, e ∈ insertEntry k v l → e = (k, v) ∨ e ∈ l
  | [], h => by simpa [insertEntry] using h
  | (k', v') :: t, h => by
    unfold insertEntry at h
    split_ifs at h with h1 h2
    · simpa using h
    · rcases List.mem_cons.mp h with h | h
      · exact Or.inl h
      · exact Or.inr (List.mem_cons_of_mem _ h)
    · rcases List.mem_cons.mp h with h | h
      · exact Or.inr (by rw [h]; exact List.mem_cons_self)
      · rcases mem_insertEntry h with h | h
        · exact Or.inl h
        · exact Or.inr (List.mem_cons_of_mem _ h)

theorem insertEntry_sorted (k : K) (v : V) :
    ∀ {l : List (K × V)}, l.Pairwise (fun a b => a.1 < b.1) →
      (insertEntry k v l).Pairwise (fun a b => a.1 < b.1)
  | [], _ => by simp [insertEntry]
  | (k', v') :: t, h => by
    have hh := List.pairwise_cons.mp h
    unfold insertEntry
    split_ifs with h1 h2
    · refine List.pairwise_cons.mpr ⟨fun e he => ?_, h⟩
      rcases List.mem_cons.mp he with rfl | he
      · exact h1
      · exact h1.trans (hh.1 e he)
    · subst h2
      exact List.pairwise_cons.mpr ⟨hh.1, hh.2⟩
    · refine List.pairwise_cons.mpr ⟨fun e he => ?_, insertEntry_sorted k v hh.2⟩
      rcases mem_insertEntry he with rfl | he
      · exact lt_of_le_of_ne (not_lt.mp h1) (Ne.symm h2)
      · exact hh.1 e he

theorem lookupEntry_insertEntry (k k' : K) (v : V) :
    ∀ l : List (K × V), lookupEntry k' (insertEntry k v l) =
      if k' = k then some v else lookupEntry k' l
  | [] => by simp [insertEntry, lookupEntry]
  | (a, b) :: t => by
    have ih := lookupEntry_insertEntry k k' v t
    unfold insertEntry
    split_ifs with h1 h2 h3 h3 h3 <;> simp_all [lookupEntry]

theorem lookupEntry_eq_none {k : K} :
    ∀ {l : List (K × V)}, lookupEntry k l = none ↔ ∀ e ∈ l, e.1 ≠ k
  | [] => by simp [lookupEntry]
  | (a, b) :: t => by
    have ih := lookupEntry_eq_none (k := k) (l := t)
    by_cases h : k = a
    · simp [lookupEntry, h]
    · simp [lookupEntry, h, ih, Ne.symm h]

theorem lookupEntry_eq_some {k : K} {v : V} :
    ∀ {l : List (K × V)}, l.Pairwise (fun a b => a.1 < b.1) →
      (lookupEntry k l = some v ↔ (k, v) ∈ l)
  | [], _ => by simp [lookupEntry]
  | (a, b) :: t, h => by
    have hh := List.pairwise_cons.mp h
    have ih := lookupEntry_eq_some (k := k) (v := v) hh.2
    by_cases hk : k = a
    · subst hk
      have hn : (k, v) ∉ t := fun hm => absurd (hh.1 (k, v) hm) (lt_irrefl k)
      simp only [lookupEntry, if_true, Option.some.injEq, List.mem_cons, Prod.mk.injEq, true_and, hn,
        or_false]
      exact eq_comm
    · simp [lookupEntry, hk, ih]

/-- Sum of `f` over an entry list. -/
def sumEntries (f : K → V → ℕ) (l : List (K × V)) : ℕ := (l.map fun e => f e.1 e.2).sum

theorem sumEntries_insertEntry (f : K → V → ℕ) (k : K) (v : V) :
    ∀ {l : List (K × V)}, l.Pairwise (fun a b => a.1 < b.1) →
      sumEntries f (insertEntry k v l) + (lookupEntry k l).elim 0 (f k) = sumEntries f l + f k v
  | [], _ => by simp [insertEntry, lookupEntry, sumEntries]
  | (a, b) :: t, h => by
    have hh := List.pairwise_cons.mp h
    have ih := sumEntries_insertEntry f k v hh.2
    unfold insertEntry
    split_ifs with h1 h2
    · have hn : lookupEntry k ((a, b) :: t) = none := by
        rw [lookupEntry_eq_none]
        intro e he
        rcases List.mem_cons.mp he with rfl | he
        · exact h1.ne'
        · exact (h1.trans (hh.1 e he)).ne'
      simp only [hn, sumEntries, List.map_cons, List.sum_cons, Option.elim_none]
      omega
    · subst h2
      simp only [lookupEntry, if_true, sumEntries, List.map_cons, List.sum_cons, Option.elim_some]
      omega
    · simp only [lookupEntry, h2, if_false, sumEntries, List.map_cons, List.sum_cons] at ih ⊢
      omega

end

section
variable {K A : Type}

/-- Overwrite the values of an entry list, in order, keeping the lengths. -/
def refillEntries : List (K × List A) → List A → List (K × List A)
  | [], _ => []
  | (k, l) :: t, xs => (k, xs.take l.length) :: refillEntries t (xs.drop l.length)

theorem refillEntries_keys :
    ∀ (l : List (K × List A)) (xs : List A), (refillEntries l xs).map Prod.fst = l.map Prod.fst
  | [], _ => rfl
  | (k, l) :: t, xs => by simp [refillEntries, refillEntries_keys t]

theorem flat_refillEntries :
    ∀ (l : List (K × List A)) (xs : List A), xs.length = (l.map Prod.snd).flatten.length →
      ((refillEntries l xs).map Prod.snd).flatten = xs
  | [], xs, h => by simpa [refillEntries] using (List.length_eq_zero_iff.mp h).symm
  | (k, l) :: t, xs, h => by
    simp only [List.map_cons, List.flatten_cons, List.length_append] at h
    simp only [refillEntries, List.map_cons, List.flatten_cons]
    rw [flat_refillEntries t (xs.drop l.length) (by rw [List.length_drop]; omega),
      List.take_append_drop]

end

/-! ## Maps -/

namespace BTreeMap

section
variable {K V : Type} [LinearOrder K]

@[ext]
theorem ext_entries {m m' : BTreeMap K V} (h : m.entries = m'.entries) : m = m' := by
  cases m; cases m'; cases h; rfl

def empty : BTreeMap K V := ⟨[], List.Pairwise.nil⟩

instance : Inhabited (BTreeMap K V) := ⟨empty⟩

def get? (m : BTreeMap K V) (k : K) : Option V := lookupEntry k m.entries

/-- The value at `k`, or the default `d`. -/
def getD (m : BTreeMap K V) (k : K) (d : V) : V := (m.get? k).getD d

def insert (m : BTreeMap K V) (k : K) (v : V) : BTreeMap K V :=
  ⟨insertEntry k v m.entries, insertEntry_sorted k v m.sorted⟩

/-- Keep the entries whose key satisfies `p`. -/
def filterKeys (m : BTreeMap K V) (p : K → Bool) : BTreeMap K V :=
  ⟨m.entries.filter fun e => p e.1, m.sorted.sublist List.filter_sublist⟩

def erase (m : BTreeMap K V) (k : K) : BTreeMap K V := m.filterKeys fun k' => decide (k' ≠ k)

def keys (m : BTreeMap K V) : List K := m.entries.map Prod.fst

def values (m : BTreeMap K V) : List V := m.entries.map Prod.snd

/-- Sum of `f` over the entries. -/
def sumBy (f : K → V → ℕ) (m : BTreeMap K V) : ℕ := sumEntries f m.entries

theorem mem_entries {m : BTreeMap K V} {k : K} {v : V} : (k, v) ∈ m.entries ↔ m.get? k = some v :=
  (lookupEntry_eq_some m.sorted).symm

theorem get?_eq_none {m : BTreeMap K V} {k : K} : m.get? k = none ↔ k ∉ m.keys := by
  rw [get?, lookupEntry_eq_none, keys, List.mem_map]
  constructor
  · rintro h ⟨e, he, rfl⟩
    exact h e he rfl
  · rintro h e he rfl
    exact h ⟨e, he, rfl⟩

theorem mem_keys {m : BTreeMap K V} {k : K} : k ∈ m.keys ↔ ∃ v, m.get? k = some v := by
  cases h : m.get? k with
  | none => simpa using get?_eq_none.mp h
  | some v =>
    have hm : k ∈ m.keys := List.mem_map_of_mem (mem_entries.mpr h)
    simpa using hm

theorem keys_sorted (m : BTreeMap K V) : m.keys.Pairwise (· < ·) := List.pairwise_map.mpr m.sorted

theorem mem_values {m : BTreeMap K V} {v : V} : v ∈ m.values ↔ ∃ k, m.get? k = some v := by
  rw [values, List.mem_map]
  constructor
  · rintro ⟨e, he, rfl⟩
    exact ⟨e.1, mem_entries.mp he⟩
  · rintro ⟨k, h⟩
    exact ⟨(k, v), mem_entries.mpr h, rfl⟩

/-- Maps with the same lookups are equal. -/
theorem ext_get? {m m' : BTreeMap K V} (h : ∀ k, m.get? k = m'.get? k) : m = m' := by
  apply ext_entries
  refine List.Perm.eq_of_pairwise ?_ m.sorted m'.sorted ?_
  · intro a b _ _ hab hba
    exact absurd hab (lt_asymm hba)
  · have hnd : ∀ m : BTreeMap K V, m.entries.Nodup := fun m =>
      m.sorted.imp fun hlt => by rintro rfl; exact lt_irrefl _ hlt
    refine (List.perm_ext_iff_of_nodup (hnd m) (hnd m')).mpr fun e => ?_
    rw [show e = (e.1, e.2) from rfl, mem_entries, mem_entries, h]

@[simp] theorem get?_empty (k : K) : (empty : BTreeMap K V).get? k = none := rfl

@[simp] theorem entries_empty : (empty : BTreeMap K V).entries = [] := rfl

theorem get?_insert (m : BTreeMap K V) (k k' : K) (v : V) :
    (m.insert k v).get? k' = if k' = k then some v else m.get? k' :=
  lookupEntry_insertEntry k k' v m.entries

@[simp] theorem get?_insert_self (m : BTreeMap K V) (k : K) (v : V) :
    (m.insert k v).get? k = some v := by rw [get?_insert, if_pos rfl]

theorem get?_insert_ne (m : BTreeMap K V) {k k' : K} (v : V) (h : k' ≠ k) :
    (m.insert k v).get? k' = m.get? k' := by rw [get?_insert, if_neg h]

theorem get?_filterKeys (m : BTreeMap K V) (p : K → Bool) (k : K) :
    (m.filterKeys p).get? k = if p k then m.get? k else none := by
  apply Option.ext
  intro v
  rw [← mem_entries, filterKeys, List.mem_filter, mem_entries]
  split_ifs with h <;> simp [h]

theorem get?_erase (m : BTreeMap K V) (k k' : K) :
    (m.erase k).get? k' = if k' = k then none else m.get? k' := by
  rw [erase, get?_filterKeys]
  by_cases h : k' = k <;> simp [h]

theorem getD_of_get? {m : BTreeMap K V} {k : K} {v : V} (h : m.get? k = some v) (d : V) :
    m.getD k d = v := by rw [getD, h]; rfl

theorem getD_of_none {m : BTreeMap K V} {k : K} (h : m.get? k = none) (d : V) : m.getD k d = d := by
  rw [getD, h]; rfl

@[simp] theorem getD_empty (k : K) (d : V) : (empty : BTreeMap K V).getD k d = d := rfl

theorem getD_insert (m : BTreeMap K V) (k k' : K) (v d : V) :
    (m.insert k v).getD k' d = if k' = k then v else m.getD k' d := by
  rw [getD, get?_insert]
  split_ifs <;> rfl

@[simp] theorem getD_insert_self (m : BTreeMap K V) (k : K) (v d : V) :
    (m.insert k v).getD k d = v := by rw [getD_insert, if_pos rfl]

theorem getD_insert_ne (m : BTreeMap K V) {k k' : K} (v d : V) (h : k' ≠ k) :
    (m.insert k v).getD k' d = m.getD k' d := by rw [getD_insert, if_neg h]

theorem getD_erase (m : BTreeMap K V) (k k' : K) (d : V) :
    (m.erase k).getD k' d = if k' = k then d else m.getD k' d := by
  rw [getD, get?_erase]
  split_ifs <;> rfl

/-- Number of entries. -/
def len (m : BTreeMap K V) : ℕ := m.entries.length

/-- A map without keys is empty. -/
theorem len_eq_zero {m : BTreeMap K V} (h : ∀ k, m.get? k = none) : m.len = 0 := by
  have hempty : m = .empty := BTreeMap.ext_get? h
  rw [hempty]
  rfl

theorem length_keys (m : BTreeMap K V) : m.keys.length = m.len := List.length_map _

theorem keys_nodup (m : BTreeMap K V) : m.keys.Nodup := m.keys_sorted.imp fun h => h.ne

theorem mem_keys_insert {m : BTreeMap K V} {k k' : K} {v : V} :
    k' ∈ (m.insert k v).keys ↔ k' = k ∨ k' ∈ m.keys := by
  rw [mem_keys, mem_keys]
  by_cases h : k' = k
  · subst h
    simp
  · rw [get?_insert_ne _ _ h]
    simp [h]

theorem len_insert {m : BTreeMap K V} {k : K} (v : V) (h : m.get? k = none) :
    (m.insert k v).len = m.len + 1 := by
  have hkeys : (m.insert k v).keys.Perm (k :: m.keys) := by
    refine (List.perm_ext_iff_of_nodup (keys_nodup _) ?_).mpr fun k' => ?_
    · exact List.nodup_cons.mpr ⟨get?_eq_none.mp h, keys_nodup m⟩
    · rw [mem_keys_insert, List.mem_cons]
  rw [← length_keys, hkeys.length_eq, List.length_cons, length_keys]

/-- As many keys as a list without repetition that has them all: the same keys. -/
theorem mem_keys_iff_of_len {m : BTreeMap K V} {l : List K} (hsub : ∀ k ∈ m.keys, k ∈ l)
    (hlen : l.length ≤ m.len) (k : K) : k ∈ m.keys ↔ k ∈ l := by
  constructor
  · exact hsub k
  · intro hk
    have hperm : m.keys.Perm l := by
      refine List.Subperm.perm_of_length_le (List.subperm_of_subset (keys_nodup m) hsub) ?_
      rw [length_keys]
      exact hlen
    exact hperm.mem_iff.mpr hk

/-! ### Sums over a map -/

@[simp] theorem sumBy_empty (f : K → V → ℕ) : (empty : BTreeMap K V).sumBy f = 0 := rfl

theorem sumBy_insert (f : K → V → ℕ) (m : BTreeMap K V) (k : K) (v : V) :
    (m.insert k v).sumBy f + (m.get? k).elim 0 (f k) = m.sumBy f + f k v :=
  sumEntries_insertEntry f k v m.sorted

/-- `sumBy_insert` when absent keys count as a default worth nothing. -/
theorem sumBy_insert_getD {f : K → V → ℕ} {d : V} (m : BTreeMap K V) (k : K) (v : V)
    (hd : f k d = 0) : (m.insert k v).sumBy f + f k (m.getD k d) = m.sumBy f + f k v := by
  have h := sumBy_insert f m k v
  cases hg : m.get? k with
  | none =>
    rw [hg, Option.elim_none] at h
    rw [getD_of_none hg, hd]
    exact h
  | some x =>
    rw [hg, Option.elim_some] at h
    rw [getD_of_get? hg]
    exact h

theorem sumBy_filterKeys (f : K → V → ℕ) (m : BTreeMap K V) (p : K → Bool) :
    (m.filterKeys p).sumBy f + (m.filterKeys fun k => !p k).sumBy f = m.sumBy f := by
  simp only [sumBy, filterKeys, sumEntries]
  induction m.entries with
  | nil => rfl
  | cons e t ih =>
    cases h : p e.1 <;> simp only [List.filter_cons, h, Bool.not_true, Bool.not_false, if_true,
      Bool.false_eq_true, if_false, List.map_cons, List.sum_cons] <;> omega

theorem sumBy_erase_add (f : K → V → ℕ) (m : BTreeMap K V) (k : K) :
    (m.erase k).sumBy f + (m.get? k).elim 0 (f k) = m.sumBy f := by
  rcases m with ⟨l, hl⟩
  simp only [sumBy, erase, filterKeys, get?, sumEntries]
  induction l with
  | nil => rfl
  | cons e t ih =>
    obtain ⟨a, b⟩ := e
    have hh := List.pairwise_cons.mp hl
    have ih := ih hh.2
    by_cases h : a = k
    · subst h
      have hn : lookupEntry a t = none := lookupEntry_eq_none.mpr fun e he => (hh.1 e he).ne'
      rw [hn, Option.elim_none] at ih
      simp only [lookupEntry, if_true, List.filter_cons, ne_eq, not_true_eq_false, decide_false,
        Bool.false_eq_true, if_false, Option.elim_some, List.map_cons, List.sum_cons] at ih ⊢
      omega
    · simp only [lookupEntry, if_neg (Ne.symm h), List.filter_cons, ne_eq, h, not_false_eq_true,
        decide_true, if_true, List.map_cons, List.sum_cons] at ih ⊢
      omega

theorem sumBy_erase_getD {f : K → V → ℕ} {d : V} (m : BTreeMap K V) (k : K) (hd : f k d = 0) :
    (m.erase k).sumBy f + f k (m.getD k d) = m.sumBy f := by
  have h := sumBy_erase_add f m k
  cases hg : m.get? k with
  | none =>
    rw [hg, Option.elim_none] at h
    rw [getD_of_none hg, hd]
    exact h
  | some x =>
    rw [hg, Option.elim_some] at h
    rw [getD_of_get? hg]
    exact h

theorem le_sumBy {f : K → V → ℕ} {m : BTreeMap K V} {k : K} {v : V} (h : m.get? k = some v) :
    f k v ≤ m.sumBy f := by
  have := sumBy_erase_add f m k
  rw [h, Option.elim_some] at this
  omega

theorem sumBy_congr {f g : K → V → ℕ} {m : BTreeMap K V}
    (h : ∀ k v, m.get? k = some v → f k v = g k v) : m.sumBy f = m.sumBy g := by
  unfold sumBy sumEntries
  congr 1
  exact List.map_congr_left fun e he => h e.1 e.2 (mem_entries.mp he)

theorem sumBy_eq_zero {f : K → V → ℕ} {m : BTreeMap K V} :
    m.sumBy f = 0 ↔ ∀ k v, m.get? k = some v → f k v = 0 := by
  constructor
  · intro h k v hg
    exact Nat.le_zero.mp (h ▸ le_sumBy hg)
  · intro h
    rw [sumBy_congr h]
    simp [sumBy, sumEntries]

/-- A sum whose terms vanish off the key `k` is its term at `k`. -/
theorem sumBy_single {f : K → V → ℕ} {d : V} (m : BTreeMap K V) (k : K) (hd : f k d = 0)
    (h : ∀ k' v, k' ≠ k → f k' v = 0) : m.sumBy f = f k (m.getD k d) := by
  rw [← sumBy_erase_getD m k hd]
  have : (m.erase k).sumBy f = 0 := by
    rw [sumBy_eq_zero]
    intro k' v hg
    rw [get?_erase] at hg
    split_ifs at hg with hk
    exact h k' v hk
  omega

theorem sumBy_eq_sum {f : K → V → ℕ} {d : V} (m : BTreeMap K V) (hd : ∀ k, f k d = 0) {S : Finset K}
    (hS : ∀ k ∈ m.keys, k ∈ S) : m.sumBy f = ∑ k ∈ S, f k (m.getD k d) := by
  have hnd : m.keys.Nodup := m.keys_sorted.imp fun h => h.ne
  have hsub : m.keys.toFinset ⊆ S := fun k hk => hS k (List.mem_toFinset.mp hk)
  have hout : ∀ k ∈ S, k ∉ m.keys.toFinset → f k (m.getD k d) = 0 := by
    intro k _ hk
    rw [List.mem_toFinset] at hk
    rw [getD_of_none (get?_eq_none.mpr hk), hd]
  rw [← Finset.sum_subset hsub hout, List.sum_toFinset _ hnd, sumBy, sumEntries, keys, List.map_map]
  congr 1
  refine List.map_congr_left fun e he => ?_
  rw [Function.comp_apply, getD_of_get? (mem_entries.mp he)]

/-- Maps that agree up to absent defaults have the same sums. -/
theorem sumBy_congr_getD {f : K → V → ℕ} {d : V} {m m' : BTreeMap K V} (hd : ∀ k, f k d = 0)
    (h : ∀ k, m.getD k d = m'.getD k d) : m.sumBy f = m'.sumBy f := by
  rw [sumBy_eq_sum (S := m.keys.toFinset ∪ m'.keys.toFinset) m hd fun k hk =>
      Finset.mem_union_left _ (List.mem_toFinset.mpr hk),
    sumBy_eq_sum (S := m.keys.toFinset ∪ m'.keys.toFinset) m' hd fun k hk =>
      Finset.mem_union_right _ (List.mem_toFinset.mpr hk)]
  exact Finset.sum_congr rfl fun k _ => by rw [h]

/-! ### Copying one map into another -/

/-- Insert every entry of `m'` into `m`. -/
def insertAll (m m' : BTreeMap K V) : BTreeMap K V :=
  m'.entries.foldl (fun t e => t.insert e.1 e.2) m

theorem get?_foldl_insert (k : K) :
    ∀ (l : List (K × V)) (m : BTreeMap K V), l.Pairwise (fun a b => a.1 < b.1) →
      (l.foldl (fun t e => t.insert e.1 e.2) m).get? k = (lookupEntry k l).or (m.get? k) := by
  intro l
  induction l with
  | nil => intro m _; rfl
  | cons e t ih =>
    intro m h
    obtain ⟨a, b⟩ := e
    have hh := List.pairwise_cons.mp h
    rw [List.foldl_cons, ih _ hh.2, get?_insert]
    by_cases hk : k = a
    · subst hk
      have hn : lookupEntry k t = none := lookupEntry_eq_none.mpr fun e he => (hh.1 e he).ne'
      simp [lookupEntry, hn]
    · simp [lookupEntry, hk]

theorem get?_insertAll (m m' : BTreeMap K V) (k : K) :
    (m.insertAll m').get? k = (m'.get? k).or (m.get? k) := get?_foldl_insert k _ m m'.sorted

theorem empty_insertAll (m : BTreeMap K V) : empty.insertAll m = m := by
  apply ext_get?
  intro k
  rw [get?_insertAll, get?_empty, Option.or_none]

/-- After insertions in list order a key has the value of its last pair. -/
theorem get?_foldl_insert_iff {k : K} {v : V} :
    ∀ {l : List (K × V)} {m : BTreeMap K V},
      (l.foldl (fun t e => t.insert e.1 e.2) m).get? k = some v ↔
        (∃ l1 l2, l = l1 ++ (k, v) :: l2 ∧ ∀ e ∈ l2, e.1 ≠ k) ∨
          (∀ e ∈ l, e.1 ≠ k) ∧ m.get? k = some v := by
  intro l
  induction l with
  | nil => intro m; simp
  | cons a l ih =>
    intro m
    rw [List.foldl_cons, ih, get?_insert]
    constructor
    · rintro (⟨l1, l2, rfl, hlast⟩ | ⟨hnone, hget⟩)
      · exact Or.inl ⟨a :: l1, l2, rfl, hlast⟩
      · split_ifs at hget with hk
        · cases hget
          exact Or.inl ⟨[], l, by rw [hk]; rfl, hnone⟩
        · refine Or.inr ⟨?_, hget⟩
          rw [List.forall_mem_cons]
          exact ⟨Ne.symm hk, hnone⟩
    · rintro (⟨l1, l2, hl, hlast⟩ | ⟨hnone, hget⟩)
      · cases l1 with
        | nil =>
          rw [List.nil_append, List.cons.injEq] at hl
          obtain ⟨rfl, rfl⟩ := hl
          exact Or.inr ⟨hlast, if_pos rfl⟩
        | cons b l1 =>
          rw [List.cons_append, List.cons.injEq] at hl
          exact Or.inl ⟨l1, l2, hl.2, hlast⟩
      · rw [List.forall_mem_cons] at hnone
        exact Or.inr ⟨hnone.2, by rw [if_neg (Ne.symm hnone.1), hget]⟩

theorem sumBy_foldl_insert (f : K → V → ℕ) :
    ∀ (l : List (K × V)) (m : BTreeMap K V), l.Pairwise (fun a b => a.1 < b.1) →
      (∀ e ∈ l, m.get? e.1 = none) →
      (l.foldl (fun t e => t.insert e.1 e.2) m).sumBy f = m.sumBy f + sumEntries f l := by
  intro l
  induction l with
  | nil => intro m _ _; simp [sumEntries]
  | cons e t ih =>
    intro m h hnone
    have hh := List.pairwise_cons.mp h
    rw [List.foldl_cons, ih _ hh.2]
    · have h1 := sumBy_insert f m e.1 e.2
      rw [hnone e List.mem_cons_self, Option.elim_none] at h1
      simp only [sumEntries, List.map_cons, List.sum_cons]
      omega
    · intro e' he'
      rw [get?_insert_ne _ _ (hh.1 e' he').ne']
      exact hnone e' (List.mem_cons_of_mem _ he')

/-- Copying entries with fresh keys adds up. -/
theorem sumBy_insertAll (f : K → V → ℕ) {m m' : BTreeMap K V}
    (h : ∀ k ∈ m'.keys, m.get? k = none) : (m.insertAll m').sumBy f = m.sumBy f + m'.sumBy f :=
  sumBy_foldl_insert f _ m m'.sorted fun e he => h e.1 (List.mem_map_of_mem he)

end

/-! ### Maps of lists -/

section
variable {K A : Type} [LinearOrder K]

/-- All values, in key order. -/
def flat (m : BTreeMap K (List A)) : List A := m.values.flatten

/-- All values with their keys, in key order. -/
def pairs (m : BTreeMap K (List A)) : List (K × A) :=
  m.entries.flatMap fun e => e.2.map fun a => (e.1, a)

theorem mem_pairs {m : BTreeMap K (List A)} {k : K} {a : A} :
    (k, a) ∈ m.pairs ↔ a ∈ m.getD k [] := by
  simp only [pairs, List.mem_flatMap, List.mem_map, Prod.mk.injEq]
  constructor
  · rintro ⟨e, he, x, hx, rfl, rfl⟩
    rw [getD_of_get? (mem_entries.mp he)]
    exact hx
  · intro h
    cases hg : m.get? k with
    | none => rw [getD_of_none hg] at h; cases h
    | some l =>
      rw [getD_of_get? hg] at h
      exact ⟨(k, l), mem_entries.mpr hg, a, h, rfl, rfl⟩

theorem flat_eq_pairs (m : BTreeMap K (List A)) : m.flat = m.pairs.map Prod.snd := by
  simp only [flat, values, pairs]
  induction m.entries with
  | nil => rfl
  | cons e t ih =>
    rw [List.map_cons, List.flatten_cons, ih, List.flatMap_cons, List.map_append, List.map_map]
    congr 1
    exact (List.map_id e.2).symm

theorem mem_flat {m : BTreeMap K (List A)} {a : A} : a ∈ m.flat ↔ ∃ k, a ∈ m.getD k [] := by
  rw [flat_eq_pairs, List.mem_map]
  constructor
  · rintro ⟨e, he, rfl⟩
    exact ⟨e.1, mem_pairs.mp he⟩
  · rintro ⟨k, h⟩
    exact ⟨(k, a), mem_pairs.mpr h, rfl⟩

theorem sum_pairs (g : K → A → ℕ) (m : BTreeMap K (List A)) :
    (m.pairs.map fun e => g e.1 e.2).sum = m.sumBy fun k l => (l.map (g k)).sum := by
  simp only [pairs, sumBy, sumEntries]
  induction m.entries with
  | nil => rfl
  | cons e t ih =>
    simp only [List.flatMap_cons, List.map_append, List.sum_append, List.map_map, List.map_cons,
      List.sum_cons, ih, Function.comp_def]

theorem sum_flat (g : A → ℕ) (m : BTreeMap K (List A)) :
    (m.flat.map g).sum = m.sumBy fun _ l => (l.map g).sum := by
  rw [flat_eq_pairs, List.map_map, ← sum_pairs]
  rfl

/-- The values of equal keys, in list order. -/
def groupMap (l : List (K × A)) : BTreeMap K (List A) :=
  l.foldl (fun m e => m.insert e.1 (m.getD e.1 [] ++ [e.2])) empty

theorem getD_foldl_group (k : K) :
    ∀ (l : List (K × A)) (m : BTreeMap K (List A)),
      (l.foldl (fun m e => m.insert e.1 (m.getD e.1 [] ++ [e.2])) m).getD k [] =
        m.getD k [] ++ (l.filter fun e => decide (e.1 = k)).map Prod.snd := by
  intro l
  induction l with
  | nil => intro m; simp
  | cons e t ih =>
    intro m
    rw [List.foldl_cons, ih, getD_insert]
    by_cases h : k = e.1
    · subst h; simp
    · simp [h, Ne.symm h]

theorem getD_groupMap (l : List (K × A)) (k : K) :
    (groupMap l).getD k [] = (l.filter fun e => decide (e.1 = k)).map Prod.snd := by
  rw [groupMap, getD_foldl_group, getD_empty, List.nil_append]

theorem get?_foldl_group (k : K) :
    ∀ (l : List (K × A)) (m : BTreeMap K (List A)),
      (l.foldl (fun m e => m.insert e.1 (m.getD e.1 [] ++ [e.2])) m).get? k = none ↔
        m.get? k = none ∧ ∀ e ∈ l, e.1 ≠ k := by
  intro l
  induction l with
  | nil => intro m; simp
  | cons e t ih =>
    intro m
    rw [List.foldl_cons, ih, get?_insert]
    by_cases h : k = e.1
    · subst h; simp
    · simp [h, Ne.symm h]

theorem get?_groupMap_eq_none {l : List (K × A)} {k : K} :
    (groupMap l).get? k = none ↔ ∀ e ∈ l, e.1 ≠ k := by
  rw [groupMap, get?_foldl_group]
  simp

/-- A group is never empty. -/
theorem groupMap_ne_nil {l : List (K × A)} {k : K} {as : List A} (h : (groupMap l).get? k = some as) :
    as ≠ [] := by
  have hk : ¬ ∀ e ∈ l, e.1 ≠ k := by
    rw [← get?_groupMap_eq_none, h]
    simp
  push Not at hk
  obtain ⟨e, he, hek⟩ := hk
  have hd := getD_groupMap l k
  rw [getD_of_get? h] at hd
  rw [hd]
  intro hnil
  have : e ∈ l.filter fun e => decide (e.1 = k) := List.mem_filter.mpr ⟨he, by simpa using hek⟩
  rw [List.map_eq_nil_iff.mp hnil] at this
  cases this

theorem sumBy_foldl_group (g : K → A → ℕ) :
    ∀ (l : List (K × A)) (m : BTreeMap K (List A)),
      (l.foldl (fun m e => m.insert e.1 (m.getD e.1 [] ++ [e.2])) m).sumBy
          (fun k as => (as.map (g k)).sum) =
        m.sumBy (fun k as => (as.map (g k)).sum) + (l.map fun e => g e.1 e.2).sum := by
  intro l
  induction l with
  | nil => intro m; simp
  | cons e t ih =>
    intro m
    have h := sumBy_insert_getD (f := fun k as => (as.map (g k)).sum) (d := []) m e.1
      (m.getD e.1 [] ++ [e.2]) rfl
    rw [List.foldl_cons, ih]
    simp only [List.map_append, List.sum_append, List.map_cons, List.map_nil, List.sum_cons,
      List.sum_nil, Nat.add_zero] at h ⊢
    omega

theorem sumBy_groupMap (g : K → A → ℕ) (l : List (K × A)) :
    (groupMap l).sumBy (fun k as => (as.map (g k)).sum) = (l.map fun e => g e.1 e.2).sum := by
  rw [groupMap, sumBy_foldl_group, sumBy_empty, Nat.zero_add]

/-- Overwrite the values of a map, in key order. -/
def refill (m : BTreeMap K (List A)) (xs : List A) : BTreeMap K (List A) :=
  ⟨refillEntries m.entries xs, by
    have h := m.keys_sorted
    rw [keys, ← refillEntries_keys m.entries xs] at h
    exact List.pairwise_map.mp h⟩

@[simp] theorem keys_refill (m : BTreeMap K (List A)) (xs : List A) : (m.refill xs).keys = m.keys :=
  refillEntries_keys _ _

theorem flat_refill {m : BTreeMap K (List A)} {xs : List A} (h : xs.length = m.flat.length) :
    (m.refill xs).flat = xs := flat_refillEntries m.entries xs h

theorem lookup_refillEntries {R : A → A → Prop} (k : K) :
    ∀ (l : List (K × List A)) (xs : List A), List.Forall₂ R (l.map Prod.snd).flatten xs →
      Option.Rel (List.Forall₂ R) (lookupEntry k l) (lookupEntry k (refillEntries l xs))
  | [], _, _ => Option.Rel.none
  | (k', l) :: t, xs, h => by
    simp only [List.map_cons, List.flatten_cons] at h
    have hsplit : List.Forall₂ R l (xs.take l.length) ∧
        List.Forall₂ R (t.map Prod.snd).flatten (xs.drop l.length) := by
      have h1 := List.forall₂_take l.length h
      have h2 := List.forall₂_drop l.length h
      rw [List.take_left] at h1
      rw [List.drop_left] at h2
      exact ⟨h1, h2⟩
    unfold refillEntries lookupEntry
    split_ifs with hk
    · exact Option.Rel.some hsplit.1
    · exact lookup_refillEntries k t _ hsplit.2

/-- Overwriting with related values relates the values of each key. -/
theorem getD_refill {R : A → A → Prop} {m : BTreeMap K (List A)} {xs : List A}
    (h : List.Forall₂ R m.flat xs) (k : K) : List.Forall₂ R (m.getD k []) ((m.refill xs).getD k []) := by
  have hrel := lookup_refillEntries k m.entries xs h
  unfold getD get? refill
  revert hrel
  cases lookupEntry k m.entries <;> cases lookupEntry k (refillEntries m.entries xs) <;>
    intro hrel <;> cases hrel
  · exact List.Forall₂.nil
  · assumption

end

end BTreeMap

/-! ## Sets -/

/-- A set is a map without values. -/
abbrev BTreeSet (K : Type) [LinearOrder K] := BTreeMap K Unit

namespace BTreeSet

variable {K : Type} [LinearOrder K]

def contains (s : BTreeSet K) (k : K) : Bool := (s.get? k).isSome

def add (s : BTreeSet K) (k : K) : BTreeSet K := s.insert k ()

/-- `collect` into a set. -/
def ofList (l : List K) : BTreeSet K := l.foldl add BTreeMap.empty

theorem contains_iff {s : BTreeSet K} {k : K} : s.contains k = true ↔ k ∈ s.keys := by
  rw [contains, BTreeMap.mem_keys, Option.isSome_iff_exists]

theorem contains_add (s : BTreeSet K) (k k' : K) :
    (s.add k).contains k' = if k' = k then true else s.contains k' := by
  unfold contains add
  rw [BTreeMap.get?_insert]
  split <;> rfl

theorem contains_add_self (s : BTreeSet K) (k : K) : (s.add k).contains k = true := by
  rw [contains_add, if_pos rfl]

theorem contains_add_of_contains {s : BTreeSet K} {k k' : K} (h : s.contains k = true) :
    (s.add k').contains k = true := by
  rw [contains_add, h, ite_self]

theorem mem_foldl_add {k : K} :
    ∀ (l : List K) (s : BTreeSet K), k ∈ (l.foldl add s).keys ↔ k ∈ l ∨ k ∈ s.keys := by
  intro l
  induction l with
  | nil => simp
  | cons a l ih =>
    intro s
    rw [List.foldl_cons, ih, add, BTreeMap.mem_keys_insert, List.mem_cons]
    constructor
    · rintro (h | h | h)
      · exact Or.inl (Or.inr h)
      · exact Or.inl (Or.inl h)
      · exact Or.inr h
    · rintro ((h | h) | h)
      · exact Or.inr (Or.inl h)
      · exact Or.inl h
      · exact Or.inr (Or.inr h)

@[simp] theorem mem_ofList {l : List K} {k : K} : k ∈ (ofList l).keys ↔ k ∈ l := by
  rw [ofList, mem_foldl_add]
  simp [BTreeMap.keys]

end BTreeSet

end BTreeMaps
