import Mathlib
import Fedi.Lib.BTreeMap

/-!
# Append-only logs kept per key

Every key has a table of numbered items; posting an item under a key appends it
with the number after the greatest one in use.  A book that has only been posted
to is determined by the list of its postings:

    Records b log → Records (postAll b log') (log ++ log')           (records_postAll)
    Records b log → (b.getD k .empty).get? i = (itemsOf k log)[i]?   (Records.get?)

so the numbers of every key are `0, 1, 2, …` without gaps, and what is written
once never changes.
-/

namespace KeyedLogs

open BTreeMaps

section
variable {K A : Type} [LinearOrder K]

abbrev Book (K A : Type) [LinearOrder K] := BTreeMap K (BTreeMap ℕ A)

/-- One more than the greatest number in use. -/
def nextSerial (t : BTreeMap ℕ A) : ℕ :=
  match t.entries.getLast? with
  | none => 0
  | some e => e.1 + 1

def post (b : Book K A) (p : K × A) : Book K A :=
  b.insert p.1 ((b.getD p.1 .empty).insert (nextSerial (b.getD p.1 .empty)) p.2)

def postAll (b : Book K A) (log : List (K × A)) : Book K A := log.foldl post b

/-- The items posted under a key, in order. -/
def itemsOf (k : K) (log : List (K × A)) : List A :=
  (log.filter fun p => decide (p.1 = k)).map Prod.snd

@[simp] theorem itemsOf_nil (k : K) : itemsOf k ([] : List (K × A)) = [] := rfl

@[simp] theorem itemsOf_append (k : K) (log log' : List (K × A)) :
    itemsOf k (log ++ log') = itemsOf k log ++ itemsOf k log' := by
  simp [itemsOf]

theorem itemsOf_cons (k : K) (p : K × A) (log : List (K × A)) :
    itemsOf k (p :: log) = if p.1 = k then p.2 :: itemsOf k log else itemsOf k log := by
  by_cases h : p.1 = k <;> simp [itemsOf, h]

theorem itemsOf_map_self (k : K) (xs : List A) : itemsOf k (xs.map (k, ·)) = xs := by
  induction xs with
  | nil => rfl
  | cons x xs ih => rw [List.map_cons, itemsOf_cons, if_pos rfl, ih]

theorem itemsOf_map_ne {k k' : K} (h : k' ≠ k) (xs : List A) : itemsOf k (xs.map (k', ·)) = [] := by
  induction xs with
  | nil => rfl
  | cons x xs ih => rw [List.map_cons, itemsOf_cons, if_neg h, ih]

theorem mem_itemsOf {k : K} {x : A} {log : List (K × A)} : x ∈ itemsOf k log ↔ (k, x) ∈ log := by
  simp [itemsOf]

@[simp] theorem postAll_nil (b : Book K A) : postAll b [] = b := rfl

@[simp] theorem postAll_cons (b : Book K A) (p : K × A) (log : List (K × A)) :
    postAll b (p :: log) = postAll (post b p) log := rfl

theorem postAll_append (b : Book K A) (log log' : List (K × A)) :
    postAll b (log ++ log') = postAll (postAll b log) log' := List.foldl_append

/-! ## Rows -/

/-- The item is written under the key. -/
def Row (b : Book K A) (k : K) (x : A) : Prop := ∃ i, (b.getD k .empty).get? i = some x

theorem row_post {b : Book K A} {p : K × A} {k : K} {x : A} (h : Row (post b p) k x) :
    Row b k x ∨ p = (k, x) := by
  obtain ⟨i, hi⟩ := h
  rw [post, BTreeMap.getD_insert] at hi
  split_ifs at hi with hk
  · rw [BTreeMap.get?_insert] at hi
    split_ifs at hi with hserial
    · cases hi
      exact .inr (by rw [hk])
    · exact .inl ⟨i, by rw [hk]; exact hi⟩
  · exact .inl ⟨i, hi⟩

/-- What is written was there, or was posted. -/
theorem row_postAll {b : Book K A} {log : List (K × A)} {k : K} {x : A} (h : Row (postAll b log) k x) :
    Row b k x ∨ (k, x) ∈ log := by
  induction log generalizing b with
  | nil => exact .inl h
  | cons p log ih =>
    rcases ih h with h | h
    · rcases row_post h with h | rfl
      · exact .inl h
      · exact .inr List.mem_cons_self
    · exact .inr (List.mem_cons_of_mem _ h)

/-! ## Numbered tables -/

/-- The table holds `xs`, numbered from zero. -/
def Numbered (t : BTreeMap ℕ A) (xs : List A) : Prop := t.entries = xs.mapIdx Prod.mk

theorem Numbered.nextSerial {t : BTreeMap ℕ A} {xs : List A} (h : Numbered t xs) :
    nextSerial t = xs.length := by
  unfold KeyedLogs.nextSerial
  rw [h]
  rcases List.eq_nil_or_concat' xs with rfl | ⟨ys, x, rfl⟩
  · rfl
  · simp [List.mapIdx_append]

/-- The greatest number in use is the last one. -/
theorem lt_nextSerial {t : BTreeMap ℕ A} {e : ℕ × A} (he : e ∈ t.entries) : e.1 < nextSerial t := by
  unfold nextSerial
  rcases List.eq_nil_or_concat' t.entries with hnil | ⟨l, last, hl⟩
  · rw [hnil] at he
    cases he
  · rw [hl, List.getLast?_concat]
    rw [hl] at he
    have hs := t.sorted
    rw [hl, List.pairwise_append] at hs
    rcases List.mem_append.mp he with he | he
    · exact Nat.lt_succ_of_lt (hs.2.2 e he last List.mem_cons_self)
    · rw [List.mem_singleton.mp he]
      exact Nat.lt_succ_self _

theorem insertEntry_append {V : Type} {k : K} {v : V} :
    ∀ {l : List (K × V)}, (∀ e ∈ l, e.1 < k) → insertEntry k v l = l ++ [(k, v)]
  | [], _ => rfl
  | (k', v') :: t, h => by
    have hlt : k' < k := h (k', v') List.mem_cons_self
    have ih := insertEntry_append (v := v) fun e he => h e (List.mem_cons_of_mem _ he)
    simp only [insertEntry, if_neg hlt.not_gt, if_neg hlt.ne', ih, List.cons_append]

theorem entries_insert_nextSerial (t : BTreeMap ℕ A) (x : A) :
    (t.insert (nextSerial t) x).entries = t.entries ++ [(nextSerial t, x)] :=
  insertEntry_append fun _ he => lt_nextSerial he

theorem nextSerial_insert (t : BTreeMap ℕ A) (x : A) :
    nextSerial (t.insert (nextSerial t) x) = nextSerial t + 1 := by
  conv_lhs => rw [nextSerial, entries_insert_nextSerial, List.getLast?_concat]

theorem Numbered.insert {t : BTreeMap ℕ A} {xs : List A} (h : Numbered t xs) (x : A) :
    Numbered (t.insert (KeyedLogs.nextSerial t) x) (xs ++ [x]) := by
  rw [Numbered, entries_insert_nextSerial, h.nextSerial, h, List.mapIdx_append]
  simp

theorem Numbered.values {t : BTreeMap ℕ A} {xs : List A} (h : Numbered t xs) : t.values = xs := by
  rw [BTreeMap.values, h]
  apply List.ext_getElem <;> simp

/-- The rows from `first` to below `last` of a numbered table. -/
theorem Numbered.range {t : BTreeMap ℕ A} {xs : List A} (h : Numbered t xs) (first last : ℕ) :
    ((t.entries.filter fun e => decide (first ≤ e.1 ∧ e.1 < last)).map Prod.snd) = (xs.take last).drop first := by
  rw [h]
  clear h
  induction xs using List.reverseRecOn with
  | nil => simp
  | append_singleton xs x ih =>
    rw [List.mapIdx_append, List.filter_append, List.map_append, ih, List.take_append, List.drop_append,
      List.length_take]
    congr 1
    by_cases hin : first ≤ xs.length ∧ xs.length < last
    · have hmin : min last xs.length = xs.length := by omega
      obtain ⟨k, hk⟩ : ∃ k, last - xs.length = k + 1 := ⟨last - xs.length - 1, by omega⟩
      have hfirst : first - xs.length = 0 := by omega
      simp [hin, hmin, hk, hfirst]
    · by_cases hlast : xs.length < last
      · have hmin : min last xs.length = xs.length := by omega
        obtain ⟨k, hk⟩ : ∃ k, last - xs.length = k + 1 := ⟨last - xs.length - 1, by omega⟩
        obtain ⟨j, hj⟩ : ∃ j, first - xs.length = j + 1 := ⟨first - xs.length - 1, by omega⟩
        simp [hin, hmin, hk, hj]
      · have hk : last - xs.length = 0 := by omega
        simp [hin, hk]

theorem Numbered.get? {t : BTreeMap ℕ A} {xs : List A} (h : Numbered t xs) (i : ℕ) :
    t.get? i = xs[i]? := by
  apply Option.ext
  intro x
  rw [← BTreeMap.mem_entries, h, List.mem_mapIdx, List.getElem?_eq_some_iff]
  constructor
  · rintro ⟨j, hj, he⟩
    cases he
    exact ⟨hj, rfl⟩
  · rintro ⟨hi, rfl⟩
    exact ⟨i, hi, rfl⟩

/-! ## Books -/

/-- The book holds the postings of `log` and nothing else. -/
def Records (b : Book K A) (log : List (K × A)) : Prop :=
  ∀ k, Numbered (b.getD k .empty) (itemsOf k log)

theorem records_empty : Records (.empty : Book K A) [] := fun _ => rfl

theorem records_post {b : Book K A} {log : List (K × A)} (h : Records b log) (p : K × A) :
    Records (post b p) (log ++ [p]) := by
  intro k
  rw [post, BTreeMap.getD_insert, itemsOf_append, itemsOf_cons, itemsOf_nil]
  split_ifs with h1 h2 h2
  · subst h1
    exact (h p.1).insert p.2
  · exact absurd h1.symm h2
  · exact absurd h2.symm h1
  · rw [List.append_nil]
    exact h k

theorem records_postAll {b : Book K A} {log : List (K × A)} (h : Records b log) :
    ∀ log', Records (postAll b log') (log ++ log') := by
  intro log'
  induction log' generalizing b log with
  | nil => simpa using h
  | cons p log' ih =>
    have := ih (records_post h p)
    rwa [List.append_assoc, List.singleton_append] at this

theorem Records.get? {b : Book K A} {log : List (K × A)} (h : Records b log) (k : K) (i : ℕ) :
    (b.getD k .empty).get? i = (itemsOf k log)[i]? := (h k).get? i

theorem Records.values {b : Book K A} {log : List (K × A)} (h : Records b log) (k : K) :
    (b.getD k .empty).values = itemsOf k log := (h k).values

end

end KeyedLogs
