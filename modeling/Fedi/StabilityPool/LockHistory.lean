import Fedi.StabilityPool.Matching

/-!
# The history of locks (`update_history_for_locks`)

Old and new locks are compared per account and sequence, and each difference
becomes one posting.  With distinct sequences on both sides the postings account
for the whole change:

    credit + (new locks) = debit + (old locks)                       (lockLog_balance)

for the `LockedToStaged` credit and the `StagedToLocked` debit of every weight.
-/

namespace StabilityPool

open BTreeMaps KeyedLogs Runs

section
variable {M : Type}

/-- Account and sequence of a deposit: the key of `StateDiffMap`. -/
def stateKey (e : AccountId × Deposit M) : AccountId ×ₗ ℕ := toLex (e.1, e.2.sequence)

def stateKeys (l : List (AccountId × Deposit M)) : List (AccountId ×ₗ ℕ) := l.map stateKey

theorem stateKeys_eq_pairHeads (l : List (AccountId × Deposit M)) :
    stateKeys l = (pairHeads l).map fun h => toLex (h.1, h.2.2.1) := by
  rw [pairHeads, List.map_map]
  rfl

/-- Amount of an optional deposit. -/
def stateAmount (d : Option (Deposit M)) : ℕ := (d.map (·.amount)).getD 0

/-- The amounts of one side of the map, weighted. -/
def oldWeight (w : AccountId → ℕ → ℕ) (m : StateDiffMap M) : ℕ :=
  m.sumBy fun k st => w (ofLex k).1 (ofLex k).2 * stateAmount st.1

def newWeight (w : AccountId → ℕ → ℕ) (m : StateDiffMap M) : ℕ :=
  m.sumBy fun k st => w (ofLex k).1 (ofLex k).2 * stateAmount st.2

/-! ## Populating the map -/

/-- The entries of a map of old states only. -/
def OldOnly (m : StateDiffMap M) : Prop := ∀ k st, m.get? k = some st → st.2 = none

theorem foldl_populateOld (w : AccountId → ℕ → ℕ) :
    ∀ (l : List (AccountId × Deposit M)) (m : StateDiffMap M), (stateKeys l).Nodup →
      (∀ k ∈ stateKeys l, m.get? k = none) →
      oldWeight w (l.foldl (fun m e => m.insert (toLex (e.1, e.2.sequence)) (some e.2, none)) m) =
        oldWeight w m + pairsWeight w l
  | [], m, _, _ => rfl
  | e :: l, m, hnd, hnone => by
    obtain ⟨hnot, hnd⟩ := List.nodup_cons.mp hnd
    rw [List.foldl_cons, foldl_populateOld w l _ hnd]
    · have h := BTreeMap.sumBy_insert
        (fun k (st : Option (Deposit M) × Option (Deposit M)) =>
          w (ofLex k).1 (ofLex k).2 * stateAmount st.1) m (stateKey e) (some e.2, none)
      rw [hnone _ List.mem_cons_self, Option.elim_none] at h
      have h' : oldWeight w (m.insert (stateKey e) (some e.2, none)) =
          oldWeight w m + w e.1 e.2.sequence * e.2.amount := h
      rw [pairsWeight_cons]
      show oldWeight w (m.insert (stateKey e) (some e.2, none)) + _ = _
      omega
    · intro k hk
      have hne : k ≠ stateKey e := fun he => hnot (he ▸ hk)
      show (m.insert (stateKey e) (some e.2, none)).get? k = none
      rw [BTreeMap.get?_insert_ne _ _ hne]
      exact hnone k (List.mem_cons_of_mem _ hk)

theorem foldl_populateOld_get? {P : (AccountId ×ₗ ℕ) → Option (Deposit M) × Option (Deposit M) → Prop} :
    ∀ (l : List (AccountId × Deposit M)) (m : StateDiffMap M),
      (∀ e ∈ l, P (stateKey e) (some e.2, none)) → (∀ k st, m.get? k = some st → P k st) →
      ∀ k st, (l.foldl (fun m e => m.insert (toLex (e.1, e.2.sequence)) (some e.2, none)) m).get? k =
        some st → P k st
  | [], m, _, hm => hm
  | e :: l, m, hl, hm => by
    rw [List.foldl_cons]
    refine foldl_populateOld_get? l _ (fun e he => hl e (List.mem_cons_of_mem _ he)) fun k st h => ?_
    rw [BTreeMap.get?_insert] at h
    split_ifs at h with hk
    · cases h
      rw [hk]
      exact hl e List.mem_cons_self
    · exact hm k st h

/-- Adding a new state keeps the old one of its key. -/
def addNew (m : StateDiffMap M) (e : AccountId × Deposit M) : StateDiffMap M :=
  m.insert (stateKey e) (((m.get? (stateKey e)).map Prod.fst).join, some e.2)

theorem populateNew_eq (l : List (AccountId × Deposit M)) (m : StateDiffMap M) :
    populateNew l m = l.foldl addNew m := by
  unfold populateNew
  congr 1
  funext m e
  unfold addNew stateKey
  cases m.get? (toLex (e.1, e.2.sequence)) with
  | none => rfl
  | some st => rfl

theorem oldWeight_addNew (w : AccountId → ℕ → ℕ) (m : StateDiffMap M) (e : AccountId × Deposit M) :
    oldWeight w (addNew m e) = oldWeight w m := by
  have h := BTreeMap.sumBy_insert
    (fun k (st : Option (Deposit M) × Option (Deposit M)) =>
      w (ofLex k).1 (ofLex k).2 * stateAmount st.1) m (stateKey e)
    (((m.get? (stateKey e)).map Prod.fst).join, some e.2)
  cases hg : m.get? (stateKey e) with
  | none =>
    rw [hg] at h
    simp only [Option.elim_none, Option.map_none, Option.join_none] at h
    rw [addNew, hg]
    exact h
  | some st =>
    rw [hg] at h
    simp only [Option.elim_some, Option.map_some, Option.join_some] at h
    rw [addNew, hg]
    exact Nat.add_right_cancel h

theorem newWeight_addNew (w : AccountId → ℕ → ℕ) {m : StateDiffMap M} {e : AccountId × Deposit M}
    (hnone : ∀ st, m.get? (stateKey e) = some st → st.2 = none) :
    newWeight w (addNew m e) = newWeight w m + w e.1 e.2.sequence * e.2.amount := by
  have h := BTreeMap.sumBy_insert
    (fun k (st : Option (Deposit M) × Option (Deposit M)) =>
      w (ofLex k).1 (ofLex k).2 * stateAmount st.2) m (stateKey e)
    (((m.get? (stateKey e)).map Prod.fst).join, some e.2)
  cases hg : m.get? (stateKey e) with
  | none =>
    rw [hg, Option.elim_none] at h
    rw [addNew, hg]
    exact h
  | some st =>
    rw [hg, Option.elim_some, hnone st hg] at h
    rw [addNew, hg]
    exact h

theorem foldl_addNew (w : AccountId → ℕ → ℕ) :
    ∀ (l : List (AccountId × Deposit M)) (m : StateDiffMap M), (stateKeys l).Nodup →
      (∀ k ∈ stateKeys l, ∀ st, m.get? k = some st → st.2 = none) →
      oldWeight w (l.foldl addNew m) = oldWeight w m ∧
        newWeight w (l.foldl addNew m) = newWeight w m + pairsWeight w l
  | [], m, _, _ => ⟨rfl, rfl⟩
  | e :: l, m, hnd, hnone => by
    obtain ⟨hnot, hnd⟩ := List.nodup_cons.mp hnd
    obtain ⟨ih1, ih2⟩ := foldl_addNew w l (addNew m e) hnd fun k hk st hst => by
      have hne : k ≠ stateKey e := fun he => hnot (he ▸ hk)
      rw [addNew, BTreeMap.get?_insert_ne _ _ hne] at hst
      exact hnone k (List.mem_cons_of_mem _ hk) st hst
    rw [List.foldl_cons, ih1, ih2, oldWeight_addNew, newWeight_addNew w (hnone _ List.mem_cons_self),
      pairsWeight_cons]
    exact ⟨rfl, by omega⟩

theorem foldl_addNew_get? {P : (AccountId ×ₗ ℕ) → Option (Deposit M) × Option (Deposit M) → Prop} :
    ∀ (l : List (AccountId × Deposit M)) (m : StateDiffMap M),
      (∀ e ∈ l, ∀ o, (o = none ∨ ∃ n, P (stateKey e) (o, n)) → P (stateKey e) (o, some e.2)) →
      (∀ k st, m.get? k = some st → P k st) →
      ∀ k st, (l.foldl addNew m).get? k = some st → P k st
  | [], m, _, hm => hm
  | e :: l, m, hl, hm => by
    rw [List.foldl_cons]
    refine foldl_addNew_get? l _ (fun e he => hl e (List.mem_cons_of_mem _ he)) fun k st h => ?_
    rw [addNew, BTreeMap.get?_insert] at h
    split_ifs at h with hk
    · cases h
      rw [hk]
      refine hl e List.mem_cons_self _ ?_
      cases hg : m.get? (stateKey e) with
      | none => exact Or.inl rfl
      | some st => exact Or.inr ⟨st.2, hm _ st hg⟩
    · exact hm k st h

/-- The map of `update_history_for_locks`. -/
def lockDiff (oldCycleLocks : DepositTable M) (newLocks : List (AccountId × Deposit M)) : StateDiffMap M :=
  populateNew newLocks (populateOld oldCycleLocks)

theorem lockDiff_weight (w : AccountId → ℕ → ℕ) {old : DepositTable M}
    {new : List (AccountId × Deposit M)} (hold : (stateKeys old.pairs).Nodup)
    (hnew : (stateKeys new).Nodup) :
    oldWeight w (lockDiff old new) = tableWeight w old ∧
      newWeight w (lockDiff old new) = pairsWeight w new := by
  have holdOnly : OldOnly (populateOld old) := by
    refine foldl_populateOld_get? old.pairs .empty (fun _ _ => rfl) fun k st h => ?_
    rw [BTreeMap.get?_empty] at h
    cases h
  have h0 : newWeight w (populateOld old) = 0 := by
    refine BTreeMap.sumBy_eq_zero.mpr fun k st h => ?_
    rw [holdOnly k st h]
    rfl
  have h1 : oldWeight w (populateOld old) = pairsWeight w old.pairs := by
    rw [populateOld, foldl_populateOld w _ _ hold fun k _ => BTreeMap.get?_empty k]
    exact Nat.zero_add _
  obtain ⟨h2, h3⟩ := foldl_addNew w new (populateOld old) hnew fun k _ st h => holdOnly k st h
  rw [lockDiff, populateNew_eq, h2, h3, h1, h0, tableWeight_eq_pairs]
  exact ⟨rfl, Nat.zero_add _⟩

/-- Every state of the map is of a deposit of the old or the new locks. -/
theorem lockDiff_get? {old : DepositTable M} {new : List (AccountId × Deposit M)} {a : AccountId}
    {q : ℕ} {st : Option (Deposit M) × Option (Deposit M)}
    (h : (lockDiff old new).get? (toLex (a, q)) = some st) :
    (∀ d, st.1 = some d → d ∈ old.getD a [] ∧ d.sequence = q) ∧
      (∀ d, st.2 = some d → (a, d) ∈ new ∧ d.sequence = q) ∧ st ≠ (none, none) := by
  have hP := foldl_addNew_get?
    (P := fun k st => (∀ d, st.1 = some d → d ∈ old.getD (ofLex k).1 [] ∧ d.sequence = (ofLex k).2) ∧
      (∀ d, st.2 = some d → ((ofLex k).1, d) ∈ new ∧ d.sequence = (ofLex k).2) ∧ st ≠ (none, none))
    new (populateOld old) ?_ ?_ (toLex (a, q)) st (by rw [← populateNew_eq]; exact h)
  · exact hP
  · rintro e he o ho
    refine ⟨fun d hd => ?_, fun d hd => ?_, by simp⟩
    · rcases ho with rfl | ⟨n, hn⟩
      · cases hd
      · exact hn.1 d hd
    · cases hd
      exact ⟨he, rfl⟩
  · refine foldl_populateOld_get? old.pairs .empty (fun e he => ⟨fun d hd => ?_, fun d hd => ?_, by simp⟩)
      fun k st h => ?_
    · cases hd
      exact ⟨BTreeMap.mem_pairs.mp he, rfl⟩
    · cases hd
    · rw [BTreeMap.get?_empty] at h
      cases h

/-! ## The postings -/

/-- A posting of one entry. -/
def lockChange (info : CycleInfo)
    (e : (AccountId ×ₗ ℕ) × (Option (Deposit M) × Option (Deposit M))) (kind : AccountHistoryItemKind)
    (amount : ℕ) : Posting :=
  ((ofLex e.1).1, { cycle := info, kind := kind, txid := ((e.2.1.or e.2.2).map (·.txid)).getD 0,
                    depositSequence := (ofLex e.1).2, amount := amount })

/-- The posting, if any, of one entry. -/
def lockPosting (info : CycleInfo)
    (e : (AccountId ×ₗ ℕ) × (Option (Deposit M) × Option (Deposit M))) : Option Posting :=
  if stateAmount e.2.2 < stateAmount e.2.1 then
    some (lockChange info e .lockedToStaged (stateAmount e.2.1 - stateAmount e.2.2))
  else if stateAmount e.2.1 < stateAmount e.2.2 then
    some (lockChange info e .stagedToLocked (stateAmount e.2.2 - stateAmount e.2.1))
  else none

def lockLog (info : CycleInfo) (old : DepositTable M) (new : List (AccountId × Deposit M)) :
    List Posting := (lockDiff old new).entries.filterMap (lockPosting info)

theorem lockHistoryItem_eq (info : CycleInfo)
    (e : (AccountId ×ₗ ℕ) × (Option (Deposit M) × Option (Deposit M))) (hne : e.2 ≠ (none, none)) :
    lockHistoryItem info (ofLex e.1).2 e.2 = .ok ((lockPosting info e).map Prod.snd) := by
  obtain ⟨k, o, n⟩ := e
  have hcases : lockHistoryItem info (ofLex k).2 (o, n) =
      if stateAmount n < stateAmount o then
        .ok (some { cycle := info, kind := .lockedToStaged, txid := ((o.or n).map (·.txid)).getD 0,
                    depositSequence := (ofLex k).2, amount := stateAmount o - stateAmount n })
      else if stateAmount n = stateAmount o then .ok none
      else .ok (some { cycle := info, kind := .stagedToLocked, txid := ((o.or n).map (·.txid)).getD 0,
                       depositSequence := (ofLex k).2, amount := stateAmount n - stateAmount o }) := by
    cases o <;> cases n
    · exact absurd rfl hne
    · rfl
    · rfl
    · rfl
  rw [hcases, lockPosting]
  by_cases h1 : stateAmount n < stateAmount o
  · simp only [if_pos h1]
    rfl
  · by_cases h2 : stateAmount n = stateAmount o
    · simp only [h2, lt_irrefl, if_false]
      rfl
    · simp only [if_neg h1, if_neg h2, if_pos (show stateAmount o < stateAmount n by omega)]
      rfl

theorem lockPosting_account {info : CycleInfo}
    {e : (AccountId ×ₗ ℕ) × (Option (Deposit M) × Option (Deposit M))} {p : Posting}
    (h : lockPosting info e = some p) : p.1 = (ofLex e.1).1 := by
  unfold lockPosting at h
  split_ifs at h <;> cases h <;> rfl

theorem updateHistoryLoop_eq (info : CycleInfo) :
    ∀ (l : List ((AccountId ×ₗ ℕ) × (Option (Deposit M) × Option (Deposit M)))) (db : Db),
      (∀ e ∈ l, e.2 ≠ (none, none)) → updateHistoryLoop info l db =
        .ok { db with accountHistory := postAll db.accountHistory (l.filterMap (lockPosting info)) }
  | [], db, _ => rfl
  | e :: l, db, hne => by
    have ih := fun db => updateHistoryLoop_eq info l db fun e he => hne e (List.mem_cons_of_mem _ he)
    rw [updateHistoryLoop, lockHistoryItem_eq info e (hne e List.mem_cons_self), ok_bind,
      List.filterMap_cons]
    cases hp : lockPosting info e with
    | none => exact ih db
    | some p =>
      simp only [Option.map_some]
      rw [ih, addAccountHistoryItems_eq, ← lockPosting_account hp]
      rfl

/-- The history of locks never fails and only posts. -/
theorem updateHistoryForLocks_eq (db : Db) (old : DepositTable M) (new : List (AccountId × Deposit M))
    (info : CycleInfo) : updateHistoryForLocks db old new info =
      .ok { db with accountHistory := postAll db.accountHistory (lockLog info old new) } := by
  refine updateHistoryLoop_eq info _ db fun e he => ?_
  obtain ⟨k, st⟩ := e
  exact (lockDiff_get? (a := (ofLex k).1) (q := (ofLex k).2) (BTreeMap.mem_entries.mp he)).2.2

/-- A posting of the log is the difference at its account and sequence. -/
theorem mem_lockLog {info : CycleInfo} {old : DepositTable M} {new : List (AccountId × Deposit M)}
    {p : Posting} (h : p ∈ lockLog info old new) :
    ∃ o n, (∀ d, o = some d → d ∈ old.getD p.1 [] ∧ d.sequence = p.2.depositSequence) ∧
      (∀ d, n = some d → (p.1, d) ∈ new ∧ d.sequence = p.2.depositSequence) ∧
      lockPosting info (toLex (p.1, p.2.depositSequence), o, n) = some p := by
  rw [lockLog, List.mem_filterMap] at h
  obtain ⟨⟨k, o, n⟩, he, hp⟩ := h
  have hk : k = toLex (p.1, p.2.depositSequence) := by
    unfold lockPosting at hp
    split_ifs at hp <;> cases hp <;> rfl
  subst hk
  obtain ⟨h1, h2, -⟩ := lockDiff_get? (BTreeMap.mem_entries.mp he)
  exact ⟨o, n, h1, h2, hp⟩

theorem postedWeight_filterMap (p : AccountHistoryItemKind → Bool) (w : AccountId → ℕ → ℕ)
    (info : CycleInfo) :
    ∀ l : List ((AccountId ×ₗ ℕ) × (Option (Deposit M) × Option (Deposit M))),
      postedWeight p w (l.filterMap (lockPosting info)) =
        (l.map fun e => w (ofLex e.1).1 (ofLex e.1).2 *
          ((if p .lockedToStaged then stateAmount e.2.1 - stateAmount e.2.2 else 0) +
            if p .stagedToLocked then stateAmount e.2.2 - stateAmount e.2.1 else 0)).sum
  | [] => rfl
  | e :: l => by
    have ih := postedWeight_filterMap p w info l
    rw [List.filterMap_cons, List.map_cons, List.sum_cons, ← ih]
    rcases lt_trichotomy (stateAmount e.2.2) (stateAmount e.2.1) with h | h | h
    · have hp : lockPosting info e = some (lockChange info e .lockedToStaged _) := if_pos h
      have hz : stateAmount e.2.2 - stateAmount e.2.1 = 0 := by omega
      simp only [hp, postedWeight_cons, lockChange, hz, ite_self, Nat.add_zero, mul_ite, Nat.mul_zero]
    · have hp : lockPosting info e = none := by simp [lockPosting, h]
      simp only [hp, h, Nat.sub_self, ite_self, Nat.mul_zero, Nat.zero_add]
    · have hp : lockPosting info e = some (lockChange info e .stagedToLocked _) :=
        (if_neg h.not_gt).trans (if_pos h)
      have hz : stateAmount e.2.1 - stateAmount e.2.2 = 0 := by omega
      simp only [hp, postedWeight_cons, lockChange, hz, ite_self, Nat.zero_add, mul_ite, Nat.mul_zero]

theorem sum_map_sub_balance {A : Type} (w f g : A → ℕ) :
    ∀ l : List A, (l.map fun x => w x * (f x - g x)).sum + (l.map fun x => w x * g x).sum =
      (l.map fun x => w x * (g x - f x)).sum + (l.map fun x => w x * f x).sum
  | [] => rfl
  | x :: l => by
    have ih := sum_map_sub_balance w f g l
    have hx : w x * (f x - g x) + w x * g x = w x * (g x - f x) + w x * f x := by
      rw [← Nat.mul_add, ← Nat.mul_add]
      congr 1
      omega
    simp only [List.map_cons, List.sum_cons]
    omega

/-- What is unlocked, plus the new locks, is what is locked, plus the old locks. -/
theorem lockLog_balance (info : CycleInfo) (w : AccountId → ℕ → ℕ) {old : DepositTable M}
    {new : List (AccountId × Deposit M)} (hold : (stateKeys old.pairs).Nodup)
    (hnew : (stateKeys new).Nodup) :
    postedWeight AccountHistoryItemKind.stagedCredit w (lockLog info old new) + pairsWeight w new =
      postedWeight AccountHistoryItemKind.stagedDebit w (lockLog info old new) + tableWeight w old := by
  obtain ⟨h1, h2⟩ := lockDiff_weight w hold hnew
  have hb := sum_map_sub_balance (fun e => w (ofLex e.1).1 (ofLex e.1).2)
    (fun e => stateAmount e.2.1) (fun e => stateAmount e.2.2) (lockDiff old new).entries
  rw [lockLog, postedWeight_filterMap, postedWeight_filterMap, ← h1, ← h2]
  simpa [AccountHistoryItemKind.stagedCredit, AccountHistoryItemKind.stagedDebit, oldWeight, newWeight,
    BTreeMap.sumBy, sumEntries] using hb

end

end StabilityPool
