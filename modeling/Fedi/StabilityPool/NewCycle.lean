import Fedi.StabilityPool.Settlement

/-!
# Locking deposits and writing the new cycle

`calculateLocksAndWriteCycle` empties the staged tables (but for btc depositors)
into sorted lists, locks a prefix of each, writes the rest back, posts the
difference to the old locks, charges the seeks and pays the providers.
`CycleWritten` says what that adds up to:

    staged' + (locks before fees) = staged                (staged_seek, staged_provide)
    (charged seeks) * cp ≤ (locked provides) * cs         (covered)
    idle' = idle + (fees charged)                         (idle_sum)
-/

namespace StabilityPool

open BTreeMaps KeyedLogs Runs

/-! ## Extraction and write-back -/

section
variable {M : Type}

theorem pairHeads_perm {l l' : List (AccountId × Deposit M)} (h : l.Perm l') :
    (pairHeads l).Perm (pairHeads l') := h.map _

theorem mem_pairHeads {l : List (AccountId × Deposit M)} {a : AccountId} {x : TransactionId × ℕ × M} :
    (a, x) ∈ pairHeads l ↔ ∃ d, (a, d) ∈ l ∧ d.head = x := by
  simp only [pairHeads, List.mem_map, Prod.mk.injEq]
  constructor
  · rintro ⟨⟨a', d⟩, hd, rfl, rfl⟩
    exact ⟨d, hd, rfl⟩
  · rintro ⟨d, hd, rfl⟩
    exact ⟨(a, d), hd, rfl, rfl⟩

theorem mem_pairHeads_pairs {t : DepositTable M} {a : AccountId} {x : TransactionId × ℕ × M} :
    (a, x) ∈ pairHeads t.pairs ↔ x ∈ heads (t.getD a []) := by
  rw [mem_pairHeads, heads, List.mem_map]
  simp only [BTreeMap.mem_pairs]

theorem mem_heads_groupMap {l : List (AccountId × Deposit M)} {a : AccountId}
    {x : TransactionId × ℕ × M} :
    x ∈ heads ((BTreeMap.groupMap l).getD a []) ↔ (a, x) ∈ pairHeads l := by
  rw [BTreeMap.getD_groupMap, mem_pairHeads, heads]
  simp only [List.mem_map, List.mem_filter, decide_eq_true_eq]
  constructor
  · rintro ⟨d, ⟨e, ⟨he, rfl⟩, rfl⟩, rfl⟩
    exact ⟨e.2, he, rfl⟩
  · rintro ⟨d, hd, rfl⟩
    exact ⟨d, ⟨(a, d), ⟨hd, rfl⟩, rfl⟩, rfl⟩

/-- Distinct sequences per account are distinct keys of the whole table. -/
theorem stateKeys_pairs_nodup {t : DepositTable M} (h : ∀ a, (sequences (t.getD a [])).Nodup) :
    (stateKeys t.pairs).Nodup := by
  have hflat : stateKeys t.pairs = t.entries.flatMap fun e => e.2.map fun d => toLex (e.1, d.sequence) := by
    simp only [stateKeys, BTreeMap.pairs, List.map_flatMap, List.map_map]
    rfl
  rw [hflat, List.nodup_flatMap]
  constructor
  · intro e he
    have hnd := h e.1
    rw [BTreeMap.getD_of_get? (BTreeMap.mem_entries.mp he)] at hnd
    have hmap : (e.2.map fun d => toLex (e.1, d.sequence)) =
        (sequences e.2).map fun q => toLex (e.1, q) := by
      rw [sequences, List.map_map]
      rfl
    rw [hmap]
    exact hnd.map fun q q' hq => by simpa using hq
  · refine t.sorted.imp fun {e e'} hlt => ?_
    simp only [Function.onFun, List.disjoint_left, List.mem_map]
    rintro k ⟨d, -, rfl⟩ ⟨d', -, hd'⟩
    have hee : e'.1 = e.1 := by
      have := congrArg (fun k => (ofLex k).1) hd'
      simpa using this
    rw [hee] at hlt
    exact lt_irrefl _ hlt

theorem groupMap_nodup {l : List (AccountId × Deposit M)} (h : (stateKeys l).Nodup) (a : AccountId) :
    (sequences ((BTreeMap.groupMap l).getD a [])).Nodup := by
  rw [BTreeMap.getD_groupMap]
  have hsub : (stateKeys (l.filter fun e => decide (e.1 = a))).Nodup :=
    h.sublist (List.filter_sublist.map _)
  have hkey : stateKeys (l.filter fun e => decide (e.1 = a)) =
      (sequences ((l.filter fun e => decide (e.1 = a)).map Prod.snd)).map fun q => toLex (a, q) := by
    rw [stateKeys, sequences, List.map_map, List.map_map]
    refine List.map_congr_left fun e he => ?_
    have : e.1 = a := by simpa using (List.mem_filter.mp he).2
    rw [← this]
    rfl
  rw [hkey] at hsub
  exact List.Nodup.of_map _ hsub

theorem stateKeys_sublist {l l' : List (AccountId × Deposit M)} (h : (pairHeads l).Sublist (pairHeads l'))
    (hnd : (stateKeys l').Nodup) : (stateKeys l).Nodup := by
  rw [stateKeys_eq_pairHeads] at hnd ⊢
  exact hnd.sublist (h.map _)

end

theorem sortedStagedSeeks_perm (db : Db) :
    (sortedStagedSeeks db).Perm (db.stagedSeeks.filterKeys stabilizes).pairs :=
  List.perm_insertionSort _ _

theorem sortedStagedProvides_perm (db : Db) :
    (sortedStagedProvides db).Perm db.stagedProvides.pairs := List.perm_insertionSort _ _

theorem getD_filterKeys {M : Type} (t : DepositTable M) (p : AccountId → Bool) (a : AccountId) :
    (t.filterKeys p).getD a [] = if p a then t.getD a [] else [] := by
  rw [BTreeMap.getD, BTreeMap.get?_filterKeys]
  split_ifs <;> rfl

theorem stabilizes_iff {a : AccountId} : stabilizes a = true ↔ a.accType ≠ .btcDepositor := by
  simp [stabilizes]

/-- A seek that stays staged belongs to its account, which is no btc depositor. -/
theorem mem_sortedStagedSeeks {db : Db} {a : AccountId} {x : TransactionId × ℕ × Unit} :
    (a, x) ∈ pairHeads (sortedStagedSeeks db) ↔
      a.accType ≠ .btcDepositor ∧ x ∈ heads (db.stagedSeeks.getD a []) := by
  rw [(pairHeads_perm (sortedStagedSeeks_perm db)).mem_iff, mem_pairHeads_pairs, getD_filterKeys,
    ← stabilizes_iff]
  by_cases h : stabilizes a = true
  · simp [h]
  · simp [h, heads]

theorem mem_sortedStagedProvides {db : Db} {a : AccountId} {x : TransactionId × ℕ × FeeRate} :
    (a, x) ∈ pairHeads (sortedStagedProvides db) ↔ x ∈ heads (db.stagedProvides.getD a []) := by
  rw [(pairHeads_perm (sortedStagedProvides_perm db)).mem_iff, mem_pairHeads_pairs]

theorem pairsWeight_sortedStagedSeeks (db : Db) (w : AccountId → ℕ → ℕ) :
    tableWeight w (db.stagedSeeks.filterKeys fun a => !stabilizes a) +
      pairsWeight w (sortedStagedSeeks db) = tableWeight w db.stagedSeeks := by
  rw [pairsWeight_perm w (sortedStagedSeeks_perm db), ← tableWeight_eq_pairs, Nat.add_comm]
  exact BTreeMap.sumBy_filterKeys _ _ _

theorem pairsWeight_sortedStagedProvides (db : Db) (w : AccountId → ℕ → ℕ) :
    pairsWeight w (sortedStagedProvides db) = tableWeight w db.stagedProvides := by
  rw [pairsWeight_perm w (sortedStagedProvides_perm db), ← tableWeight_eq_pairs]

section
variable {M : Type}

/-- Writing groups back into a table that has none of their accounts. -/
theorem insertAll_groupMap {t : DepositTable M} {l : List (AccountId × Deposit M)}
    (h : ∀ e ∈ l, t.get? e.1 = none) :
    (∀ w, tableWeight w (t.insertAll (BTreeMap.groupMap l)) = tableWeight w t + pairsWeight w l) ∧
      ∀ a, (t.insertAll (BTreeMap.groupMap l)).getD a [] =
        t.getD a [] ++ (BTreeMap.groupMap l).getD a [] := by
  have hkeys : ∀ a ∈ (BTreeMap.groupMap l).keys, t.get? a = none := by
    intro a ha
    obtain ⟨as, has⟩ := BTreeMap.mem_keys.mp ha
    have hex : ∃ e ∈ l, e.1 = a := by
      by_contra hno
      push Not at hno
      rw [BTreeMap.get?_groupMap_eq_none.mpr hno] at has
      cases has
    obtain ⟨e, he, rfl⟩ := hex
    exact h e he
  refine ⟨fun w => ?_, fun a => ?_⟩
  · rw [tableWeight, BTreeMap.sumBy_insertAll _ hkeys]
    show tableWeight w t + tableWeight w _ = _
    rw [tableWeight_groupMap]
  · cases hg : (BTreeMap.groupMap l).get? a with
    | none =>
      rw [BTreeMap.getD_of_none hg, List.append_nil, BTreeMap.getD, BTreeMap.getD,
        BTreeMap.get?_insertAll, hg]
      rfl
    | some ds =>
      have hnone := hkeys a (BTreeMap.mem_keys.mpr ⟨ds, hg⟩)
      rw [BTreeMap.getD_of_none hnone, BTreeMap.getD_of_get? hg, List.nil_append, BTreeMap.getD,
        BTreeMap.get?_insertAll, hg]
      rfl

end

/-! ## Fees -/

theorem feesOwed_ok {pool included : ℕ} :
    ∀ {l : List (AccountId × List Provide)} {draining : ℕ} {r : List (AccountId × ℕ) × ℕ},
      feesOwed pool included l draining = .ok r →
        r.1.map Prod.fst = l.map Prod.fst ∧ (r.1.map Prod.snd).sum + r.2 = draining
  | [], draining, r, h => by
    cases h
    exact ⟨rfl, by simp⟩
  | (a, provides) :: l, draining, r, h => by
    obtain ⟨owed, -, h⟩ := bind_eq_ok.mp h
    obtain ⟨left, hleft, h⟩ := bind_eq_ok.mp h
    obtain ⟨r', hr', h⟩ := bind_eq_ok.mp h
    rw [pure_eq_ok] at h
    subst h
    simp only [subP] at hleft
    split_ifs at hleft with hlt
    cases hleft
    obtain ⟨h1, h2⟩ := feesOwed_ok hr'
    refine ⟨by simp [h1], ?_⟩
    simp only [List.map_cons, List.sum_cons]
    omega

theorem map_modify_snd {A : Type} (c : ℕ) (l : List (A × ℕ)) (i : ℕ) :
    (l.modify i fun e => (e.1, e.2 + c)).map Prod.snd = (l.map Prod.snd).modify i (· + c) := by
  induction l generalizing i with
  | nil => simp
  | cons e l ih => cases i <;> simp [ih]

theorem map_modify_fst {A : Type} (c : ℕ) (l : List (A × ℕ)) (i : ℕ) :
    (l.modify i fun e => (e.1, e.2 + c)).map Prod.fst = l.map Prod.fst := by
  induction l generalizing i with
  | nil => simp
  | cons e l ih => cases i <;> simp [ih]

theorem addLeftoverFee_ok {fees r : List (AccountId × ℕ)} {leftover randomness : ℕ}
    (h : addLeftoverFee fees leftover randomness = .ok r) :
    r.map Prod.fst = fees.map Prod.fst ∧ (r.map Prod.snd).sum = (fees.map Prod.snd).sum + leftover := by
  unfold addLeftoverFee at h
  split_ifs at h with hz
  · obtain ⟨i, hi, h⟩ := bind_eq_ok.mp h
    rw [pure_eq_ok] at h
    subst h
    simp only [modP] at hi
    split_ifs at hi with hlen
    cases hi
    refine ⟨map_modify_fst _ _ _, ?_⟩
    rw [map_modify_snd, ProRata.sum_modify_add]
    rw [List.length_map]
    exact Nat.mod_lt _ (Nat.pos_of_ne_zero hlen)
  · rw [pure_eq_ok] at h
    subst h
    rw [not_not] at hz
    exact ⟨rfl, by omega⟩

theorem payFees_ok :
    ∀ {fees : List (AccountId × ℕ)} {db db' : Db}, payFees fees db = .ok db' →
      (∃ idle, db' = { db with idleBalance := idle }) ∧
        db'.idleBalance.sumBy (fun _ x => x) =
          db.idleBalance.sumBy (fun _ x => x) + (fees.map Prod.snd).sum ∧
        ∀ a, a ∉ fees.map Prod.fst → db'.idleBalance.getD a 0 = db.idleBalance.getD a 0
  | [], db, db', h => by
    cases h
    exact ⟨⟨db.idleBalance, rfl⟩, rfl, fun _ _ => rfl⟩
  | (a, fee) :: fees, db, db', h => by
    obtain ⟨fee', hfee, h⟩ := bind_eq_ok.mp h
    simp only [unwrapU64] at hfee
    split_ifs at hfee
    cases hfee
    obtain ⟨⟨idle, h1⟩, h2, h3⟩ := payFees_ok h
    have hins := BTreeMap.sumBy_insert_getD (f := fun _ x => x) (d := 0) db.idleBalance a
      (db.idleBalance.getD a 0 + fee) rfl
    refine ⟨⟨idle, h1⟩, ?_, fun a' ha' => ?_⟩
    · rw [h2, creditIdleBalance]
      simp only [List.map_cons, List.sum_cons] at hins ⊢
      omega
    · have hne : a' ≠ a := fun he => ha' (by rw [he]; exact List.mem_cons_self)
      rw [h3 a' fun hm => ha' (List.mem_cons_of_mem _ hm), creditIdleBalance_getD, if_neg hne, Nat.add_zero]

/-! ## The new cycle -/

/-- What writing the new cycle did. -/
structure CycleWritten (ratio : CollateralRatio) (db : Db) (info : CycleInfo) (old : Locks) (db' : Db)
    (seeks charged : List AccountSeek) (provides : List AccountProvide) (feeRate feePool : ℕ) : Prop where
  current : db'.currentCycle = some
    { index := info.idx, startTime := info.startTime, startPrice := info.startPrice,
      feeRate := ⟨feeRate⟩, lockedSeeks := BTreeMap.groupMap charged,
      lockedProvides := BTreeMap.groupMap provides }
  seeks_matched : ∃ staged, Matched (sortedStagedSeeks db) seeks staged ∧
    db'.stagedSeeks = (db.stagedSeeks.filterKeys fun a => !stabilizes a).insertAll
      (BTreeMap.groupMap staged)
  provides_matched : ∃ staged, Matched (sortedStagedProvides db) provides staged ∧
    db'.stagedProvides = BTreeMap.empty.insertAll (BTreeMap.groupMap staged)
  charged_heads : pairHeads charged = pairHeads seeks
  charged_sum : pairSum charged + feePool = pairSum seeks
  covered : pairSum charged * ratio.provider ≤ pairSum provides * ratio.seeker
  included : provides ≠ [] → pairSum provides ≠ 0
  idle_sum : db'.idleBalance.sumBy (fun _ x => x) = db.idleBalance.sumBy (fun _ x => x) + feePool
  idle_other : ∀ a, a ∉ provides.map Prod.fst → db'.idleBalance.getD a 0 = db.idleBalance.getD a 0
  history : db'.accountHistory = postAll db.accountHistory
    (lockLog info old.seeks seeks ++ lockLog info old.provides provides)
  db_eq : db' = { db with
    idleBalance := db'.idleBalance
    stagedSeeks := db'.stagedSeeks
    stagedProvides := db'.stagedProvides
    currentCycle := db'.currentCycle
    seekLifetimeFee := db'.seekLifetimeFee
    accountHistory := db'.accountHistory }

theorem mem_keys_groupMap {M : Type} {l : List (AccountId × Deposit M)} {a : AccountId} :
    a ∈ (BTreeMap.groupMap l).keys ↔ a ∈ l.map Prod.fst := by
  rw [← not_iff_not, ← BTreeMap.get?_eq_none, BTreeMap.get?_groupMap_eq_none]
  simp only [List.mem_map, not_exists, not_and]

theorem distributeFeesAndWriteCycle_ok {db db' : Db} {lockedSeeks : List AccountSeek}
    {lockedProvides : List AccountProvide} {feeRate included : ℕ} {info : CycleInfo} {randomness : ℕ}
    {old : Locks} (h : distributeFeesAndWriteCycle db lockedSeeks lockedProvides feeRate included info
      randomness old = .ok db') :
    ∃ charged feePool fees idle, db' = { db with
        accountHistory := postAll db.accountHistory
          (lockLog info old.seeks lockedSeeks ++ lockLog info old.provides lockedProvides)
        seekLifetimeFee := fees
        idleBalance := idle
        currentCycle := some
          { index := info.idx, startTime := info.startTime, startPrice := info.startPrice,
            feeRate := ⟨feeRate⟩, lockedSeeks := BTreeMap.groupMap charged,
            lockedProvides := BTreeMap.groupMap lockedProvides } } ∧
      pairHeads charged = pairHeads lockedSeeks ∧ pairSum charged + feePool = pairSum lockedSeeks ∧
      pairSum charged * B + pairSum lockedSeeks * feeRate ≤ pairSum lockedSeeks * B ∧
      (lockedProvides ≠ [] → included ≠ 0) ∧
      idle.sumBy (fun _ x => x) = db.idleBalance.sumBy (fun _ x => x) + feePool ∧
      ∀ a, a ∉ lockedProvides.map Prod.fst → idle.getD a 0 = db.idleBalance.getD a 0 := by
  simp only [distributeFeesAndWriteCycle, updateHistoryForLocks_eq, ok_bind, bind_eq_ok, pure_eq_ok] at h
  obtain ⟨charged, hcharged, owed, howed, fees, hfees, db1, hdb1, rfl⟩ := h
  obtain ⟨hheads, hsum, hcharge, lifetime, hdb⟩ := chargeFees_ok hcharged
  obtain ⟨hkeys, hpool⟩ := feesOwed_ok howed
  obtain ⟨hkeys', hpool'⟩ := addLeftoverFee_ok hfees
  obtain ⟨⟨idle, hidle⟩, hidlesum, hidleother⟩ := payFees_ok hdb1
  have hdiv : lockedProvides ≠ [] → included ≠ 0 := by
    intro hne hz
    obtain ⟨e, l, rfl⟩ := List.exists_cons_of_ne_nil hne
    have hk : e.1 ∈ (BTreeMap.groupMap (e :: l)).keys := mem_keys_groupMap.mpr List.mem_cons_self
    cases hent : (BTreeMap.groupMap (e :: l)).entries with
    | nil =>
      rw [BTreeMap.keys, hent] at hk
      cases hk
    | cons e' l' =>
      rw [hent] at howed
      obtain ⟨a', provides'⟩ := e'
      obtain ⟨x, hx, -⟩ := bind_eq_ok.mp howed
      simp only [divP, hz, if_true] at hx
      cases hx
  refine ⟨charged.1, charged.2.1, lifetime, idle, ?_, hheads, hsum, hcharge, hdiv, ?_, fun a ha => ?_⟩
  · rw [hidle, hdb, postAll_append]
  · rw [hidle] at hidlesum
    rw [hidlesum, hdb]
    simp only
    omega
  · have := hidleother a (by rw [hkeys', hkeys]; exact fun hm => ha (mem_keys_groupMap.mp hm))
    rw [hidle, hdb] at this
    exact this

theorem calculateLocksAndWriteCycle_ok {ratio : CollateralRatio} {db db' : Db} {info : CycleInfo}
    {randomness : ℕ} {old : Locks}
    (h : calculateLocksAndWriteCycle ratio db info randomness old = .ok db') :
    ∃ seeks charged provides feeRate feePool,
      CycleWritten ratio db info old db' seeks charged provides feeRate feePool := by
  simp only [calculateLocksAndWriteCycle, bind_eq_ok] at h
  obtain ⟨p, hp, s, hs, h⟩ := h
  obtain ⟨hpm, hpi, hpf⟩ := calculateLockedProvidesAndFeeRate_ok hp
  obtain ⟨hsm, hsc⟩ := calculateLockedSeeks_ok hs
  obtain ⟨charged, feePool, fees, idle, rfl, hheads, hsum, hcharge, hdiv, hidle, hother⟩ :=
    distributeFeesAndWriteCycle_ok h
  rw [hpi] at hsc hdiv
  exact ⟨s.1, charged, p.lockedProvides, p.feeRate, feePool, {
    current := rfl
    seeks_matched := ⟨s.2, hsm, rfl⟩
    provides_matched := ⟨p.stagedProvides, hpm, rfl⟩
    charged_heads := hheads
    charged_sum := hsum
    covered := charged_covered hcharge hsc
    included := hdiv
    idle_sum := hidle
    idle_other := hother
    history := rfl
    db_eq := rfl }⟩

end StabilityPool
