import Fedi.StabilityPool.Leftovers

/-!
# When writing the new cycle fails

Matching never fails: fee rates stay below `B` and every amount fits.  Splitting the
fees divides by the included provides, so it fails exactly when provides are locked
that are all zero (`distributeFeesAndWriteCycle_succeeds_iff`).  The loop locks a
provide as soon as there are seeks, as long as its fee rate is below `B`, and it ends
at the first positive amount that suffices; so the failing states are

    some seek is positive, some provide has a fee rate below `B`, and all such provides are zero

(`calculateLocksAndWriteCycle_succeeds_iff`).
-/

namespace StabilityPool

open BTreeMaps KeyedLogs Runs

/-! ## Needed collateral -/

section
variable {seeksSum feeRate collP collS included : ℕ}

theorem remainingProviderCollateralNeeded_succeeds (hcs : 1 ≤ collS) (hf : feeRate ≤ B) :
    ∃ n, remainingProviderCollateralNeeded seeksSum feeRate collP collS included = .ok n := by
  have hB : B * collS ≠ 0 := Nat.mul_ne_zero (by decide) (by omega)
  simp only [remainingProviderCollateralNeeded, bind_eq_ok]
  by_cases hlt : seeksSum * (B - feeRate) * collP < included * B * collS
  · exact ⟨0, _, if_neg (by omega), if_pos hlt⟩
  · exact ⟨_, _, if_neg (by omega), (if_neg hlt).trans (if_neg hB)⟩

/-- Without provides yet, some collateral is needed for any seek. -/
theorem remainingProviderCollateralNeeded_pos {n : ℕ} (hcp : 1 ≤ collP) (hf : feeRate < B)
    (hseeks : seeksSum ≠ 0)
    (h : remainingProviderCollateralNeeded seeksSum feeRate collP collS 0 = .ok n) : n ≠ 0 := by
  simp only [remainingProviderCollateralNeeded, subP, ceilDivision, divP, bind_eq_ok] at h
  obtain ⟨net, hnet, h⟩ := h
  split_ifs at hnet h with h1 h2 h3
  · rw [Nat.zero_mul, Nat.zero_mul] at h2
    exact absurd h2 (Nat.not_lt_zero _)
  · cases hnet
    cases h
    have hpos : 0 < seeksSum * (B - feeRate) * collP :=
      Nat.mul_pos (Nat.mul_pos (Nat.pos_of_ne_zero hseeks) (by omega)) hcp
    have hdiv : B * collS ≤ seeksSum * (B - feeRate) * collP - 0 * B * collS + B * collS - 1 := by
      rw [Nat.zero_mul, Nat.zero_mul]
      omega
    exact (Nat.div_pos hdiv (Nat.pos_of_ne_zero h3)).ne'

/-- At the full rate nothing is needed. -/
theorem remainingProviderCollateralNeeded_full {n : ℕ}
    (h : remainingProviderCollateralNeeded seeksSum B collP collS included = .ok n) : n = 0 := by
  simp only [remainingProviderCollateralNeeded, subP, ceilDivision, divP, bind_eq_ok] at h
  obtain ⟨net, hnet, h⟩ := h
  split_ifs at hnet h with h1 h2 h3
  · cases h
    rfl
  · cases hnet
    cases h
    rw [Nat.sub_self, Nat.mul_zero, Nat.zero_mul, Nat.zero_sub, Nat.zero_add]
    exact Nat.div_eq_of_lt (by omega)

variable {minFeeRate remaining : ℕ}

theorem nextFeeRate_succeeds (hcs : 1 ≤ collS) (hmin : minFeeRate ≤ B) :
    ∃ r, nextFeeRate seeksSum collP collS minFeeRate feeRate remaining included = .ok r := by
  unfold nextFeeRate
  split_ifs with hlt
  · obtain ⟨n, hn⟩ : ∃ n, remainingProviderCollateralNeeded seeksSum minFeeRate collP collS included =
      .ok n := remainingProviderCollateralNeeded_succeeds hcs hmin
    by_cases hz : n = 0
    · exact ⟨none, bind_eq_ok.mpr ⟨n, hn, if_pos hz⟩⟩
    · exact ⟨some (minFeeRate, n), bind_eq_ok.mpr ⟨n, hn, if_neg hz⟩⟩
  · exact ⟨_, rfl⟩

theorem nextFeeRate_some {f n : ℕ} (hf : feeRate < B)
    (h : nextFeeRate seeksSum collP collS minFeeRate feeRate remaining included = .ok (some (f, n))) :
    f < B ∧ (remaining ≠ 0 → n ≠ 0) := by
  unfold nextFeeRate at h
  split_ifs at h with hlt
  · obtain ⟨m, hm, h⟩ := bind_eq_ok.mp h
    split_ifs at h with hz
    · cases h
    · cases h
      refine ⟨lt_of_le_of_ne ?_ ?_, fun _ => hz⟩
      · obtain ⟨net, hnet, -⟩ := bind_eq_ok.mp hm
        simp only [subP] at hnet
        split_ifs at hnet with hb
        exact not_lt.mp hb
      · rintro rfl
        exact hz (remainingProviderCollateralNeeded_full hm)
  · cases h
    exact ⟨hf, id⟩

/-- As long as nothing is included, the loop stops at the next provide exactly when
its fee rate is the full rate. -/
theorem nextFeeRate_none_iff {r : Option (ℕ × ℕ)} (hcp : 1 ≤ collP) (hf : feeRate < B)
    (hmin : minFeeRate ≤ B) (hseeks : seeksSum ≠ 0)
    (h : nextFeeRate seeksSum collP collS minFeeRate feeRate remaining 0 = .ok r) :
    r = none ↔ minFeeRate = B := by
  unfold nextFeeRate at h
  split_ifs at h with hlt
  · obtain ⟨m, hm, h⟩ := bind_eq_ok.mp h
    constructor
    · rintro rfl
      by_contra hne
      have := remainingProviderCollateralNeeded_pos hcp (lt_of_le_of_ne hmin hne) hseeks hm
      rw [if_neg this] at h
      cases h
    · rintro rfl
      rw [remainingProviderCollateralNeeded_full hm] at h
      cases h
      rfl
  · cases h
    constructor
    · intro h
      cases h
    · rintro rfl
      exact absurd hf hlt

end

/-! ## Locking provides -/

/-- Fee rates and amounts that the loops can handle. -/
def Lockable (l : List AccountProvide) : Prop := ∀ e ∈ l, e.2.metadata.ppb ≤ B ∧ e.2.amount < 2 ^ 64

theorem lockProvidesLoop_succeeds {seeksSum collP collS : ℕ} (hcs : 1 ≤ collS) :
    ∀ {l : List AccountProvide} {feeRate remaining included : ℕ}, Lockable l → feeRate < B →
      ∃ r, lockProvidesLoop seeksSum collP collS l feeRate remaining included = .ok r ∧ r.feeRate < B
  | [], _, _, _, _, hf => ⟨_, rfl, hf⟩
  | (a, provide) :: l, feeRate, remaining, included, hl, hf => by
    obtain ⟨hmin, hamount⟩ := hl (a, provide) List.mem_cons_self
    have hrest : Lockable l := fun e he => hl e (List.mem_cons_of_mem _ he)
    unfold lockProvidesLoop
    by_cases hrem : remaining = 0
    · rw [if_pos hrem]
      exact ⟨_, rfl, hf⟩
    rw [if_neg hrem]
    obtain ⟨next, hnext⟩ : ∃ next, nextFeeRate seeksSum collP collS provide.metadata.ppb feeRate remaining
      included = .ok next := nextFeeRate_succeeds hcs hmin
    rw [hnext, ok_bind]
    rcases next with - | ⟨f, n⟩
    · exact ⟨_, rfl, hf⟩
    obtain ⟨hf', -⟩ := nextFeeRate_some hf hnext
    have hfits : min n provide.amount < 2 ^ 64 := (min_le_right _ _).trans_lt hamount
    simp only [unwrapU64, if_pos hfits, ok_bind]
    split_ifs with hz
    · obtain ⟨r, hr, hrf⟩ : ∃ r, lockProvidesLoop seeksSum collP collS l f (n - min n provide.amount)
        (included + min n provide.amount) = .ok r ∧ r.feeRate < B := lockProvidesLoop_succeeds hcs hrest hf'
      rw [hr]
      exact ⟨_, rfl, hrf⟩
    · exact ⟨_, rfl, hf'⟩

/-- With seeks to match, a provide is locked exactly when one has a fee rate below
the full rate, and msats are locked exactly when such a provide is positive. -/
theorem lockProvidesLoop_locked_iff {seeksSum collP collS : ℕ} (hcp : 1 ≤ collP) (hseeks : seeksSum ≠ 0) :
    ∀ {l : List AccountProvide} {feeRate remaining : ℕ} {r : LockedProvidesAndFeeRateResult},
      Lockable l → (l.Pairwise fun e e' => e.2.metadata.ppb ≤ e'.2.metadata.ppb) → feeRate < B →
      remaining ≠ 0 → lockProvidesLoop seeksSum collP collS l feeRate remaining 0 = .ok r →
        (r.lockedProvides ≠ [] ↔ ∃ e ∈ l, e.2.metadata.ppb < B) ∧
          (pairSum r.lockedProvides ≠ 0 ↔ ∃ e ∈ l, e.2.metadata.ppb < B ∧ 0 < e.2.amount)
  | [], feeRate, remaining, r, _, _, _, _, h => by
    cases h
    simp
  | (a, provide) :: l, feeRate, remaining, r, hl, hsorted, hf, hrem, h => by
    obtain ⟨hmin, hamount⟩ := hl (a, provide) List.mem_cons_self
    have hrest : Lockable l := fun e he => hl e (List.mem_cons_of_mem _ he)
    obtain ⟨hfirst, hsorted⟩ := List.pairwise_cons.mp hsorted
    unfold lockProvidesLoop at h
    rw [if_neg hrem] at h
    obtain ⟨next, hnext, h⟩ := bind_eq_ok.mp h
    have hstop := nextFeeRate_none_iff hcp hf hmin hseeks hnext
    rcases next with - | ⟨f, n⟩
    · -- the list is sorted, so all other rates are full too
      have hfull : provide.metadata.ppb = B := hstop.mp rfl
      have hall : ∀ e ∈ (a, provide) :: l, ¬ e.2.metadata.ppb < B := by
        intro e he
        rcases List.mem_cons.mp he with rfl | he
        · exact not_lt.mpr hfull.ge
        · exact not_lt.mpr (hfull.ge.trans (hfirst e he))
      rw [pure_eq_ok] at h
      subst h
      constructor
      · constructor
        · intro hne
          exact absurd rfl hne
        · rintro ⟨e, he, hlt⟩
          exact absurd hlt (hall e he)
      · constructor
        · intro hne
          exact absurd rfl hne
        · rintro ⟨e, he, hlt, -⟩
          exact absurd hlt (hall e he)
    · have hrate : provide.metadata.ppb < B :=
        lt_of_le_of_ne hmin fun hfull => by cases hstop.mpr hfull
      obtain ⟨hf', hn⟩ := nextFeeRate_some hf hnext
      have hn : n ≠ 0 := hn hrem
      obtain ⟨msats, hmsats, h⟩ := bind_eq_ok.mp h
      simp only [unwrapU64] at hmsats
      split_ifs at hmsats with hbound
      cases hmsats
      have hsome : ∃ e ∈ (a, provide) :: l, e.2.metadata.ppb < B := ⟨_, List.mem_cons_self, hrate⟩
      by_cases hzero : provide.amount = 0
      · have hmin0 : min n provide.amount = 0 := by omega
        rw [hmin0, hzero] at h
        obtain ⟨r', hr', h⟩ := bind_eq_ok.mp h
        rw [pure_eq_ok] at h
        subst h
        obtain ⟨-, ih⟩ := lockProvidesLoop_locked_iff hcp hseeks hrest hsorted hf' hn hr'
        refine ⟨⟨fun _ => hsome, fun _ => List.cons_ne_nil _ _⟩, ?_⟩
        rw [pairSum_cons, Nat.zero_add, ih, List.exists_mem_cons_iff]
        constructor
        · exact Or.inr
        · rintro (⟨-, hpos⟩ | h)
          · exact absurd hzero hpos.ne'
          · exact h
      · have hused : min n provide.amount ≠ 0 := by omega
        have hpos : ∃ e ∈ (a, provide) :: l, e.2.metadata.ppb < B ∧ 0 < e.2.amount :=
          ⟨_, List.mem_cons_self, hrate, Nat.pos_of_ne_zero hzero⟩
        have hhead : ∃ l', r.lockedProvides = (a, { provide with amount := min n provide.amount }) :: l' := by
          split_ifs at h with hz
          · obtain ⟨r', hr', h⟩ := bind_eq_ok.mp h
            rw [pure_eq_ok] at h
            subst h
            exact ⟨_, rfl⟩
          · rw [pure_eq_ok] at h
            subst h
            exact ⟨_, rfl⟩
        obtain ⟨l', hl'⟩ := hhead
        rw [hl']
        refine ⟨⟨fun _ => hsome, fun _ => List.cons_ne_nil _ _⟩, ⟨fun _ => hpos, fun _ => ?_⟩⟩
        rw [pairSum_cons]
        show min n provide.amount + pairSum l' ≠ 0
        omega

/-! ## Locking seeks and charging them -/

theorem lockSeeksLoop_succeeds : ∀ {l : List AccountSeek} {included : ℕ},
    pairSum l < 2 ^ 64 → ∃ r, lockSeeksLoop l included = .ok r
  | [], _, _ => ⟨_, rfl⟩
  | (a, seek) :: l, included, hl => by
    have hl : seek.amount + pairSum l < 2 ^ 64 := by rwa [pairSum_cons] at hl
    have hfits : min included seek.amount < 2 ^ 64 := (min_le_right _ _).trans_lt (by omega)
    unfold lockSeeksLoop
    split_ifs with hinc
    · exact ⟨_, rfl⟩
    simp only [unwrapU64, if_pos hfits, ok_bind]
    split_ifs with hz
    · obtain ⟨r, hr⟩ : ∃ r, lockSeeksLoop l (included - min included seek.amount) = .ok r :=
        lockSeeksLoop_succeeds (by omega)
      rw [hr]
      exact ⟨_, rfl⟩
    · exact ⟨_, rfl⟩

theorem calculateLockedSeeks_succeeds {l : List AccountSeek} {feeRate collP collS included : ℕ}
    (hcp : 1 ≤ collP) (hf : feeRate < B) (hl : pairSum l < 2 ^ 64) :
    ∃ r, calculateLockedSeeks l feeRate collP collS included = .ok r := by
  have hne : (B - feeRate) * collP ≠ 0 := Nat.mul_ne_zero (by omega) (by omega)
  obtain ⟨r, hr⟩ : ∃ r, lockSeeksLoop l (included * collS * B / ((B - feeRate) * collP)) = .ok r :=
    lockSeeksLoop_succeeds hl
  refine ⟨r, bind_eq_ok.mpr ⟨_, ?_, hr⟩⟩
  exact bind_eq_ok.mpr ⟨B - feeRate, if_neg (by omega), if_neg hne⟩

/-- A fee at a rate of at most `B` does not exceed the amount. -/
theorem chargeFees_succeeds {feeRate : ℕ} (hf : feeRate ≤ B) : ∀ {seeks : List AccountSeek} {db : Db},
    pairSum seeks < 2 ^ 64 → ∃ r, chargeFees feeRate seeks db = .ok r
  | [], _, _ => ⟨_, rfl⟩
  | (a, seek) :: seeks, db, hs => by
    have hs : seek.amount + pairSum seeks < 2 ^ 64 := by rwa [pairSum_cons] at hs
    have hB : 0 < B := by decide
    obtain ⟨fee, hfee⟩ : ∃ fee, (seek.amount * feeRate + B - 1) / B = fee := ⟨_, rfl⟩
    have hle : fee ≤ seek.amount := by
      have hmul : seek.amount * feeRate ≤ seek.amount * B := Nat.mul_le_mul_left _ hf
      have hlt : seek.amount * feeRate + B - 1 < (seek.amount + 1) * B := by
        rw [Nat.add_mul, Nat.one_mul]
        omega
      rw [← hfee]
      exact Nat.lt_succ_iff.mp ((Nat.div_lt_iff_lt_mul hB).mpr hlt)
    have hfits : fee < 2 ^ 64 := by omega
    obtain ⟨lifetime, hlifetime⟩ : ∃ lifetime, db.seekLifetimeFee.insert seek.txid
      (db.seekLifetimeFee.getD seek.txid 0 + fee) = lifetime := ⟨_, rfl⟩
    obtain ⟨r, hr⟩ : ∃ r, chargeFees feeRate seeks { db with seekLifetimeFee := lifetime } = .ok r :=
      chargeFees_succeeds hf (by omega)
    refine ⟨((a, { seek with amount := seek.amount - fee }) :: r.1, fee + r.2.1, r.2.2), ?_⟩
    simp only [chargeFees, bind_eq_ok, pure_eq_ok]
    have hceil : ceilDivision (seek.amount * feeRate) B = .ok fee := by
      unfold ceilDivision
      rw [divP_of_ne _ hB.ne', hfee]
    refine ⟨fee, hceil, fee, if_pos hfits, _, if_neg (not_lt.mpr hle), r, ?_, rfl⟩
    rw [hlifetime]
    exact hr

/-! ## Splitting the fees -/

theorem feesOwed_succeeds {pool included : ℕ} (hinc : included ≠ 0) :
    ∀ {l : List (AccountId × List Provide)} {draining : ℕ},
      (l.map fun e => amountSum e.2 * pool / included).sum ≤ draining →
        ∃ r, feesOwed pool included l draining = .ok r
  | [], _, _ => ⟨_, rfl⟩
  | (a, provides) :: l, draining, hsum => by
    obtain ⟨owed, howed⟩ : ∃ owed, amountSum provides * pool / included = owed := ⟨_, rfl⟩
    rw [List.map_cons, List.sum_cons] at hsum
    simp only [howed] at hsum
    obtain ⟨r, hr⟩ : ∃ r, feesOwed pool included l (draining - owed) = .ok r :=
      feesOwed_succeeds hinc (by omega)
    refine ⟨((a, owed) :: r.1, r.2), ?_⟩
    simp only [feesOwed, bind_eq_ok, pure_eq_ok]
    have hdiv : divP (amountSum provides * pool) included = .ok owed := by rw [divP_of_ne _ hinc, howed]
    exact ⟨owed, hdiv, _, if_neg (by omega), r, hr, rfl⟩

/-- The rounded-down shares of the fee pool fit into it. -/
theorem feesOwed_sum_le (pool : ℕ) (provides : List AccountProvide) :
    ((BTreeMap.groupMap provides).entries.map fun e => amountSum e.2 * pool / pairSum provides).sum ≤
      pool := by
  have hsum : ((BTreeMap.groupMap provides).entries.map fun e => amountSum e.2).sum = pairSum provides := by
    have := tableWeight_groupMap (fun _ _ => 1) provides
    rw [pairsWeight_one] at this
    rw [← this, tableWeight, BTreeMap.sumBy, sumEntries]
    simp only [weigh_one]
  have hshares := ProRata.sum_shares_le pool ((BTreeMap.groupMap provides).entries.map fun e => amountSum e.2)
  rw [ProRata.shares, hsum, List.map_map] at hshares
  simp only [Function.comp_def] at hshares
  simpa only [Nat.mul_comm] using hshares

theorem payFees_succeeds : ∀ {fees : List (AccountId × ℕ)} {db : Db},
    (fees.map Prod.snd).sum < 2 ^ 64 → ∃ db', payFees fees db = .ok db'
  | [], _, _ => ⟨_, rfl⟩
  | (a, fee) :: fees, db, hsum => by
    rw [List.map_cons, List.sum_cons] at hsum
    have hfee : fee < 2 ^ 64 := by
      simp only at hsum
      omega
    obtain ⟨db', hdb'⟩ : ∃ db', payFees fees (creditIdleBalance db a fee) = .ok db' :=
      payFees_succeeds (by omega)
    exact ⟨db', bind_eq_ok.mpr ⟨fee, if_pos hfee, hdb'⟩⟩

theorem groupMap_entries_nil {provides : List AccountProvide}
    (h : (BTreeMap.groupMap provides).entries = []) : provides = [] := by
  by_contra hne
  obtain ⟨e, he⟩ := List.exists_mem_of_ne_nil _ hne
  have hk : e.1 ∈ (BTreeMap.groupMap provides).keys := mem_keys_groupMap.mpr (List.mem_map_of_mem he)
  rw [BTreeMap.keys, h] at hk
  cases hk

/-- The fees can be split unless the locked provides are all zero. -/
theorem distributeFeesAndWriteCycle_succeeds_iff {db : Db} {lockedSeeks : List AccountSeek}
    {lockedProvides : List AccountProvide} {feeRate : ℕ} {info : CycleInfo} {randomness : ℕ} {old : Locks}
    (hf : feeRate ≤ B) (hbound : pairSum lockedSeeks < 2 ^ 64)
    (hnone : lockedProvides = [] → pairSum lockedSeeks = 0) :
    (∃ db', distributeFeesAndWriteCycle db lockedSeeks lockedProvides feeRate (pairSum lockedProvides) info
        randomness old = .ok db') ↔ (lockedProvides ≠ [] → pairSum lockedProvides ≠ 0) := by
  constructor
  · rintro ⟨db', h⟩
    obtain ⟨_, _, _, _, -, -, -, -, hdiv, -⟩ := distributeFeesAndWriteCycle_ok h
    exact hdiv
  · intro hdiv
    simp only [distributeFeesAndWriteCycle, updateHistoryForLocks_eq, ok_bind]
    obtain ⟨charged, hcharged⟩ : ∃ r, chargeFees feeRate lockedSeeks { db with
        accountHistory := postAll (postAll db.accountHistory (lockLog info old.seeks lockedSeeks))
          (lockLog info old.provides lockedProvides) } = .ok r := chargeFees_succeeds hf hbound
    obtain ⟨-, hpool, -⟩ := chargeFees_ok hcharged
    obtain ⟨owed, howed⟩ : ∃ r, feesOwed charged.2.1 (pairSum lockedProvides)
        (BTreeMap.groupMap lockedProvides).entries charged.2.1 = .ok r := by
      by_cases hnil : lockedProvides = []
      · subst hnil
        exact ⟨_, rfl⟩
      · exact feesOwed_succeeds (hdiv hnil) (feesOwed_sum_le _ _)
    obtain ⟨hkeys, hsum⟩ := feesOwed_ok howed
    obtain ⟨fees, hfees⟩ : ∃ r, addLeftoverFee owed.1 owed.2 randomness = .ok r := by
      unfold addLeftoverFee
      split_ifs with hz
      · have hlen : owed.1.length ≠ 0 := by
          intro h0
          have hmap : owed.1.map Prod.fst = [] := by rw [List.eq_nil_of_length_eq_zero h0]; rfl
          rw [hmap] at hkeys
          have := hnone (groupMap_entries_nil (List.map_eq_nil_iff.mp hkeys.symm))
          omega
        exact ⟨_, bind_eq_ok.mpr ⟨_, if_neg hlen, rfl⟩⟩
      · exact ⟨_, rfl⟩
    obtain ⟨-, hfeesum⟩ := addLeftoverFee_ok hfees
    obtain ⟨db', hdb'⟩ : ∃ db', payFees fees charged.2.2 = .ok db' := payFees_succeeds (by omega)
    exact ⟨_, bind_eq_ok.mpr ⟨charged, hcharged, bind_eq_ok.mpr ⟨owed, howed, bind_eq_ok.mpr
      ⟨fees, hfees, bind_eq_ok.mpr ⟨db', hdb', rfl⟩⟩⟩⟩⟩

/-! ## The new cycle -/

theorem sortedStagedProvides_sorted (db : Db) :
    (sortedStagedProvides db).Pairwise fun e e' => e.2.metadata.ppb ≤ e'.2.metadata.ppb := by
  have : Std.Total provideLe := ⟨fun a b => by unfold provideLe; omega⟩
  have : IsTrans AccountProvide provideLe := ⟨fun a b c => by unfold provideLe; omega⟩
  refine (List.pairwise_insertionSort provideLe db.stagedProvides.pairs).imp fun {e e'} h => ?_
  unfold provideLe at h
  omega

/-- Without seeks no provide is needed. -/
theorem lockProvidesLoop_zero {seeksSum collP collS : ℕ} (l : List AccountProvide) (feeRate included : ℕ) :
    ∃ r, lockProvidesLoop seeksSum collP collS l feeRate 0 included = .ok r ∧ r.lockedProvides = [] ∧
      r.feeRate = feeRate := by
  cases l with
  | nil => exact ⟨_, rfl, rfl, rfl⟩
  | cons e l =>
    unfold lockProvidesLoop
    rw [if_pos rfl]
    exact ⟨_, rfl, rfl, rfl⟩

theorem remainingProviderCollateralNeeded_no_seeks {collP collS : ℕ} (hcs : 1 ≤ collS) :
    remainingProviderCollateralNeeded 0 0 collP collS 0 = .ok 0 := by
  obtain ⟨n, hn⟩ : ∃ n, remainingProviderCollateralNeeded 0 0 collP collS 0 = .ok n :=
    remainingProviderCollateralNeeded_succeeds hcs (Nat.zero_le _)
  rw [hn]
  simp only [remainingProviderCollateralNeeded, subP, ceilDivision, divP, bind_eq_ok] at hn
  obtain ⟨net, hnet, hn⟩ := hn
  split_ifs at hnet hn with h1 h2 h3
  · simp only [Nat.zero_mul] at h2
    exact absurd h2 (lt_irrefl 0)
  · cases hn
    rw [Nat.zero_mul, Nat.zero_mul, Nat.zero_sub, Nat.zero_add, Nat.div_eq_of_lt (by omega)]

/-- The provides that get locked, and when they hold any msats. -/
theorem calculateLockedProvidesAndFeeRate_succeeds (stagedSeeks : List AccountSeek)
    {stagedProvides : List AccountProvide} {collP collS : ℕ} (hcp : 1 ≤ collP) (hcs : 1 ≤ collS)
    (hl : Lockable stagedProvides)
    (hsorted : stagedProvides.Pairwise fun e e' => e.2.metadata.ppb ≤ e'.2.metadata.ppb) :
    ∃ p, calculateLockedProvidesAndFeeRate stagedSeeks stagedProvides collP collS = .ok p ∧
      p.feeRate < B ∧ ((p.lockedProvides ≠ [] → pairSum p.lockedProvides ≠ 0) ↔
        (pairSum stagedSeeks ≠ 0 → (∃ e ∈ stagedProvides, e.2.metadata.ppb < B) →
          ∃ e ∈ stagedProvides, e.2.metadata.ppb < B ∧ 0 < e.2.amount)) := by
  have hB : (0 : ℕ) < B := by decide
  unfold calculateLockedProvidesAndFeeRate
  by_cases hseeks : pairSum stagedSeeks = 0
  · obtain ⟨p, hp, hnil, hfee⟩ : ∃ p, lockProvidesLoop 0 collP collS stagedProvides 0 0 0 = .ok p ∧
      p.lockedProvides = [] ∧ p.feeRate = 0 := lockProvidesLoop_zero _ _ _
    simp only [hseeks, remainingProviderCollateralNeeded_no_seeks hcs, ok_bind]
    refine ⟨p, hp, by omega, ?_⟩
    rw [hnil]
    simp
  · obtain ⟨n, hn⟩ : ∃ n, remainingProviderCollateralNeeded (pairSum stagedSeeks) 0 collP collS 0 = .ok n :=
      remainingProviderCollateralNeeded_succeeds hcs (Nat.zero_le _)
    obtain ⟨p, hp, hfee⟩ : ∃ p, lockProvidesLoop (pairSum stagedSeeks) collP collS stagedProvides 0 n 0 =
      .ok p ∧ p.feeRate < B := lockProvidesLoop_succeeds hcs hl hB
    have hn0 := remainingProviderCollateralNeeded_pos hcp hB hseeks hn
    obtain ⟨h1, h2⟩ := lockProvidesLoop_locked_iff hcp hseeks hl hsorted hB hn0 hp
    refine ⟨p, bind_eq_ok.mpr ⟨n, hn, hp⟩, hfee, ?_⟩
    rw [h1, h2]
    simp only [hseeks, ne_eq, not_false_eq_true, true_implies]

/-- Writing the new cycle fails only when seeks meet provides that are all zero. -/
theorem calculateLocksAndWriteCycle_succeeds_iff {ratio : CollateralRatio} {db : Db} {info : CycleInfo}
    {randomness : ℕ} {old : Locks} (hcp : 1 ≤ ratio.provider) (hcs : 1 ≤ ratio.seeker)
    (hseeks : pairSum (sortedStagedSeeks db) < 2 ^ 64) (hprovides : Lockable (sortedStagedProvides db)) :
    (∃ db', calculateLocksAndWriteCycle ratio db info randomness old = .ok db') ↔
      (pairSum (sortedStagedSeeks db) ≠ 0 → (∃ e ∈ sortedStagedProvides db, e.2.metadata.ppb < B) →
        ∃ e ∈ sortedStagedProvides db, e.2.metadata.ppb < B ∧ 0 < e.2.amount) := by
  obtain ⟨p, hp, hfee, hlocked⟩ := calculateLockedProvidesAndFeeRate_succeeds (sortedStagedSeeks db)
    hcp hcs hprovides (sortedStagedProvides_sorted db)
  obtain ⟨hmatched, hincluded, -⟩ := calculateLockedProvidesAndFeeRate_ok hp
  obtain ⟨s, hs⟩ : ∃ s, calculateLockedSeeks (sortedStagedSeeks db) p.feeRate ratio.provider ratio.seeker
    (pairSum p.lockedProvides) = .ok s := calculateLockedSeeks_succeeds hcp hfee hseeks
  obtain ⟨hsm, hcovered⟩ := calculateLockedSeeks_ok hs
  have hle : pairSum s.1 ≤ pairSum (sortedStagedSeeks db) := by
    have := hsm.pairSum_eq
    omega
  have hnone : p.lockedProvides = [] → pairSum s.1 = 0 := by
    intro hnil
    rw [hnil, pairSum_nil, Nat.zero_mul, Nat.zero_mul] at hcovered
    have hne : (B - p.feeRate) * ratio.provider ≠ 0 := Nat.mul_ne_zero (by omega) (by omega)
    exact (Nat.mul_eq_zero.mp (Nat.le_zero.mp hcovered)).resolve_right hne
  have hsum : pairSum s.1 < 2 ^ 64 := by omega
  have hwrite : (∃ db', distributeFeesAndWriteCycle (writeRemainingStagedSeeksAndProvides
      (removeExtracted db) s.2 p.stagedProvides) s.1 p.lockedProvides p.feeRate (pairSum p.lockedProvides)
      info randomness old = .ok db') ↔ (p.lockedProvides ≠ [] → pairSum p.lockedProvides ≠ 0) :=
    distributeFeesAndWriteCycle_succeeds_iff hfee.le hsum hnone
  rw [← hlocked, ← hwrite]
  simp only [calculateLocksAndWriteCycle, hp, hincluded, hs, ok_bind]

end StabilityPool
