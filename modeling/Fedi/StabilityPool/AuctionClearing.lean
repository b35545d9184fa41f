import Fedi.StabilityPool.Matching

/-!
# The auction of a turnover

For staged seeks of `S` msats in all, the collateral that a fee rate calls for is

    collateralFor S f = ⌈S * (B - f) * collP / (B * collS)⌉

and what the loop still needs is always that less what it has included.  So it stops when the
collateral is there, which then covers every seek, when no provide is left, or when the next
provide is so expensive that the collateral is there at its fee (`auction_clearing`).
-/

namespace StabilityPool

open Runs

section
variable {M : Type} {l locked staged : List (AccountId × Deposit M)}

/-- A list in two parts, cut between two deposits or within one. -/
inductive CutInTwo : List (AccountId × Deposit M) → List (AccountId × Deposit M) →
    List (AccountId × Deposit M) → Prop
  | between (locked staged : List (AccountId × Deposit M)) : CutInTwo (locked ++ staged) locked staged
  | within (before after : List (AccountId × Deposit M)) (a : AccountId) (d : Deposit M) {used : ℕ}
      (hpos : 0 < used) (hlt : used < d.amount) :
      CutInTwo (before ++ (a, d) :: after) (before ++ [(a, { d with amount := used })])
        ((a, { d with amount := d.amount - used }) :: after)

theorem CutInTwo.cons (h : CutInTwo l locked staged) (e : AccountId × Deposit M) :
    CutInTwo (e :: l) (e :: locked) staged := by
  cases h with
  | between => exact .between (e :: locked) staged
  | within before after a d hpos hlt => exact .within (e :: before) after a d hpos hlt

end

/-! ## The collateral that is needed -/

/-- Collateral that the seeks call for at a fee rate. -/
def collateralFor (collP collS seeksSum feeRate : ℕ) : ℕ := seeksSum * (B - feeRate) * collP ⌈/⌉ (B * collS)

theorem sub_mul_ceilDiv {a k d : ℕ} (hd : 0 < d) : (a - k * d) ⌈/⌉ d = a ⌈/⌉ d - k := by
  apply eq_of_forall_ge_iff
  intro c
  rw [ceilDiv_le_iff_le_mul hd, Nat.sub_le_iff_le_add, Nat.sub_le_iff_le_add, ceilDiv_le_iff_le_mul hd, Nat.mul_add,
    Nat.mul_comm d k]

section
variable {collP collS seeksSum feeRate included remaining : ℕ}

theorem B_pos : 0 < B := by decide

theorem remainingProviderCollateralNeeded_eq (hcollS : 0 < collS) (hfee : feeRate ≤ B) :
    remainingProviderCollateralNeeded seeksSum feeRate collP collS included =
      .ok (collateralFor collP collS seeksSum feeRate - included) := by
  have hd : 0 < B * collS := Nat.mul_pos B_pos hcollS
  have hneed := @sub_mul_ceilDiv (seeksSum * (B - feeRate) * collP) included _ hd
  unfold remainingProviderCollateralNeeded collateralFor ceilDivision
  rw [show subP B feeRate = .ok (B - feeRate) from if_neg (not_lt.mpr hfee), ok_bind]
  dsimp only
  rw [Nat.mul_assoc included B collS, ← hneed]
  split_ifs with hlt
  · rw [Nat.sub_eq_zero_of_le hlt.le, zero_ceilDiv]
    rfl
  · rw [Nat.ceilDiv_eq_add_pred_div]
    exact if_neg hd.ne'

theorem remainingProviderCollateralNeeded_ok
    (h : remainingProviderCollateralNeeded seeksSum feeRate collP collS included = .ok remaining) :
    0 < collS ∧ feeRate ≤ B ∧ remaining = collateralFor collP collS seeksSum feeRate - included := by
  have hfee : feeRate ≤ B := by
    by_contra hlt
    unfold remainingProviderCollateralNeeded subP at h
    rw [if_pos (not_le.mp hlt)] at h
    cases h
  have hcollS : 0 < collS := by
    by_contra hzero
    have hz : collS = 0 := by omega
    unfold remainingProviderCollateralNeeded ceilDivision divP subP at h
    rw [if_neg (not_lt.mpr hfee), ok_bind, hz] at h
    simp at h
  rw [remainingProviderCollateralNeeded_eq hcollS hfee] at h
  cases h
  exact ⟨hcollS, hfee, rfl⟩

/-- No collateral is needed for seeks that pay all they have as fees. -/
theorem collateralFor_B : collateralFor collP collS seeksSum B = 0 := by
  unfold collateralFor
  rw [Nat.sub_self, Nat.mul_zero, Nat.zero_mul, zero_ceilDiv]

end

/-! ## The provides -/

/-- The greatest minimum fee rate of some provides, zero without any. -/
def maxFee (provides : List AccountProvide) : ℕ := (provides.map (·.2.metadata.ppb)).foldr max 0

@[simp] theorem maxFee_nil : maxFee [] = 0 := rfl

@[simp] theorem maxFee_cons (e : AccountProvide) (provides : List AccountProvide) :
    maxFee (e :: provides) = max e.2.metadata.ppb (maxFee provides) := rfl

theorem le_maxFee {provides : List AccountProvide} : ∀ e ∈ provides, e.2.metadata.ppb ≤ maxFee provides := by
  induction provides with
  | nil => exact fun e he => absurd he List.not_mem_nil
  | cons d provides ih =>
    intro e he
    rw [maxFee_cons]
    rcases List.mem_cons.mp he with rfl | he
    · exact le_max_left _ _
    · exact (ih e he).trans (le_max_right _ _)

/-- Why the loop over the provides stops: the collateral is there, no provide is left, or the
next one asks for a fee at which the collateral is there. -/
def Stops (seeksSum collP collS feeRate included : ℕ) (staged : List AccountProvide) : Prop :=
  included = collateralFor collP collS seeksSum feeRate ∨ staged = [] ∨
    ∃ e rest, staged = e :: rest ∧ feeRate < e.2.metadata.ppb ∧
      remainingProviderCollateralNeeded seeksSum e.2.metadata.ppb collP collS included = .ok 0

section
variable {seeksSum collP collS minFeeRate feeRate remaining included : ℕ}

theorem nextFeeRate_none
    (h : nextFeeRate seeksSum collP collS minFeeRate feeRate remaining included = .ok none) :
    feeRate < minFeeRate ∧
      remainingProviderCollateralNeeded seeksSum minFeeRate collP collS included = .ok 0 := by
  unfold nextFeeRate at h
  split_ifs at h with hlt
  · obtain ⟨needed, hneeded, h⟩ := bind_eq_ok.mp h
    split_ifs at h with hzero
    · rw [hzero] at hneeded
      exact ⟨hlt, hneeded⟩
    · cases h
  · cases h

/-- The rate rises to that of the next provide, and what is needed with it. -/
theorem nextFeeRate_needed {f n : ℕ} (hneeded : remaining = collateralFor collP collS seeksSum feeRate - included)
    (hpos : remaining ≠ 0)
    (h : nextFeeRate seeksSum collP collS minFeeRate feeRate remaining included = .ok (some (f, n))) :
    f = max feeRate minFeeRate ∧ n = collateralFor collP collS seeksSum f - included ∧ n ≠ 0 := by
  unfold nextFeeRate at h
  split_ifs at h with hlt
  · obtain ⟨needed, hnext, h⟩ := bind_eq_ok.mp h
    split_ifs at h with hzero
    · cases h
    · cases h
      obtain ⟨-, -, hnew⟩ := remainingProviderCollateralNeeded_ok hnext
      exact ⟨(max_eq_right hlt.le).symm, hnew, hzero⟩
  · cases h
    exact ⟨(max_eq_left (not_lt.mp hlt)).symm, hneeded, hpos⟩

/-- What the loop over the provides makes of a list. -/
structure ProvidesCleared (seeksSum collP collS : ℕ) (l : List AccountProvide) (feeRate : ℕ)
    (r : LockedProvidesAndFeeRateResult) : Prop where
  cut : CutInTwo l r.lockedProvides r.stagedProvides
  feeRate_eq : r.feeRate = max feeRate (maxFee r.lockedProvides)
  included_le : r.includedProvidesSum ≤ collateralFor collP collS seeksSum r.feeRate
  stops : Stops seeksSum collP collS r.feeRate r.includedProvidesSum r.stagedProvides

/-- The loop keeps count: what remains is what the rate calls for less what is included. -/
theorem lockProvidesLoop_clears {l : List AccountProvide} {r : LockedProvidesAndFeeRateResult}
    (hneeded : remaining = collateralFor collP collS seeksSum feeRate - included)
    (hle : included ≤ collateralFor collP collS seeksSum feeRate)
    (h : lockProvidesLoop seeksSum collP collS l feeRate remaining included = .ok r) :
    ProvidesCleared seeksSum collP collS l feeRate r := by
  induction l generalizing feeRate remaining included r with
  | nil =>
    cases h
    exact ⟨.between [] [], (max_eq_left (Nat.zero_le _)).symm, hle, .inr (.inl rfl)⟩
  | cons e l ih =>
    obtain ⟨a, provide⟩ := e
    unfold lockProvidesLoop at h
    split_ifs at h with hrem
    · cases h
      have henough : included = collateralFor collP collS seeksSum feeRate := by omega
      exact ⟨.between [] _, (max_eq_left (Nat.zero_le _)).symm, hle, .inl henough⟩
    obtain ⟨next, hnext, h⟩ := bind_eq_ok.mp h
    rcases next with - | ⟨f, n⟩
    · -- the next provide's fee leaves nothing to collateralize
      cases h
      obtain ⟨hlt, hzero⟩ := nextFeeRate_none hnext
      exact ⟨.between [] _, (max_eq_left (Nat.zero_le _)).symm, hle, .inr (.inr ⟨_, _, rfl, hlt, hzero⟩)⟩
    obtain ⟨rfl, hn, hpos⟩ := nextFeeRate_needed hneeded hrem hnext
    obtain ⟨msats, hmsats, h⟩ := bind_eq_ok.mp h
    simp only [unwrapU64] at hmsats
    split_ifs at hmsats with hbound
    cases hmsats
    split_ifs at h with hall
    · -- the provide is used up and the loop goes on
      obtain ⟨r', hr', h⟩ := bind_eq_ok.mp h
      rw [pure_eq_ok] at h
      subst h
      have hused : min n provide.amount = provide.amount := by omega
      obtain ⟨hcut, hfee, hincluded, hstops⟩ := ih (by omega) (by omega) hr'
      rw [hused]
      refine ⟨hcut.cons (a, provide), ?_, hincluded, hstops⟩
      rw [hfee, maxFee_cons, max_assoc]
    · -- part of it is enough
      rw [pure_eq_ok] at h
      subst h
      have hused : min n provide.amount = n := by omega
      simp only [hused]
      refine ⟨.within [] l a provide (by omega) (by omega), ?_, ?_, .inl ?_⟩
      · simp
      · show included + n ≤ collateralFor collP collS seeksSum (max feeRate provide.metadata.ppb)
        omega
      · show included + n = collateralFor collP collS seeksSum (max feeRate provide.metadata.ppb)
        omega

/-- With fees of at most all of it, and positive amounts of collateral, the loop goes through,
and never at a fee of all of it. -/
theorem lockProvidesLoop_total {l : List AccountProvide} (hcollS : 0 < collS) (hfee : feeRate < B)
    (hneeded : remaining = collateralFor collP collS seeksSum feeRate - included)
    (hl : ∀ e ∈ l, e.2.amount < 2 ^ 64 ∧ e.2.metadata.ppb ≤ B) :
    ∃ r, lockProvidesLoop seeksSum collP collS l feeRate remaining included = .ok r ∧ r.feeRate < B := by
  induction l generalizing feeRate remaining included with
  | nil => exact ⟨_, rfl, hfee⟩
  | cons e l ih =>
    obtain ⟨a, provide⟩ := e
    obtain ⟨hamount, hmin⟩ := hl _ List.mem_cons_self
    dsimp only at hamount hmin
    have hrest : ∀ e ∈ l, e.2.amount < 2 ^ 64 ∧ e.2.metadata.ppb ≤ B := fun e he => hl e (List.mem_cons_of_mem _ he)
    unfold lockProvidesLoop
    by_cases hrem : remaining = 0
    · rw [if_pos hrem]
      exact ⟨_, rfl, hfee⟩
    rw [if_neg hrem]
    -- what the next provide does to the rate
    obtain ⟨next, hnext⟩ : ∃ next,
        nextFeeRate seeksSum collP collS provide.metadata.ppb feeRate remaining included = .ok next := by
      unfold nextFeeRate
      by_cases hlt : feeRate < provide.metadata.ppb
      · rw [if_pos hlt, remainingProviderCollateralNeeded_eq hcollS hmin, ok_bind]
        by_cases hzero : collateralFor collP collS seeksSum provide.metadata.ppb - included = 0
        · exact ⟨none, by rw [if_pos hzero]; rfl⟩
        · exact ⟨some _, by rw [if_neg hzero]; rfl⟩
      · rw [if_neg hlt]
        exact ⟨some _, rfl⟩
    rw [hnext, ok_bind]
    rcases next with - | ⟨f, n⟩
    · exact ⟨_, rfl, hfee⟩
    obtain ⟨hf, hn, hpos⟩ := nextFeeRate_needed hneeded hrem hnext
    have hfB : f < B := by
      have hle : f ≤ B := by omega
      refine lt_of_le_of_ne hle ?_
      intro heq
      rw [heq, collateralFor_B] at hn
      omega
    dsimp only
    rw [show unwrapU64 (min n provide.amount) = .ok (min n provide.amount) from if_pos (by omega), ok_bind]
    by_cases hall : provide.amount - min n provide.amount = 0
    · rw [if_pos hall]
      obtain ⟨r, hr, hrate⟩ := @ih f (n - min n provide.amount) (included + min n provide.amount) hfB (by omega) hrest
      rw [hr]
      exact ⟨_, rfl, hrate⟩
    · rw [if_neg hall]
      exact ⟨_, rfl, hfB⟩

end

/-! ## The seeks -/

theorem lockSeeksLoop_cut {l : List AccountSeek} {included : ℕ} {r : List AccountSeek × List AccountSeek}
    (h : lockSeeksLoop l included = .ok r) :
    CutInTwo l r.1 r.2 ∧ (pairSum l ≤ included → ∀ e ∈ r.2, e.2.amount = 0) := by
  induction l generalizing included r with
  | nil =>
    cases h
    exact ⟨.between [] [], fun _ e he => absurd he List.not_mem_nil⟩
  | cons e l ih =>
    obtain ⟨a, seek⟩ := e
    unfold lockSeeksLoop at h
    split_ifs at h with hincluded
    · cases h
      refine ⟨.between [] _, fun hle e he => ?_⟩
      have hsum : pairSum ((a, seek) :: l) = 0 := by omega
      exact List.sum_eq_zero_iff.mp hsum _ (List.mem_map_of_mem he)
    obtain ⟨msats, hmsats, h⟩ := bind_eq_ok.mp h
    simp only [unwrapU64] at hmsats
    split_ifs at hmsats with hbound
    cases hmsats
    split_ifs at h with hall
    · obtain ⟨r', hr', h⟩ := bind_eq_ok.mp h
      rw [pure_eq_ok] at h
      subst h
      obtain ⟨hcut, hzero⟩ := ih hr'
      have hused : min included seek.amount = seek.amount := by omega
      rw [hused]
      refine ⟨hcut.cons (a, seek), fun hle => hzero ?_⟩
      rw [pairSum_cons] at hle
      dsimp only at hle
      omega
    · rw [pure_eq_ok] at h
      subst h
      have hused : min included seek.amount = included := by omega
      simp only [hused]
      refine ⟨.within [] l a seek (by omega) (by omega), fun hle => ?_⟩
      rw [pairSum_cons] at hle
      dsimp only at hle
      omega

theorem lockSeeksLoop_total : ∀ (l : List AccountSeek) (included : ℕ), (∀ e ∈ l, e.2.amount < 2 ^ 64) →
    ∃ r, lockSeeksLoop l included = .ok r
  | [], _, _ => ⟨_, rfl⟩
  | (a, seek) :: l, included, hl => by
    have hamount := hl _ List.mem_cons_self
    unfold lockSeeksLoop
    by_cases hzero : included = 0
    · rw [if_pos hzero]
      exact ⟨_, rfl⟩
    rw [if_neg hzero]
    dsimp only at hamount ⊢
    rw [show unwrapU64 (min included seek.amount) = .ok (min included seek.amount) from if_pos (by omega), ok_bind]
    by_cases hall : seek.amount - min included seek.amount = 0
    · rw [if_pos hall]
      obtain ⟨r, hr⟩ := lockSeeksLoop_total l (included - min included seek.amount)
        fun e he => hl e (List.mem_cons_of_mem _ he)
      rw [hr]
      exact ⟨_, rfl⟩
    · rw [if_neg hall]
      exact ⟨_, rfl⟩

/-! ## Both sides -/

/-- What the auction makes of the staged deposits. -/
structure AuctionCleared (stagedSeeks : List AccountSeek) (stagedProvides : List AccountProvide) (collP collS : ℕ)
    (provides : LockedProvidesAndFeeRateResult) (seeks : List AccountSeek × List AccountSeek) : Prop where
  provides_cut : CutInTwo stagedProvides provides.lockedProvides provides.stagedProvides
  seeks_cut : CutInTwo stagedSeeks seeks.1 seeks.2
  provides_amount : ∀ a sequence, pairsWeight (atDeposit a sequence) provides.lockedProvides +
    pairsWeight (atDeposit a sequence) provides.stagedProvides = pairsWeight (atDeposit a sequence) stagedProvides
  seeks_amount : ∀ a sequence, pairsWeight (atDeposit a sequence) seeks.1 +
    pairsWeight (atDeposit a sequence) seeks.2 = pairsWeight (atDeposit a sequence) stagedSeeks
  included_eq : provides.includedProvidesSum = pairSum provides.lockedProvides
  fee_le : ∀ e ∈ provides.lockedProvides, e.2.metadata.ppb ≤ provides.feeRate
  feeRate_eq : provides.feeRate = maxFee provides.lockedProvides
  included_le : provides.includedProvidesSum ≤
    pairSum stagedSeeks * (B - provides.feeRate) * collP ⌈/⌉ (B * collS)
  stops : (∀ e ∈ seeks.2, e.2.amount = 0) ∨ provides.stagedProvides = [] ∨
    ∃ e rest, provides.stagedProvides = e :: rest ∧ provides.feeRate < e.2.metadata.ppb ∧
      remainingProviderCollateralNeeded (pairSum stagedSeeks) e.2.metadata.ppb collP collS
        provides.includedProvidesSum = .ok 0

section
variable {stagedSeeks : List AccountSeek} {stagedProvides : List AccountProvide} {collP collS : ℕ}

/-- Collateral for all the seeks lets all of them in. -/
theorem pairSum_le_included {seeksSum feeRate included limit : ℕ}
    (henough : collateralFor collP collS seeksSum feeRate ≤ included) (hcollS : 0 < collS)
    (h : includedSeeksSumBeforeFees feeRate collP collS included = .ok limit) : seeksSum ≤ limit := by
  obtain ⟨net, hnet, hlimit⟩ := bind_eq_ok.mp h
  simp only [subP, divP] at hnet hlimit
  split_ifs at hnet hlimit with hB hz
  cases hnet
  cases hlimit
  have hcovered := (ceilDiv_le_iff_le_mul (Nat.mul_pos B_pos hcollS)).mp henough
  refine (Nat.le_div_iff_mul_le (Nat.pos_of_ne_zero hz)).mpr ?_
  calc seeksSum * ((B - feeRate) * collP) = seeksSum * (B - feeRate) * collP := by ring
    _ ≤ B * collS * included := hcovered
    _ = included * collS * B := by ring

/-- The auction goes through at a proper ratio and proper fees, and clears however the staged
deposits are ordered. -/
theorem auction_clearing (stagedSeeks : List AccountSeek) (stagedProvides : List AccountProvide) (collP collS : ℕ) :
    (0 < collP → 0 < collS → (∀ e ∈ stagedSeeks, e.2.amount < 2 ^ 64) →
      (∀ e ∈ stagedProvides, e.2.amount < 2 ^ 64 ∧ e.2.metadata.ppb ≤ B) →
      ∃ provides seeks, calculateLockedProvidesAndFeeRate stagedSeeks stagedProvides collP collS = .ok provides ∧
        calculateLockedSeeks stagedSeeks provides.feeRate collP collS provides.includedProvidesSum = .ok seeks) ∧
    ∀ provides seeks, calculateLockedProvidesAndFeeRate stagedSeeks stagedProvides collP collS = .ok provides →
      calculateLockedSeeks stagedSeeks provides.feeRate collP collS provides.includedProvidesSum = .ok seeks →
        AuctionCleared stagedSeeks stagedProvides collP collS provides seeks := by
  constructor
  · intro hcollP hcollS hseeks hprovides
    have hstart := @remainingProviderCollateralNeeded_eq collP collS (pairSum stagedSeeks) 0 0 hcollS (Nat.zero_le _)
    obtain ⟨provides, hrun, hrate⟩ := lockProvidesLoop_total hcollS B_pos rfl hprovides
    have hden : (B - provides.feeRate) * collP ≠ 0 := (Nat.mul_pos (by omega) hcollP).ne'
    obtain ⟨seeks, hlocked⟩ := lockSeeksLoop_total stagedSeeks
      (provides.includedProvidesSum * collS * B / ((B - provides.feeRate) * collP)) hseeks
    refine ⟨provides, seeks, bind_eq_ok.mpr ⟨_, hstart, hrun⟩, bind_eq_ok.mpr ⟨_, ?_, hlocked⟩⟩
    exact bind_eq_ok.mpr ⟨_, if_neg (by omega), if_neg hden⟩
  · intro provides seeks hprovides hseeks
    obtain ⟨hmatchedP, hincluded, -⟩ := calculateLockedProvidesAndFeeRate_ok hprovides
    obtain ⟨hmatchedS, -⟩ := calculateLockedSeeks_ok hseeks
    obtain ⟨remaining, hstart, hloop⟩ := bind_eq_ok.mp hprovides
    obtain ⟨hcollS, -, hneeded⟩ := remainingProviderCollateralNeeded_ok hstart
    obtain ⟨hcut, hrate, hle, hstops⟩ := lockProvidesLoop_clears hneeded (Nat.zero_le _) hloop
    obtain ⟨limit, hlimit, hseekLoop⟩ := bind_eq_ok.mp hseeks
    obtain ⟨hseekCut, hzero⟩ := lockSeeksLoop_cut hseekLoop
    rw [Nat.zero_max] at hrate
    refine ⟨hcut, hseekCut, fun a q => hmatchedP.weigh_eq _, fun a q => hmatchedS.weigh_eq _, hincluded, ?_, hrate, hle,
      ?_⟩
    · intro e he
      rw [hrate]
      exact le_maxFee e he
    · rcases hstops with henough | hstops
      · exact .inl (hzero (pairSum_le_included henough.ge hcollS hlimit))
      · exact .inr hstops

end

/-- A seek of ten msats against provides of six and seven, the second at half of all as its fee. -/
theorem auction_clearing_demo : ∃ provides seeks,
    calculateLockedProvidesAndFeeRate [(⟨.seeker, 1⟩, ⟨1, 0, 10, ()⟩)]
      [(⟨.provider, 2⟩, ⟨2, 1, 6, ⟨0⟩⟩), (⟨.provider, 3⟩, ⟨3, 2, 7, ⟨500000000⟩⟩)] 1 1 = .ok provides ∧
    AuctionCleared [(⟨.seeker, 1⟩, ⟨1, 0, 10, ()⟩)]
      [(⟨.provider, 2⟩, ⟨2, 1, 6, ⟨0⟩⟩), (⟨.provider, 3⟩, ⟨3, 2, 7, ⟨500000000⟩⟩)] 1 1 provides seeks := by
  obtain ⟨hruns, hclears⟩ := auction_clearing [(⟨.seeker, 1⟩, ⟨1, 0, 10, ()⟩)]
    [(⟨.provider, 2⟩, ⟨2, 1, 6, ⟨0⟩⟩), (⟨.provider, 3⟩, ⟨3, 2, 7, ⟨500000000⟩⟩)] 1 1
  obtain ⟨provides, seeks, hprovides, hseeks⟩ := hruns (by decide) (by decide) (by decide) (by decide)
  exact ⟨provides, seeks, hprovides, hclears provides seeks hprovides hseeks⟩

end StabilityPool
