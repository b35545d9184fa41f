import Fedi.StabilityPool.AccountSteps

/-!
# Matching seeks to provides: what the loops conserve and cover

The loops take staged deposits from the front of a sorted list until the needed
amount is reached; at most one deposit is cut in two, so the locked deposits are
a prefix of the list and the remaining ones a suffix (`Matched`).

With `f` the fee rate, `cp : cs` the collateral ratio, `P` the included provides
and `S` the locked seeks before fees,

    S * ((B - f) * cp) ≤ P * cs * B                                  (lockedSeeks_covered)

and every seek pays its fee rounded up, so after fees the locked seeks are covered
by the locked provides (`charged_covered`).
-/

namespace StabilityPool

open BTreeMaps KeyedLogs Runs

section
variable {M : Type}

def pairHeads (l : List (AccountId × Deposit M)) : List (AccountId × TransactionId × ℕ × M) :=
  l.map fun e => (e.1, e.2.head)

/-- Amounts of `l` shared out between a locked prefix and a staged suffix. -/
structure Matched (l locked staged : List (AccountId × Deposit M)) : Prop where
  weigh_eq : ∀ w, pairsWeight w locked + pairsWeight w staged = pairsWeight w l
  locked_heads : pairHeads locked <+: pairHeads l
  staged_heads : pairHeads staged <:+ pairHeads l

theorem Matched.pairSum_eq {l locked staged : List (AccountId × Deposit M)} (h : Matched l locked staged) :
    pairSum locked + pairSum staged = pairSum l := by
  have := h.weigh_eq fun _ _ => 1
  simpa only [pairsWeight_one] using this

theorem matched_none (l : List (AccountId × Deposit M)) : Matched l [] l where
  weigh_eq _ := by simp
  locked_heads := List.nil_prefix
  staged_heads := List.suffix_refl _

/-- The first deposit is locked whole. -/
theorem Matched.cons {l locked staged : List (AccountId × Deposit M)} (h : Matched l locked staged)
    (e : AccountId × Deposit M) : Matched (e :: l) (e :: locked) staged where
  weigh_eq w := by
    have := h.weigh_eq w
    simp only [pairsWeight_cons]
    omega
  locked_heads := List.cons_prefix_cons.mpr ⟨rfl, h.locked_heads⟩
  staged_heads := h.staged_heads.trans (List.suffix_cons _ _)

/-- The first deposit is cut in two. -/
theorem matched_cut (a : AccountId) (d : Deposit M) {used : ℕ} (hle : used ≤ d.amount)
    (l : List (AccountId × Deposit M)) :
    Matched ((a, d) :: l) [(a, { d with amount := used })]
      ((a, { d with amount := d.amount - used }) :: l) where
  weigh_eq w := by
    have : w a d.sequence * used + w a d.sequence * (d.amount - used) = w a d.sequence * d.amount := by
      rw [← Nat.mul_add, Nat.add_sub_cancel' hle]
    simp only [pairsWeight_cons, pairsWeight_nil]
    omega
  locked_heads := List.cons_prefix_cons.mpr ⟨rfl, List.nil_prefix⟩
  staged_heads := List.suffix_refl _

end

/-! ## Provides -/

theorem nextFeeRate_ok {seeksSum collP collS minFeeRate feeRate remaining included : ℕ}
    {r : Option (ℕ × ℕ)}
    (h : nextFeeRate seeksSum collP collS minFeeRate feeRate remaining included = .ok r) {f n : ℕ}
    (hr : r = some (f, n)) : feeRate ≤ f ∧ minFeeRate ≤ f ∧ (f = feeRate ∨ f = minFeeRate ∧ f ≤ B) := by
  unfold nextFeeRate at h
  split_ifs at h with hlt
  · obtain ⟨m, hm, h⟩ := bind_eq_ok.mp h
    have hle : minFeeRate ≤ B := by
      obtain ⟨net, hnet, -⟩ := bind_eq_ok.mp hm
      simp only [subP] at hnet
      split_ifs at hnet with hb
      omega
    split_ifs at h
    · cases h
      cases hr
    · cases h
      cases hr
      exact ⟨hlt.le, le_refl _, Or.inr ⟨rfl, hle⟩⟩
  · cases h
    cases hr
    exact ⟨le_refl _, not_lt.mp hlt, Or.inl rfl⟩

/-- What including provides does: the staged list is shared out, the locked
amounts are summed up, and the fee rate rises to that of the locked provides. -/
structure ProvidesLocked (l : List AccountProvide) (feeRate included : ℕ)
    (r : LockedProvidesAndFeeRateResult) : Prop where
  matched : Matched l r.lockedProvides r.stagedProvides
  included_eq : r.includedProvidesSum = included + pairSum r.lockedProvides
  feeRate_le : feeRate ≤ r.feeRate
  feeRate_le_B : feeRate ≤ B → r.feeRate ≤ B

theorem lockProvidesLoop_ok {seeksSum collP collS : ℕ} :
    ∀ {l : List AccountProvide} {feeRate remaining included : ℕ} {r : LockedProvidesAndFeeRateResult},
      lockProvidesLoop seeksSum collP collS l feeRate remaining included = .ok r →
        ProvidesLocked l feeRate included r
  | [], feeRate, remaining, included, r, h => by
    cases h
    exact ⟨matched_none _, rfl, le_refl _, id⟩
  | (a, provide) :: l, feeRate, remaining, included, r, h => by
    unfold lockProvidesLoop at h
    split_ifs at h with hrem
    · cases h
      exact ⟨matched_none _, rfl, le_refl _, id⟩
    obtain ⟨next, hnext, h⟩ := bind_eq_ok.mp h
    rcases next with - | ⟨f, n⟩
    · cases h
      exact ⟨matched_none _, rfl, le_refl _, id⟩
    obtain ⟨hf, -, hfB⟩ := nextFeeRate_ok hnext rfl
    obtain ⟨msats, hmsats, h⟩ := bind_eq_ok.mp h
    simp only [unwrapU64] at hmsats
    split_ifs at hmsats with hbound
    cases hmsats
    split_ifs at h with hz
    · obtain ⟨r', hr', h⟩ := bind_eq_ok.mp h
      obtain ⟨hm, hi, hle, hB⟩ := lockProvidesLoop_ok hr'
      rw [pure_eq_ok] at h
      subst h
      have hall : min n provide.amount = provide.amount := by omega
      rw [hall] at hi ⊢
      refine ⟨hm.cons (a, provide), ?_, hf.trans hle, fun hb => hB ?_⟩
      · simp only [hi, pairSum_cons]
        omega
      · rcases hfB with rfl | ⟨-, h⟩
        · exact hb
        · exact h
    · rw [pure_eq_ok] at h
      subst h
      refine ⟨matched_cut a provide (min_le_right _ _) l, ?_, hf, fun hb => ?_⟩
      · simp only [pairSum_cons, pairSum_nil]
        omega
      · rcases hfB with rfl | ⟨-, h⟩
        · exact hb
        · exact h

theorem calculateLockedProvidesAndFeeRate_ok {stagedSeeks : List AccountSeek}
    {stagedProvides : List AccountProvide} {collP collS : ℕ} {r : LockedProvidesAndFeeRateResult}
    (h : calculateLockedProvidesAndFeeRate stagedSeeks stagedProvides collP collS = .ok r) :
    Matched stagedProvides r.lockedProvides r.stagedProvides ∧
      r.includedProvidesSum = pairSum r.lockedProvides ∧ r.feeRate ≤ B := by
  obtain ⟨remaining, -, h⟩ := bind_eq_ok.mp h
  obtain ⟨hm, hi, -, hB⟩ := lockProvidesLoop_ok h
  exact ⟨hm, by omega, hB (Nat.zero_le _)⟩

/-! ## Seeks -/

theorem lockSeeksLoop_ok :
    ∀ {l : List AccountSeek} {included : ℕ} {r : List AccountSeek × List AccountSeek},
      lockSeeksLoop l included = .ok r → Matched l r.1 r.2 ∧ pairSum r.1 ≤ included
  | [], included, r, h => by
    cases h
    exact ⟨matched_none _, Nat.zero_le _⟩
  | (a, seek) :: l, included, r, h => by
    unfold lockSeeksLoop at h
    split_ifs at h with hinc
    · cases h
      exact ⟨matched_none _, Nat.zero_le _⟩
    obtain ⟨msats, hmsats, h⟩ := bind_eq_ok.mp h
    simp only [unwrapU64] at hmsats
    split_ifs at hmsats with hbound
    cases hmsats
    split_ifs at h with hz
    · obtain ⟨r', hr', h⟩ := bind_eq_ok.mp h
      obtain ⟨hm, hle⟩ := lockSeeksLoop_ok hr'
      rw [pure_eq_ok] at h
      subst h
      have hall : min included seek.amount = seek.amount := by omega
      rw [hall] at hle ⊢
      refine ⟨hm.cons (a, seek), ?_⟩
      simp only [pairSum_cons]
      omega
    · rw [pure_eq_ok] at h
      subst h
      refine ⟨matched_cut a seek (min_le_right _ _) l, ?_⟩
      simp only [pairSum_cons, pairSum_nil]
      omega

/-- The locked seeks, before fees, are what the included provides collateralize. -/
theorem calculateLockedSeeks_ok {stagedSeeks : List AccountSeek} {feeRate collP collS included : ℕ}
    {r : List AccountSeek × List AccountSeek}
    (h : calculateLockedSeeks stagedSeeks feeRate collP collS included = .ok r) :
    Matched stagedSeeks r.1 r.2 ∧
      pairSum r.1 * ((B - feeRate) * collP) ≤ included * collS * B := by
  obtain ⟨limit, hlimit, h⟩ := bind_eq_ok.mp h
  obtain ⟨hm, hle⟩ := lockSeeksLoop_ok h
  obtain ⟨net, hnet, hlimit⟩ := bind_eq_ok.mp hlimit
  simp only [subP, divP] at hnet hlimit
  split_ifs at hnet hlimit with hB hz
  cases hnet
  cases hlimit
  exact ⟨hm, (Nat.mul_le_mul_right _ hle).trans (Nat.div_mul_le_self _ _)⟩

/-! ## Fees -/

/-- Every seek keeps its head and pays at least the fee rate. -/
theorem chargeFees_ok {feeRate : ℕ} :
    ∀ {seeks : List AccountSeek} {db : Db} {r : List AccountSeek × ℕ × Db},
      chargeFees feeRate seeks db = .ok r →
        pairHeads r.1 = pairHeads seeks ∧ pairSum r.1 + r.2.1 = pairSum seeks ∧
          pairSum r.1 * B + pairSum seeks * feeRate ≤ pairSum seeks * B ∧
          ∃ fees, r.2.2 = { db with seekLifetimeFee := fees }
  | [], db, r, h => by
    cases h
    exact ⟨rfl, rfl, by simp, db.seekLifetimeFee, rfl⟩
  | (a, seek) :: seeks, db, r, h => by
    unfold chargeFees at h
    obtain ⟨fee, hfee, h⟩ := bind_eq_ok.mp h
    obtain ⟨fee', hfee', h⟩ := bind_eq_ok.mp h
    obtain ⟨amount, hamount, h⟩ := bind_eq_ok.mp h
    obtain ⟨r', hr', h⟩ := bind_eq_ok.mp h
    rw [pure_eq_ok] at h
    subst h
    simp only [ceilDivision, divP, unwrapU64, subP] at hfee hfee' hamount
    split_ifs at hfee hfee' hamount with h1 h2 h3
    cases hfee'
    cases hamount
    obtain ⟨hheads, hsum, hcharge, fees, hdb⟩ := chargeFees_ok hr'
    have hfee : fee = (seek.amount * feeRate + B - 1) / B := by cases hfee; rfl
    have hge : seek.amount * feeRate ≤ fee * B := by
      have hB : 0 < B := by decide
      have := Nat.lt_div_mul_add (a := seek.amount * feeRate + B - 1) hB
      rw [← hfee] at this
      omega
    have hle : fee ≤ seek.amount := not_lt.mp h3
    refine ⟨?_, ?_, ?_, fees, hdb⟩
    · show (a, Deposit.head _) :: pairHeads r'.1 = (a, seek.head) :: pairHeads seeks
      rw [hheads]
      rfl
    · simp only [pairSum_cons]
      omega
    · simp only [pairSum_cons, Nat.add_mul]
      have : (seek.amount - fee) * B + fee * B = seek.amount * B := by
        rw [← Nat.add_mul, Nat.sub_add_cancel hle]
      omega

/-- Coverage after fees: `S * ((B - f) * cp) ≤ P * cs * B` before them. -/
theorem charged_covered {charged seeks provides feeRate collP collS : ℕ}
    (hcharge : charged * B + seeks * feeRate ≤ seeks * B)
    (hmatch : seeks * ((B - feeRate) * collP) ≤ provides * collS * B) :
    charged * collP ≤ provides * collS := by
  have hB : 0 < B := by decide
  have hnet : charged * B ≤ seeks * (B - feeRate) := by
    rw [Nat.mul_sub]
    omega
  have h1 : charged * collP * B ≤ provides * collS * B :=
    calc charged * collP * B = charged * B * collP := by ring
      _ ≤ seeks * (B - feeRate) * collP := Nat.mul_le_mul_right _ hnet
      _ = seeks * ((B - feeRate) * collP) := by ring
      _ ≤ provides * collS * B := hmatch
  exact Nat.le_of_mul_le_mul_right h1 hB

end StabilityPool
