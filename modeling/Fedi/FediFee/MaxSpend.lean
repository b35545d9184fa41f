import Fedi.FediFee.Accrual

/-!
# The greatest spendable amount (`federation_v2/mod.rs`, `ln_ops/v2.rs`)

An amount is spent together with its fees, each of them rounded on its own, and the greatest
amount is offered as if none were:

    spend amount  = amount + ⌈amount * app / million⌉ + ⌈amount * guardian / million⌉ + base + ⌊amount * ppm / million⌋
    offered       = ⌊(balance - base) * million / (million + app + guardian + ppm)⌋

What is offered costs at most a msat too much (`spend_le_succ`), and that is what goes wrong
just below the cost of an amount whose fees round up by a msat or more (`max_spend_iff`).  The
gateway's fee is checked as it is, but offered for with 32 bits of its base and of its rate.

Balances stay below `2 ^ 64 / million`, so no product of the source leaves `u64`.
-/

namespace FediFee

/-- Fees of a gateway, as lightning invoices have them: two `u32`. -/
structure RoutingFees where
  baseMsat : ℕ
  proportionalMillionths : ℕ

/-- Fees of a gateway, as it sends them: two `u64`. -/
structure PaymentFee where
  base : ℕ
  partsPerMillion : ℕ

def PaymentFee.fee (sendFee : PaymentFee) (amount : ℕ) : ℕ :=
  sendFee.base + amount * sendFee.partsPerMillion / million

/-- `as u32`, twice. -/
def PaymentFee.gatewayRoutingFees (sendFee : PaymentFee) : RoutingFees where
  baseMsat := sendFee.base % 2 ^ 32
  proportionalMillionths := sendFee.partsPerMillion % 2 ^ 32

def getFeePpmsByStream (appPpm guardianPpm : ℕ) : List (FediFeeStream × ℕ) :=
  [(.app, appPpm), (.guardian, guardianPpm)]

def getFeeAmountsByStream (feePpms : List (FediFeeStream × ℕ)) (amount : ℕ) : List (FediFeeStream × ℕ) :=
  feePpms.map fun e => (e.1, (amount * e.2 + (million - 1)) / million)

def totalFediFeeAmount (feesByStream : List (FediFeeStream × ℕ)) : ℕ :=
  feesByStream.foldl (fun total e => total + e.2) 0

def totalFediFeePpm (feePpms : List (FediFeeStream × ℕ)) : ℕ := (feePpms.map (·.2)).sum

def getMaxSpendableAmount (virtualBalance totalFediFeePpm : ℕ) (onChainFee : Option ℕ)
    (gatewayFee : Option RoutingFees) : ℕ :=
  let virtualBalance := virtualBalance - onChainFee.getD 0
  let gatewayBase := (gatewayFee.map (·.baseMsat)).getD 0
  let gatewayPpm := (gatewayFee.map (·.proportionalMillionths)).getD 0
  let numeratorMsats := (virtualBalance - gatewayBase) * million
  let denominatorMsats := million + totalFediFeePpm + gatewayPpm
  numeratorMsats / denominatorMsats

def calculateMaxGenerateEcash (virtualBalance : ℕ) (feePpms : List (FediFeeStream × ℕ)) : ℕ :=
  let numerator := virtualBalance * million
  let denominator := million + totalFediFeePpm feePpms
  numerator / denominator

/-- An amount and its fees. -/
def totalSpend (feePpms : List (FediFeeStream × ℕ)) (sendFee : Option PaymentFee) (amount : ℕ) : ℕ :=
  amount + totalFediFeeAmount (getFeeAmountsByStream feePpms amount) + (sendFee.map (·.fee amount)).getD 0

/-- The check of `pay_invoice` and `generate_ecash`: an error offers the greatest amount. -/
def checkSpend (virtualBalance : ℕ) (feePpms : List (FediFeeStream × ℕ)) (sendFee : Option PaymentFee)
    (amount : ℕ) : Except ℕ Unit :=
  if virtualBalance < totalSpend feePpms sendFee amount then
    .error (getMaxSpendableAmount virtualBalance (totalFediFeePpm feePpms) none
      (sendFee.map PaymentFee.gatewayRoutingFees))
  else .ok ()

theorem checkSpend_ok_iff {virtualBalance amount : ℕ} {feePpms : List (FediFeeStream × ℕ)}
    {sendFee : Option PaymentFee} :
    checkSpend virtualBalance feePpms sendFee amount = .ok () ↔
      totalSpend feePpms sendFee amount ≤ virtualBalance := by
  unfold checkSpend
  by_cases h : virtualBalance < totalSpend feePpms sendFee amount
  · rw [if_pos h]
    constructor
    · intro hok
      cases hok
    · intro hle
      omega
  · rw [if_neg h]
    exact ⟨fun _ => not_lt.mp h, fun _ => rfl⟩

/-! ## Rounding -/

section
variable {app guardian ppm budget amount : ℕ}

theorem rates_pos (app guardian ppm : ℕ) : 0 < million + app + guardian + ppm := by
  have : 0 < million := by decide
  omega

/-- An amount and its fees, without the gateway's base. -/
def spend (app guardian ppm amount : ℕ) : ℕ :=
  amount + (amount * app + (million - 1)) / million + (amount * guardian + (million - 1)) / million +
    amount * ppm / million

theorem spend_strictMono (app guardian ppm : ℕ) : StrictMono (spend app guardian ppm) := by
  intro x y hlt
  have happ : (x * app + (million - 1)) / million ≤ (y * app + (million - 1)) / million :=
    Nat.div_le_div_right (Nat.add_le_add_right (Nat.mul_le_mul_right _ hlt.le) _)
  have hguardian : (x * guardian + (million - 1)) / million ≤ (y * guardian + (million - 1)) / million :=
    Nat.div_le_div_right (Nat.add_le_add_right (Nat.mul_le_mul_right _ hlt.le) _)
  have hppm : x * ppm / million ≤ y * ppm / million := Nat.div_le_div_right (Nat.mul_le_mul_right _ hlt.le)
  unfold spend
  omega

/-- Two fees round up by less than a msat each, and the third rounds down. -/
theorem spend_mul_bounds (app guardian ppm amount : ℕ) :
    amount * (million + app + guardian + ppm) < (spend app guardian ppm amount + 1) * million ∧
      spend app guardian ppm amount * million ≤ amount * (million + app + guardian + ppm) + 2 * (million - 1) := by
  have hexpand : amount * (million + app + guardian + ppm) =
      amount * million + amount * app + amount * guardian + amount * ppm := by ring
  rw [hexpand]
  unfold spend million
  constructor <;> omega

/-- An amount that the exact rates allow costs at most one msat more than there is. -/
theorem spend_le_succ (h : amount * (million + app + guardian + ppm) ≤ budget * million) :
    spend app guardian ppm amount ≤ budget + 1 := by
  obtain ⟨-, habove⟩ := spend_mul_bounds app guardian ppm amount
  unfold million at *
  omega

/-- The fees of an amount round up by a msat or more, all together. -/
def FeesRoundUp (app guardian ppm amount : ℕ) : Prop :=
  amount * (million + app + guardian + ppm) + million ≤ spend app guardian ppm amount * million

/-- What is offered is affordable, unless the budget is just short of an amount whose fees
round up. -/
theorem spend_offered_iff :
    spend app guardian ppm (budget * million / (million + app + guardian + ppm)) ≤ budget ↔
      ∀ x, FeesRoundUp app guardian ppm x → spend app guardian ppm x ≠ budget + 1 := by
  have hden := rates_pos app guardian ppm
  have hexact := Nat.div_mul_le_self (budget * million) (million + app + guardian + ppm)
  constructor
  · intro hle x hround hcost
    unfold FeesRoundUp at hround
    rw [hcost, Nat.add_mul, Nat.one_mul] at hround
    have hx : x ≤ budget * million / (million + app + guardian + ppm) :=
      (Nat.le_div_iff_mul_le hden).mpr (by omega)
    have := (spend_strictMono app guardian ppm).monotone hx
    omega
  · intro hnone
    by_contra hgt
    have hsucc := spend_le_succ hexact
    have hcost : spend app guardian ppm (budget * million / (million + app + guardian + ppm)) = budget + 1 := by omega
    refine hnone _ ?_ hcost
    unfold FeesRoundUp
    rw [hcost, Nat.add_mul, Nat.one_mul]
    omega

/-- What is offered is next to the greatest affordable amount, on either side of it. -/
theorem offered_near_greatest (app guardian ppm budget : ℕ) :
    ∃ largest, IsGreatest {x | spend app guardian ppm x ≤ budget} largest ∧
      budget * million / (million + app + guardian + ppm) ≤ largest + 1 ∧
      largest ≤ budget * million / (million + app + guardian + ppm) + 1 := by
  have hden := rates_pos app guardian ppm
  have hbounded : ∀ x ∈ {x | spend app guardian ppm x ≤ budget}, x ≤ budget := by
    intro x hx
    exact (StrictMono.le_apply (spend_strictMono app guardian ppm)).trans hx
  have hzero : 0 ∈ {x | spend app guardian ppm x ≤ budget} := by
    show spend app guardian ppm 0 ≤ budget
    simp [spend, million]
  obtain ⟨largest, hmem, hmax⟩ := BddAbove.exists_isGreatest_of_nonempty ⟨budget, hbounded⟩ ⟨0, hzero⟩
  refine ⟨largest, ⟨hmem, hmax⟩, ?_, ?_⟩
  · -- one less than offered is affordable
    rcases Nat.eq_zero_or_pos (budget * million / (million + app + guardian + ppm)) with hnone | hsome
    · omega
    have hsucc := spend_le_succ (Nat.div_mul_le_self (budget * million) (million + app + guardian + ppm))
    have hless := spend_strictMono app guardian ppm (Nat.sub_one_lt_of_lt hsome)
    have hpred : budget * million / (million + app + guardian + ppm) - 1 ∈ {x | spend app guardian ppm x ≤ budget} := by
      show spend app guardian ppm _ ≤ budget
      omega
    have := hmax hpred
    omega
  · -- and two more than offered is not
    obtain ⟨hbelow, -⟩ := spend_mul_bounds app guardian ppm largest
    have hcost : (spend app guardian ppm largest + 1) * million ≤ budget * million + million := by
      rw [Nat.add_mul, Nat.one_mul]
      exact Nat.add_le_add_right (Nat.mul_le_mul_right _ hmem) _
    have hfloor := Nat.lt_div_mul_add (a := budget * million) hden
    have hlt : largest * (million + app + guardian + ppm) <
        (budget * million / (million + app + guardian + ppm) + 2) * (million + app + guardian + ppm) := by
      rw [Nat.add_mul]
      omega
    have := Nat.lt_of_mul_lt_mul_right hlt
    omega

end

/-! ## What is offered -/

/-- The amount passes, and is within two msats of the greatest that does. -/
def IsMaxSpend (passes : ℕ → Prop) (amount : ℕ) : Prop :=
  passes amount ∧ ∃ largest, IsGreatest {x | passes x} largest ∧ amount ≤ largest + 2 ∧ largest ≤ amount + 2

section
variable {app guardian virtualBalance amount : ℕ}

theorem totalFediFeePpm_eq : totalFediFeePpm (getFeePpmsByStream app guardian) = app + guardian := by
  simp [totalFediFeePpm, getFeePpmsByStream]

theorem getFeeAmountsByStream_eq : getFeeAmountsByStream (getFeePpmsByStream app guardian) amount =
    [(.app, (amount * app + (million - 1)) / million), (.guardian, (amount * guardian + (million - 1)) / million)] :=
  rfl

theorem totalFediFeeAmount_pair (appFee guardianFee : ℕ) :
    totalFediFeeAmount [(.app, appFee), (.guardian, guardianFee)] = appFee + guardianFee := by
  simp [totalFediFeeAmount]

theorem totalSpend_some {sendFee : PaymentFee} : totalSpend (getFeePpmsByStream app guardian) (some sendFee) amount =
    sendFee.base + spend app guardian sendFee.partsPerMillion amount := by
  rw [totalSpend, getFeeAmountsByStream_eq, totalFediFeeAmount_pair, Option.map_some, Option.getD_some,
    PaymentFee.fee, spend]
  ac_rfl

theorem totalSpend_none : totalSpend (getFeePpmsByStream app guardian) none amount = spend app guardian 0 amount := by
  rw [totalSpend, getFeeAmountsByStream_eq, totalFediFeeAmount_pair, Option.map_none, Option.getD_none, spend,
    Nat.mul_zero, Nat.zero_div, Nat.add_zero, Nat.add_zero, Nat.add_assoc]

theorem getMaxSpendableAmount_some {gateway : RoutingFees} :
    getMaxSpendableAmount virtualBalance (totalFediFeePpm (getFeePpmsByStream app guardian)) none (some gateway) =
      (virtualBalance - gateway.baseMsat) * million / (million + app + guardian + gateway.proportionalMillionths) := by
  rw [totalFediFeePpm_eq, getMaxSpendableAmount, Option.map_some, Option.map_some, Option.getD_some, Option.getD_some,
    Option.getD_none, Nat.sub_zero, ← Nat.add_assoc million]

theorem calculateMaxGenerateEcash_eq : calculateMaxGenerateEcash virtualBalance (getFeePpmsByStream app guardian) =
    virtualBalance * million / (million + app + guardian + 0) := by
  rw [calculateMaxGenerateEcash, totalFediFeePpm_eq, Nat.add_zero, Nat.add_assoc]

/-- Without a gateway, what an error offers is what a spend of everything offers. -/
theorem getMaxSpendableAmount_none : getMaxSpendableAmount virtualBalance
    (totalFediFeePpm (getFeePpmsByStream app guardian)) none none =
      calculateMaxGenerateEcash virtualBalance (getFeePpmsByStream app guardian) := by
  rw [getMaxSpendableAmount, calculateMaxGenerateEcash, Option.map_none, Option.map_none, Option.getD_none,
    Nat.sub_zero, Nat.sub_zero, Nat.add_zero]

/-- What is offered for rates that are no higher than those of the check is never too little: it is right when
it passes. -/
theorem isMaxSpend_iff_passes {passes : ℕ → Prop} {ppm base offered : ℕ}
    (hpasses : ∀ x, passes x ↔ base + spend app guardian ppm x ≤ virtualBalance)
    (hoffered : (virtualBalance - base) * million / (million + app + guardian + ppm) ≤ offered) :
    IsMaxSpend passes offered ↔ passes offered := by
  refine ⟨fun h => h.1, fun h => ⟨h, ?_⟩⟩
  have hfits := (hpasses offered).mp h
  have hset : {x | passes x} = {x | spend app guardian ppm x ≤ virtualBalance - base} := by
    ext x
    show passes x ↔ spend app guardian ppm x ≤ virtualBalance - base
    rw [hpasses]
    omega
  obtain ⟨largest, hlargest, -, hhigh⟩ := offered_near_greatest app guardian ppm (virtualBalance - base)
  have hle : offered ≤ largest := hlargest.2 (show spend app guardian ppm offered ≤ virtualBalance - base by omega)
  refine ⟨largest, ?_, by omega, by omega⟩
  rw [hset]
  exact hlargest

/-- What is left of the balance for a gateway's base is what a spend is measured against. -/
theorem passes_offered_iff {passes : ℕ → Prop} {ppm base : ℕ}
    (hpasses : ∀ x, passes x ↔ base + spend app guardian ppm x ≤ virtualBalance) :
    passes ((virtualBalance - base) * million / (million + app + guardian + ppm)) ↔
      base ≤ virtualBalance ∧
        ∀ x, FeesRoundUp app guardian ppm x → base + spend app guardian ppm x ≠ virtualBalance + 1 := by
  rw [hpasses]
  constructor
  · intro hfits
    have hbase : base ≤ virtualBalance := by omega
    refine ⟨hbase, fun x hround hcost => ?_⟩
    have hle : spend app guardian ppm
        ((virtualBalance - base) * million / (million + app + guardian + ppm)) ≤ virtualBalance - base := by
      omega
    have hne := spend_offered_iff.mp hle x hround
    omega
  · rintro ⟨hbase, hnone⟩
    have hoffered : spend app guardian ppm
        ((virtualBalance - base) * million / (million + app + guardian + ppm)) ≤ virtualBalance - base := by
      rw [spend_offered_iff]
      intro x hround hcost
      refine hnone x hround ?_
      omega
    omega

/-! ## Truncated fees -/

/-- With 32 bits of a base that has more, too much is offered. -/
theorem truncatedBase_exceeds {base baseMsat ppm proportionalMillionths : ℕ} (hbase : baseMsat + 2 ^ 32 ≤ base)
    (hppm : proportionalMillionths ≤ ppm)
    (hrates : million + app + guardian + proportionalMillionths ≤ (2 ^ 32 - 1) * million) :
    ¬ base + spend app guardian ppm
      ((virtualBalance - baseMsat) * million / (million + app + guardian + proportionalMillionths)) ≤ virtualBalance := by
  intro hle
  have hden := rates_pos app guardian proportionalMillionths
  have hfloor := Nat.lt_div_mul_add (a := (virtualBalance - baseMsat) * million) hden
  generalize (virtualBalance - baseMsat) * million / (million + app + guardian + proportionalMillionths) = offered at *
  obtain ⟨hbelow, -⟩ := spend_mul_bounds app guardian ppm offered
  have hrate : offered * (million + app + guardian + proportionalMillionths) ≤
      offered * (million + app + guardian + ppm) := Nat.mul_le_mul_left _ (by omega)
  -- the missing part of the base is more than what the division loses
  have hbudget : (virtualBalance - base + 2 ^ 32) * million ≤ (virtualBalance - baseMsat) * million :=
    Nat.mul_le_mul_right _ (by omega)
  unfold million at *
  omega

/-- With 32 bits of a rate that has more, what is offered passes only where it is nothing, or the one msat that
there is enough for. -/
theorem truncatedPpm_iff {budget ppm proportionalMillionths : ℕ} (hppm : proportionalMillionths + 2 ^ 32 ≤ ppm)
    (hrates : million + (million + app + guardian + proportionalMillionths) < 2 * 2 ^ 32) :
    spend app guardian ppm (budget * million / (million + app + guardian + proportionalMillionths)) ≤ budget ↔
      budget * million < million + app + guardian + proportionalMillionths ∨
        budget * million < 2 * (million + app + guardian + proportionalMillionths) ∧
          spend app guardian ppm 1 ≤ budget := by
  have hden := rates_pos app guardian proportionalMillionths
  constructor
  · intro hle
    have hfloor := Nat.lt_div_mul_add (a := budget * million) hden
    generalize budget * million / (million + app + guardian + proportionalMillionths) = offered at *
    obtain ⟨hbelow, -⟩ := spend_mul_bounds app guardian ppm offered
    have hrate : offered * (million + app + guardian + proportionalMillionths + 2 ^ 32) ≤
        offered * (million + app + guardian + ppm) := Nat.mul_le_mul_left _ (by omega)
    rw [Nat.mul_add] at hrate
    have hcost : spend app guardian ppm offered * million ≤ budget * million := Nat.mul_le_mul_right _ hle
    have hfew : offered < 2 := by
      by_contra hmany
      have hmore : 2 * 2 ^ 32 ≤ offered * 2 ^ 32 := Nat.mul_le_mul_right _ (by omega)
      rw [Nat.add_mul] at hbelow
      omega
    interval_cases offered
    · left
      omega
    · right
      exact ⟨by omega, hle⟩
  · rintro (hnothing | ⟨hone, hcost⟩)
    · rw [Nat.div_eq_of_lt hnothing]
      simp [spend, million]
    · have hle : budget * million / (million + app + guardian + proportionalMillionths) ≤ 1 := by
        have := (Nat.div_lt_iff_lt_mul hden).mpr hone
        omega
      exact ((spend_strictMono app guardian ppm).monotone hle).trans hcost

/-- The base is at most the balance, and has 32 bits.  If the rate has too, the balance is not a msat short of
what an amount costs whose fees round up by a msat or more; if it has not, the balance buys less than a msat
at what 32 bits leave of the rate, or less than two and one at the whole rate. -/
def PaymentFee.Affordable (sendFee : PaymentFee) (virtualBalance app guardian : ℕ) : Prop :=
  sendFee.base ≤ virtualBalance ∧ sendFee.base < 2 ^ 32 ∧
    if sendFee.partsPerMillion < 2 ^ 32 then
      ∀ x, FeesRoundUp app guardian sendFee.partsPerMillion x →
        totalSpend (getFeePpmsByStream app guardian) (some sendFee) x ≠ virtualBalance + 1
    else
      (virtualBalance - sendFee.base) * million < million + app + guardian + sendFee.partsPerMillion % 2 ^ 32 ∨
        (virtualBalance - sendFee.base) * million <
            2 * (million + app + guardian + sendFee.partsPerMillion % 2 ^ 32) ∧
          totalSpend (getFeePpmsByStream app guardian) (some sendFee) 1 ≤ virtualBalance

/-- What is offered for a gateway's fee passes exactly when the fee is affordable. -/
theorem sendFee_affordable_iff (happ : app ≤ 42000) (hguardian : guardian ≤ 210000) (sendFee : PaymentFee) :
    IsMaxSpend (fun x => checkSpend virtualBalance (getFeePpmsByStream app guardian) (some sendFee) x = .ok ())
        (getMaxSpendableAmount virtualBalance (totalFediFeePpm (getFeePpmsByStream app guardian)) none
          (some sendFee.gatewayRoutingFees)) ↔
      sendFee.Affordable virtualBalance app guardian := by
  obtain ⟨base, ppm⟩ := sendFee
  have hpasses : ∀ x, checkSpend virtualBalance (getFeePpmsByStream app guardian) (some ⟨base, ppm⟩) x = .ok () ↔
      base + spend app guardian ppm x ≤ virtualBalance := by
    intro x
    rw [checkSpend_ok_iff, totalSpend_some]
  have hbits := Nat.mod_lt ppm (Nat.two_pow_pos 32)
  have hless := Nat.mod_le ppm (2 ^ 32)
  have hlessBase := Nat.mod_le base (2 ^ 32)
  rw [getMaxSpendableAmount_some]
  unfold PaymentFee.gatewayRoutingFees PaymentFee.Affordable
  simp only [totalSpend_some]
  have hoffered : (virtualBalance - base) * million / (million + app + guardian + ppm) ≤
      (virtualBalance - base % 2 ^ 32) * million / (million + app + guardian + ppm % 2 ^ 32) := by
    have hpos := rates_pos app guardian (ppm % 2 ^ 32)
    refine Nat.div_le_div (Nat.mul_le_mul_right _ (by omega)) (by omega) ?_
    omega
  rw [isMaxSpend_iff_passes hpasses hoffered]
  by_cases hbase : base < 2 ^ 32
  · rw [Nat.mod_eq_of_lt hbase]
    split_ifs with hppm
    · rw [Nat.mod_eq_of_lt hppm, passes_offered_iff hpasses]
      constructor
      · rintro ⟨hfits, hnone⟩
        exact ⟨hfits, hbase, hnone⟩
      · rintro ⟨hfits, -, hnone⟩
        exact ⟨hfits, hnone⟩
    · rw [hpasses]
      have htruncated := @truncatedPpm_iff app guardian (virtualBalance - base) ppm (ppm % 2 ^ 32) (by omega) (by
        unfold million
        omega)
      constructor
      · intro hle
        refine ⟨by omega, hbase, ?_⟩
        rcases htruncated.mp (by omega) with hnothing | ⟨hone, hcost⟩
        · exact .inl hnothing
        · exact .inr ⟨hone, by omega⟩
      · rintro ⟨hfits, -, hbuys⟩
        have hle := htruncated.mpr (hbuys.imp id fun h => ⟨h.1, by omega⟩)
        omega
  · have hexceeds := @truncatedBase_exceeds app guardian virtualBalance base (base % 2 ^ 32) ppm (ppm % 2 ^ 32)
      (by omega) hless (by
        unfold million
        omega)
    rw [hpasses]
    exact ⟨fun hle => absurd hle hexceeds, fun h => absurd h.2.1 hbase⟩

/-- What is offered is the most that can be spent, unless the gateway's base is more than the
balance or does not fit 32 bits, or the balance is a msat short of what an amount costs whose fees round
up by a msat or more, or is offered for at a rate without its upper bits. -/
theorem max_spend_iff (virtualBalance app guardian : ℕ) (happ : app ≤ 42000) (hguardian : guardian ≤ 210000) :
    (∀ sendFee : PaymentFee,
      IsMaxSpend (fun x => checkSpend virtualBalance (getFeePpmsByStream app guardian) (some sendFee) x = .ok ())
        (getMaxSpendableAmount virtualBalance (totalFediFeePpm (getFeePpmsByStream app guardian)) none
          (some sendFee.gatewayRoutingFees)) ↔
      sendFee.Affordable virtualBalance app guardian) ∧
    (IsMaxSpend (fun x => checkSpend virtualBalance (getFeePpmsByStream app guardian) none x = .ok ())
        (calculateMaxGenerateEcash virtualBalance (getFeePpmsByStream app guardian)) ↔
      ∀ x, FeesRoundUp app guardian 0 x →
        totalSpend (getFeePpmsByStream app guardian) none x ≠ virtualBalance + 1) := by
  refine ⟨sendFee_affordable_iff happ hguardian, ?_⟩
  have hpasses : ∀ x, checkSpend virtualBalance (getFeePpmsByStream app guardian) none x = .ok () ↔
      0 + spend app guardian 0 x ≤ virtualBalance := by
    intro x
    rw [checkSpend_ok_iff, totalSpend_none, Nat.zero_add]
  have hoffered := passes_offered_iff hpasses
  rw [Nat.sub_zero] at hoffered
  rw [calculateMaxGenerateEcash_eq, isMaxSpend_iff_passes hpasses (by rw [Nat.sub_zero]), hoffered]
  simp only [totalSpend_none]
  simp

/-- A hundred msats cost 1, 2 and 10 + 5 in fees, and are offered for what they cost. -/
theorem max_spend_iff_demo :
    getMaxSpendableAmount 118 (totalFediFeePpm (getFeePpmsByStream 10000 20000)) none
        (some (PaymentFee.mk 10 50000).gatewayRoutingFees) = 100 ∧
      IsMaxSpend (fun x => checkSpend 118 (getFeePpmsByStream 10000 20000) (some ⟨10, 50000⟩) x = .ok ())
        (getMaxSpendableAmount 118 (totalFediFeePpm (getFeePpmsByStream 10000 20000)) none
          (some (PaymentFee.mk 10 50000).gatewayRoutingFees)) := by
  refine ⟨by decide, ((max_spend_iff 118 10000 20000 (by decide) (by decide)).1 ⟨10, 50000⟩).mpr
    ⟨by decide, by decide, ?_⟩⟩
  rw [if_pos (by decide)]
  intro x _
  rw [totalSpend_some]
  -- 101 msats cost three more than there are
  rcases Nat.lt_or_ge 100 x with hmore | hless
  · have := (spend_strictMono 10000 20000 50000).monotone (show 101 ≤ x from hmore)
    have hnext : spend 10000 20000 50000 101 = 111 := by decide
    dsimp only
    omega
  · have := (spend_strictMono 10000 20000 50000).monotone hless
    have hlast : spend 10000 20000 50000 100 = 108 := by decide
    dsimp only
    omega

/-- With two msats and a millionth as the fee of both streams, one msat is offered and costs
three. -/
theorem max_spend_short :
    getMaxSpendableAmount 2 (totalFediFeePpm (getFeePpmsByStream 1 1)) none
        (some (PaymentFee.mk 0 0).gatewayRoutingFees) = 1 ∧
      checkSpend 2 (getFeePpmsByStream 1 1) (some ⟨0, 0⟩) 1 ≠ .ok () ∧
      calculateMaxGenerateEcash 2 (getFeePpmsByStream 1 1) = 1 ∧
      checkSpend 2 (getFeePpmsByStream 1 1) none 1 ≠ .ok () := by
  refine ⟨by decide, ?_, by decide, ?_⟩
  · rw [Ne, checkSpend_ok_iff]
    decide
  · rw [Ne, checkSpend_ok_iff]
    decide

end

end FediFee
