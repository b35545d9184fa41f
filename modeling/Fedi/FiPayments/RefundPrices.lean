import Fedi.FiPayments.Denominations
import Mathlib.Algebra.Order.BigOperators.Group.List
import Mathlib.Algebra.BigOperators.Ring.List
import Mathlib.Algebra.Order.Ring.Int
import Mathlib.Algebra.Order.Ring.Nat

/-!
# Prices whose refund is refused (`fi_payments/refund.rs`)

A seat is paid in the binary digits of its price, and every note costs 100 msats when it is spent and
when it is issued.  The refund takes the same large notes as the payment, down to 2^20 msats, and then has
no large coin that it may take back, so what the small notes leave must be a sum of tiers by itself:

    rest = small notes - 100 for each of them - 200 for each large note
    no large note, or rest < 0, or rest is a sum of fee-bearing tiers   (refunds_iff)

Every multiple of 4 from 19712 msats on is such a sum.
-/

namespace FiPayments

open CoinChange

def MAX_SEAT_PRICE_MSATS : ℕ := 100000000000

def UNECONOMICAL_DENOMINATION_MSATS : ℕ := 100

/-- `consensus_denominations`: the powers of two up to that of `top`. -/
def consensusDenominations (top : ℕ) : List ℕ := (List.range (top + 1)).map (2 ^ ·)

inductive RefundAmountsError where
  | priceNotRepresentable
  | feesExceedPrice
  | denominations (e : DenominationError)
deriving DecidableEq

/-- `try_fold` with `checked_add`. -/
def sumFees (inputFee : ℕ → ℕ) : List ℕ → ℕ → Option ℕ
  | [], sum => some sum
  | amount :: paid, sum => if sum + inputFee amount < 2 ^ 64 then sumFees inputFee paid (sum + inputFee amount) else none

/-- The amounts of `prepare_quote_refund_inner` on the denominations of a mint. -/
def prepareQuoteRefund (denominations : List ℕ) (inputFee outputFee : ℕ → ℕ) (priceMsats : ℕ) :
    Except RefundAmountsError (List ℕ) :=
  let tiers := denominations.filter (UNECONOMICAL_DENOMINATION_MSATS < ·)
  match quoteDenominations priceMsats tiers with
  | none => .error .priceNotRepresentable
  | some paid =>
    match sumFees inputFee paid 0 with
    | none => .error .feesExceedPrice
    | some inputFees =>
      if inputFees ≤ priceMsats then
        match refundDenominations tiers outputFee (priceMsats - inputFees) with
        | .error e => .error (.denominations e)
        | .ok refundAmounts => .ok refundAmounts
      else .error .feesExceedPrice

/-! ## Prices -/

def economicalTiers (top : ℕ) : List ℕ := (consensusDenominations top).filter (UNECONOMICAL_DENOMINATION_MSATS < ·)

def flatFee : ℕ → ℕ := fun _ => 100

/-- A sum of tiers, each with its output fee. -/
def FeeBearingSum (top target : ℕ) : Prop :=
  ∃ l : List ℕ, (∀ d ∈ l, d ∈ economicalTiers top) ∧ (l.map fun d => d + flatFee d).sum = target

/-- A price that can be refunded is. -/
def Refunds (top priceMsats : ℕ) : Prop :=
  ∀ paid, quoteDenominations priceMsats (economicalTiers top) = some paid →
    FeeBearingSum top (priceMsats - (paid.map flatFee).sum) →
    ∃ amounts, prepareQuoteRefund (consensusDenominations top) flatFee flatFee priceMsats = .ok amounts

/-- What the small notes of a price leave of it is missing, or a sum of tiers, if it has a large note. -/
def RestRefundable (top priceMsats : ℕ) : Prop :=
  ∀ paid, quoteDenominations priceMsats (economicalTiers top) = some paid →
    let large := paid.filter (2 ^ 20 ≤ ·)
    let small := paid.filter (· < 2 ^ 20)
    large = [] ∨ small.sum < 100 * small.length + 200 * large.length ∨
      FeeBearingSum top (small.sum - (100 * small.length + 200 * large.length))

/-! ## Tiers in order -/

/-- The powers of two from `2 ^ lo` on, the largest first. -/
def downTiers (lo : ℕ) : ℕ → List ℕ
  | 0 => []
  | n + 1 => 2 ^ (lo + n) :: downTiers lo n

def feeCoin (d : ℕ) : Coin := ⟨d, d + 100⟩

theorem mem_downTiers {lo n d : ℕ} : d ∈ downTiers lo n ↔ ∃ i, lo ≤ i ∧ i < lo + n ∧ d = 2 ^ i := by
  induction n with
  | zero =>
    simp only [downTiers, List.not_mem_nil, false_iff]
    rintro ⟨i, hlo, hlt, -⟩
    omega
  | succ n ih =>
    rw [downTiers, List.mem_cons, ih]
    constructor
    · rintro (rfl | ⟨i, hlo, hlt, rfl⟩)
      · exact ⟨lo + n, by omega, by omega, rfl⟩
      · exact ⟨i, hlo, by omega, rfl⟩
    · rintro ⟨i, hlo, hlt, rfl⟩
      by_cases hlast : i = lo + n
      · exact .inl (by rw [hlast])
      · exact .inr ⟨i, hlo, by omega, rfl⟩

theorem downTiers_append (lo m n : ℕ) : downTiers lo (m + n) = downTiers (lo + m) n ++ downTiers lo m := by
  induction n with
  | zero => rfl
  | succ n ih =>
    show 2 ^ (lo + (m + n)) :: downTiers lo (m + n) = _
    rw [ih, ← Nat.add_assoc]
    rfl

theorem downTiers_pairwise (lo n : ℕ) : (downTiers lo n).Pairwise (· > ·) := by
  induction n with
  | zero => exact List.Pairwise.nil
  | succ n ih =>
    refine List.Pairwise.cons (fun d hd => ?_) ih
    obtain ⟨i, -, hlt, rfl⟩ := mem_downTiers.mp hd
    exact Nat.pow_lt_pow_right (by omega) hlt

theorem hundred_lt_two_pow {i : ℕ} : 100 < 2 ^ i ↔ 7 ≤ i := by
  constructor
  · intro h
    by_contra hlt
    have hle : 2 ^ i ≤ 2 ^ 6 := Nat.pow_le_pow_right (by omega) (by omega)
    omega
  · intro h
    have hle : 2 ^ 7 ≤ 2 ^ i := Nat.pow_le_pow_right (by omega) h
    omega

theorem mem_economicalTiers {top d : ℕ} : d ∈ economicalTiers top ↔ ∃ i, 7 ≤ i ∧ i ≤ top ∧ d = 2 ^ i := by
  unfold economicalTiers consensusDenominations UNECONOMICAL_DENOMINATION_MSATS
  rw [List.mem_filter, List.mem_map, decide_eq_true_iff]
  constructor
  · rintro ⟨⟨i, hi, rfl⟩, hlt⟩
    have hrange := List.mem_range.mp hi
    exact ⟨i, hundred_lt_two_pow.mp hlt, by omega, rfl⟩
  · rintro ⟨i, hlo, hle, rfl⟩
    exact ⟨⟨i, List.mem_range.mpr (by omega), rfl⟩, hundred_lt_two_pow.mpr hlo⟩

theorem economicalTiers_perm {top : ℕ} (h : 7 ≤ top) : (economicalTiers top).Perm (downTiers 7 (top - 6)) := by
  have hnodup : (economicalTiers top).Nodup :=
    (List.nodup_range.map (Nat.pow_right_injective (Nat.le_refl 2))).filter _
  have hdown : (downTiers 7 (top - 6)).Nodup := (downTiers_pairwise _ _).imp fun hlt => Nat.ne_of_gt hlt
  refine (List.perm_ext_iff_of_nodup hnodup hdown).mpr fun d => ?_
  rw [mem_economicalTiers, mem_downTiers]
  constructor
  · rintro ⟨i, hlo, hle, rfl⟩
    exact ⟨i, hlo, by omega, rfl⟩
  · rintro ⟨i, hlo, hlt, rfl⟩
    exact ⟨i, hlo, by omega, rfl⟩

/-- The quote takes the tiers from the largest to the smallest. -/
theorem quoteTiers_eq {top : ℕ} (h : 7 ≤ top) :
    (descending (economicalTiers top)).destutter (· ≠ ·) = downTiers 7 (top - 6) := by
  have hsorted : descending (economicalTiers top) = downTiers 7 (top - 6) := by
    refine ((descending_perm _).trans (economicalTiers_perm h)).eq_of_pairwise ?_ (descending_pairwise _)
      ((downTiers_pairwise _ _).imp fun hlt => Nat.le_of_lt hlt)
    intro a b _ _ hab hba
    exact Nat.le_antisymm hba hab
  rw [hsorted]
  exact List.destutter_of_isChain _ _ ((downTiers_pairwise _ _).imp fun hlt => Nat.ne_of_gt hlt).isChain

theorem feeBearingCoins_eq {top : ℕ} (htop : top < 64) :
    feeBearingCoins (economicalTiers top) flatFee = (economicalTiers top).map feeCoin := by
  unfold feeBearingCoins
  rw [← List.filterMap_eq_map]
  refine List.filterMap_congr fun d hd => ?_
  obtain ⟨i, -, hle, rfl⟩ := mem_economicalTiers.mp hd
  have hpow : 2 ^ i ≤ 2 ^ 63 := Nat.pow_le_pow_right (by omega) (by omega)
  have hfits : 2 ^ i + flatFee (2 ^ i) < 2 ^ 64 ∧ 2 ^ i + flatFee (2 ^ i) ≠ 0 := by
    show 2 ^ i + 100 < 2 ^ 64 ∧ 2 ^ i + 100 ≠ 0
    generalize 2 ^ i = d at hpow ⊢
    omega
  rw [if_pos hfits]
  rfl

/-- So does the refund its coins. -/
theorem sortedCoins_eq {top : ℕ} (h : 7 ≤ top) (htop : top < 64) :
    sortedCoins (economicalTiers top) flatFee = (downTiers 7 (top - 6)).map feeCoin := by
  have hdown : ((downTiers 7 (top - 6)).map feeCoin).Pairwise fun a b => b.cost < a.cost := by
    rw [List.pairwise_map]
    refine (downTiers_pairwise _ _).imp fun hlt => ?_
    show _ + 100 < _ + 100
    omega
  unfold sortedCoins
  rw [feeBearingCoins_eq htop]
  have hsorted : ((economicalTiers top).map feeCoin).insertionSort Coin.Before = (downTiers 7 (top - 6)).map feeCoin := by
    refine ((List.perm_insertionSort _ _).trans ((economicalTiers_perm h).map _)).eq_of_pairwise ?_
      (List.pairwise_insertionSort _ _) (hdown.imp fun hlt => Or.inl hlt)
    rintro ⟨a, ac⟩ ⟨b, bc⟩ _ _ hab hba
    unfold Coin.Before at hab hba
    rw [Coin.mk.injEq]
    dsimp only at hab hba
    omega
  rw [hsorted]
  exact List.destutter_of_isChain _ _ (hdown.imp fun hlt => Nat.ne_of_gt hlt).isChain

/-! ## The notes of a price below a power of two -/

section

variable {d q t : ℕ}

/-- One note of a tier at most, and less than the smallest tier is left. -/
theorem takeTiers_once_each (lo n : ℕ) : ∀ q, q < 2 ^ (lo + n) →
    (takeTiers (downTiers lo n) q).1.length ≤ n ∧ (takeTiers (downTiers lo n) q).2 < 2 ^ lo := by
  induction n with
  | zero => exact fun q hq => ⟨Nat.le_refl 0, hq⟩
  | succ n ih =>
    intro q hq
    have hpow : 2 ^ (lo + (n + 1)) = 2 * 2 ^ (lo + n) := by rw [← Nat.add_assoc, Nat.pow_succ, Nat.mul_comm]
    rw [hpow] at hq
    by_cases htake : 2 ^ (lo + n) ≤ q
    · rw [downTiers, takeTiers_once _ htake hq]
      obtain ⟨hlength, hrest⟩ := ih (q - 2 ^ (lo + n)) (by omega)
      exact ⟨Nat.succ_le_succ hlength, hrest⟩
    · rw [downTiers, takeTiers_skip _ (by omega)]
      obtain ⟨hlength, hrest⟩ := ih q (by omega)
      exact ⟨Nat.le_succ_of_le hlength, hrest⟩

/-- The refund takes the large notes of the price, as long as the notes below cover what all of them cost;
from the first one that they do not cover it takes every smaller coin instead. `a` counts the fees so far. -/
theorem large_follow (n : ℕ) : ∀ q t a, q < 2 ^ (20 + n) → a + n ≤ 200 →
    (t + 100 * a = q ∨ q < 100 * a ∧ 2 ^ (20 + n) + 100 * n ≤ t + 20000 ∧ t < 2 ^ (20 + n) + 100) →
    ((takeCoins ((downTiers 20 n).map feeCoin) t).2 + 100 * (a + (takeTiers (downTiers 20 n) q).1.length) =
        (takeTiers (downTiers 20 n) q).2 ∧ (takeTiers (downTiers 20 n) q).2 < 2 ^ 20) ∨
      ((takeTiers (downTiers 20 n) q).2 < 100 * (a + (takeTiers (downTiers 20 n) q).1.length) ∧
        2 ^ 20 ≤ (takeCoins ((downTiers 20 n).map feeCoin) t).2 + 20000 ∧
        (takeCoins ((downTiers 20 n).map feeCoin) t).2 < 2 ^ 20 + 100) := by
  induction n with
  | zero =>
    intro q t a hq ha h
    rcases h with hsync | ⟨hbehind, hlow, hhigh⟩
    · exact .inl ⟨hsync, hq⟩
    · exact .inr ⟨hbehind, hlow, hhigh⟩
  | succ n ih =>
    intro q t a hq ha h
    have hpow : 2 ^ (20 + (n + 1)) = 2 * 2 ^ (20 + n) := by rw [← Nat.add_assoc, Nat.pow_succ, Nat.mul_comm]
    have hlarge : 2 ^ 20 ≤ 2 ^ (20 + n) := Nat.pow_le_pow_right (by omega) (by omega)
    rw [hpow] at hq h
    rw [downTiers, List.map_cons]
    have hcost : (feeCoin (2 ^ (20 + n))).cost = 2 ^ (20 + n) + 100 := rfl
    by_cases hnote : 2 ^ (20 + n) ≤ q
    · -- The price has this note: the refund takes it, or falls behind.
      rw [takeTiers_once _ hnote hq, List.length_cons]
      rcases h with hsync | ⟨hbehind, hlow, hhigh⟩
      · by_cases htake : 2 ^ (20 + n) + 100 ≤ t
        · rw [takeCoins_once _ (by rw [hcost]; omega) (by rw [hcost]; omega), hcost]
          have hnext := ih (q - 2 ^ (20 + n)) (t - (2 ^ (20 + n) + 100)) (a + 1) (by omega) (by omega) (.inl (by omega))
          rw [Nat.add_right_comm] at hnext
          exact hnext
        · rw [takeCoins_skip _ (by rw [hcost]; omega)]
          have hnext := ih (q - 2 ^ (20 + n)) t (a + 1) (by omega) (by omega) (.inr (by omega))
          rw [Nat.add_right_comm] at hnext
          exact hnext
      · omega
    · rw [takeTiers_skip _ (by omega)]
      rcases h with hsync | ⟨hbehind, hlow, hhigh⟩
      · rw [takeCoins_skip _ (by rw [hcost]; omega)]
        exact ih q t a (by omega) (by omega) (.inl hsync)
      · rw [takeCoins_once _ (by rw [hcost]; omega) (by rw [hcost]; omega), hcost]
        exact ih q (t - (2 ^ (20 + n) + 100)) a (by omega) (by omega) (.inr (by omega))

end

/-! ## What the small coins leave -/

section

variable {top t rest : ℕ}

def largeCoins (top : ℕ) : List Coin := (downTiers 20 (top - 19)).map feeCoin

def smallCoins : List Coin := (downTiers 7 13).map feeCoin

theorem downTiers_split (htop : 20 ≤ top) : downTiers 7 (top - 6) = downTiers 20 (top - 19) ++ downTiers 7 13 := by
  have hlength : top - 6 = 13 + (top - 19) := by omega
  rw [hlength, downTiers_append]

theorem coins_split (htop : 20 ≤ top) (htop' : top < 64) :
    sortedCoins (economicalTiers top) flatFee = largeCoins top ++ smallCoins := by
  rw [sortedCoins_eq (by omega) htop', downTiers_split htop, List.map_append]
  rfl

theorem feeBearingSum_iff (htop : 20 ≤ top) (htop' : top < 64) (target : ℕ) :
    FeeBearingSum top target ↔ Representable (largeCoins top ++ smallCoins) Coin.cost target := by
  rw [← coins_split htop htop', sortedCoins_eq (by omega) htop']
  constructor
  · rintro ⟨l, hmem, hsum⟩
    refine ⟨l.map feeCoin, fun coin hcoin => ?_, ?_⟩
    · obtain ⟨d, hd, rfl⟩ := List.mem_map.mp hcoin
      exact List.mem_map_of_mem ((economicalTiers_perm (by omega)).mem_iff.mp (hmem d hd))
    · rw [List.map_map]
      exact hsum
  · rintro ⟨l, hmem, hsum⟩
    have hcoins : ∀ coin ∈ l, coin.amount ∈ economicalTiers top ∧ coin.amount + flatFee coin.amount = coin.cost := by
      intro coin hcoin
      obtain ⟨d, hd, rfl⟩ := List.mem_map.mp (hmem coin hcoin)
      exact ⟨(economicalTiers_perm (by omega)).mem_iff.mpr hd, rfl⟩
    refine ⟨l.map Coin.amount, fun d hd => ?_, ?_⟩
    · obtain ⟨coin, hcoin, rfl⟩ := List.mem_map.mp hd
      exact (hcoins coin hcoin).1
    · rw [List.map_map, ← hsum]
      exact congrArg List.sum (List.map_congr_left fun coin hcoin => (hcoins coin hcoin).2)

theorem largeCoins_cost {coin : Coin} (h : coin ∈ largeCoins top) : REPAIR_LIMIT_MSATS < coin.cost := by
  obtain ⟨d, hd, rfl⟩ := List.mem_map.mp h
  obtain ⟨i, hlo, -, rfl⟩ := mem_downTiers.mp hd
  have hpow : 2 ^ 20 ≤ 2 ^ i := Nat.pow_le_pow_right (by omega) hlo
  show 1000000 < 2 ^ i + 100
  generalize 2 ^ i = d at hpow ⊢
  omega

theorem four_dvd_two_pow {i : ℕ} (h : 7 ≤ i) : 4 ∣ 2 ^ i := pow_dvd_pow 2 (show 2 ≤ i by omega)

theorem four_dvd_cost {lo n : ℕ} (hlo : 7 ≤ lo) {coin : Coin} (h : coin ∈ (downTiers lo n).map feeCoin) : 4 ∣ coin.cost := by
  obtain ⟨d, hd, rfl⟩ := List.mem_map.mp h
  obtain ⟨i, hi, -, rfl⟩ := mem_downTiers.mp hd
  exact Nat.dvd_add (four_dvd_two_pow (by omega)) ⟨25, rfl⟩

/-- Two tiers are enough for every large multiple of 4. -/
theorem representable_of_large {coins : List Coin} (h128 : feeCoin 128 ∈ coins) (h256 : feeCoin 256 ∈ coins)
    (hfour : 4 ∣ rest) (hlarge : 19712 ≤ rest) : Representable coins Coin.cost rest := by
  obtain ⟨quarter, rfl⟩ := hfour
  obtain ⟨a, b, hab⟩ := Nat.exists_add_mul_eq_of_gcd_dvd_of_mul_pred_le 57 89 quarter
    (by rw [show Nat.gcd 57 89 = 1 by decide]; exact one_dvd _) (by show 56 * 88 ≤ quarter; omega)
  have hfirst : Represents coins Coin.cost (a * 228) _ := .replicate h128 a
  have hsecond : Represents coins Coin.cost (b * 356) _ := .replicate h256 b
  have hboth := hfirst.append hsecond
  refine ⟨_, hboth.mem, hboth.sum.trans ?_⟩
  show a * 228 + b * 356 = 4 * quarter
  omega

theorem smallCoins_mem : feeCoin 128 ∈ smallCoins ∧ feeCoin 256 ∈ smallCoins := by decide

/-- No large coin is taken back: the refund is found exactly if what the large coins leave is represented. -/
theorem repairLoop_rest_iff (hrest : (takeCoins (largeCoins top) t).2 = rest) (hlt : rest < 2 ^ 20 + 100)
    (hfour : 4 ∣ rest) :
    (∃ ds, repairLoop (largeCoins top ++ smallCoins) (takeCoins (largeCoins top ++ smallCoins) t).1.reverse
        (takeCoins (largeCoins top ++ smallCoins) t).2 = .ok ds) ↔
      Representable (largeCoins top ++ smallCoins) Coin.cost rest := by
  have hsub : smallCoins ⊆ largeCoins top ++ smallCoins := List.subset_append_right _ _
  obtain ⟨paid, hpaid, hsum⟩ := takeCoins_spec hsub rest
  rw [repairLoop_ok_iff, takeCoins_append, hrest, List.reverse_append]
  have hback : (takeCoins smallCoins rest).2 + ((takeCoins smallCoins rest).1.reverse.map Coin.cost).sum = rest := by
    rw [(hpaid.of_perm (List.reverse_perm _)).sum, Nat.add_comm]
    exact hsum
  constructor
  · rintro ⟨taken, kept, hsplit, hlimit, l, hl⟩
    rcases List.append_eq_append_iff.mp hsplit with ⟨taken', rfl, htaken'⟩ | ⟨kept', hsmall, rfl⟩
    · cases taken' with
      | nil =>
        rw [List.append_nil, hback] at hl
        exact ⟨l, hl⟩
      | cons coin taken' =>
        -- A large coin would have been taken back.
        have hmem : coin ∈ largeCoins top := by
          obtain ⟨_, hselected, -⟩ := takeCoins_spec (List.Subset.refl (largeCoins top)) t
          refine hselected.mem coin (List.mem_reverse.mp ?_)
          rw [htaken']
          exact List.mem_cons_self
        have hcost := largeCoins_cost hmem
        rw [List.map_append, List.sum_append, List.map_cons, List.sum_cons] at hlimit
        omega
    · have hkept : Represents (largeCoins top ++ smallCoins) Coin.cost _ kept' :=
        ⟨fun c hc => hpaid.mem c (List.mem_reverse.mp (hsmall ▸ List.mem_append_right _ hc)), rfl⟩
      refine ⟨_, (hl.append hkept).mem, (hl.append hkept).sum.trans ?_⟩
      rw [hsmall, List.map_append, List.sum_append] at hback
      omega
  · intro hrep
    by_cases hlimit : rest ≤ REPAIR_LIMIT_MSATS
    · refine ⟨(takeCoins smallCoins rest).1.reverse, (takeCoins (largeCoins top) t).1.reverse, rfl, ?_⟩
      rw [hback]
      exact ⟨hlimit, hrep⟩
    · -- The largest small coin was selected and stays; what the others leave is large enough.
      have hmsats : REPAIR_LIMIT_MSATS = 1000000 := rfl
      have hsmall : smallCoins = feeCoin (2 ^ 19) :: (downTiers 7 12).map feeCoin := rfl
      have hcost : (feeCoin (2 ^ 19)).cost = 524388 := rfl
      have hselected : takeCoins smallCoins rest = (feeCoin (2 ^ 19) ::
          (takeCoins ((downTiers 7 12).map feeCoin) (rest - 524388)).1,
          (takeCoins ((downTiers 7 12).map feeCoin) (rest - 524388)).2) := by
        rw [hsmall, takeCoins_once _ (by rw [hcost]; omega) (by rw [hcost]; omega), hcost]
      rw [hselected] at hback ⊢
      rw [List.reverse_cons, List.map_append, List.sum_append, List.map_singleton, List.sum_singleton, hcost] at hback
      refine ⟨(takeCoins ((downTiers 7 12).map feeCoin) (rest - 524388)).1.reverse,
        feeCoin (2 ^ 19) :: (takeCoins (largeCoins top) t).1.reverse, ?_, by omega, ?_⟩
      · rw [List.reverse_cons, List.append_assoc]
        rfl
      · refine representable_of_large (hsub smallCoins_mem.1) (hsub smallCoins_mem.2) ?_ (by omega)
        omega

/-! ## Refunds of prices -/

variable {priceMsats : ℕ} {paid : List ℕ}

/-- The notes of a price: large ones, and small ones that make up what the large ones leave. -/
structure PaidBy (top priceMsats : ℕ) (large small : List ℕ) : Prop where
  large_eq : large = (takeTiers (downTiers 20 (top - 19)) priceMsats).1
  small_sum : small.sum = (takeTiers (downTiers 20 (top - 19)) priceMsats).2
  large_mem : ∀ x ∈ large, x ∈ downTiers 20 (top - 19)
  small_mem : ∀ x ∈ small, x ∈ downTiers 7 13
  large_length : large.length ≤ top - 19
  small_length : small.length ≤ 13
  sum : large.sum + small.sum = priceMsats

theorem price_lt (htop : 36 ≤ top) (hprice : priceMsats ≤ MAX_SEAT_PRICE_MSATS) : priceMsats < 2 ^ (20 + (top - 19)) := by
  have hpow : 2 ^ 37 ≤ 2 ^ (20 + (top - 19)) := Nat.pow_le_pow_right (by omega) (by omega)
  have hmax : MAX_SEAT_PRICE_MSATS < 2 ^ 37 := by decide
  exact lt_of_le_of_lt hprice (lt_of_lt_of_le hmax hpow)

theorem paidBy_of_quote (htop : 36 ≤ top) (hprice : priceMsats ≤ MAX_SEAT_PRICE_MSATS)
    (h : quoteDenominations priceMsats (economicalTiers top) = some paid) :
    ∃ large small, paid = large ++ small ∧ PaidBy top priceMsats large small := by
  unfold quoteDenominations at h
  rw [quoteTiers_eq (by omega), downTiers_split (by omega), takeTiers_append] at h
  dsimp only at h
  split at h
  · cases h
  next hzero =>
    cases h
    rw [not_not] at hzero
    have hlt := price_lt htop hprice
    obtain ⟨hlarge, hsum⟩ := takeTiers_spec (downTiers 20 (top - 19)) priceMsats
    obtain ⟨hsmall, hsum'⟩ := takeTiers_spec (downTiers 7 13) (takeTiers (downTiers 20 (top - 19)) priceMsats).2
    rw [hzero, Nat.add_zero] at hsum'
    obtain ⟨hlength, hrest⟩ := takeTiers_once_each 20 (top - 19) priceMsats hlt
    obtain ⟨hlength', -⟩ := takeTiers_once_each 7 13 _ hrest
    refine ⟨_, _, rfl, rfl, hsum', hlarge, hsmall, hlength, hlength', ?_⟩
    rw [hsum']
    exact hsum

theorem downTiers_note {lo n d : ℕ} (hlo : 7 ≤ lo) (h : d ∈ downTiers lo n) : 4 ∣ d ∧ 100 ≤ d := by
  obtain ⟨i, hi, -, rfl⟩ := mem_downTiers.mp h
  exact ⟨four_dvd_two_pow (by omega), (hundred_lt_two_pow.mpr (by omega)).le⟩

theorem hundred_mul_length_le {l : List ℕ} (h : ∀ x ∈ l, 100 ≤ x) : 100 * l.length ≤ l.sum := by
  have hle := List.card_nsmul_le_sum l 100 h
  rw [smul_eq_mul, Nat.mul_comm] at hle
  exact hle

/-- The notes of a quoted price cover their fees. -/
theorem PaidBy.notes {large small : List ℕ} (h : PaidBy top priceMsats large small) :
    4 ∣ priceMsats ∧ 100 * (large.length + small.length) ≤ priceMsats := by
  have hlarge := fun x hx => downTiers_note (by omega) (h.large_mem x hx)
  have hsmall := fun x hx => downTiers_note (by omega) (h.small_mem x hx)
  have hlarge100 := hundred_mul_length_le fun x hx => (hlarge x hx).2
  have hsmall100 := hundred_mul_length_le fun x hx => (hsmall x hx).2
  rw [← h.sum]
  exact ⟨Nat.dvd_add (List.dvd_sum fun x hx => (hlarge x hx).1) (List.dvd_sum fun x hx => (hsmall x hx).1), by omega⟩

/-- What the large coins leave of the refund, beside what the large notes leave of the price. -/
theorem PaidBy.follow {large small : List ℕ} (htop : 36 ≤ top) (htop' : top < 64)
    (hprice : priceMsats ≤ MAX_SEAT_PRICE_MSATS) (h : PaidBy top priceMsats large small)
    (hrest : (takeCoins (largeCoins top) (priceMsats - 100 * (large.length + small.length))).2 = rest) :
    (rest + (100 * small.length + 200 * large.length) = small.sum ∧ small.sum < 2 ^ 20) ∨
      (small.sum < 100 * small.length + 200 * large.length ∧ 2 ^ 20 ≤ rest + 20000 ∧ rest < 2 ^ 20 + 100) := by
  have hnotes := h.notes.2
  have hlarge := h.large_length
  have hsmall := h.small_length
  have hfollow := large_follow (top - 19) priceMsats (priceMsats - 100 * (large.length + small.length))
    (large.length + small.length) (price_lt htop hprice) (by omega) (.inl (by omega))
  rw [← h.large_eq, ← h.small_sum] at hfollow
  unfold largeCoins at hrest
  rw [hrest] at hfollow
  omega

theorem PaidBy.four_dvd {large small : List ℕ} (h : PaidBy top priceMsats large small)
    (hrest : (takeCoins (largeCoins top) (priceMsats - 100 * (large.length + small.length))).2 = rest) : 4 ∣ rest := by
  obtain ⟨paid, hpaid, hsum⟩ := takeCoins_spec (List.Subset.refl (largeCoins top))
    (priceMsats - 100 * (large.length + small.length))
  have hfour : 4 ∣ paid := by
    rw [← hpaid.sum]
    refine List.dvd_sum fun x hx => ?_
    obtain ⟨coin, hcoin, rfl⟩ := List.mem_map.mp hx
    exact four_dvd_cost (by omega) (hpaid.mem coin hcoin)
  have hprice := h.notes.1
  rw [hrest] at hsum
  omega

theorem sumFees_flat (paid : List ℕ) : ∀ sum, sum + 100 * paid.length < 2 ^ 64 →
    sumFees flatFee paid sum = some (sum + 100 * paid.length) := by
  induction paid with
  | nil => exact fun sum _ => rfl
  | cons d paid ih =>
    intro sum hlt
    rw [List.length_cons] at hlt ⊢
    have hfits : sum + flatFee d < 2 ^ 64 := by
      show sum + 100 < 2 ^ 64
      omega
    unfold sumFees
    rw [if_pos hfits, ih _ (by show sum + 100 + _ < _; omega)]
    show some (sum + 100 + 100 * paid.length) = _
    rw [Nat.mul_add, Nat.add_assoc, Nat.add_comm 100]

/-- The refund of a price, in the coins that are left to find. -/
theorem prepareQuoteRefund_iff {large small : List ℕ} (htop : 36 ≤ top) (htop' : top < 64)
    (hprice : priceMsats ≤ MAX_SEAT_PRICE_MSATS)
    (hquote : quoteDenominations priceMsats (economicalTiers top) = some (large ++ small))
    (h : PaidBy top priceMsats large small)
    (hrest : (takeCoins (largeCoins top) (priceMsats - 100 * (large.length + small.length))).2 = rest) :
    (∃ amounts, prepareQuoteRefund (consensusDenominations top) flatFee flatFee priceMsats = .ok amounts) ↔
      FeeBearingSum top rest := by
  have hlarge := h.large_length
  have hsmall := h.small_length
  have hlt : rest < 2 ^ 20 + 100 := by
    have := h.follow htop htop' hprice hrest
    omega
  rw [feeBearingSum_iff (by omega) htop', ← repairLoop_rest_iff hrest hlt (h.four_dvd hrest)]
  have hcoins : sortedCoins (economicalTiers top) flatFee ≠ [] := by
    rw [coins_split (by omega) htop']
    exact List.append_ne_nil_of_right_ne_nil _ (List.cons_ne_nil _ _)
  have hquote' : quoteDenominations priceMsats ((consensusDenominations top).filter
      (UNECONOMICAL_DENOMINATION_MSATS < ·)) = some (large ++ small) := hquote
  unfold prepareQuoteRefund
  dsimp only
  rw [hquote']
  dsimp only
  rw [sumFees_flat _ 0 (by rw [List.length_append]; omega)]
  dsimp only
  rw [List.length_append, Nat.zero_add, if_pos h.notes.2]
  have hrefund : refundDenominations (economicalTiers top) flatFee (priceMsats - 100 * (large.length + small.length)) =
      repairLoop (largeCoins top ++ smallCoins)
        (takeCoins (largeCoins top ++ smallCoins) (priceMsats - 100 * (large.length + small.length))).1.reverse
        (takeCoins (largeCoins top ++ smallCoins) (priceMsats - 100 * (large.length + small.length))).2 := by
    rw [← coins_split (by omega) htop']
    exact if_neg hcoins
  unfold economicalTiers at hrefund
  rw [hrefund]
  cases repairLoop (largeCoins top ++ smallCoins) _ _ with
  | error e => simp
  | ok ds => simp

theorem filter_notes {large small : List ℕ} (h : PaidBy top priceMsats large small) :
    (large ++ small).filter (2 ^ 20 ≤ ·) = large ∧ (large ++ small).filter (· < 2 ^ 20) = small := by
  have hlarge : ∀ x ∈ large, 2 ^ 20 ≤ x := by
    intro x hx
    obtain ⟨i, hi, -, rfl⟩ := mem_downTiers.mp (h.large_mem x hx)
    exact Nat.pow_le_pow_right (by omega) hi
  have hsmall : ∀ x ∈ small, x < 2 ^ 20 := by
    intro x hx
    obtain ⟨i, -, hi, rfl⟩ := mem_downTiers.mp (h.small_mem x hx)
    exact Nat.pow_lt_pow_right (by omega) hi
  constructor
  · rw [List.filter_append, List.filter_eq_self.mpr fun x hx => decide_eq_true (hlarge x hx),
      List.filter_eq_nil_iff.mpr fun x hx => ?_, List.append_nil]
    have := hsmall x hx
    simpa using this
  · rw [List.filter_append, List.filter_eq_self.mpr fun x hx => decide_eq_true (hsmall x hx),
      List.filter_eq_nil_iff.mpr fun x hx => ?_, List.nil_append]
    have := hlarge x hx
    simpa using this

/-- The refund of a price with a large note is a sum of tiers. -/
theorem PaidBy.refundable {large small : List ℕ} (htop : 36 ≤ top) (htop' : top < 64)
    (h : PaidBy top priceMsats large small) (hlarge : large ≠ []) :
    FeeBearingSum top (priceMsats - 100 * (large.length + small.length)) := by
  obtain ⟨x, hx⟩ := List.exists_mem_of_ne_nil large hlarge
  obtain ⟨i, hi, -, rfl⟩ := mem_downTiers.mp (h.large_mem x hx)
  have hpow : 2 ^ 20 ≤ 2 ^ i := Nat.pow_le_pow_right (by omega) hi
  have hsum := List.single_le_sum (fun _ _ => Nat.zero_le _) _ hx
  have hprice := h.sum
  have hlength := h.large_length
  have hlength' := h.small_length
  have hfour := h.notes.1
  rw [feeBearingSum_iff (by omega) htop']
  generalize 2 ^ i = d at hpow hsum
  exact representable_of_large (List.mem_append_right _ smallCoins_mem.1) (List.mem_append_right _ smallCoins_mem.2)
    (by omega) (by omega)

end

/-- A price is refunded whenever it can be if and only if it has no large note, or what its small notes leave
is missing or a sum of tiers by itself. -/
theorem refunds_iff (top priceMsats : ℕ) (htop : 36 ≤ top) (htop' : top < 64)
    (hprice : priceMsats ≤ MAX_SEAT_PRICE_MSATS) : Refunds top priceMsats ↔ RestRefundable top priceMsats := by
  unfold Refunds RestRefundable
  refine forall_congr' fun paid => forall_congr' fun hquote => ?_
  obtain ⟨large, small, rfl, hpaid⟩ := paidBy_of_quote htop hprice hquote
  obtain ⟨hfilter, hfilter'⟩ := filter_notes hpaid
  have hfees : ((large ++ small).map flatFee).sum = 100 * (large.length + small.length) := by
    unfold flatFee
    rw [List.map_const', List.sum_replicate, smul_eq_mul, Nat.mul_comm, List.length_append]
  dsimp only
  rw [hfilter, hfilter', hfees]
  generalize hrest : (takeCoins (largeCoins top) (priceMsats - 100 * (large.length + small.length))).2 = rest
  rw [prepareQuoteRefund_iff htop htop' hprice hquote hpaid hrest]
  have hnotes := hpaid.notes.2
  rcases hpaid.follow htop htop' hprice hrest with ⟨hsync, hsmall⟩ | ⟨hbehind, hlow, hhigh⟩
  · -- The refund has taken the large notes of the price.
    have hleft : small.sum - (100 * small.length + 200 * large.length) = rest := by omega
    have hnot : ¬ small.sum < 100 * small.length + 200 * large.length := by omega
    rw [hleft]
    constructor
    · intro h
      by_cases hlarge : large = []
      · exact .inl hlarge
      · exact .inr (.inr (h (hpaid.refundable htop htop' hlarge)))
    · rintro (rfl | hlt | hsum) hrefundable
      · have htarget : priceMsats - 100 * (([] : List ℕ).length + small.length) = rest := by
          have hsum := hpaid.sum
          simp at hsum hsync ⊢
          omega
        rw [← htarget]
        exact hrefundable
      · exact absurd hlt hnot
      · exact hsum
  · -- It has fallen behind, and has small coins enough to take back.
    refine ⟨fun _ => .inr (.inl hbehind), fun _ _ => ?_⟩
    rw [feeBearingSum_iff (by omega) htop']
    exact representable_of_large (List.mem_append_right _ smallCoins_mem.1) (List.mem_append_right _ smallCoins_mem.2)
      (hpaid.four_dvd hrest) (by omega)

/-- At a price of two notes, one of them large. -/
theorem refunds_iff_two_notes : Refunds 41 1049088 ↔ RestRefundable 41 1049088 :=
  refunds_iff 41 1049088 (by decide) (by decide) (by decide)

/-- 1049088 msats are paid in notes of 1048576 and 512: the refund of 1048888 takes one large coin, has 212
left, and gives up, though smaller tiers make up the whole of it. -/
theorem sparse_price_refused :
    quoteDenominations 1049088 (economicalTiers 41) = some [1048576, 512] ∧
      prepareQuoteRefund (consensusDenominations 41) flatFee flatFee 1049088 = .error (.denominations .unrepresentable) ∧
      ¬ Refunds 41 1049088 := by
  have hquote : quoteDenominations 1049088 (economicalTiers 41) = some [1048576, 512] := by decide +kernel
  have hrefused : prepareQuoteRefund (consensusDenominations 41) flatFee flatFee 1049088 =
      .error (.denominations .unrepresentable) := by decide +kernel
  refine ⟨hquote, hrefused, fun h => ?_⟩
  have hsum : FeeBearingSum 41 1048888 := by
    rw [feeBearingSum_iff (by decide) (by decide)]
    exact representable_of_large (List.mem_append_right _ smallCoins_mem.1) (List.mem_append_right _ smallCoins_mem.2)
      (by decide) (by decide)
  obtain ⟨amounts, hok⟩ := h _ hquote hsum
  rw [hrefused] at hok
  cases hok

end FiPayments
