import Fedi.Lib.FloorConversion
import Fedi.Lib.Runs
import Fedi.StabilityPool.Types

/-!
# Stability pool: what the fiat conversions round (`common/src/lib.rs`)

At a price `p` a fiat amount is worth `expand p MSATS_PER_BTC` of it in msats, and the two
conversions back are the floor and its right adjoint, as far as nothing overflows:

    toBtcAmount f p = .ok m ↔ m = expand p MSATS_PER_BTC f ∧ m < 2 ^ 64           (toBtcAmount_ok_iff)
    fromBtcAmountRoundtripSafe m p = .ok f → f = greatest p MSATS_PER_BTC m       (roundtripSafe_eq)

So a displayed balance is the greatest fiat amount it backs (`roundtripSafe_isGreatest`), and
the balances of its parts add up to the balance of the whole, up to the number of parts
(`roundtripSafe_sum_bounds`).
-/

namespace StabilityPool

open FloorConversion Runs

theorem divP_of_ne (a : ℕ) {b : ℕ} (h : b ≠ 0) : divP a b = .ok (a / b) := if_neg h

namespace FiatAmount

variable {p m f : ℕ}

theorem msatsPerBtc_pos : 0 < MSATS_PER_BTC := by decide

theorem tryIntoU64_ok_iff {a b : ℕ} : tryIntoU64 a = .ok b ↔ b = a ∧ a < 2 ^ 64 := by
  unfold tryIntoU64
  constructor
  · intro h
    split_ifs at h with hlt
    cases h
    exact ⟨rfl, hlt⟩
  · rintro ⟨rfl, hlt⟩
    exact if_pos hlt

theorem tryIntoU64_succeeds_iff (n : ℕ) : (∃ r, tryIntoU64 n = .ok r) ↔ n < 2 ^ 64 := by
  simp only [tryIntoU64_ok_iff, exists_eq_left]

theorem toBtcAmount_eq (fiat : ℕ) {price : ℕ} (hprice : price ≠ 0) :
    toBtcAmount fiat price = tryIntoU64 (fiat * MSATS_PER_BTC / price) := by
  unfold toBtcAmount
  rw [divP_of_ne _ hprice, ok_bind]

theorem toBtcAmount_ok_iff (hp : 0 < p) :
    toBtcAmount f p = .ok m ↔ m = expand p MSATS_PER_BTC f ∧ m < 2 ^ 64 := by
  rw [toBtcAmount_eq f hp.ne', tryIntoU64_ok_iff]
  exact and_congr_right fun heq => by rw [heq]

theorem fromBtcAmount_ok_iff : fromBtcAmount m p = .ok f ↔ f = shrink p MSATS_PER_BTC m ∧ f < 2 ^ 64 := by
  unfold fromBtcAmount
  rw [tryIntoU64_ok_iff, shrink, Nat.mul_comm p m]
  exact and_congr_right fun heq => by rw [heq]

section
variable (hp : 0 < p) (hle : p ≤ MSATS_PER_BTC)

include hp hle

/-- Where it returns, the round-trip-safe conversion is the right adjoint. -/
theorem roundtripSafe_eq (hm : m < 2 ^ 64) (h : fromBtcAmountRoundtripSafe m p = .ok f) :
    f = greatest p MSATS_PER_BTC m := by
  obtain ⟨floor, hfloor, h⟩ := bind_eq_ok.mp h
  obtain ⟨back, hback, h⟩ := bind_eq_ok.mp h
  obtain ⟨rfl, hlt⟩ := fromBtcAmount_ok_iff.mp hfloor
  obtain ⟨rfl, -⟩ := (toBtcAmount_ok_iff hp).mp hback
  have hvalue := le_expand_succ_shrink hp hle m
  rcases Nat.lt_or_ge (shrink p MSATS_PER_BTC m + 1) (2 ^ 64) with hsmall | hbig
  · rw [min_eq_left (by omega)] at h
    rw [greatest_eq hp hle m]
    split_ifs at h ⊢
    · cases h
      rfl
    · cases h
      rfl
  · -- the increment saturates, and the msats back no more than they are themselves
    have hself := greatest_le_self hp hle m
    have hfloor := shrink_le_greatest (K := MSATS_PER_BTC) hp m
    have hsat : min (shrink p MSATS_PER_BTC m + 1) (2 ^ 64 - 1) = shrink p MSATS_PER_BTC m := by omega
    rw [hsat] at h
    split_ifs at h
    · cases h
      omega
    · cases h
      omega

/-- The greatest fiat amount that the msats back; so the conversion is monotone, and gives
every fiat amount back. -/
theorem roundtripSafe_isGreatest :
    (∀ m f, m < 2 ^ 64 → fromBtcAmountRoundtripSafe m p = .ok f →
      IsGreatest {f | ∃ msats, toBtcAmount f p = .ok msats ∧ msats ≤ m} f) ∧
    (∀ m m' f f', m' < 2 ^ 64 → m ≤ m' → fromBtcAmountRoundtripSafe m p = .ok f →
      fromBtcAmountRoundtripSafe m' p = .ok f' → f ≤ f') ∧
    (∀ f m f', toBtcAmount f p = .ok m → fromBtcAmountRoundtripSafe m p = .ok f' → f' = f) := by
  refine ⟨fun m f hm hf => ⟨?_, ?_⟩, fun m m' f f' hm' hmono hf hf' => ?_, fun f m f' hm hf' => ?_⟩
  · have hback : expand p MSATS_PER_BTC f ≤ m := by
      rw [roundtripSafe_eq hp hle hm hf]
      exact (gc_expand hp hle).l_u_le m
    exact ⟨_, (toBtcAmount_ok_iff hp).mpr ⟨rfl, hback.trans_lt hm⟩, hback⟩
  · rintro other ⟨msats, hmsats, hmsats_le⟩
    obtain ⟨rfl, -⟩ := (toBtcAmount_ok_iff hp).mp hmsats
    rw [roundtripSafe_eq hp hle hm hf]
    exact (expand_le_iff hp hle).mp hmsats_le
  · rw [roundtripSafe_eq hp hle (hmono.trans_lt hm') hf, roundtripSafe_eq hp hle hm' hf']
    exact greatest_mono hp hle hmono
  · obtain ⟨rfl, hlt⟩ := (toBtcAmount_ok_iff hp).mp hm
    rw [roundtripSafe_eq hp hle hlt hf']
    exact greatest_expand hp hle f

omit hp hle in
/-- One cent at a price of 99999.99 dollars is 10000 msats, and these are one cent. -/
theorem roundtripSafe_isGreatest_cent : fromBtcAmountRoundtripSafe 10000 9999999 = .ok 1 ∧
    IsGreatest {f | ∃ msats, toBtcAmount f 9999999 = .ok msats ∧ msats ≤ 10000} 1 :=
  ⟨by decide, (roundtripSafe_isGreatest (by decide) (by decide)).1 10000 1 (by decide) (by decide)⟩

theorem fiats_eq {parts fiats : List ℕ} (hsmall : parts.sum < 2 ^ 64)
    (h : List.Forall₂ (fun m f => fromBtcAmountRoundtripSafe m p = .ok f) parts fiats) :
    fiats = parts.map (greatest p MSATS_PER_BTC) := by
  induction h with
  | nil => rfl
  | @cons m f parts fiats hf _ ih =>
    rw [List.sum_cons] at hsmall
    rw [List.map_cons, roundtripSafe_eq hp hle (by omega) hf, ih (by omega)]

/-- Parts converted one by one against the whole converted once. -/
theorem roundtripSafe_sum_bounds {parts fiats : List ℕ} {total : ℕ} (hne : parts ≠ [])
    (hsmall : parts.sum < 2 ^ 64)
    (hparts : List.Forall₂ (fun m f => fromBtcAmountRoundtripSafe m p = .ok f) parts fiats)
    (htotal : fromBtcAmountRoundtripSafe parts.sum p = .ok total) :
    ((parts.length - 1) * p ≤ 100000000000 → fiats.sum ≤ total + 1) ∧
      total ≤ fiats.sum + (parts.length - 1) := by
  rw [fiats_eq hp hle hsmall hparts, roundtripSafe_eq hp hle hsmall htotal]
  exact ⟨fun hfew => sum_greatest_le hp hle hne hfew, greatest_sum_le hp hle hne⟩

omit hp hle in
/-- Three parts of 9999 msats are worth nothing each, and two cents together. -/
theorem roundtripSafe_sum_bounds_cents : ((3 - 1) * 9999999 ≤ 100000000000 → [0, 0, 0].sum ≤ 2 + 1) ∧
    2 ≤ [0, 0, 0].sum + (3 - 1) :=
  @roundtripSafe_sum_bounds 9999999 (by decide) (by decide) [9999, 9999, 9999] [0, 0, 0] 2 (by decide) (by decide)
    (.cons (by decide) (.cons (by decide) (.cons (by decide) .nil))) (by decide)

end

end FiatAmount

end StabilityPool
