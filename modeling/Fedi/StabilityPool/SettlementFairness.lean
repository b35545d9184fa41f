import Fedi.StabilityPool.SettledLocks

/-!
# How fairly a settlement shares the locked msats out

Each side's pool is split pro rata, rounded down, with the leftover to one deposit of the side
(`SharedOut`).  As fewer msats are left over than there are deposits, no deposit is ahead of its
share by more; and as the seeks' pool is rounded up, no seek is behind its worth at the new price
by a whole msat, unless the collateral ran out (`settlement_fairness`).
-/

namespace StabilityPool

open Runs

section
variable {M : Type} {ds ds' : List (Deposit M)} {pool randomness : ℕ}

/-- Every deposit has its rounded-down share of the pool, and one of them some msats besides,
fewer than there are deposits. -/
def SharedOut (pool : ℕ) (ds ds' : List (Deposit M)) : Prop :=
  heads ds' = heads ds ∧ ∃ lucky extra, lucky < ds.length ∧ extra < ds.length ∧
    ∀ (k : ℕ) (d e : Deposit M), ds[k]? = some d → ds'[k]? = some e →
      e.amount = pool * d.amount / amountSum ds + if k = lucky then extra else 0

theorem distributeFromPool_sharedOut (hpos : 0 < amountSum ds)
    (h : distributeFromPool ds pool randomness = .ok ds') : SharedOut pool ds ds' := by
  have hlen : (amounts ds).length = ds.length := List.length_map _
  have hsum : (amounts ds).sum ≠ 0 := hpos.ne'
  have hleftover := ProRata.leftover_lt_length pool hsum
  have hheads := heads_eq_of_forall₂ (distributeFromPool_heads h)
  rcases distributeFromPool_ok h with ⟨hnil, -, -⟩ | ⟨-, rfl⟩
  · rw [hnil, amountSum_nil] at hpos
    omega
  · rw [hlen] at hleftover
    refine ⟨hheads, randomness % (amounts ds).length, ProRata.leftover pool (amounts ds), ?_, hleftover, ?_⟩
    · rw [hlen]
      exact Nat.mod_lt _ (by omega)
    · intro k d e hd he
      have hold : (amounts ds)[k]? = some d.amount := by
        rw [amounts, List.getElem?_map, hd]
        rfl
      have hnew : (ProRata.split pool (amounts ds) randomness)[k]? = some e.amount := by
        have hamounts := @amounts_setAmounts M ds (ProRata.split pool (amounts ds) randomness)
          (by rw [ProRata.length_split, hlen])
        rw [← hamounts, amounts, List.getElem?_map, he]
        rfl
      rw [ProRata.getElem?_split hold] at hnew
      exact (Option.some.inj hnew).symm

/-- Out of a pool that is worth all of them, a deposit's share is worth it but for a fraction
of a msat. -/
theorem SharedOut.worth_lt {startPrice newPrice k : ℕ} {d e : Deposit M} (h : SharedOut pool ds ds')
    (hpos : 0 < amountSum ds) (hpool : amountSum ds * startPrice ≤ pool * newPrice) (hnew : 0 < newPrice)
    (hd : ds[k]? = some d) (he : ds'[k]? = some e) : d.amount * startPrice < (e.amount + 1) * newPrice := by
  obtain ⟨-, lucky, extra, -, -, hshares⟩ := h
  have hshare : pool * d.amount / amountSum ds ≤ e.amount := by
    rw [hshares k d e hd he]
    exact Nat.le_add_right _ _
  have hfloor : pool * d.amount < amountSum ds * (e.amount + 1) := calc
    pool * d.amount < amountSum ds * (pool * d.amount / amountSum ds + 1) := Nat.lt_mul_div_succ _ hpos
    _ ≤ amountSum ds * (e.amount + 1) := Nat.mul_le_mul_left _ (by omega)
  have hscaled : amountSum ds * (d.amount * startPrice) < amountSum ds * ((e.amount + 1) * newPrice) := calc
    amountSum ds * (d.amount * startPrice) = amountSum ds * startPrice * d.amount := by ring
    _ ≤ pool * newPrice * d.amount := Nat.mul_le_mul_right _ hpool
    _ = pool * d.amount * newPrice := by ring
    _ < amountSum ds * (e.amount + 1) * newPrice := Nat.mul_lt_mul_of_pos_right hfloor hnew
    _ = amountSum ds * ((e.amount + 1) * newPrice) := by ring
  exact Nat.lt_of_mul_lt_mul_left hscaled

end

section
variable {locks settled : Locks} {startPrice newPrice randomness : ℕ}

/-- The two distributions of a settlement, in the order of the tables. -/
theorem settleLocks_pools (h : settleLocks locks startPrice newPrice randomness = .ok settled) :
    ∃ pool, newPrice ≠ 0 ∧
      pool = min ((amountSum locks.seeks.flat * startPrice + newPrice - 1) / newPrice)
        (amountSum locks.seeks.flat + amountSum locks.provides.flat) ∧
      distributeFromPool locks.seeks.flat pool randomness = .ok settled.seeks.flat ∧
      distributeFromPool locks.provides.flat
        (amountSum locks.seeks.flat + amountSum locks.provides.flat - pool) randomness =
          .ok settled.provides.flat := by
  simp only [settleLocks, ceilDivision, divP, bind_eq_ok, pure_eq_ok] at h
  obtain ⟨needed, hneeded, seeks, hseeks, provides, hprovides, rfl⟩ := h
  split_ifs at hneeded with hprice
  cases hneeded
  refine ⟨_, hprice, rfl, ?_, ?_⟩
  · rw [BTreeMaps.BTreeMap.flat_refill (distributeFromPool_heads hseeks).length_eq.symm]
    exact hseeks
  · rw [BTreeMaps.BTreeMap.flat_refill (distributeFromPool_heads hprovides).length_eq.symm]
    exact hprovides

/-- Both sides locked and a new price: settlement goes through and conserves the msats, the
seeks get what they are worth as far as it is there, and each side is shared out. -/
theorem settlement_fairness (hseeks : 0 < amountSum locks.seeks.flat)
    (hprovides : 0 < amountSum locks.provides.flat) (hnew : 0 < newPrice) :
    (amountSum locks.seeks.flat + amountSum locks.provides.flat < 2 ^ 64 →
      ∃ settled, settleLocks locks startPrice newPrice randomness = .ok settled) ∧
    ∀ settled, settleLocks locks startPrice newPrice randomness = .ok settled →
      amountSum settled.seeks.flat + amountSum settled.provides.flat =
          amountSum locks.seeks.flat + amountSum locks.provides.flat ∧
      amountSum settled.seeks.flat =
        min (amountSum locks.seeks.flat * startPrice ⌈/⌉ newPrice)
          (amountSum locks.seeks.flat + amountSum locks.provides.flat) ∧
      (amountSum locks.seeks.flat * startPrice ⌈/⌉ newPrice ≤
          amountSum locks.seeks.flat + amountSum locks.provides.flat →
        ∀ (k : ℕ) (d e : Seek), locks.seeks.flat[k]? = some d → settled.seeks.flat[k]? = some e →
          d.amount * startPrice < (e.amount + 1) * newPrice) ∧
      ∀ s, SharedOut (amountSum (settled.on s).flat) (locks.on s).flat (settled.on s).flat := by
  constructor
  · intro hsupply
    have hlocked : locks.provides.flat = [] → amountSum locks.seeks.flat = 0 := by
      intro hnil
      rw [hnil, amountSum_nil] at hprovides
      omega
    exact (@settleLocks_succeeds_iff ⟨0, 0, startPrice, ⟨0⟩, locks.seeks, locks.provides⟩ newPrice randomness hnew.ne'
      hsupply hlocked).mpr ⟨fun _ => hseeks.ne', fun _ => hprovides.ne'⟩
  · intro settled h
    obtain ⟨pool, -, hpool, hseek, hprovide⟩ := settleLocks_pools h
    have hseekSum := amountSum_distributeFromPool hseek
    have hprovideSum := amountSum_distributeFromPool hprovide
    have hseekShared := distributeFromPool_sharedOut hseeks hseek
    have hprovideShared := distributeFromPool_sharedOut hprovides hprovide
    rw [← hseekSum] at hseekShared
    rw [← hprovideSum] at hprovideShared
    rw [Nat.ceilDiv_eq_add_pred_div, ← hpool]
    refine ⟨by omega, hseekSum, ?_, ?_⟩
    · intro hcovered k d e hd he
      have hworth : amountSum locks.seeks.flat * startPrice ≤ amountSum settled.seeks.flat * newPrice := by
        rw [hseekSum, hpool, min_eq_left hcovered, ← Nat.ceilDiv_eq_add_pred_div]
        rw [Nat.mul_comm _ newPrice]
        exact (ceilDiv_le_iff_le_mul hnew).mp le_rfl
      exact hseekShared.worth_lt hseeks hworth hnew hd he
    · intro s
      cases s with
      | seek => exact hseekShared
      | provide => exact hprovideShared

end

/-- Two seeks of ten msats and a provide of fifteen. -/
def demoLocks : Locks where
  seeks := BTreeMaps.BTreeMap.empty.insert ⟨.seeker, 1⟩ [⟨1, 0, 10, ()⟩, ⟨2, 1, 10, ()⟩]
  provides := BTreeMaps.BTreeMap.empty.insert ⟨.provider, 2⟩ [⟨3, 2, 15, ⟨0⟩⟩]

/-- At three quarters of the price the twenty msats of the seeks become twenty-seven. -/
theorem settlement_fairness_demo : ∃ settled, settleLocks demoLocks 4 3 5 = .ok settled ∧
    amountSum settled.seeks.flat = 27 := by
  obtain ⟨hruns, hfair⟩ := @settlement_fairness demoLocks 4 3 5 (by decide +kernel) (by decide +kernel) (by decide)
  obtain ⟨settled, h⟩ := hruns (by decide +kernel)
  obtain ⟨-, hseeks, -⟩ := hfair settled h
  refine ⟨settled, h, hseeks.trans ?_⟩
  decide +kernel

end StabilityPool
