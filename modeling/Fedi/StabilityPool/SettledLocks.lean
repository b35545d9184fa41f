import Fedi.StabilityPool.Coverage
import Fedi.StabilityPool.FiatConversion

/-!
# What a settlement leaves of the locks, in closed form

At the new price the seeks share `seekPool` msats and the provides the rest, each
side pro rata with the remainder to one deposit (`settledOn`).  A request for `n`
msats then takes the newest deposits first: in front of the deposits `newer`, a
deposit `d` is left with

    d.amount - (n - amountSum newer)    when    n ≤ amountSum newer ∨ n < d.amount + amountSum newer

(`mem_drainInReverse`).  Both are functions of the state before the turnover, and
`settleCurrentCycle` computes them whenever it succeeds.
-/

namespace StabilityPool

open BTreeMaps KeyedLogs Runs

/-! ## Pro-rata settlement -/

section
variable {M : Type}

/-- The table with `pool` msats distributed over its deposits. -/
def settledTable (t : DepositTable M) (pool randomness : ℕ) : DepositTable M :=
  t.refill (setAmounts t.flat (ProRata.split pool (amounts t.flat) randomness))

theorem refill_eq_settledTable {t : DepositTable M} {pool randomness : ℕ} {ds : List (Deposit M)}
    (h : distributeFromPool t.flat pool randomness = .ok ds) :
    t.refill ds = settledTable t pool randomness := by
  unfold settledTable
  rcases distributeFromPool_ok h with ⟨hnil, -, rfl⟩ | ⟨-, rfl⟩
  · rw [hnil]
    rfl
  · rfl

/-- The shares fit, so the loop only stops on a zero total. -/
theorem distributeLoop_succeeds {pool total : ℕ} :
    ∀ (ds : List (Deposit M)) (draining : ℕ), (ds ≠ [] → total ≠ 0) → draining < 2 ^ 64 →
      ((amounts ds).map fun x => pool * x / total).sum ≤ draining →
        ∃ r, distributeLoop pool total ds draining = .ok r
  | [], draining, _, _, _ => ⟨_, rfl⟩
  | d :: ds, draining, htotal, hbound, hsum => by
    have ht : total ≠ 0 := htotal (List.cons_ne_nil _ _)
    have hsum' : pool * d.amount / total + ((amounts ds).map fun x => pool * x / total).sum ≤ draining := by
      simpa [amounts] using hsum
    have hleft : draining - pool * d.amount / total < 2 ^ 64 := (Nat.sub_le _ _).trans_lt hbound
    have hrest : ((amounts ds).map fun x => pool * x / total).sum ≤ draining - pool * d.amount / total :=
      Nat.le_sub_of_add_le' hsum'
    obtain ⟨r, hr⟩ := distributeLoop_succeeds ds _ (fun _ => ht) hleft hrest
    refine ⟨({ d with amount := pool * d.amount / total } :: r.1, r.2), ?_⟩
    simp only [distributeLoop, bind_eq_ok, pure_eq_ok]
    refine ⟨_, if_neg ht, _, if_neg (by omega), _, if_pos (by omega), r, hr, rfl⟩

/-- Distributing a pool only fails on deposits that are all zero. -/
theorem distributeFromPool_succeeds_iff {ds : List (Deposit M)} {pool randomness : ℕ}
    (hpool : pool < 2 ^ 64) (hnil : ds = [] → pool = 0) :
    (∃ r, distributeFromPool ds pool randomness = .ok r) ↔ (ds ≠ [] → amountSum ds ≠ 0) := by
  constructor
  · rintro ⟨r, hr⟩ hne
    rcases distributeFromPool_ok hr with ⟨h, -⟩ | ⟨h, -⟩
    · exact absurd h hne
    · exact h
  · intro h
    obtain ⟨r, hr⟩ := distributeLoop_succeeds ds pool h hpool (ProRata.sum_shares_le pool (amounts ds))
    obtain ⟨hr1, hr2, -⟩ := distributeLoop_ok hr
    have hlen : r.1.length = ds.length := by
      rw [hr1, setAmounts, List.length_zipWith]
      simp [amounts]
    have hle : r.2 ≤ pool := by omega
    by_cases hz : r.2 = 0
    · refine ⟨r.1, bind_eq_ok.mpr ⟨r, hr, ?_⟩⟩
      rw [if_neg (not_not.mpr hz)]
      rfl
    · have hds : ds ≠ [] := fun hd => hz (by have := hnil hd; omega)
      have hpos : r.1.length ≠ 0 := by
        rw [hlen]
        exact fun h => hds (List.eq_nil_of_length_eq_zero h)
      refine ⟨r.1.modify (randomness % r.1.length) fun d => { d with amount := d.amount + r.2 },
        bind_eq_ok.mpr ⟨r, hr, ?_⟩⟩
      rw [if_pos hz]
      exact bind_eq_ok.mpr ⟨_, if_neg hpos, bind_eq_ok.mpr ⟨r.2, if_pos (by omega), rfl⟩⟩

end

/-- Msats the seeks are worth at the new price, out of all locked msats. -/
def seekPool (cycle : Cycle) (newPrice : ℕ) : ℕ :=
  min ((amountSum cycle.lockedSeeks.flat * cycle.startPrice + newPrice - 1) / newPrice)
    (amountSum cycle.lockedSeeks.flat + amountSum cycle.lockedProvides.flat)

/-- What is left to the provides. -/
def providePool (cycle : Cycle) (newPrice : ℕ) : ℕ :=
  amountSum cycle.lockedSeeks.flat + amountSum cycle.lockedProvides.flat - seekPool cycle newPrice

/-- The locks of a side after settlement. -/
def settledOn (cycle : Cycle) (newPrice randomness : ℕ) : (s : Side) → DepositTable s.Meta
  | .seek => settledTable cycle.lockedSeeks (seekPool cycle newPrice) randomness
  | .provide => settledTable cycle.lockedProvides (providePool cycle newPrice) randomness

theorem settleLocks_eq {cycle : Cycle} {newPrice randomness : ℕ} {settled : Locks}
    (h : settleLocks ⟨cycle.lockedSeeks, cycle.lockedProvides⟩ cycle.startPrice newPrice randomness =
      .ok settled) (s : Side) : settled.on s = settledOn cycle newPrice randomness s := by
  simp only [settleLocks, bind_eq_ok, pure_eq_ok] at h
  obtain ⟨needed, hneeded, seeks, hseeks, provides, hprovides, rfl⟩ := h
  simp only [ceilDivision, divP] at hneeded
  split_ifs at hneeded with hprice
  cases hneeded
  cases s with
  | seek => exact refill_eq_settledTable hseeks
  | provide => exact refill_eq_settledTable hprovides

/-- With covered locks of fewer than `2^64` msats, settlement only fails on a side
whose deposits are all zero. -/
theorem settleLocks_succeeds_iff {cycle : Cycle} {newPrice randomness : ℕ} (hprice : newPrice ≠ 0)
    (hbound : amountSum cycle.lockedSeeks.flat + amountSum cycle.lockedProvides.flat < 2 ^ 64)
    (hcovered : cycle.lockedProvides.flat = [] → amountSum cycle.lockedSeeks.flat = 0) :
    (∃ r, settleLocks ⟨cycle.lockedSeeks, cycle.lockedProvides⟩ cycle.startPrice newPrice randomness =
        .ok r) ↔
      (cycle.lockedSeeks.flat ≠ [] → amountSum cycle.lockedSeeks.flat ≠ 0) ∧
        (cycle.lockedProvides.flat ≠ [] → amountSum cycle.lockedProvides.flat ≠ 0) := by
  have hseekPool : seekPool cycle newPrice ≤
      amountSum cycle.lockedSeeks.flat + amountSum cycle.lockedProvides.flat := min_le_right _ _
  have hseekBound : seekPool cycle newPrice < 2 ^ 64 := by omega
  have hprovideBound : providePool cycle newPrice < 2 ^ 64 := by
    unfold providePool
    omega
  have hseekNil : cycle.lockedSeeks.flat = [] → seekPool cycle newPrice = 0 := by
    intro hnil
    rw [seekPool, hnil, amountSum_nil, Nat.zero_mul, Nat.zero_add, Nat.div_eq_of_lt (by omega),
      Nat.zero_min]
  have hprovideNil : cycle.lockedProvides.flat = [] → providePool cycle newPrice = 0 := by
    intro hnil
    have := hcovered hnil
    rw [providePool, hnil, amountSum_nil]
    omega
  rw [← distributeFromPool_succeeds_iff hseekBound hseekNil,
    ← distributeFromPool_succeeds_iff hprovideBound hprovideNil]
  constructor
  · rintro ⟨settled, h⟩
    simp only [settleLocks, bind_eq_ok, pure_eq_ok] at h
    obtain ⟨needed, hneeded, seeks, h1, provides, h2, -⟩ := h
    simp only [ceilDivision, divP, if_neg hprice] at hneeded
    cases hneeded
    exact ⟨⟨seeks, h1⟩, provides, h2⟩
  · rintro ⟨⟨seeks, h1⟩, provides, h2⟩
    refine ⟨⟨cycle.lockedSeeks.refill seeks, cycle.lockedProvides.refill provides⟩, ?_⟩
    simp only [settleLocks, bind_eq_ok, pure_eq_ok]
    exact ⟨_, if_neg hprice, seeks, h1, provides, h2, rfl⟩

/-! ## What a drain leaves -/

section
variable {M : Type}

theorem mem_drainLoop {e : Deposit M} :
    ∀ {items : List (Deposit M)} {n : ℕ}, 0 < n → (e ∈ (drainLoop items n).1 ↔
      ∃ newer d older, items = newer ++ d :: older ∧
        (n ≤ amountSum newer ∨ n < d.amount + amountSum newer) ∧
          e = { d with amount := d.amount - (n - amountSum newer) })
  | [], n, _ => by simp [drainLoop]
  | item :: rest, n, hn => by
    rcases le_or_gt n item.amount with h | h
    · rw [drainLoop_of_le rest h]
      constructor
      · intro he
        have hcut : e = { item with amount := item.amount - n } ∧ item.amount ≠ n ∨ e ∈ rest := by
          split_ifs at he with heq
          · exact Or.inr he
          · rcases List.mem_cons.mp he with rfl | he
            · exact Or.inl ⟨rfl, heq⟩
            · exact Or.inr he
        rcases hcut with ⟨rfl, hne⟩ | he
        · exact ⟨[], item, rest, rfl, Or.inr (by rw [amountSum_nil]; omega), by rw [amountSum_nil]; rfl⟩
        · obtain ⟨newer, older, rfl⟩ := List.append_of_mem he
          have hle : n ≤ amountSum (item :: newer) := by
            rw [amountSum_cons]
            omega
          refine ⟨item :: newer, e, older, rfl, Or.inl hle, ?_⟩
          rw [Nat.sub_eq_zero_of_le hle]
          rfl
      · rintro ⟨newer, d, older, hitems, hleft, rfl⟩
        cases newer with
        | nil =>
          rw [List.nil_append] at hitems
          obtain ⟨rfl, rfl⟩ := List.cons.inj hitems
          rw [amountSum_nil] at hleft
          rw [if_neg (by omega), amountSum_nil]
          exact List.mem_cons_self
        | cons x newer =>
          obtain ⟨rfl, rfl⟩ := List.cons.inj hitems
          have hle : n ≤ amountSum (item :: newer) := by
            rw [amountSum_cons]
            omega
          rw [Nat.sub_eq_zero_of_le hle]
          have hmem : d ∈ newer ++ d :: older := List.mem_append_right _ List.mem_cons_self
          split_ifs
          · exact hmem
          · exact List.mem_cons_of_mem _ hmem
    · rw [drainLoop_of_lt rest h]
      show e ∈ (drainLoop rest (n - item.amount)).1 ↔ _
      rw [mem_drainLoop (by omega)]
      constructor
      · rintro ⟨newer, d, older, rfl, hleft, rfl⟩
        refine ⟨item :: newer, d, older, rfl, ?_, ?_⟩
        · rw [amountSum_cons]
          omega
        · rw [amountSum_cons, Nat.sub_sub]
      · rintro ⟨newer, d, older, hitems, hleft, rfl⟩
        cases newer with
        | nil =>
          rw [List.nil_append] at hitems
          obtain ⟨rfl, rfl⟩ := List.cons.inj hitems
          rw [amountSum_nil] at hleft
          omega
        | cons x newer =>
          obtain ⟨rfl, rfl⟩ := List.cons.inj hitems
          rw [amountSum_cons] at hleft
          refine ⟨newer, d, older, rfl, by omega, ?_⟩
          rw [amountSum_cons, Nat.sub_sub]

/-- `e` is left of `items` once `n` msats are taken, newest first. -/
def LeftAfter (items : List (Deposit M)) (n : ℕ) (e : Deposit M) : Prop :=
  ∃ d newer, d :: newer <:+ items ∧ (n ≤ amountSum newer ∨ n < d.amount + amountSum newer) ∧
    e = { d with amount := d.amount - (n - amountSum newer) }

theorem mem_drainInReverse {items : List (Deposit M)} {n : ℕ} {e : Deposit M} :
    e ∈ (drainInReverse items n).1 ↔ LeftAfter items n e := by
  unfold drainInReverse LeftAfter
  split_ifs with hn
  · subst hn
    constructor
    · intro he
      obtain ⟨older, newer, rfl⟩ := List.append_of_mem he
      exact ⟨e, newer, ⟨older, rfl⟩, Or.inl (Nat.zero_le _), by rw [Nat.zero_sub]; rfl⟩
    · rintro ⟨d, newer, hsuf, -, rfl⟩
      rw [Nat.zero_sub]
      exact hsuf.subset List.mem_cons_self
  · show e ∈ (drainLoop items.reverse n).1.reverse ↔ _
    rw [List.mem_reverse, mem_drainLoop (Nat.pos_of_ne_zero hn)]
    constructor
    · rintro ⟨newer, d, older, hitems, hleft, rfl⟩
      refine ⟨d, newer.reverse, ⟨older.reverse, ?_⟩, ?_, ?_⟩
      · rw [← List.reverse_reverse items, hitems]
        simp
      · rw [amountSum_reverse]
        exact hleft
      · rw [amountSum_reverse]
    · rintro ⟨d, newer, ⟨older, rfl⟩, hleft, rfl⟩
      refine ⟨newer.reverse, d, older.reverse, by simp, ?_, ?_⟩
      · rw [amountSum_reverse]
        exact hleft
      · rw [amountSum_reverse]

/-- `e` is left of `items` once an unlock request, if any, is served at `price`. -/
def LeftBy (price : ℕ) (items : List (Deposit M)) (e : Deposit M) : Option FiatOrAll → Prop
  | none => e ∈ items
  | some (.fiat fiat) => LeftAfter items (fiat * MSATS_PER_BTC / price) e
  | some .all => False

/-- A request is served unless its fiat amount does not fit. -/
theorem drainForRequest_succeeds_iff {items : List (Deposit M)} {price : ℕ} (hprice : price ≠ 0)
    (amount : FiatOrAll) : (∃ r, drainForRequest items price amount = .ok r) ↔
      ∀ fiat, amount = .fiat fiat → fiat * MSATS_PER_BTC / price < 2 ^ 64 := by
  cases amount with
  | all =>
    constructor
    · intro _ fiat h
      cases h
    · intro _
      exact ⟨_, rfl⟩
  | fiat fiat =>
    constructor
    · rintro ⟨r, hr⟩ f hf
      obtain ⟨n, hn, -⟩ := bind_eq_ok.mp hr
      rw [← FiatOrAll.fiat.inj hf]
      rw [FiatAmount.toBtcAmount_eq _ hprice] at hn
      exact (FiatAmount.tryIntoU64_succeeds_iff _).mp ⟨n, hn⟩
    · intro h
      obtain ⟨n, hn⟩ := (FiatAmount.tryIntoU64_succeeds_iff _).mpr (h fiat rfl)
      rw [← FiatAmount.toBtcAmount_eq _ hprice] at hn
      exact ⟨_, bind_eq_ok.mpr ⟨n, hn, rfl⟩⟩

theorem mem_drainForRequest {items : List (Deposit M)} {price : ℕ} (hprice : price ≠ 0)
    {amount : FiatOrAll} {r : List (Deposit M) × List (Deposit M)}
    (h : drainForRequest items price amount = .ok r) {e : Deposit M} :
    e ∈ r.1 ↔ LeftBy price items e (some amount) := by
  cases amount with
  | all =>
    cases h
    exact List.mem_nil_iff e
  | fiat fiat =>
    obtain ⟨n, hn, h⟩ := bind_eq_ok.mp h
    rw [pure_eq_ok] at h
    rw [FiatAmount.toBtcAmount_eq _ hprice] at hn
    rw [← h, mem_drainInReverse, (FiatAmount.tryIntoU64_ok_iff.mp hn).1, LeftBy]

end

end StabilityPool
