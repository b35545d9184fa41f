import Fedi.Lib.CoinChange
import Mathlib.Data.List.Destutter
import Mathlib.Data.List.Sort
import Mathlib.Logic.Function.Basic

/-!
# Denominations of quotes and refunds (`fi_payments/denominations.rs`)

A refund is made of coins that cost their denomination and an output fee.  Large coins come first; then
the smallest selected coins are taken back until a table of the fewest coins has one for what is left:

    greedy target → selected, remainder
    no repair of the remainder → take a coin back, remainder + its cost, up to the limit
    repair → selected ++ repair

What it returns costs the target, and the table has the fewest coins whenever there are any
(`refund_denominations_exact`).
-/

namespace FiPayments

open CoinChange

/-! ## Denominations -/

/-- An amount with its cost, the output fee included. -/
structure Coin where
  amount : ℕ
  cost : ℕ
deriving DecidableEq

inductive DenominationError where
  | unrepresentable
  /-- A loop has not come to its end within the steps that the model gives it. -/
  | running
deriving DecidableEq

/-- Amounts from the largest to the smallest. -/
def descending (amounts : List ℕ) : List ℕ := amounts.insertionSort (· ≥ ·)

/-- How often a tier fits into the price. -/
def takeTiers : List ℕ → ℕ → List ℕ × ℕ
  | [], remaining => ([], remaining)
  | tier :: available, remaining =>
    if tier = 0 then takeTiers available remaining
    else
      let (selected, remaining') := takeTiers available (remaining % tier)
      (List.replicate (remaining / tier) tier ++ selected, remaining')

def quoteDenominations (priceMsats : ℕ) (available : List ℕ) : Option (List ℕ) :=
  let (selected, remaining) := takeTiers ((descending available).destutter (· ≠ ·)) priceMsats
  if remaining ≠ 0 then none else some selected

/-! ## The fewest coins -/

/-- The counts and back-pointers by value; no count is `usize::MAX`, which no count of coins reaches. -/
structure CoinTable where
  counts : ℕ → Option ℕ
  previous : ℕ → Option (ℕ × ℕ)

def CoinTable.start : CoinTable := ⟨Function.update (fun _ => none) 0 (some 0), fun _ => none⟩

/-- Whether a candidate is below a count. -/
def below (candidate : ℕ) : Option ℕ → Bool
  | none => true
  | some count => decide (candidate < count)

/-- One coin as the last one of a value. -/
def CoinTable.relax (value : ℕ) (table : CoinTable) : Coin × ℕ → CoinTable
  | (coin, coinIndex) =>
    if coin.cost ≤ value then
      match table.counts (value - coin.cost) with
      | none => table
      | some count =>
        if below (count + 1) (table.counts value) then
          ⟨Function.update table.counts value (some (count + 1)),
            Function.update table.previous value (some (value - coin.cost, coinIndex))⟩
        else table
    else table

/-- The table after the values up to this one. -/
def fillTable (coins : List Coin) : ℕ → CoinTable
  | 0 => .start
  | value + 1 => coins.zipIdx.foldl (CoinTable.relax (value + 1)) (fillTable coins value)

inductive Repair where
  | found (coins : List Coin)
  | absent
  | running
deriving DecidableEq

def Repair.push (coin : Coin) : Repair → Repair
  | .found coins => .found (coin :: coins)
  | r => r

/-- Back from the target to zero, in at most so many steps. -/
def walkBack (coins : List Coin) (previous : ℕ → Option (ℕ × ℕ)) : ℕ → ℕ → Repair
  | _, 0 => .found []
  | 0, _ + 1 => .running
  | steps + 1, value + 1 =>
    match previous (value + 1) with
    | none => .absent
    | some (prior, coinIndex) =>
      match coins[coinIndex]? with
      | none => .absent
      | some coin => (walkBack coins previous steps prior).push coin

def minimumCoinRepresentation (coins : List Coin) (target : ℕ) : Repair :=
  let table := fillTable coins target
  match table.counts target with
  | none => .absent
  | some _ => walkBack coins table.previous target target

/-! ## Refunds -/

def REPAIR_LIMIT_MSATS : ℕ := 1000000

/-- The coins that an amount can be paid with, none of them free. -/
def feeBearingCoins (available : List ℕ) (outputFee : ℕ → ℕ) : List Coin :=
  available.filterMap fun amount =>
    if amount + outputFee amount < 2 ^ 64 ∧ amount + outputFee amount ≠ 0 then some ⟨amount, amount + outputFee amount⟩
    else none

/-- From the largest cost to the smallest, and then by amounts. -/
def Coin.Before (a b : Coin) : Prop := b.cost < a.cost ∨ b.cost = a.cost ∧ b.amount ≤ a.amount

instance : DecidableRel Coin.Before := fun _ _ => inferInstanceAs (Decidable (_ ∨ _))

instance : Std.Total Coin.Before := ⟨fun a b => by unfold Coin.Before; omega⟩

instance : IsTrans Coin Coin.Before := ⟨fun a b c hab hbc => by unfold Coin.Before at *; omega⟩

/-- Each cost once, with its largest amount. -/
def sortedCoins (available : List ℕ) (outputFee : ℕ → ℕ) : List Coin :=
  ((feeBearingCoins available outputFee).insertionSort Coin.Before).destutter fun a b => a.cost ≠ b.cost

/-- The largest coins as often as they fit, and what is left. -/
def takeCoins : List Coin → ℕ → List Coin × ℕ
  | [], remainder => ([], remainder)
  | coin :: coins, remainder =>
    let (selected, remainder') := takeCoins coins (remainder % coin.cost)
    (List.replicate (remainder / coin.cost) coin ++ selected, remainder')

def repairOf (coins : List Coin) (remainder : ℕ) : Repair :=
  if remainder ≤ REPAIR_LIMIT_MSATS then minimumCoinRepresentation coins remainder else .absent

/-- The loop that takes selected coins back; the last one selected comes first here. -/
def repairLoop (coins : List Coin) : List Coin → ℕ → Except DenominationError (List ℕ)
  | [], remainder =>
    match repairOf coins remainder with
    | .found repair => .ok (descending (repair.map Coin.amount))
    | .absent => .error .unrepresentable
    | .running => .error .running
  | coin :: popped, remainder =>
    match repairOf coins remainder with
    | .found repair => .ok (descending (((coin :: popped).reverse ++ repair).map Coin.amount))
    | .absent =>
      if remainder + coin.cost < 2 ^ 64 then
        if remainder + coin.cost ≤ REPAIR_LIMIT_MSATS then repairLoop coins popped (remainder + coin.cost)
        else .error .unrepresentable
      else .error .unrepresentable
    | .running => .error .running

/-- On a platform with words of 64 bits, on which every count of coins fits `usize`. -/
def refundDenominations (available : List ℕ) (outputFee : ℕ → ℕ) (targetMsats : ℕ) :
    Except DenominationError (List ℕ) :=
  let coins := sortedCoins available outputFee
  if coins = [] then .error .unrepresentable
  else
    let (selected, remainder) := takeCoins coins targetMsats
    repairLoop coins selected.reverse remainder

/-! ## The table has the fewest coins -/

section

variable {coins : List Coin} {table table' : CoinTable} {value prior n : ℕ}

/-- A value whose last coin is known: the count is one more than that of what the coin leaves. -/
def LastCoin (coins : List Coin) (table : CoinTable) (value n : ℕ) : Prop :=
  ∃ coin i m, table.previous value = some (value - coin.cost, i) ∧ coins[i]? = some coin ∧
    coin.cost ≠ 0 ∧ coin.cost ≤ value ∧ table.counts (value - coin.cost) = some m ∧ n = m + 1

/-- A value that the loop has passed. -/
structure Filled (coins : List Coin) (table : CoinTable) (value : ℕ) : Prop where
  absent : table.counts value = none → ∀ l, ¬ Represents coins Coin.cost value l
  fewest : ∀ n, table.counts value = some n → Fewest coins Coin.cost value n
  last : ∀ n, table.counts value = some n → value ≠ 0 → LastCoin coins table value n

/-- While the coins of a value are tried, the other values stay, and its count is the least that the tried
coins leave. -/
structure Relaxes (coins tried : List Coin) (value : ℕ) (table table' : CoinTable) : Prop where
  counts : ∀ u, u ≠ value → table'.counts u = table.counts u
  previous : ∀ u, u ≠ value → table'.previous u = table.previous u
  last : ∀ n, table'.counts value = some n → LastCoin coins table' value n
  least : ∀ coin ∈ tried, coin.cost ≠ 0 → coin.cost ≤ value → ∀ m, table.counts (value - coin.cost) = some m →
    ∃ n, table'.counts value = some n ∧ n ≤ m + 1

theorem relaxes_refl (h : table.counts value = none) : Relaxes coins [] value table table where
  counts := fun _ _ => rfl
  previous := fun _ _ => rfl
  last := fun n hn => by rw [h] at hn; cases hn
  least := fun _ hmem => absurd hmem List.not_mem_nil

/-- One more coin is tried. -/
theorem Relaxes.relax {tried : List Coin} (h : Relaxes coins tried value table table') {coin : Coin} {i : ℕ}
    (hcoin : coins[i]? = some coin) :
    Relaxes coins (tried ++ [coin]) value table (table'.relax value (coin, i)) := by
  have hkeep : (∀ m, coin.cost ≠ 0 → coin.cost ≤ value → table.counts (value - coin.cost) = some m →
      ∃ n, table'.counts value = some n ∧ n ≤ m + 1) → Relaxes coins (tried ++ [coin]) value table table' := by
    intro hleast
    refine ⟨h.counts, h.previous, h.last, fun c hc hne hle m hm => ?_⟩
    rcases List.mem_append.mp hc with hc | hc
    · exact h.least c hc hne hle m hm
    · rw [List.mem_singleton.mp hc] at hne hle hm
      exact hleast m hne hle hm
  unfold CoinTable.relax
  dsimp only
  by_cases hle : coin.cost ≤ value
  · rw [if_pos hle]
    cases hcount : table'.counts (value - coin.cost) with
    | none =>
      refine hkeep fun m hne _ hm => ?_
      rw [← h.counts _ (by omega), hcount] at hm
      cases hm
    | some count =>
      dsimp only
      by_cases hbelow : below (count + 1) (table'.counts value) = true
      · rw [if_pos hbelow]
        have hne : coin.cost ≠ 0 := by
          intro hzero
          rw [hzero, Nat.sub_zero] at hcount
          rw [hcount] at hbelow
          have hlt : count + 1 < count := of_decide_eq_true hbelow
          omega
        have hother : value - coin.cost ≠ value := by omega
        refine ⟨fun u hu => ?_, fun u hu => ?_, fun n hn => ?_, fun c hc hcne hcle m hm => ?_⟩
        · exact (Function.update_of_ne hu _ _).trans (h.counts u hu)
        · exact (Function.update_of_ne hu _ _).trans (h.previous u hu)
        · have hcountn : n = count + 1 := by
            have hupdate : Function.update table'.counts value (some (count + 1)) value = some n := hn
            rw [Function.update_self] at hupdate
            cases hupdate
            rfl
          exact ⟨coin, i, count, Function.update_self _ _ _, hcoin, hne, hle,
            (Function.update_of_ne hother _ _).trans hcount, hcountn⟩
        · refine ⟨count + 1, Function.update_self _ _ _, ?_⟩
          rcases List.mem_append.mp hc with hc | hc
          · obtain ⟨n, hn, hnm⟩ := h.least c hc hcne hcle m hm
            rw [hn] at hbelow
            have hlt : count + 1 < n := of_decide_eq_true hbelow
            omega
          · rw [List.mem_singleton.mp hc, ← h.counts _ hother, hcount] at hm
            cases hm
            exact Nat.le_refl _
      · rw [if_neg hbelow]
        refine hkeep fun m hne _ hm => ?_
        rw [← h.counts _ (by omega), hcount] at hm
        cases hm
        cases hn : table'.counts value with
        | none => rw [hn] at hbelow; exact absurd rfl hbelow
        | some n =>
          rw [hn] at hbelow
          have hnot : ¬ count + 1 < n := fun hlt => hbelow (decide_eq_true hlt)
          exact ⟨n, rfl, by omega⟩
  · rw [if_neg hle]
    exact hkeep fun m _ hle' => absurd hle' hle

theorem relaxes_foldl {tried : List Coin} {pairs : List (Coin × ℕ)} (h : Relaxes coins tried value table table')
    (hpairs : ∀ pair ∈ pairs, coins[pair.2]? = some pair.1) :
    Relaxes coins (tried ++ pairs.map Prod.fst) value table (pairs.foldl (CoinTable.relax value) table') := by
  induction pairs generalizing tried table' with
  | nil =>
    rw [List.map_nil, List.append_nil]
    exact h
  | cons pair pairs ih =>
    have hnext := ih (h.relax (hpairs pair List.mem_cons_self)) fun p hp => hpairs p (List.mem_cons_of_mem _ hp)
    rw [List.append_assoc] at hnext
    exact hnext

/-- All coins of a value. -/
theorem relaxes_all (h : table.counts value = none) :
    Relaxes coins coins value table (coins.zipIdx.foldl (CoinTable.relax value) table) := by
  have hstart : Relaxes coins [] value table table := relaxes_refl h
  have hall := relaxes_foldl hstart fun pair hpair => List.mem_zipIdx_iff_getElem?.mp hpair
  rw [List.nil_append, List.zipIdx_map_fst] at hall
  exact hall

theorem fillTable_later (coins : List Coin) : ∀ (value u : ℕ), value < u → (fillTable coins value).counts u = none := by
  intro value
  induction value with
  | zero =>
    intro u h
    have hne : u ≠ 0 := by omega
    show Function.update (fun _ => none) 0 (some 0) u = none
    rw [Function.update_of_ne hne]
  | succ value ih =>
    intro u h
    have hall : Relaxes coins coins (value + 1) _ _ := relaxes_all (ih (value + 1) (by omega))
    exact (hall.counts u (by omega)).trans (ih u (by omega))

/-- What is left alone up to a value is still filled. -/
theorem Filled.of_same (h : Filled coins table value) (hcounts : ∀ u, u ≤ value → table'.counts u = table.counts u)
    (hprevious : table'.previous value = table.previous value) : Filled coins table' value where
  absent := by
    intro hnone
    rw [hcounts value (by omega)] at hnone
    exact h.absent hnone
  fewest := by
    intro n hn
    rw [hcounts value (by omega)] at hn
    exact h.fewest n hn
  last := by
    intro n hn hne
    rw [hcounts value (by omega)] at hn
    obtain ⟨coin, i, m, hprev, hcoin, hcost, hle, hcount, heq⟩ := h.last n hn hne
    exact ⟨coin, i, m, hprevious.trans hprev, hcoin, hcost, hle, (hcounts _ (by omega)).trans hcount, heq⟩

theorem filled_next (hfilled : ∀ u, u ≤ value → Filled coins table u)
    (h : Relaxes coins coins (value + 1) table table') : Filled coins table' (value + 1) where
  absent := by
    intro hnone
    refine not_represents (by omega) fun coin hmem hne hle l hl => ?_
    cases hcount : table.counts (value + 1 - coin.cost) with
    | none => exact (hfilled _ (by omega)).absent hcount l hl
    | some m =>
      obtain ⟨n, hn, -⟩ := h.least coin hmem hne hle m hcount
      rw [hnone] at hn
      cases hn
  fewest := by
    intro n hn
    obtain ⟨coin, i, m, -, hcoin, hne, hle, hcount, rfl⟩ := h.last n hn
    rw [h.counts _ (by omega)] at hcount
    refine fewest_succ (by omega) (List.mem_of_getElem? hcoin) hle ((hfilled _ (by omega)).fewest m hcount) ?_
    intro other hother hone hole l hl
    cases hcount' : table.counts (value + 1 - other.cost) with
    | none => exact absurd hl ((hfilled _ (by omega)).absent hcount' l)
    | some m' =>
      obtain ⟨n', hn', hless⟩ := h.least other hother hone hole m' hcount'
      have hleast := ((hfilled _ (by omega)).fewest m' hcount').le l hl
      rw [hn] at hn'
      cases hn'
      omega
  last := fun n hn _ => h.last n hn

theorem fillTable_filled (coins : List Coin) (value : ℕ) :
    ∀ u, u ≤ value → Filled coins (fillTable coins value) u := by
  induction value with
  | zero =>
    intro u hu
    obtain rfl : u = 0 := by omega
    have hzero : (fillTable coins 0).counts 0 = some 0 := by
      show Function.update (fun _ => none) 0 (some 0) 0 = some 0
      rw [Function.update_self]
    refine ⟨fun hnone => ?_, fun n hn => ?_, fun n _ hne => absurd rfl hne⟩
    · rw [hzero] at hnone
      cases hnone
    · rw [hzero] at hn
      cases hn
      exact fewest_zero coins Coin.cost
  | succ value ih =>
    intro u hu
    have hall : Relaxes coins coins (value + 1) (fillTable coins value) (fillTable coins (value + 1)) :=
      relaxes_all (fillTable_later coins value (value + 1) (by omega))
    by_cases hlast : u = value + 1
    · rw [hlast]
      exact filled_next ih hall
    · exact (ih u (by omega)).of_same (fun u' hu' => hall.counts u' (by omega)) (hall.previous u hlast)

/-- The back-pointers lead to zero, by as many coins as the count. -/
theorem walkBack_found (hfilled : ∀ u, u ≤ value → Filled coins table u) {steps : ℕ} (hsteps : value ≤ steps)
    (hn : table.counts value = some n) :
    ∃ l, walkBack coins table.previous steps value = .found l ∧ Represents coins Coin.cost value l ∧ l.length = n := by
  induction steps generalizing value n with
  | zero =>
    obtain rfl : value = 0 := by omega
    have hle := ((hfilled 0 (by omega)).fewest n hn).le [] (represents_nil coins Coin.cost)
    exact ⟨[], rfl, represents_nil coins Coin.cost, (Nat.le_zero.mp hle).symm⟩
  | succ steps ih =>
    cases value with
    | zero =>
      have hle := ((hfilled 0 (by omega)).fewest n hn).le [] (represents_nil coins Coin.cost)
      exact ⟨[], rfl, represents_nil coins Coin.cost, (Nat.le_zero.mp hle).symm⟩
    | succ value =>
      obtain ⟨coin, i, m, hprevious, hcoin, hne, hle, hcount, rfl⟩ := (hfilled _ (by omega)).last n hn (by omega)
      obtain ⟨l, hwalk, hl, hlength⟩ := ih (fun u hu => hfilled u (by omega)) (by omega) hcount
      refine ⟨coin :: l, ?_, ?_, by rw [List.length_cons, hlength]⟩
      · unfold walkBack
        rw [hprevious]
        dsimp only
        rw [hcoin]
        dsimp only
        rw [hwalk]
        rfl
      · have hcons := hl.cons (List.mem_of_getElem? hcoin)
        rw [Nat.add_sub_cancel' hle] at hcons
        exact hcons

end

/-- The fewest coins of the target, or none represent it. -/
theorem minimumCoinRepresentation_spec (coins : List Coin) (target : ℕ) :
    (∃ l, minimumCoinRepresentation coins target = .found l ∧ Represents coins Coin.cost target l ∧
      Fewest coins Coin.cost target l.length) ∨
    (minimumCoinRepresentation coins target = .absent ∧ ∀ l, ¬ Represents coins Coin.cost target l) := by
  have hfilled := fillTable_filled coins target
  unfold minimumCoinRepresentation
  dsimp only
  cases hcount : (fillTable coins target).counts target with
  | none => exact .inr ⟨rfl, (hfilled target (by omega)).absent hcount⟩
  | some n =>
    obtain ⟨l, hwalk, hl, hlength⟩ := walkBack_found hfilled (Nat.le_refl target) hcount
    refine .inl ⟨l, hwalk, hl, ?_⟩
    rw [hlength]
    exact (hfilled target (by omega)).fewest n hcount

/-! ## Notes of a price and of its refund -/

section

variable {d q t : ℕ}

theorem takeTiers_cons (available : List ℕ) (q : ℕ) (hne : d ≠ 0) :
    takeTiers (d :: available) q =
      (List.replicate (q / d) d ++ (takeTiers available (q % d)).1, (takeTiers available (q % d)).2) := if_neg hne

theorem takeTiers_cons_zero (available : List ℕ) (q : ℕ) : takeTiers (0 :: available) q = takeTiers available q :=
  if_pos rfl

theorem takeCoins_cons (coin : Coin) (coins : List Coin) (t : ℕ) :
    takeCoins (coin :: coins) t =
      (List.replicate (t / coin.cost) coin ++ (takeCoins coins (t % coin.cost)).1, (takeCoins coins (t % coin.cost)).2) :=
  rfl

theorem takeTiers_skip (available : List ℕ) (h : q < d) : takeTiers (d :: available) q = takeTiers available q := by
  rw [takeTiers_cons _ _ (by omega), Nat.div_eq_of_lt h, Nat.mod_eq_of_lt h, List.replicate_zero, List.nil_append]

theorem takeTiers_once (available : List ℕ) (h : d ≤ q) (h' : q < 2 * d) :
    takeTiers (d :: available) q = (d :: (takeTiers available (q - d)).1, (takeTiers available (q - d)).2) := by
  have hdiv : q / d = 1 := Nat.div_eq_of_lt_le (by omega) (by omega)
  have hmod : q % d = q - d := by rw [Nat.mod_eq_sub_mod h, Nat.mod_eq_of_lt (by omega)]
  rw [takeTiers_cons _ _ (by omega), hdiv, hmod]
  rfl

theorem takeCoins_skip (coins : List Coin) {coin : Coin} (h : t < coin.cost) :
    takeCoins (coin :: coins) t = takeCoins coins t := by
  rw [takeCoins_cons, Nat.div_eq_of_lt h, Nat.mod_eq_of_lt h, List.replicate_zero, List.nil_append]

theorem takeCoins_once (coins : List Coin) {coin : Coin} (h : coin.cost ≤ t) (h' : t < 2 * coin.cost) :
    takeCoins (coin :: coins) t = (coin :: (takeCoins coins (t - coin.cost)).1, (takeCoins coins (t - coin.cost)).2) := by
  have hdiv : t / coin.cost = 1 := Nat.div_eq_of_lt_le (by omega) (by omega)
  have hmod : t % coin.cost = t - coin.cost := by rw [Nat.mod_eq_sub_mod h, Nat.mod_eq_of_lt (by omega)]
  rw [takeCoins_cons, hdiv, hmod]
  rfl

theorem takeTiers_append (large small : List ℕ) (q : ℕ) :
    takeTiers (large ++ small) q =
      ((takeTiers large q).1 ++ (takeTiers small (takeTiers large q).2).1, (takeTiers small (takeTiers large q).2).2) := by
  induction large generalizing q with
  | nil => rfl
  | cons d large ih =>
    rw [List.cons_append]
    by_cases hzero : d = 0
    · rw [hzero, takeTiers_cons_zero, takeTiers_cons_zero]
      exact ih q
    · rw [takeTiers_cons _ _ hzero, takeTiers_cons _ _ hzero, ih, List.append_assoc]

theorem takeCoins_append (large small : List Coin) (t : ℕ) :
    takeCoins (large ++ small) t =
      ((takeCoins large t).1 ++ (takeCoins small (takeCoins large t).2).1, (takeCoins small (takeCoins large t).2).2) := by
  induction large generalizing t with
  | nil => rfl
  | cons coin large ih => rw [List.cons_append, takeCoins_cons, takeCoins_cons, ih, List.append_assoc]

theorem takeTiers_spec (available : List ℕ) (q : ℕ) :
    (∀ x ∈ (takeTiers available q).1, x ∈ available) ∧ (takeTiers available q).1.sum + (takeTiers available q).2 = q := by
  induction available generalizing q with
  | nil => exact ⟨fun _ h => absurd h List.not_mem_nil, Nat.zero_add q⟩
  | cons d available ih =>
    by_cases hzero : d = 0
    · rw [hzero, takeTiers_cons_zero]
      exact ⟨fun x hx => List.mem_cons_of_mem _ ((ih q).1 x hx), (ih q).2⟩
    · rw [takeTiers_cons _ _ hzero]
      obtain ⟨hmem, hsum⟩ := ih (q % d)
      refine ⟨fun x hx => ?_, ?_⟩
      · rcases List.mem_append.mp hx with hx | hx
        · rw [List.eq_of_mem_replicate hx]
          exact List.mem_cons_self
        · exact List.mem_cons_of_mem _ (hmem x hx)
      · have hsplit := Nat.div_add_mod q d
        rw [Nat.mul_comm] at hsplit
        rw [List.sum_append, List.sum_replicate, smul_eq_mul]
        omega

end

/-! ## What a refund costs -/

theorem descending_perm (amounts : List ℕ) : (descending amounts).Perm amounts := List.perm_insertionSort _ _

theorem descending_pairwise (amounts : List ℕ) : (descending amounts).Pairwise (· ≥ ·) :=
  List.pairwise_insertionSort _ _

/-- A coin of the wallet costs its tier and the tier's output fee. -/
theorem sortedCoins_mem {available : List ℕ} {outputFee : ℕ → ℕ} {coin : Coin}
    (h : coin ∈ sortedCoins available outputFee) :
    coin.amount ∈ available ∧ coin.cost = coin.amount + outputFee coin.amount ∧ coin.cost ≠ 0 := by
  have hmem : coin ∈ feeBearingCoins available outputFee :=
    (List.perm_insertionSort _ _).mem_iff.mp ((List.destutter_sublist _ _).subset h)
  obtain ⟨amount, hamount, hcoin⟩ := List.mem_filterMap.mp hmem
  split at hcoin
  next hcost =>
    cases hcoin
    exact ⟨hamount, rfl, hcost.2⟩
  next => cases hcoin

theorem takeCoins_spec {coins all : List Coin} (hsub : coins ⊆ all) (target : ℕ) :
    ∃ paid, Represents all Coin.cost paid (takeCoins coins target).1 ∧ paid + (takeCoins coins target).2 = target := by
  induction coins generalizing target with
  | nil => exact ⟨0, represents_nil _ _, Nat.zero_add _⟩
  | cons coin coins ih =>
    obtain ⟨paid, hpaid, hrest⟩ := ih (fun c hc => hsub (List.mem_cons_of_mem _ hc)) (target % coin.cost)
    have htaken : Represents all Coin.cost _ (List.replicate (target / coin.cost) coin) :=
      .replicate (hsub List.mem_cons_self) _
    refine ⟨_, htaken.append hpaid, ?_⟩
    have hsplit := Nat.div_add_mod target coin.cost
    rw [Nat.mul_comm] at hsplit
    show _ + paid + (takeCoins coins (target % coin.cost)).2 = target
    omega

/-- A repair represents the remainder, if there is one. -/
theorem repairOf_spec (coins : List Coin) (remainder : ℕ) :
    (∃ l, repairOf coins remainder = .found l ∧ Represents coins Coin.cost remainder l) ∨
      (repairOf coins remainder = .absent ∧
        (remainder ≤ REPAIR_LIMIT_MSATS → ¬ Representable coins Coin.cost remainder)) := by
  unfold repairOf
  by_cases hlimit : remainder ≤ REPAIR_LIMIT_MSATS
  · rw [if_pos hlimit]
    rcases minimumCoinRepresentation_spec coins remainder with ⟨l, hfound, hl, -⟩ | ⟨habsent, hnone⟩
    · exact .inl ⟨l, hfound, hl⟩
    · exact .inr ⟨habsent, fun _ ⟨l, hl⟩ => hnone l hl⟩
  · rw [if_neg hlimit]
    exact .inr ⟨rfl, fun hle => absurd hle hlimit⟩

/-- What is taken back and what is repaired cost the same. -/
theorem repairLoop_spec {coins popped : List Coin} {paid remainder : ℕ}
    (h : Represents coins Coin.cost paid popped) :
    repairLoop coins popped remainder ≠ .error .running ∧
      ∀ ds, repairLoop coins popped remainder = .ok ds →
        ∃ l, Represents coins Coin.cost (paid + remainder) l ∧ ds = descending (l.map Coin.amount) := by
  induction popped generalizing paid remainder with
  | nil =>
    unfold repairLoop
    rcases repairOf_spec coins remainder with ⟨l, hfound, hl⟩ | ⟨habsent, -⟩
    · rw [hfound]
      refine ⟨by simp, fun ds hds => ?_⟩
      cases hds
      exact ⟨l, h.append hl, rfl⟩
    · rw [habsent]
      exact ⟨by simp, fun ds hds => by cases hds⟩
  | cons coin popped ih =>
    unfold repairLoop
    rcases repairOf_spec coins remainder with ⟨l, hfound, hl⟩ | ⟨habsent, -⟩
    · rw [hfound]
      refine ⟨by simp, fun ds hds => ?_⟩
      cases hds
      exact ⟨_, (h.of_perm (List.reverse_perm _)).append hl, rfl⟩
    · rw [habsent]
      dsimp only
      have hsum := h.sum
      rw [List.map_cons, List.sum_cons] at hsum
      have hrest : Represents coins Coin.cost (paid - coin.cost) popped :=
        ⟨fun c hc => h.mem c (List.mem_cons_of_mem _ hc), by omega⟩
      obtain ⟨hrunning, hok⟩ := @ih _ (remainder + coin.cost) hrest
      have hmoved : paid - coin.cost + (remainder + coin.cost) = paid + remainder := by omega
      rw [hmoved] at hok
      by_cases hword : remainder + coin.cost < 2 ^ 64
      · rw [if_pos hword]
        by_cases hlimit : remainder + coin.cost ≤ REPAIR_LIMIT_MSATS
        · rw [if_pos hlimit]
          exact ⟨hrunning, hok⟩
        · rw [if_neg hlimit]
          exact ⟨by simp, fun ds hds => by cases hds⟩
      · rw [if_neg hword]
        exact ⟨by simp, fun ds hds => by cases hds⟩

theorem repairOf_found_iff (coins : List Coin) (remainder : ℕ) :
    (∃ l, repairOf coins remainder = .found l) ↔
      remainder ≤ REPAIR_LIMIT_MSATS ∧ Representable coins Coin.cost remainder := by
  rcases repairOf_spec coins remainder with ⟨l, hfound, hl⟩ | ⟨habsent, hnone⟩
  · refine ⟨fun _ => ⟨?_, l, hl⟩, fun _ => ⟨l, hfound⟩⟩
    by_contra hlimit
    unfold repairOf at hfound
    rw [if_neg hlimit] at hfound
    cases hfound
  · constructor
    · rintro ⟨l, hfound⟩
      rw [habsent] at hfound
      cases hfound
    · rintro ⟨hlimit, hrep⟩
      exact absurd hrep (hnone hlimit)

/-- It ends well exactly if what some coins leave, taken back from the last one selected on and within the
limit, can be repaired. -/
theorem repairLoop_ok_iff {coins popped : List Coin} {remainder : ℕ} :
    (∃ ds, repairLoop coins popped remainder = .ok ds) ↔
      ∃ taken kept, popped = taken ++ kept ∧ remainder + (taken.map Coin.cost).sum ≤ REPAIR_LIMIT_MSATS ∧
        Representable coins Coin.cost (remainder + (taken.map Coin.cost).sum) := by
  induction popped generalizing remainder with
  | nil =>
    have hnow : (∃ ds, repairLoop coins [] remainder = .ok ds) ↔ ∃ l, repairOf coins remainder = .found l := by
      unfold repairLoop
      cases repairOf coins remainder <;> simp
    rw [hnow, repairOf_found_iff]
    constructor
    · intro h
      exact ⟨[], [], rfl, h⟩
    · rintro ⟨taken, kept, hsplit, h⟩
      obtain ⟨rfl, -⟩ := List.append_eq_nil_iff.mp hsplit.symm
      exact h
  | cons coin popped ih =>
    have hword : REPAIR_LIMIT_MSATS < 2 ^ 64 := by decide
    have hstep : (∃ ds, repairLoop coins (coin :: popped) remainder = .ok ds) ↔
        (∃ l, repairOf coins remainder = .found l) ∨
          remainder + coin.cost ≤ REPAIR_LIMIT_MSATS ∧ ∃ ds, repairLoop coins popped (remainder + coin.cost) = .ok ds := by
      conv_lhs => unfold repairLoop
      rcases repairOf_spec coins remainder with ⟨l, hfound, -⟩ | ⟨habsent, -⟩
      · rw [hfound]
        simp
      · rw [habsent]
        dsimp only
        by_cases hlimit : remainder + coin.cost ≤ REPAIR_LIMIT_MSATS
        · rw [if_pos (by omega), if_pos hlimit]
          simp [hlimit]
        · by_cases hfits : remainder + coin.cost < 2 ^ 64
          · rw [if_pos hfits, if_neg hlimit]
            simp [hlimit]
          · rw [if_neg hfits]
            simp [hlimit]
    rw [hstep, repairOf_found_iff, ih]
    constructor
    · rintro (h | ⟨-, taken, kept, rfl, hsum⟩)
      · exact ⟨[], coin :: popped, rfl, h⟩
      · rw [Nat.add_assoc] at hsum
        exact ⟨coin :: taken, kept, rfl, hsum⟩
    · rintro ⟨taken, kept, hsplit, hsum⟩
      cases taken with
      | nil => exact .inl hsum
      | cons coin' taken =>
        obtain ⟨rfl, rfl⟩ := List.cons.inj hsplit
        rw [List.map_cons, List.sum_cons, ← Nat.add_assoc] at hsum
        exact .inr ⟨le_trans (Nat.le_add_right _ _) hsum.1, taken, kept, rfl, hsum⟩

/-- A refund comes to its end, and costs its target in tiers from the largest to the smallest; and the table
has the fewest coins of a target, if any. -/
theorem refund_denominations_exact :
    (∀ available outputFee targetMsats,
      refundDenominations available outputFee targetMsats ≠ .error .running ∧
      ∀ denominations, refundDenominations available outputFee targetMsats = .ok denominations →
        (∀ d ∈ denominations, d ∈ available) ∧ denominations.Pairwise (· ≥ ·) ∧
        (denominations.map fun d => d + outputFee d).sum = targetMsats) ∧
    ∀ coins target,
      (∃ l, minimumCoinRepresentation coins target = .found l ∧ Represents coins Coin.cost target l ∧
        ∀ l', Represents coins Coin.cost target l' → l.length ≤ l'.length) ∨
      (minimumCoinRepresentation coins target = .absent ∧ ∀ l, ¬ Represents coins Coin.cost target l) := by
  constructor
  · intro available outputFee targetMsats
    unfold refundDenominations
    dsimp only
    by_cases hempty : sortedCoins available outputFee = []
    · rw [if_pos hempty]
      exact ⟨by simp, fun ds hds => by cases hds⟩
    · rw [if_neg hempty]
      obtain ⟨paid, hpaid, hsum⟩ := takeCoins_spec (List.Subset.refl (sortedCoins available outputFee)) targetMsats
      obtain ⟨hrunning, hok⟩ : repairLoop _ _ (takeCoins (sortedCoins available outputFee) targetMsats).2 ≠ _ ∧ _ :=
        repairLoop_spec (hpaid.of_perm (List.reverse_perm _))
      refine ⟨hrunning, fun ds hds => ?_⟩
      obtain ⟨l, hl, rfl⟩ := hok ds hds
      have hperm := descending_perm (l.map Coin.amount)
      refine ⟨fun d hd => ?_, descending_pairwise _, ?_⟩
      · obtain ⟨coin, hcoin, rfl⟩ := List.mem_map.mp (hperm.mem_iff.mp hd)
        exact (sortedCoins_mem (hl.mem coin hcoin)).1
      · rw [(hperm.map _).sum_eq, List.map_map, ← hsum, ← hl.sum]
        refine congrArg List.sum (List.map_congr_left fun coin hcoin => ?_)
        exact (sortedCoins_mem (hl.mem coin hcoin)).2.1.symm
  · intro coins target
    rcases minimumCoinRepresentation_spec coins target with ⟨l, hfound, hl, hfewest⟩ | habsent
    · exact .inl ⟨l, hfound, hl, hfewest.le⟩
    · exact .inr habsent

end FiPayments
