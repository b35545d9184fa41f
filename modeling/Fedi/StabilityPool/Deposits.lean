import Fedi.Lib.ProRata
import Fedi.StabilityPool.Server

/-!
# Deposit lists and tables: what each list operation conserves

The server moves amounts between lists of deposits and never creates any.  The
amounts of a list are summed under an arbitrary weight of their sequence
(`weigh`), those of a table under a weight of account and sequence
(`tableWeight`); with weight one this is the total, with an indicator the amount
under one account or sequence.

    weigh w (drainInReverse ds n).1 + weigh w (drainInReverse ds n).2 = weigh w ds
    weigh w (mergeDeposits staged locked) = weigh w staged + weigh w locked

What identifies a deposit (`head`) survives every operation, so distinct
sequences stay distinct.
-/

namespace StabilityPool

open BTreeMaps Runs

/-! ## Weights and heads -/

section
variable {M : Type}

/-- All of a deposit but its amount. -/
def Deposit.head (d : Deposit M) : TransactionId × ℕ × M := (d.txid, d.sequence, d.metadata)

theorem Deposit.head_eq {d e : Deposit M} :
    d.head = e.head ↔ d.txid = e.txid ∧ d.sequence = e.sequence ∧ d.metadata = e.metadata := by
  simp [Deposit.head]

def heads (ds : List (Deposit M)) : List (TransactionId × ℕ × M) := ds.map Deposit.head

def sequences (ds : List (Deposit M)) : List ℕ := ds.map (·.sequence)

theorem sequences_eq_heads (ds : List (Deposit M)) : sequences ds = (heads ds).map fun h => h.2.1 := by
  rw [heads, List.map_map]
  rfl

/-- Sum of the amounts, each times the weight of its sequence. -/
def weigh (w : ℕ → ℕ) (ds : List (Deposit M)) : ℕ := (ds.map fun d => w d.sequence * d.amount).sum

/-- The weight of one sequence. -/
def atSequence (sequence : ℕ) : ℕ → ℕ := fun q => if q = sequence then 1 else 0

@[simp] theorem weigh_nil (w : ℕ → ℕ) : weigh w ([] : List (Deposit M)) = 0 := rfl

@[simp] theorem weigh_cons (w : ℕ → ℕ) (d : Deposit M) (ds : List (Deposit M)) :
    weigh w (d :: ds) = w d.sequence * d.amount + weigh w ds := by simp [weigh]

@[simp] theorem weigh_append (w : ℕ → ℕ) (ds es : List (Deposit M)) :
    weigh w (ds ++ es) = weigh w ds + weigh w es := by simp [weigh]

theorem weigh_perm (w : ℕ → ℕ) {ds es : List (Deposit M)} (h : ds.Perm es) : weigh w ds = weigh w es :=
  (h.map _).sum_eq

@[simp] theorem weigh_reverse (w : ℕ → ℕ) (ds : List (Deposit M)) : weigh w ds.reverse = weigh w ds :=
  weigh_perm w (List.reverse_perm ds)

theorem weigh_one (ds : List (Deposit M)) : weigh (fun _ => 1) ds = amountSum ds := by
  simp [weigh, amountSum]

@[simp] theorem amountSum_nil : amountSum ([] : List (Deposit M)) = 0 := rfl

@[simp] theorem amountSum_cons (d : Deposit M) (ds : List (Deposit M)) :
    amountSum (d :: ds) = d.amount + amountSum ds := by simp [amountSum]

@[simp] theorem amountSum_append (ds es : List (Deposit M)) :
    amountSum (ds ++ es) = amountSum ds + amountSum es := by simp [amountSum]

@[simp] theorem amountSum_reverse (ds : List (Deposit M)) : amountSum ds.reverse = amountSum ds := by
  rw [← weigh_one, weigh_reverse, weigh_one]

/-- A weight that no sequence of the list has. -/
theorem weigh_eq_zero {w : ℕ → ℕ} {ds : List (Deposit M)} (h : ∀ d ∈ ds, w d.sequence = 0) :
    weigh w ds = 0 := by
  induction ds with
  | nil => rfl
  | cons d ds ih =>
    rw [weigh_cons, h d List.mem_cons_self, ih fun d hd => h d (List.mem_cons_of_mem _ hd)]
    simp

/-- With distinct sequences, the weight of a sequence is its deposit's amount. -/
theorem weigh_atSequence {ds : List (Deposit M)} {d : Deposit M} (hnd : (sequences ds).Nodup)
    (hd : d ∈ ds) : weigh (atSequence d.sequence) ds = d.amount := by
  induction ds with
  | nil => cases hd
  | cons e ds ih =>
    obtain ⟨hnot, hnd⟩ := List.nodup_cons.mp hnd
    rw [weigh_cons]
    rcases List.mem_cons.mp hd with rfl | hd
    · rw [weigh_eq_zero]
      · simp [atSequence]
      · intro d' hd'
        have : d'.sequence ≠ d.sequence := fun he =>
          hnot (List.mem_map.mpr ⟨d', hd', he⟩)
        simp [atSequence, this]
    · have : e.sequence ≠ d.sequence := fun he => hnot (List.mem_map.mpr ⟨d, hd, he.symm⟩)
      rw [ih hnd hd]
      simp [atSequence, this]

/-! ## Draining -/

/-- `kept` and `drained` share out the amounts of `items`, deposit by deposit. -/
structure Splits (items kept drained : List (Deposit M)) : Prop where
  weigh_eq : ∀ w, weigh w kept + weigh w drained = weigh w items
  kept_heads : (heads kept).Sublist (heads items)
  drained_heads : (heads drained).Subperm (heads items)

theorem Splits.amountSum_eq {items kept drained : List (Deposit M)} (h : Splits items kept drained) :
    amountSum kept + amountSum drained = amountSum items := by
  have := h.weigh_eq fun _ => 1
  simpa only [weigh_one] using this

theorem splits_all (items : List (Deposit M)) : Splits items [] items where
  weigh_eq _ := by simp
  kept_heads := List.nil_sublist _
  drained_heads := List.Subperm.refl _

theorem splits_none (items : List (Deposit M)) : Splits items items [] where
  weigh_eq _ := by simp
  kept_heads := List.Sublist.refl _
  drained_heads := List.nil_subperm

/-- The item covers what is left: it is cut, or used up. -/
theorem drainLoop_of_le {item : Deposit M} {n : ℕ} (rest : List (Deposit M)) (h : n ≤ item.amount) :
    drainLoop (item :: rest) n =
      (if item.amount = n then rest else { item with amount := item.amount - n } :: rest,
        [{ item with amount := n }]) := by
  have hmin : min item.amount n = n := min_eq_right h
  have hiff : item.amount - n ≠ 0 ↔ item.amount ≠ n := by omega
  simp only [drainLoop, hmin, Nat.sub_self, if_true, hiff, ite_not]

/-- The item is used up and more is needed. -/
theorem drainLoop_of_lt {item : Deposit M} {n : ℕ} (rest : List (Deposit M)) (h : item.amount < n) :
    drainLoop (item :: rest) n =
      ((drainLoop rest (n - item.amount)).1, item :: (drainLoop rest (n - item.amount)).2) := by
  have hmin : min item.amount n = item.amount := min_eq_left h.le
  have hne : n - item.amount ≠ 0 := by omega
  simp only [drainLoop, hmin, if_neg hne]

theorem weigh_drainLoop (w : ℕ → ℕ) : ∀ (items : List (Deposit M)) (n : ℕ),
    weigh w (drainLoop items n).1 + weigh w (drainLoop items n).2 = weigh w items
  | [], _ => rfl
  | item :: rest, n => by
    rcases le_or_gt n item.amount with h | h
    · rw [drainLoop_of_le rest h]
      split_ifs with he
      · simp only [weigh_cons, weigh_nil, he]
        omega
      · simp only [weigh_cons, weigh_nil]
        have : w item.sequence * (item.amount - n) + w item.sequence * n =
            w item.sequence * item.amount := by rw [← Nat.mul_add, Nat.sub_add_cancel h]
        omega
    · have ih := weigh_drainLoop w rest (n - item.amount)
      rw [drainLoop_of_lt rest h]
      simp only [weigh_cons]
      omega

theorem heads_drainLoop_kept : ∀ (items : List (Deposit M)) (n : ℕ),
    (heads (drainLoop items n).1).Sublist (heads items)
  | [], _ => List.Sublist.refl _
  | item :: rest, n => by
    rcases le_or_gt n item.amount with h | h
    · rw [drainLoop_of_le rest h]
      split_ifs with he
      · exact List.sublist_cons_self _ _
      · exact List.Sublist.refl _
    · rw [drainLoop_of_lt rest h]
      exact (heads_drainLoop_kept rest _).trans (List.sublist_cons_self _ _)

theorem heads_drainLoop_drained : ∀ (items : List (Deposit M)) (n : ℕ),
    (heads (drainLoop items n).2) <+: (heads items)
  | [], _ => List.prefix_refl _
  | item :: rest, n => by
    rcases le_or_gt n item.amount with h | h
    · rw [drainLoop_of_le rest h]
      exact ⟨heads rest, rfl⟩
    · rw [drainLoop_of_lt rest h]
      exact List.cons_prefix_cons.mpr ⟨rfl, heads_drainLoop_drained rest _⟩

theorem amountSum_drainLoop : ∀ (items : List (Deposit M)) (n : ℕ),
    amountSum (drainLoop items n).2 = min n (amountSum items)
  | [], n => by simp [drainLoop]
  | item :: rest, n => by
    rcases le_or_gt n item.amount with h | h
    · rw [drainLoop_of_le rest h]
      simp only [amountSum_cons, amountSum_nil]
      omega
    · rw [drainLoop_of_lt rest h]
      simp only [amountSum_cons, amountSum_drainLoop rest (n - item.amount)]
      omega

theorem drainInReverse_splits (items : List (Deposit M)) (n : ℕ) :
    Splits items (drainInReverse items n).1 (drainInReverse items n).2 := by
  unfold drainInReverse
  split_ifs with h
  · exact splits_none items
  refine ⟨fun w => ?_, ?_, ?_⟩
  · have := weigh_drainLoop w items.reverse n
    simpa using this
  · have := (heads_drainLoop_kept items.reverse n).reverse
    simpa [heads] using this
  · have hp := (heads_drainLoop_drained items.reverse n).sublist.subperm
    exact hp.trans ((List.reverse_perm items).map _).subperm

/-- Exactly what is asked for is drained, or everything. -/
theorem amountSum_drainInReverse (items : List (Deposit M)) (n : ℕ) :
    amountSum (drainInReverse items n).2 = min n (amountSum items) := by
  unfold drainInReverse
  split_ifs with h
  · simp [h]
  · simpa using amountSum_drainLoop items.reverse n

theorem drainInReverse_zero (items : List (Deposit M)) : drainInReverse items 0 = (items, []) := if_pos rfl

/-- Nothing drained, nothing changed. -/
theorem drainInReverse_kept_of_nil {items : List (Deposit M)} {n : ℕ}
    (h : (drainInReverse items n).2 = []) : (drainInReverse items n).1 = items := by
  unfold drainInReverse at h ⊢
  split_ifs at h ⊢ with hn
  · rfl
  · cases hr : items.reverse with
    | nil => rw [List.reverse_eq_nil_iff.mp hr]; rfl
    | cons item rest =>
      rw [hr] at h
      rcases le_or_gt n item.amount with hle | hlt
      · rw [drainLoop_of_le rest hle] at h
        cases h
      · rw [drainLoop_of_lt rest hlt] at h
        cases h

/-! ## Merging -/

theorem weigh_coalesceFrom (w : ℕ → ℕ) : ∀ (ds : List (Deposit M)) (prev : Deposit M),
    weigh w (coalesceFrom prev ds) = w prev.sequence * prev.amount + weigh w ds
  | [], _ => rfl
  | curr :: ds, prev => by
    simp only [coalesceFrom]
    split_ifs with h
    · rw [weigh_coalesceFrom w ds, weigh_cons, ← h]
      simp only [Nat.mul_add]
      omega
    · rw [weigh_cons, weigh_coalesceFrom w ds, weigh_cons]

theorem weigh_coalesce (w : ℕ → ℕ) : ∀ ds : List (Deposit M), weigh w (coalesce ds) = weigh w ds
  | [] => rfl
  | d :: ds => weigh_coalesceFrom w ds d

theorem heads_coalesceFrom : ∀ (ds : List (Deposit M)) (prev : Deposit M),
    (heads (coalesceFrom prev ds)).Sublist (prev.head :: heads ds)
  | [], _ => List.Sublist.refl _
  | curr :: ds, prev => by
    simp only [coalesceFrom]
    split_ifs with h
    · have := heads_coalesceFrom ds { prev with amount := prev.amount + curr.amount }
      exact this.trans (List.Sublist.cons_cons _ (List.sublist_cons_self _ _))
    · exact List.Sublist.cons_cons _ (heads_coalesceFrom ds curr)

theorem heads_coalesce : ∀ ds : List (Deposit M), (heads (coalesce ds)).Sublist (heads ds)
  | [] => List.Sublist.refl _
  | d :: ds => heads_coalesceFrom ds d

/-- Merging sorted sequences leaves them strictly increasing. -/
theorem coalesceFrom_sorted : ∀ (ds : List (Deposit M)) (prev : Deposit M),
    (prev.sequence :: sequences ds).Pairwise (· ≤ ·) →
      (sequences (coalesceFrom prev ds)).Pairwise (· < ·) ∧
        ∀ q ∈ sequences (coalesceFrom prev ds), prev.sequence ≤ q
  | [], prev, _ => by simp [coalesceFrom, sequences]
  | curr :: ds, prev, h => by
    have hh := List.pairwise_cons.mp h
    have htail : (curr.sequence :: sequences ds).Pairwise (· ≤ ·) := hh.2
    have hle : prev.sequence ≤ curr.sequence := hh.1 _ List.mem_cons_self
    simp only [coalesceFrom]
    split_ifs with he
    · have ih := coalesceFrom_sorted ds { prev with amount := prev.amount + curr.amount }
      refine ih (List.pairwise_cons.mpr ⟨fun q hq => ?_, (List.pairwise_cons.mp htail).2⟩)
      exact hh.1 q (List.mem_cons_of_mem _ hq)
    · obtain ⟨ih1, ih2⟩ := coalesceFrom_sorted ds curr htail
      refine ⟨List.pairwise_cons.mpr ⟨fun q hq => ?_, ih1⟩, fun q hq => ?_⟩
      · exact lt_of_lt_of_le (lt_of_le_of_ne hle he) (ih2 q hq)
      · rcases List.mem_cons.mp hq with rfl | hq
        · exact le_refl _
        · exact hle.trans (ih2 q hq)

theorem coalesce_sorted {ds : List (Deposit M)} (h : (sequences ds).Pairwise (· ≤ ·)) :
    (sequences (coalesce ds)).Pairwise (· < ·) := by
  cases ds with
  | nil => exact List.Pairwise.nil
  | cons d ds => exact (coalesceFrom_sorted ds d h).1

theorem weigh_mergeDeposits (w : ℕ → ℕ) (staged locked : List (Deposit M)) :
    weigh w (mergeDeposits staged locked) = weigh w staged + weigh w locked := by
  rw [mergeDeposits, weigh_coalesce, weigh_perm w (List.perm_insertionSort _ _), weigh_append]

theorem amountSum_mergeDeposits (staged locked : List (Deposit M)) :
    amountSum (mergeDeposits staged locked) = amountSum staged + amountSum locked := by
  rw [← weigh_one, weigh_mergeDeposits, weigh_one, weigh_one]

theorem mergeDeposits_sorted (staged locked : List (Deposit M)) :
    (sequences (mergeDeposits staged locked)).Pairwise (· < ·) := by
  refine coalesce_sorted (List.pairwise_map.mpr ?_)
  have : Std.Total fun a b : Deposit M => a.sequence ≤ b.sequence := ⟨fun a b => le_total _ _⟩
  have : IsTrans (Deposit M) fun a b => a.sequence ≤ b.sequence := ⟨fun a b c => le_trans⟩
  exact List.pairwise_insertionSort _ _

theorem heads_mergeDeposits (staged locked : List (Deposit M)) :
    (heads (mergeDeposits staged locked)).Subperm (heads staged ++ heads locked) := by
  have hp : (heads ((staged ++ locked).insertionSort fun a b => a.sequence ≤ b.sequence)).Perm
      (heads staged ++ heads locked) := by
    have := (List.perm_insertionSort (fun a b : Deposit M => a.sequence ≤ b.sequence)
      (staged ++ locked)).map Deposit.head
    rwa [List.map_append] at this
  exact (heads_coalesce _).subperm.trans hp.subperm

/-! ## Settlement -/

/-- The deposits with new amounts. -/
def setAmounts (ds : List (Deposit M)) (amounts : List ℕ) : List (Deposit M) :=
  List.zipWith (fun d amount => { d with amount := amount }) ds amounts

def amounts (ds : List (Deposit M)) : List ℕ := ds.map (·.amount)

theorem setAmounts_heads : ∀ {ds : List (Deposit M)} {xs : List ℕ}, xs.length = ds.length →
    List.Forall₂ (fun d e => e.head = d.head) ds (setAmounts ds xs)
  | [], [], _ => List.Forall₂.nil
  | d :: ds, x :: xs, h => List.Forall₂.cons rfl (setAmounts_heads (by simpa using h))

theorem amounts_setAmounts : ∀ {ds : List (Deposit M)} {xs : List ℕ}, xs.length = ds.length →
    amounts (setAmounts ds xs) = xs
  | [], [], _ => rfl
  | d :: ds, x :: xs, h => by
    have ih := amounts_setAmounts (show xs.length = ds.length by simpa using h)
    simp only [amounts, setAmounts, List.zipWith_cons_cons, List.map_cons] at ih ⊢
    rw [ih]

theorem modify_setAmounts (f : ℕ → ℕ) : ∀ (ds : List (Deposit M)) (xs : List ℕ) (i : ℕ),
    (setAmounts ds xs).modify i (fun d => { d with amount := f d.amount }) =
      setAmounts ds (xs.modify i f)
  | [], _, i => by simp [setAmounts]
  | d :: ds, [], i => by simp [setAmounts]
  | d :: ds, x :: xs, 0 => by simp [setAmounts]
  | d :: ds, x :: xs, i + 1 => by
    have ih := modify_setAmounts f ds xs i
    simp only [setAmounts, List.zipWith_cons_cons, List.modify_succ_cons] at ih ⊢
    rw [ih]

theorem distributeLoop_ok {pool total : ℕ} :
    ∀ {ds : List (Deposit M)} {draining : ℕ} {r : List (Deposit M) × ℕ},
      distributeLoop pool total ds draining = .ok r →
        r.1 = setAmounts ds ((amounts ds).map fun x => pool * x / total) ∧
          r.2 = draining - ((amounts ds).map fun x => pool * x / total).sum ∧ (ds ≠ [] → total ≠ 0)
  | [], draining, r, h => by
    cases h
    exact ⟨rfl, rfl, fun h => absurd rfl h⟩
  | d :: ds, draining, r, h => by
    simp only [distributeLoop, divP, subP, unwrapU64, bind_eq_ok, pure_eq_ok] at h
    obtain ⟨x, hx, y, hy, z, hz, r', hr', rfl⟩ := h
    split_ifs at hx hy hz with h1 h2 h3
    cases hx
    cases hy
    cases hz
    obtain ⟨ih1, ih2, -⟩ := distributeLoop_ok hr'
    refine ⟨?_, ?_, fun _ => h1⟩
    · rw [ih1]
      rfl
    · rw [ih2]
      simp only [amounts, List.map_cons, List.sum_cons]
      omega

theorem amountSum_eq_sum (ds : List (Deposit M)) : amountSum ds = (amounts ds).sum := rfl

/-- A pool is split pro rata; an empty list can only share an empty pool. -/
theorem distributeFromPool_ok {ds ds' : List (Deposit M)} {pool i : ℕ}
    (h : distributeFromPool ds pool i = .ok ds') :
    (ds = [] ∧ pool = 0 ∧ ds' = []) ∨
      (amountSum ds ≠ 0 ∧ ds' = setAmounts ds (ProRata.split pool (amounts ds) i)) := by
  simp only [distributeFromPool, bind_eq_ok] at h
  obtain ⟨r, hr, h⟩ := h
  obtain ⟨h1, h2, h3⟩ := distributeLoop_ok hr
  have hlen : r.1.length = ds.length := by
    rw [h1, setAmounts, List.length_zipWith]
    simp [amounts]
  have hleft : r.2 = ProRata.leftover pool (amounts ds) := by
    rw [h2, amountSum_eq_sum]
    rfl
  by_cases hd : ds = []
  · left
    subst hd
    have hr1 : r.1 = [] := h1
    by_cases hz : r.2 = 0
    · rw [if_neg (by simpa using hz), pure_eq_ok] at h
      exact ⟨rfl, by simpa [amounts] using h2.symm.trans hz, by rw [← h, hr1]⟩
    · rw [if_pos (by simpa using hz), hr1] at h
      cases h
  · right
    refine ⟨h3 hd, ?_⟩
    have hsh : r.1 = setAmounts ds (ProRata.shares pool (amounts ds)) := h1
    by_cases hz : r.2 = 0
    · rw [if_neg (by simpa using hz), pure_eq_ok] at h
      rw [← h, hsh, ProRata.split_of_leftover_zero (hleft ▸ hz)]
    · rw [if_pos (by simpa using hz), bind_eq_ok] at h
      obtain ⟨j, hj, h⟩ := h
      rw [bind_eq_ok] at h
      obtain ⟨x, hx, h⟩ := h
      simp only [modP, unwrapU64] at hj hx
      split_ifs at hj hx with ha hb
      cases hj
      cases hx
      rw [pure_eq_ok] at h
      rw [← h, hsh, modify_setAmounts (· + r.2), hleft, ProRata.split,
        show ((setAmounts ds (ProRata.shares pool (amounts ds))).length) = (amounts ds).length by
          rw [← hsh, hlen, amounts, List.length_map]]

theorem distributeFromPool_heads {ds ds' : List (Deposit M)} {pool i : ℕ}
    (h : distributeFromPool ds pool i = .ok ds') :
    List.Forall₂ (fun d e => e.head = d.head) ds ds' := by
  rcases distributeFromPool_ok h with ⟨rfl, -, rfl⟩ | ⟨-, rfl⟩
  · exact List.Forall₂.nil
  · exact setAmounts_heads (by rw [ProRata.length_split, amounts, List.length_map])

/-- The whole pool is distributed. -/
theorem amountSum_distributeFromPool {ds ds' : List (Deposit M)} {pool i : ℕ}
    (h : distributeFromPool ds pool i = .ok ds') : amountSum ds' = pool := by
  rcases distributeFromPool_ok h with ⟨-, rfl, rfl⟩ | ⟨hne, rfl⟩
  · rfl
  · rw [amountSum_eq_sum] at hne ⊢
    rw [amounts_setAmounts (by rw [ProRata.length_split, amounts, List.length_map]),
      ProRata.sum_split hne]

/-! ## Tables -/

/-- Sum of a table's amounts, each times the weight of its account and sequence. -/
def tableWeight (w : AccountId → ℕ → ℕ) (t : DepositTable M) : ℕ := t.sumBy fun a ds => weigh (w a) ds

def pairsWeight (w : AccountId → ℕ → ℕ) (l : List (AccountId × Deposit M)) : ℕ :=
  (l.map fun e => w e.1 e.2.sequence * e.2.amount).sum

/-- The weight of one account and sequence. -/
def atDeposit (a : AccountId) (sequence : ℕ) : AccountId → ℕ → ℕ :=
  fun a' => if a' = a then atSequence sequence else fun _ => 0

@[simp] theorem tableWeight_empty (w : AccountId → ℕ → ℕ) :
    tableWeight w (.empty : DepositTable M) = 0 := rfl

theorem tableWeight_eq_pairs (w : AccountId → ℕ → ℕ) (t : DepositTable M) :
    tableWeight w t = pairsWeight w t.pairs :=
  (BTreeMap.sum_pairs (fun a (d : Deposit M) => w a d.sequence * d.amount) t).symm

theorem tableWeight_one (t : DepositTable M) : tableWeight (fun _ _ => 1) t = amountSum t.flat := by
  have := BTreeMap.sum_flat (fun d : Deposit M => d.amount) t
  rw [amountSum, this]
  simp only [tableWeight, weigh, Nat.one_mul]

theorem tableWeight_insert (w : AccountId → ℕ → ℕ) (t : DepositTable M) (a : AccountId)
    (ds : List (Deposit M)) :
    tableWeight w (t.insert a ds) + weigh (w a) (t.getD a []) = tableWeight w t + weigh (w a) ds :=
  BTreeMap.sumBy_insert_getD t a ds rfl

theorem tableWeight_groupMap (w : AccountId → ℕ → ℕ) (l : List (AccountId × Deposit M)) :
    tableWeight w (BTreeMap.groupMap l) = pairsWeight w l :=
  BTreeMap.sumBy_groupMap (fun a (d : Deposit M) => w a d.sequence * d.amount) l

theorem tableWeight_atDeposit (t : DepositTable M) (a : AccountId) (sequence : ℕ) :
    tableWeight (atDeposit a sequence) t = weigh (atSequence sequence) (t.getD a []) := by
  have h := BTreeMap.sumBy_single (f := fun a' ds => weigh (atDeposit a sequence a') ds) (d := []) t a
    rfl fun a' ds hne => weigh_eq_zero fun d _ => by simp [atDeposit, hne]
  rw [tableWeight, h]
  simp [atDeposit]

@[simp] theorem pairsWeight_nil (w : AccountId → ℕ → ℕ) :
    pairsWeight w ([] : List (AccountId × Deposit M)) = 0 := rfl

@[simp] theorem pairsWeight_cons (w : AccountId → ℕ → ℕ) (e : AccountId × Deposit M)
    (l : List (AccountId × Deposit M)) :
    pairsWeight w (e :: l) = w e.1 e.2.sequence * e.2.amount + pairsWeight w l := by
  simp [pairsWeight]

theorem pairsWeight_perm (w : AccountId → ℕ → ℕ) {l l' : List (AccountId × Deposit M)}
    (h : l.Perm l') : pairsWeight w l = pairsWeight w l' := (h.map _).sum_eq

theorem pairsWeight_one (l : List (AccountId × Deposit M)) :
    pairsWeight (fun _ _ => 1) l = pairSum l := by simp [pairsWeight, pairSum]

@[simp] theorem pairSum_nil : pairSum ([] : List (AccountId × Deposit M)) = 0 := rfl

@[simp] theorem pairSum_cons (e : AccountId × Deposit M) (l : List (AccountId × Deposit M)) :
    pairSum (e :: l) = e.2.amount + pairSum l := by simp [pairSum]

/-- Tables that agree up to empty lists have the same weights. -/
theorem tableWeight_congr (w : AccountId → ℕ → ℕ) {t t' : DepositTable M}
    (h : ∀ a, t.getD a [] = t'.getD a []) : tableWeight w t = tableWeight w t' :=
  BTreeMap.sumBy_congr_getD (fun _ => rfl) h

/-! ## Moves on a table -/

/-- `drained` leaves the sender's list, whose rest is `kept`, and `incoming` is
appended to the recipient's list; sender and recipient may coincide. -/
structure Moved (t t' : DepositTable M) (sender recipient : AccountId)
    (kept drained incoming : List (Deposit M)) : Prop where
  splits : Splits (t.getD sender []) kept drained
  getD_eq : ∀ a, t'.getD a [] =
    (if a = sender then kept else t.getD a []) ++ (if a = recipient then incoming else [])

theorem moved_refl (t : DepositTable M) (a b : AccountId) : Moved t t a b (t.getD a []) [] [] where
  splits := splits_none _
  getD_eq a' := by
    by_cases h : a' = a
    · simp [h]
    · simp [h]

/-- Writing the sender's list, then the recipient's. -/
theorem moved_insert {t : DepositTable M} {sender recipient : AccountId}
    {kept drained incoming : List (Deposit M)} (h : Splits (t.getD sender []) kept drained) :
    Moved t ((t.insert sender kept).insert recipient
      ((t.insert sender kept).getD recipient [] ++ incoming)) sender recipient kept drained incoming where
  splits := h
  getD_eq a := by
    rw [BTreeMap.getD_insert, BTreeMap.getD_insert, BTreeMap.getD_insert]
    by_cases h1 : a = recipient
    · subst h1
      simp
    · simp [h1]

theorem Moved.weigh_eq {t t' : DepositTable M} {sender recipient : AccountId}
    {kept drained incoming : List (Deposit M)} (h : Moved t t' sender recipient kept drained incoming)
    (w : AccountId → ℕ → ℕ) :
    tableWeight w t' + weigh (w sender) drained = tableWeight w t + weigh (w recipient) incoming := by
  have hcongr : tableWeight w t' = tableWeight w ((t.insert sender kept).insert recipient
      ((t.insert sender kept).getD recipient [] ++ incoming)) :=
    tableWeight_congr w fun a => by rw [h.getD_eq, (moved_insert h.splits).getD_eq]
  have h1 := tableWeight_insert w t sender kept
  have h2 := tableWeight_insert w (t.insert sender kept) recipient
    ((t.insert sender kept).getD recipient [] ++ incoming)
  have h3 := h.splits.weigh_eq (w sender)
  rw [weigh_append] at h2
  omega

theorem Moved.heads_of_mem {t t' : DepositTable M} {sender recipient : AccountId}
    {kept drained incoming : List (Deposit M)} (h : Moved t t' sender recipient kept drained incoming)
    {a : AccountId} {x : TransactionId × ℕ × M} (hx : x ∈ heads (t'.getD a [])) :
    x ∈ heads (t.getD a []) ∨ a = recipient ∧ x ∈ heads incoming := by
  rw [h.getD_eq, heads, List.map_append, List.mem_append] at hx
  rcases hx with hx | hx
  · left
    split_ifs at hx with ha
    · subst ha
      exact h.splits.kept_heads.subset hx
    · exact hx
  · right
    split_ifs at hx with ha
    · exact ⟨ha, hx⟩
    · cases hx

theorem Splits.kept_nodup {items kept drained : List (Deposit M)} (h : Splits items kept drained)
    (hnd : (sequences items).Nodup) : (sequences kept).Nodup := by
  rw [sequences_eq_heads] at hnd ⊢
  exact hnd.sublist (h.kept_heads.map _)

/-- Sequences of each account stay distinct when the incoming one is fresh. -/
theorem Moved.nodup {t t' : DepositTable M} {sender recipient : AccountId}
    {kept drained incoming : List (Deposit M)} (h : Moved t t' sender recipient kept drained incoming)
    (hnd : ∀ a, (sequences (t.getD a [])).Nodup) (hin : (sequences incoming).Nodup)
    (hfresh : ∀ q ∈ sequences incoming, q ∉ sequences (t.getD recipient [])) (a : AccountId) :
    (sequences (t'.getD a [])).Nodup := by
  have hleft : (sequences (if a = sender then kept else t.getD a [])).Nodup := by
    split_ifs with ha
    · exact h.splits.kept_nodup (hnd sender)
    · exact hnd a
  rw [h.getD_eq, sequences, List.map_append]
  refine List.Nodup.append hleft ?_ ?_
  · split_ifs
    · exact hin
    · exact List.nodup_nil
  · intro q hq hq'
    split_ifs at hq' with hr
    · subst hr
      refine hfresh q hq' ?_
      split_ifs at hq with ha
      · subst ha
        have := (h.splits.kept_heads.map fun x => x.2.1).subset
        rw [← sequences_eq_heads, ← sequences_eq_heads] at this
        exact this hq
      · exact hq
    · cases hq'

end

end StabilityPool
