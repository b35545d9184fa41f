import Fedi.StabilityPool.NewCycle
import Fedi.StabilityPoolOld.Cancellations

/-!
# Old stability pool: settlement, restaging and the new cycle

Every part of the turnover conserves msats: settlement splits the locked total
anew (`settleLocks_ok`), restaging moves locks to the staged lists
(`restageRemainingLocks_ok`), and the new cycle shares the staged deposits out into
locks, what stays staged, and fees credited to idle balances
(`calculateLocksAndWriteCycle_ok`).  None of them gives an account a seek or a
provide if it had none.
-/

namespace StabilityPoolOld

open BTreeMaps Runs StabilityPool

/-! ## Settlement -/

section
variable {M : Type}

theorem refill_distribute {t : DepositTable M} {pool i : ℕ} {ds : List (Deposit M)}
    (h : distributeFromPool t.flat pool i = .ok ds) :
    (∀ a, heads ((t.refill ds).getD a []) = heads (t.getD a [])) ∧ amountSum (t.refill ds).flat = pool := by
  have hheads := distributeFromPool_heads h
  refine ⟨fun a => heads_eq_of_forall₂ (BTreeMap.getD_refill hheads a), ?_⟩
  rw [BTreeMap.flat_refill hheads.length_eq.symm, amountSum_distributeFromPool h]

theorem heads_eq_nil {ds : List (Deposit M)} : heads ds = [] ↔ ds = [] := by simp [heads]

end

/-- Settlement moves msats between the locks and keeps all else of them. -/
theorem settleLocks_ok {locks settled : Locks} {startPrice newPrice randomness : ℕ}
    (h : settleLocks locks startPrice newPrice randomness = .ok settled) :
    (∀ a, heads (settled.seeks.getD a []) = heads (locks.seeks.getD a []) ∧
      heads (settled.provides.getD a []) = heads (locks.provides.getD a [])) ∧
      settled.sum = locks.sum := by
  simp only [settleLocks, bind_eq_ok, pure_eq_ok] at h
  obtain ⟨needed, -, seeks, hseeks, provides, hprovides, rfl⟩ := h
  obtain ⟨hs, hs'⟩ := refill_distribute hseeks
  obtain ⟨hp, hp'⟩ := refill_distribute hprovides
  refine ⟨fun a => ⟨hs a, hp a⟩, ?_⟩
  simp only [Locks.sum, hs', hp']
  omega

/-! ## Restaging -/

section
variable {M : Type}

theorem amountSum_flat_insert (t : DepositTable M) (account : PublicKey) (ds : List (Deposit M)) :
    amountSum (t.insert account ds).flat + amountSum (t.getD account []) =
      amountSum t.flat + amountSum ds := by
  have hother : ∀ a, a ≠ account → (t.insert account ds).getD a [] = t.getD a [] :=
    fun a ha => BTreeMap.getD_insert_ne _ _ _ ha
  have h := amountSum_flat_of_other hother
  rw [BTreeMap.getD_insert_self] at h
  exact h

theorem amountSum_flat_foldl_restage : ∀ (l : List (PublicKey × List (Deposit M))) (t : DepositTable M),
    amountSum (l.foldl (fun t e => t.insert e.1 (mergeDeposits (t.getD e.1 []) e.2)) t).flat =
      amountSum t.flat + (l.map fun e => amountSum e.2).sum
  | [], t => by simp
  | e :: l, t => by
    have h := amountSum_flat_insert t e.1 (mergeDeposits (t.getD e.1 []) e.2)
    rw [amountSum_mergeDeposits] at h
    rw [List.foldl_cons, amountSum_flat_foldl_restage l, List.map_cons, List.sum_cons]
    omega

theorem amountSum_flat_restageTable (staged locked : DepositTable M) :
    amountSum (restageTable staged locked).flat = amountSum staged.flat + amountSum locked.flat := by
  rw [restageTable, amountSum_flat_foldl_restage]
  congr 1
  exact (BTreeMap.sum_flat (fun d : Deposit M => d.amount) locked).symm

/-- An account with nothing staged and nothing locked has nothing staged after. -/
theorem restageTable_nil {staged locked : DepositTable M} {a : PublicKey}
    (hstaged : staged.getD a [] = []) (hlocked : locked.getD a [] = []) :
    (restageTable staged locked).getD a [] = [] := by
  have hloop : ∀ (l : List (PublicKey × List (Deposit M))) (t : DepositTable M),
      t.getD a [] = [] → (∀ e ∈ l, e.1 = a → e.2 = []) →
        (l.foldl (fun t e => t.insert e.1 (mergeDeposits (t.getD e.1 []) e.2)) t).getD a [] = [] := by
    intro l
    induction l with
    | nil => exact fun t ht _ => ht
    | cons e l ih =>
      intro t ht hl
      refine ih _ ?_ fun e' he' => hl e' (List.mem_cons_of_mem _ he')
      show (t.insert e.1 (mergeDeposits (t.getD e.1 []) e.2)).getD a [] = []
      by_cases he : e.1 = a
      · rw [he, BTreeMap.getD_insert_self, ht, hl e List.mem_cons_self he]
        rfl
      · rw [BTreeMap.getD_insert_ne _ _ _ (Ne.symm he), ht]
  refine hloop _ _ hstaged fun e he hea => ?_
  have hget : locked.get? e.1 = some e.2 := BTreeMap.mem_entries.mp he
  rw [hea] at hget
  rw [← hlocked, BTreeMap.getD_of_get? hget]

end

/-! ## Matching -/

section
variable {M : Type}

/-- Accounts and sequences of a list. -/
def stamps (l : List (PublicKey × Deposit M)) : List (PublicKey × ℕ) := l.map fun e => (e.1, e.2.sequence)

@[simp] theorem pairSum_nil : pairSum ([] : List (PublicKey × Deposit M)) = 0 := rfl

@[simp] theorem pairSum_cons (e : PublicKey × Deposit M) (l : List (PublicKey × Deposit M)) :
    pairSum (e :: l) = e.2.amount + pairSum l := by simp [pairSum]

/-- Amounts of `l` shared out between a locked prefix and a staged suffix. -/
structure Matched (l locked staged : List (PublicKey × Deposit M)) : Prop where
  sum : pairSum locked + pairSum staged = pairSum l
  locked_stamps : stamps locked <+: stamps l
  staged_stamps : stamps staged <:+ stamps l

theorem matched_none (l : List (PublicKey × Deposit M)) : Matched l [] l where
  sum := by simp
  locked_stamps := List.nil_prefix
  staged_stamps := List.suffix_refl _

/-- The first deposit is locked whole. -/
theorem Matched.cons {l locked staged : List (PublicKey × Deposit M)} (h : Matched l locked staged)
    (e : PublicKey × Deposit M) : Matched (e :: l) (e :: locked) staged where
  sum := by
    have := h.sum
    simp only [pairSum_cons]
    omega
  locked_stamps := List.cons_prefix_cons.mpr ⟨rfl, h.locked_stamps⟩
  staged_stamps := h.staged_stamps.trans (List.suffix_cons _ _)

/-- The first deposit is cut in two. -/
theorem matched_cut (a : PublicKey) (d : Deposit M) {used : ℕ} (hle : used ≤ d.amount)
    (l : List (PublicKey × Deposit M)) :
    Matched ((a, d) :: l) [(a, { d with amount := used })]
      ((a, { d with amount := d.amount - used }) :: l) where
  sum := by
    simp only [pairSum_cons, pairSum_nil]
    omega
  locked_stamps := List.cons_prefix_cons.mpr ⟨rfl, List.nil_prefix⟩
  staged_stamps := List.suffix_refl _

/-- Only accounts of the list get locks or keep something staged. -/
theorem account_of_stamps {l l' : List (PublicKey × Deposit M)} (h : ∀ x ∈ stamps l', x ∈ stamps l)
    {e : PublicKey × Deposit M} (he : e ∈ l') : ∃ e' ∈ l, e'.1 = e.1 := by
  obtain ⟨e', he', hx⟩ := List.mem_map.mp (h (e.1, e.2.sequence) (List.mem_map.mpr ⟨e, he, rfl⟩))
  exact ⟨e', he', (Prod.mk.injEq _ _ _ _ ▸ hx).1⟩

end

theorem lockProvidesLoop_ok {seeksSum collP collS : ℕ} :
    ∀ {l : List AccountProvide} {feeRate remaining included : ℕ} {r : LockedProvidesAndFeeRateResult},
      lockProvidesLoop seeksSum collP collS l feeRate remaining included = .ok r →
        Matched l r.lockedProvides r.stagedProvides
  | [], _, _, _, r, h => by
    cases h
    exact matched_none _
  | (a, provide) :: l, feeRate, remaining, included, r, h => by
    unfold lockProvidesLoop at h
    split_ifs at h with hrem
    · cases h
      exact matched_none _
    obtain ⟨next, -, h⟩ := bind_eq_ok.mp h
    rcases next with - | ⟨f, n⟩
    · cases h
      exact matched_none _
    obtain ⟨used, hused, h⟩ := bind_eq_ok.mp h
    have hused := unwrapU64_ok hused
    split_ifs at h with hz
    · obtain ⟨r', hr', h⟩ := bind_eq_ok.mp h
      have hm := lockProvidesLoop_ok hr'
      rw [pure_eq_ok] at h
      subst h
      have hall : used = provide.amount := by omega
      rw [hall]
      exact hm.cons (a, provide)
    · rw [pure_eq_ok] at h
      subst h
      exact matched_cut a provide (by omega) l

theorem lockSeeksLoop_ok :
    ∀ {l : List AccountSeek} {included : ℕ} {r : List AccountSeek × List AccountSeek},
      lockSeeksLoop l included = .ok r → Matched l r.1 r.2
  | [], _, r, h => by
    cases h
    exact matched_none _
  | (a, seek) :: l, included, r, h => by
    unfold lockSeeksLoop at h
    split_ifs at h with hinc
    · cases h
      exact matched_none _
    obtain ⟨used, hused, h⟩ := bind_eq_ok.mp h
    have hused := unwrapU64_ok hused
    split_ifs at h with hz
    · obtain ⟨r', hr', h⟩ := bind_eq_ok.mp h
      have hm := lockSeeksLoop_ok hr'
      rw [pure_eq_ok] at h
      subst h
      have hall : used = seek.amount := by omega
      rw [hall]
      exact hm.cons (a, seek)
    · rw [pure_eq_ok] at h
      subst h
      exact matched_cut a seek (by omega) l

/-! ## Fees -/

@[simp] theorem feePool_cons (e : AmountAndFee) (l : List AmountAndFee) :
    feePool (e :: l) = e.2.2 + feePool l := by simp [feePool]

/-- What the seeks pay is the pool. -/
theorem chargeFees_ok {feeRate : ℕ} :
    ∀ {seeks : List AccountSeek} {r : List AccountSeek × List AmountAndFee},
      chargeFees feeRate seeks = .ok r →
        stamps r.1 = stamps seeks ∧ pairSum r.1 + feePool r.2 = pairSum seeks
  | [], r, h => by
    cases h
    exact ⟨rfl, rfl⟩
  | (a, seek) :: seeks, r, h => by
    obtain ⟨raw, -, h⟩ := bind_eq_ok.mp h
    obtain ⟨fee, -, h⟩ := bind_eq_ok.mp h
    obtain ⟨amount, hamount, h⟩ := bind_eq_ok.mp h
    obtain ⟨r', hr', h⟩ := bind_eq_ok.mp h
    rw [pure_eq_ok] at h
    subst h
    simp only [subP] at hamount
    split_ifs at hamount with hlt
    cases hamount
    obtain ⟨h1, h2⟩ := chargeFees_ok hr'
    refine ⟨?_, ?_⟩
    · show (a, seek.sequence) :: stamps r'.1 = (a, seek.sequence) :: stamps seeks
      rw [h1]
    · simp only [pairSum_cons, feePool_cons]
      omega

theorem feesOwed_ok {pool included : ℕ} :
    ∀ {l : List (PublicKey × List LockedProvide)} {draining : ℕ} {r : List (PublicKey × ℕ) × ℕ},
      feesOwed pool included l draining = .ok r →
        r.1.map Prod.fst = l.map Prod.fst ∧ (r.1.map Prod.snd).sum + r.2 = draining
  | [], draining, r, h => by
    cases h
    exact ⟨rfl, by simp⟩
  | (a, provides) :: l, draining, r, h => by
    obtain ⟨owed, -, h⟩ := bind_eq_ok.mp h
    obtain ⟨left, hleft, h⟩ := bind_eq_ok.mp h
    obtain ⟨r', hr', h⟩ := bind_eq_ok.mp h
    rw [pure_eq_ok] at h
    subst h
    simp only [subP] at hleft
    split_ifs at hleft with hlt
    cases hleft
    obtain ⟨h1, h2⟩ := feesOwed_ok hr'
    refine ⟨by simp [h1], ?_⟩
    simp only [List.map_cons, List.sum_cons]
    omega

theorem addLeftoverFee_ok {fees r : List (PublicKey × ℕ)} {leftover randomness : ℕ}
    (h : addLeftoverFee fees leftover randomness = .ok r) :
    r.map Prod.fst = fees.map Prod.fst ∧ (r.map Prod.snd).sum = (fees.map Prod.snd).sum + leftover := by
  unfold addLeftoverFee at h
  split_ifs at h with hz
  · obtain ⟨i, hi, h⟩ := bind_eq_ok.mp h
    rw [pure_eq_ok] at h
    subst h
    simp only [modP] at hi
    split_ifs at hi with hlen
    cases hi
    refine ⟨map_modify_fst _ _ _, ?_⟩
    rw [map_modify_snd, ProRata.sum_modify_add]
    rw [List.length_map]
    exact Nat.mod_lt _ (Nat.pos_of_ne_zero hlen)
  · rw [pure_eq_ok] at h
    subst h
    rw [not_not] at hz
    exact ⟨rfl, by omega⟩

theorem payFees_ok :
    ∀ {fees : List (PublicKey × ℕ)} {db db' : Db}, payFees fees db = .ok db' →
      db' = { db with idleBalance := db'.idleBalance } ∧
        db'.idleSum = db.idleSum + (fees.map Prod.snd).sum ∧
        ∀ a, a ∉ fees.map Prod.fst → db'.idleBalance.getD a 0 = db.idleBalance.getD a 0
  | [], db, db', h => by
    cases h
    exact ⟨rfl, rfl, fun _ _ => rfl⟩
  | (a, fee) :: fees, db, db', h => by
    obtain ⟨paid, hpaid, hrest⟩ := bind_eq_ok.mp h
    rw [unwrapU64_ok hpaid] at hrest
    obtain ⟨h1, h2, h3⟩ := payFees_ok hrest
    refine ⟨h1, ?_, fun a' ha' => ?_⟩
    · rw [h2, idleSum_creditIdleBalance, List.map_cons, List.sum_cons]
      omega
    · have hne : a' ≠ a := fun he => ha' (by rw [he]; exact List.mem_cons_self)
      rw [h3 a' fun hm => ha' (List.mem_cons_of_mem _ hm), idleBalance_creditIdleBalance, if_neg hne,
        Nat.add_zero]

/-! ## The new cycle -/

section
variable {M : Type}

theorem amountSum_flat_groupMap (l : List (PublicKey × Deposit M)) :
    amountSum (BTreeMap.groupMap l).flat = pairSum l := by
  have h := BTreeMap.sum_flat (fun d : Deposit M => d.amount) (BTreeMap.groupMap l)
  exact h.trans (BTreeMap.sumBy_groupMap (fun _ d => d.amount) l)

theorem getD_groupMap_nil {l : List (PublicKey × Deposit M)} {a : PublicKey} (h : ∀ e ∈ l, e.1 ≠ a) :
    (BTreeMap.groupMap l).getD a [] = [] :=
  BTreeMap.getD_of_none (BTreeMap.get?_groupMap_eq_none.mpr h) _

theorem pairSum_pairs (t : DepositTable M) : pairSum t.pairs = amountSum t.flat := by
  rw [BTreeMap.flat_eq_pairs, amountSum, List.map_map]
  rfl

theorem pairSum_perm {l l' : List (PublicKey × Deposit M)} (h : l.Perm l') : pairSum l = pairSum l' :=
  (h.map _).sum_eq

/-- A list in the order of sequences is grouped into such lists. -/
theorem inOrder_groupMap {l : List (PublicKey × Deposit M)}
    (h : (stamps l).Pairwise fun x y => x.2 ≤ y.2) (a : PublicKey) :
    InOrder ((BTreeMap.groupMap l).getD a []) := by
  have hl : l.Pairwise fun e e' => e.2.sequence ≤ e'.2.sequence := by
    rw [stamps, List.pairwise_map] at h
    exact h
  rw [BTreeMap.getD_groupMap, InOrder, sequences, List.map_map]
  exact List.pairwise_map.mpr (hl.sublist List.filter_sublist)

/-- Only accounts with something staged take part. -/
theorem account_of_perm {t : DepositTable M} {l : List (PublicKey × Deposit M)} (hp : l.Perm t.pairs)
    {e : PublicKey × Deposit M} (he : e ∈ l) : t.getD e.1 [] ≠ [] := by
  intro hnil
  have hmem : e.2 ∈ t.getD e.1 [] := BTreeMap.mem_pairs.mp (hp.mem_iff.mp he)
  rw [hnil] at hmem
  cases hmem

/-- What matching does to an account with nothing staged. -/
theorem groupMap_nil_of_matched {t : DepositTable M} {l l' : List (PublicKey × Deposit M)}
    (hp : l.Perm t.pairs) (h : ∀ x ∈ stamps l', x ∈ stamps l) {a : PublicKey} (ha : t.getD a [] = []) :
    (BTreeMap.groupMap l').getD a [] = [] := by
  refine getD_groupMap_nil fun e he hea => ?_
  obtain ⟨e', he', hfst⟩ := account_of_stamps h he
  have hne := account_of_perm hp he'
  rw [hfst, hea] at hne
  exact hne ha

end

theorem sortedStagedSeeks_stamps (db : Db) :
    (stamps (sortedStagedSeeks db)).Pairwise fun x y => x.2 ≤ y.2 := by
  have : Std.Total fun a b : AccountSeek => a.2.sequence ≤ b.2.sequence := ⟨fun a b => le_total _ _⟩
  have : IsTrans AccountSeek fun a b => a.2.sequence ≤ b.2.sequence := ⟨fun a b c => le_trans⟩
  exact List.pairwise_map.mpr (List.pairwise_insertionSort _ _)

/-- What writing the new cycle did. -/
structure CycleWritten (db db' : Db) (index time price : ℕ) : Prop where
  current : ∃ cycle, db'.currentCycle = some cycle ∧ cycle.index = index ∧ cycle.startTime = time ∧
    cycle.startPrice = price
  liabilities : db'.liabilities =
    db.idleSum + amountSum db.stagedSeeks.flat + amountSum db.stagedProvides.flat
  seeks : ∀ a, db.stagedSeeks.getD a [] = [] →
    db'.stagedSeeks.getD a [] = [] ∧ db'.lockedSeeks.getD a [] = []
  provides : ∀ a, db.stagedProvides.getD a [] = [] →
    db'.stagedProvides.getD a [] = [] ∧ db'.lockedProvides.getD a [] = []
  inOrder : ∀ a, InOrder (db'.lockedSeeks.getD a [])
  idle : ∀ a, db'.lockedProvides.getD a [] = [] → db'.idleBalance.getD a 0 = db.idleBalance.getD a 0
  cancellation : db'.stagedCancellation = db.stagedCancellation

/-- Providers without a lock in the new cycle are paid no fee. -/
theorem mem_groupMap_keys {M : Type} {l : List (PublicKey × Deposit M)} {a : PublicKey}
    (h : a ∈ (BTreeMap.groupMap l).keys) : (BTreeMap.groupMap l).getD a [] ≠ [] := by
  obtain ⟨as, has⟩ := BTreeMap.mem_keys.mp h
  rw [BTreeMap.getD_of_get? has]
  exact BTreeMap.groupMap_ne_nil has

theorem distributeFeesAndWriteCycle_ok {db db' : Db} {lockedSeeks : List AccountSeek}
    {lockedProvides : List AccountProvide} {feeRate included index time price randomness : ℕ}
    (h : distributeFeesAndWriteCycle db lockedSeeks lockedProvides feeRate included index time price
      randomness = .ok db') :
    ∃ charged metadata idle, db' = { db with
        seekMetadata := metadata
        idleBalance := idle
        currentCycle := some
          { index := index, startTime := time, startPrice := price, feeRate := feeRate,
            lockedSeeks := BTreeMap.groupMap charged,
            lockedProvides := BTreeMap.groupMap lockedProvides } } ∧
      stamps charged = stamps lockedSeeks ∧
      idle.sumBy (fun _ x => x) + pairSum charged = db.idleSum + pairSum lockedSeeks ∧
      ∀ a, (BTreeMap.groupMap lockedProvides).getD a [] = [] →
        idle.getD a 0 = db.idleBalance.getD a 0 := by
  obtain ⟨charged, hcharged, h⟩ := bind_eq_ok.mp h
  obtain ⟨owed, howed, h⟩ := bind_eq_ok.mp h
  obtain ⟨fees, hfees, h⟩ := bind_eq_ok.mp h
  obtain ⟨paid, hpaid, h⟩ := bind_eq_ok.mp h
  rw [pure_eq_ok] at h
  obtain ⟨hstamps, hsum⟩ := chargeFees_ok hcharged
  obtain ⟨hkeys, hpool⟩ := feesOwed_ok howed
  obtain ⟨hkeys', hpool'⟩ := addLeftoverFee_ok hfees
  obtain ⟨hdb, hidle, hother⟩ := payFees_ok hpaid
  refine ⟨charged.1, paid.seekMetadata, paid.idleBalance, ?_, hstamps, ?_, fun a ha => ?_⟩
  · rw [← h, hdb]
  · simp only [Db.idleSum] at hidle ⊢
    omega
  · refine hother a fun hm => ?_
    rw [hkeys', hkeys] at hm
    exact mem_groupMap_keys hm ha

theorem calculateLocksAndWriteCycle_ok {ratio : CollateralRatio} {db db' : Db}
    {index time price randomness : ℕ}
    (h : calculateLocksAndWriteCycle ratio db index time price randomness = .ok db') :
    CycleWritten db db' index time price := by
  obtain ⟨p, hp, h⟩ := bind_eq_ok.mp h
  obtain ⟨s, hs, h⟩ := bind_eq_ok.mp h
  obtain ⟨remaining, -, hp⟩ := bind_eq_ok.mp hp
  obtain ⟨limit, -, hs⟩ := bind_eq_ok.mp hs
  have hpm := lockProvidesLoop_ok hp
  have hsm := lockSeeksLoop_ok hs
  have hpp : (sortedStagedProvides db).Perm db.stagedProvides.pairs := List.perm_insertionSort _ _
  have hsp : (sortedStagedSeeks db).Perm db.stagedSeeks.pairs := List.perm_insertionSort _ _
  obtain ⟨charged, metadata, idle, rfl, hstamps, hsum, hother⟩ := distributeFeesAndWriteCycle_ok h
  have hcharged : stamps charged <+: stamps (sortedStagedSeeks db) := hstamps ▸ hsm.locked_stamps
  constructor
  · exact ⟨_, rfl, rfl, rfl, rfl⟩
  · have h1 := pairSum_perm hsp
    have h2 := pairSum_perm hpp
    rw [pairSum_pairs] at h1 h2
    have h3 := hsm.sum
    have h4 := hpm.sum
    simp only [Db.liabilities, Db.lockedSeeks, Db.lockedProvides,
      writeRemainingStagedSeeksAndProvides, BTreeMap.empty_insertAll, amountSum_flat_groupMap, Db.idleSum] at hsum ⊢
    omega
  · intro a ha
    simp only [Db.lockedSeeks, writeRemainingStagedSeeksAndProvides, BTreeMap.empty_insertAll]
    exact ⟨groupMap_nil_of_matched hsp (fun x hx => hsm.staged_stamps.subset hx) ha,
      groupMap_nil_of_matched hsp (fun x hx => hcharged.subset hx) ha⟩
  · intro a ha
    simp only [Db.lockedProvides, writeRemainingStagedSeeksAndProvides, BTreeMap.empty_insertAll]
    exact ⟨groupMap_nil_of_matched hpp (fun x hx => hpm.staged_stamps.subset hx) ha,
      groupMap_nil_of_matched hpp (fun x hx => hpm.locked_stamps.subset hx) ha⟩
  · exact inOrder_groupMap ((sortedStagedSeeks_stamps db).sublist hcharged.sublist)
  · exact hother
  · rfl

end StabilityPoolOld
