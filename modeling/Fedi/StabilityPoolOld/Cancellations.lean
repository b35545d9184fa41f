import Fedi.StabilityPool.Deposits
import Fedi.StabilityPoolOld.Turnover

/-!
# Old stability pool: what a staged cancellation moves

With `total` the account's settled locks, `total * bps ⌈/⌉ 10000` msats go to its
idle balance.  They are taken off the end of the account's list, so a list in the
order of its sequences loses its newest deposits first: what remains at a sequence
is its amount less what the newer ones could not cover (`TakenNewestFirst`).
-/

namespace StabilityPoolOld

open BTreeMaps Runs StabilityPool

/-- The weight of the sequences newer than `sequence`. -/
def afterSequence (sequence : ℕ) : ℕ → ℕ := fun q => if sequence < q then 1 else 0

/-- `n` msats taken off `ds`, the newest sequence first, leave `kept`. -/
def TakenNewestFirst {M : Type} (ds kept : List (Deposit M)) (n : ℕ) : Prop :=
  ∀ q, weigh (atSequence q) kept = weigh (atSequence q) ds - (n - weigh (afterSequence q) ds)

/-- A list in the order of its sequences. -/
def InOrder {M : Type} (ds : List (Deposit M)) : Prop := (sequences ds).Pairwise (· ≤ ·)

section
variable {M : Type}

/-! ## The loop -/

theorem unwrapU64_ok {x y : ℕ} (h : unwrapU64 x = .ok y) : y = x := by
  simp only [unwrapU64] at h
  split_ifs at h
  cases h
  rfl

@[simp] theorem cancelledSum_nil : cancelledSum [] = 0 := rfl

@[simp] theorem cancelledSum_cons (c : Cancelled) (cs : List Cancelled) :
    cancelledSum (c :: cs) = c.cancellable + cancelledSum cs := by simp [cancelledSum]

/-- The first lock covers what is left, or is used up and the rest is visited. -/
theorem cancelLoop_cons {d : Deposit M} {ds : List (Deposit M)} {n : ℕ}
    {r : List (Deposit M) × List Cancelled} (h : cancelLoop (d :: ds) n = .ok r) :
    (n ≤ d.amount ∧ r = ({ d with amount := d.amount - n } :: ds,
        [⟨d.txid, n, decide (d.amount - n = 0)⟩])) ∨
      (d.amount < n ∧ ∃ r', cancelLoop ds (n - d.amount) = .ok r' ∧
        r = ({ d with amount := 0 } :: r'.1, ⟨d.txid, d.amount, true⟩ :: r'.2)) := by
  unfold cancelLoop at h
  obtain ⟨x, hx, h⟩ := bind_eq_ok.mp h
  have hx := unwrapU64_ok hx
  subst hx
  by_cases hn : n ≤ d.amount
  · have hmin : min n d.amount = n := min_eq_left hn
    rw [hmin, Nat.sub_self, if_pos rfl, pure_eq_ok] at h
    exact Or.inl ⟨hn, h.symm⟩
  · have hmin : min n d.amount = d.amount := by omega
    have hne : ¬n - d.amount = 0 := by omega
    rw [hmin, Nat.sub_self, if_neg hne] at h
    obtain ⟨r', hr', h⟩ := bind_eq_ok.mp h
    rw [pure_eq_ok] at h
    refine Or.inr ⟨by omega, r', hr', ?_⟩
    rw [← h]
    rfl

theorem cancelLoop_heads : ∀ {ds : List (Deposit M)} {n : ℕ} {r : List (Deposit M) × List Cancelled},
    cancelLoop ds n = .ok r → heads r.1 = heads ds
  | [], n, r, h => by
    cases h
    rfl
  | d :: ds, n, r, h => by
    rcases cancelLoop_cons h with ⟨-, rfl⟩ | ⟨-, r', hr', rfl⟩
    · rfl
    · show d.head :: heads r'.1 = d.head :: heads ds
      rw [cancelLoop_heads hr']

/-- What is cancelled leaves the locks: all that is asked for, or everything. -/
theorem cancelLoop_sum : ∀ {ds : List (Deposit M)} {n : ℕ} {r : List (Deposit M) × List Cancelled},
    cancelLoop ds n = .ok r →
      amountSum r.1 + cancelledSum r.2 = amountSum ds ∧ cancelledSum r.2 = min n (amountSum ds)
  | [], n, r, h => by
    cases h
    simp
  | d :: ds, n, r, h => by
    rcases cancelLoop_cons h with ⟨hn, rfl⟩ | ⟨hn, r', hr', rfl⟩
    · simp only [amountSum_cons, cancelledSum_cons, cancelledSum_nil]
      omega
    · obtain ⟨h1, h2⟩ := cancelLoop_sum hr'
      simp only [amountSum_cons, cancelledSum_cons]
      omega

/-- Older locks pay only what the newer ones could not cover.  The induction is on
the list, newest first: the head's sequence is at least that of every later one. -/
theorem cancelLoop_newest : ∀ {ds : List (Deposit M)} {n : ℕ} {r : List (Deposit M) × List Cancelled},
    cancelLoop ds n = .ok r → (sequences ds).Pairwise (· ≥ ·) → TakenNewestFirst ds r.1 n
  | [], n, r, h, _ => by
    cases h
    intro q
    simp
  | d :: ds, n, r, h, hs => by
    obtain ⟨hle, hs⟩ := List.pairwise_cons.mp hs
    have hmem : ∀ e ∈ ds, e.sequence ≤ d.sequence := fun e he => hle _ (List.mem_map_of_mem he)
    -- no later lock is newer than the head
    have hnone : weigh (afterSequence d.sequence) ds = 0 := by
      refine weigh_eq_zero fun e he => ?_
      have := hmem e he
      rw [afterSequence, if_neg (by omega)]
    have hbelow : ∀ q, d.sequence < q → weigh (atSequence q) ds = 0 := by
      intro q hq
      refine weigh_eq_zero fun e he => ?_
      have := hmem e he
      rw [atSequence, if_neg (by omega)]
    have hat : atSequence d.sequence d.sequence = 1 := by simp [atSequence]
    have hafter : afterSequence d.sequence d.sequence = 0 := by simp [afterSequence]
    intro q
    rcases cancelLoop_cons h with ⟨hn, rfl⟩ | ⟨hn, r', hr', rfl⟩
    · simp only [weigh_cons]
      rcases Nat.lt_trichotomy q d.sequence with hq | rfl | hq
      · have h1 : atSequence q d.sequence = 0 := by rw [atSequence, if_neg (by omega)]
        have h2 : afterSequence q d.sequence = 1 := by rw [afterSequence, if_pos hq]
        rw [h1, h2]
        omega
      · rw [hat, hafter, hnone]
        omega
      · have h1 : atSequence q d.sequence = 0 := by rw [atSequence, if_neg (by omega)]
        rw [h1, hbelow q hq]
        omega
    · have ih := cancelLoop_newest hr' hs q
      simp only [weigh_cons, Nat.mul_zero, Nat.zero_add, ih]
      rcases Nat.lt_trichotomy q d.sequence with hq | rfl | hq
      · have h1 : atSequence q d.sequence = 0 := by rw [atSequence, if_neg (by omega)]
        have h2 : afterSequence q d.sequence = 1 := by rw [afterSequence, if_pos hq]
        rw [h1, h2]
        omega
      · rw [hat, hafter, hnone]
        omega
      · have h1 : atSequence q d.sequence = 0 := by rw [atSequence, if_neg (by omega)]
        rw [h1, hbelow q hq]
        omega

/-! ## One account -/

/-- Dropping drained locks changes no weight. -/
theorem weigh_filter_drained (w : ℕ → ℕ) (ds : List (Deposit M)) :
    weigh w (ds.filter fun d => decide (d.amount ≠ 0)) = weigh w ds := by
  induction ds with
  | nil => rfl
  | cons d ds ih =>
    by_cases hd : d.amount = 0
    · rw [List.filter_cons_of_neg (by simpa using hd), weigh_cons, ih, hd]
      omega
    · rw [List.filter_cons_of_pos (by simpa using hd), weigh_cons, weigh_cons, ih]

theorem ceilDivision_bps {x y : ℕ} (h : ceilDivision x BPS_UNIT = .ok y) : y = x ⌈/⌉ BPS_UNIT := by
  have hne : BPS_UNIT ≠ 0 := by decide
  simp only [ceilDivision, divP, if_neg hne] at h
  cases h
  rw [Nat.ceilDiv_eq_add_pred_div]

/-- At most all basis points cancel at most everything. -/
theorem ceil_bps_le {total bps : ℕ} (h : bps ≤ BPS_UNIT) : total * bps ⌈/⌉ BPS_UNIT ≤ total := by
  have hpos : 0 < BPS_UNIT := by decide
  rw [ceilDiv_le_iff_le_mul hpos]
  calc total * bps ≤ total * BPS_UNIT := Nat.mul_le_mul_left _ h
    _ = BPS_UNIT * total := Nat.mul_comm _ _

/-- `n` msats taken off an account's locks, what is left of each a part of it. -/
structure Taken (ds kept : List (Deposit M)) (n : ℕ) : Prop where
  total : amountSum kept + n = amountSum ds
  heads_kept : (heads kept).Sublist (heads ds)
  newest : InOrder ds → TakenNewestFirst ds kept n

theorem taken_none (ds : List (Deposit M)) : Taken ds ds 0 where
  total := rfl
  heads_kept := List.Sublist.refl _
  newest _ q := by simp

/-- The refund of an account with `bps` cancelled. -/
def refundOf (locked : DepositTable M) (account : PublicKey) (bps : ℕ) : ℕ :=
  amountSum (locked.getD account []) * bps ⌈/⌉ BPS_UNIT

theorem cancelLocked_ok {locked : DepositTable M} {account : PublicKey} {bps : ℕ}
    {r : DepositTable M × List Cancelled} (h : cancelLocked locked account bps = .ok r)
    (hbps : bps ≤ BPS_UNIT) :
    cancelledSum r.2 = refundOf locked account bps ∧
      Taken (locked.getD account []) (r.1.getD account []) (refundOf locked account bps) ∧
      ∀ a, a ≠ account → r.1.getD a [] = locked.getD a [] := by
  simp only [cancelLocked] at h
  split_ifs at h with hz
  · obtain ⟨n, hn, h⟩ := bind_eq_ok.mp h
    obtain ⟨l, hl, h⟩ := bind_eq_ok.mp h
    rw [pure_eq_ok] at h
    subst h
    have hn : n = refundOf locked account bps := ceilDivision_bps hn
    have hle : n ≤ amountSum (locked.getD account []) := hn ▸ ceil_bps_le hbps
    obtain ⟨hsum, hmin⟩ := cancelLoop_sum hl
    rw [amountSum_reverse] at hsum hmin
    have hcancelled : cancelledSum l.2 = n := by omega
    have hw : ∀ w, weigh w (l.1.reverse.filter fun d => decide (d.amount ≠ 0)) = weigh w l.1 := by
      intro w
      rw [weigh_filter_drained, weigh_reverse]
    rw [← hn]
    refine ⟨hcancelled, ⟨?_, ?_, ?_⟩, ?_⟩
    · rw [BTreeMap.getD_insert_self, ← weigh_one, hw, weigh_one]
      omega
    · rw [BTreeMap.getD_insert_self]
      have hheads : heads l.1.reverse = heads (locked.getD account []) := by
        have := cancelLoop_heads hl
        rw [heads, List.map_reverse, ← heads, this, heads, ← List.map_reverse, List.reverse_reverse, heads]
      rw [← hheads]
      exact List.filter_sublist.map _
    · intro hs q
      have hs' : (sequences (locked.getD account []).reverse).Pairwise (· ≥ ·) := by
        rw [sequences, List.map_reverse, List.pairwise_reverse]
        exact hs
      rw [BTreeMap.getD_insert_self, hw, cancelLoop_newest hl hs' q, weigh_reverse, weigh_reverse]
    · intro a ha
      exact BTreeMap.getD_insert_ne _ _ _ ha
  · rw [pure_eq_ok] at h
    subst h
    have hrefund : refundOf locked account bps = 0 := by
      rw [not_not] at hz
      rw [refundOf, hz]
      simp
    rw [hrefund]
    exact ⟨rfl, taken_none _, fun _ _ => rfl⟩

/-- Tables that differ at one account. -/
theorem amountSum_flat_of_other {t t' : DepositTable M} {account : PublicKey}
    (h : ∀ a, a ≠ account → t'.getD a [] = t.getD a []) :
    amountSum t'.flat + amountSum (t.getD account []) = amountSum t.flat + amountSum (t'.getD account []) := by
  have hins := BTreeMap.sumBy_insert_getD (f := fun _ (ds : List (Deposit M)) => amountSum ds) (d := [])
    t account (t'.getD account []) rfl
  have hcongr : t'.sumBy (fun _ ds => amountSum ds) =
      (t.insert account (t'.getD account [])).sumBy fun _ ds => amountSum ds := by
    refine BTreeMap.sumBy_congr_getD (d := []) (fun _ => rfl) fun a => ?_
    by_cases ha : a = account
    · rw [ha, BTreeMap.getD_insert_self]
    · rw [BTreeMap.getD_insert_ne _ _ _ ha, h a ha]
  have hflat : ∀ u : DepositTable M, amountSum u.flat = u.sumBy fun _ ds => amountSum ds :=
    fun u => BTreeMap.sum_flat _ u
  rw [hflat, hflat, hcongr]
  exact hins

end

/-! ## All accounts -/

/-- Sum of the idle balances. -/
def Db.idleSum (db : Db) : ℕ := db.idleBalance.sumBy fun _ x => x

/-- Sum of both lock maps. -/
def Locks.sum (locks : Locks) : ℕ := amountSum locks.seeks.flat + amountSum locks.provides.flat

theorem idleSum_creditIdleBalance (db : Db) (account : PublicKey) (msats : ℕ) :
    (creditIdleBalance db account msats).idleSum = db.idleSum + msats := by
  have hins := BTreeMap.sumBy_insert_getD (f := fun _ x => x) (d := 0) db.idleBalance account
    (db.idleBalance.getD account 0 + msats) rfl
  simp only [Db.idleSum, creditIdleBalance]
  omega

theorem idleBalance_creditIdleBalance (db : Db) (account a : PublicKey) (msats : ℕ) :
    (creditIdleBalance db account msats).idleBalance.getD a 0 =
      db.idleBalance.getD a 0 + if a = account then msats else 0 := by
  rw [creditIdleBalance, BTreeMap.getD_insert]
  by_cases ha : a = account
  · rw [if_pos ha, if_pos ha, ha]
  · rw [if_neg ha, if_neg ha, Nat.add_zero]

/-- Both refunds of an account; it has seeks or provides only, so one of them is zero. -/
def Locks.refund (locks : Locks) (account : PublicKey) (bps : ℕ) : ℕ :=
  refundOf locks.seeks account bps + refundOf locks.provides account bps

/-- The account's locks and idle balance are the same. -/
structure Untouched (db db' : Db) (locks locks' : Locks) (a : PublicKey) : Prop where
  idle : db'.idleBalance.getD a 0 = db.idleBalance.getD a 0
  seeks : locks'.seeks.getD a [] = locks.seeks.getD a []
  provides : locks'.provides.getD a [] = locks.provides.getD a []

/-- The account's refund moved from its locks to its idle balance. -/
structure Refunded (db db' : Db) (locks locks' : Locks) (a : PublicKey) (bps : ℕ) : Prop where
  idle : db'.idleBalance.getD a 0 = db.idleBalance.getD a 0 + locks.refund a bps
  seeks : Taken (locks.seeks.getD a []) (locks'.seeks.getD a []) (refundOf locks.seeks a bps)
  provides : Taken (locks.provides.getD a []) (locks'.provides.getD a []) (refundOf locks.provides a bps)

/-- Only the tables that a cancellation touches. -/
def SameButRefunds (db db' : Db) : Prop :=
  db' = { db with
    idleBalance := db'.idleBalance
    stagedCancellation := db'.stagedCancellation
    seekMetadata := db'.seekMetadata }

theorem applyStagedCancellation_ok {newPrice : ℕ} {db : Db} {locks : Locks} {account : PublicKey}
    {bps : ℕ} {r : Db × Locks} (h : applyStagedCancellation newPrice db locks account bps = .ok r)
    (hbps : bps ≤ BPS_UNIT) :
    Refunded db r.1 locks r.2 account bps ∧ (∀ a, a ≠ account → Untouched db r.1 locks r.2 a) ∧
      r.1.idleSum + r.2.sum = db.idleSum + locks.sum ∧
      r.1.stagedCancellation = db.stagedCancellation.erase account ∧ SameButRefunds db r.1 := by
  obtain ⟨s, hs, h⟩ := bind_eq_ok.mp h
  obtain ⟨p, hp, h⟩ := bind_eq_ok.mp h
  obtain ⟨n, hn, h⟩ := bind_eq_ok.mp h
  rw [pure_eq_ok] at h
  subst h
  obtain ⟨hs1, hs2, hs3⟩ := cancelLocked_ok hs hbps
  obtain ⟨hp1, hp2, hp3⟩ := cancelLocked_ok hp hbps
  have hn : n = locks.refund account bps := by rw [unwrapU64_ok hn, hs1, hp1, Locks.refund]
  subst hn
  have hidle := idleBalance_creditIdleBalance db account
  refine ⟨⟨?_, hs2, hp2⟩, fun a ha => ⟨?_, hs3 a ha, hp3 a ha⟩, ?_, rfl, rfl⟩
  · have := hidle account (locks.refund account bps)
    rw [if_pos rfl] at this
    exact this
  · have := hidle a (locks.refund account bps)
    rw [if_neg ha, Nat.add_zero] at this
    exact this
  · have h1 := idleSum_creditIdleBalance db account (locks.refund account bps)
    have h2 := amountSum_flat_of_other hs3
    have h3 := amountSum_flat_of_other hp3
    have h4 := hs2.total
    have h5 := hp2.total
    simp only [Db.idleSum, creditIdleBalance, Locks.sum, Locks.refund] at h1 h2 h3 ⊢
    omega

/-- What applying a list of cancellations did. -/
structure CancellationsApplied (l : List (PublicKey × TransactionId × CancelRenewal)) (db db' : Db)
    (locks locks' : Locks) : Prop where
  refunded : ∀ e ∈ l, Refunded db db' locks locks' e.1 e.2.2.bps
  untouched : ∀ a, (∀ e ∈ l, e.1 ≠ a) → Untouched db db' locks locks' a
  total : db'.idleSum + locks'.sum = db.idleSum + locks.sum
  removed : ∀ a, db'.stagedCancellation.get? a = none ↔
    db.stagedCancellation.get? a = none ∨ ∃ e ∈ l, e.1 = a
  same : SameButRefunds db db'

/-- One step more: the accounts are distinct, so every one of them is refunded on
its settled locks. -/
theorem applyCancellationsLoop_ok {newPrice : ℕ} :
    ∀ {l : List (PublicKey × TransactionId × CancelRenewal)} {db : Db} {locks : Locks} {r : Db × Locks},
      applyCancellationsLoop newPrice l db locks = .ok r → (∀ e ∈ l, e.2.2.bps ≤ BPS_UNIT) →
        (l.map Prod.fst).Nodup → CancellationsApplied l db r.1 locks r.2
  | [], db, locks, r, h, _, _ => by
    cases h
    exact ⟨by simp, fun _ _ => ⟨rfl, rfl, rfl⟩, rfl, by simp, rfl⟩
  | (account, txid, cancel) :: l, db, locks, r, h, hbps, hnd => by
    obtain ⟨r1, hr1, h⟩ := bind_eq_ok.mp h
    obtain ⟨hnot, hnd⟩ := List.nodup_cons.mp hnd
    have hfresh : ∀ e ∈ l, e.1 ≠ account := fun e he hea => hnot (List.mem_map.mpr ⟨e, he, hea⟩)
    obtain ⟨hhead, hother, htotal, herase, hsame⟩ :=
      applyStagedCancellation_ok hr1 (hbps _ List.mem_cons_self)
    have ih := applyCancellationsLoop_ok h (fun e he => hbps e (List.mem_cons_of_mem _ he)) hnd
    constructor
    · intro e he
      rcases List.mem_cons.mp he with rfl | he
      · -- the later cancellations are of other accounts
        obtain ⟨h1, h2, h3⟩ := ih.untouched account hfresh
        exact ⟨h1.trans hhead.idle, h2 ▸ hhead.seeks, h3 ▸ hhead.provides⟩
      · -- the first cancellation was of another account
        obtain ⟨h1, h2, h3⟩ := hother e.1 (hfresh e he)
        have hr := ih.refunded e he
        have hi := hr.idle
        have hs := hr.seeks
        have hp := hr.provides
        simp only [Locks.refund, refundOf, h1, h2, h3] at hi hs hp
        exact ⟨hi, hs, hp⟩
    · intro a ha
      have hne : a ≠ account := fun hea => ha _ List.mem_cons_self hea.symm
      obtain ⟨h1, h2, h3⟩ := ih.untouched a fun e he => ha e (List.mem_cons_of_mem _ he)
      obtain ⟨h4, h5, h6⟩ := hother a hne
      exact ⟨h1.trans h4, h2.trans h5, h3.trans h6⟩
    · rw [ih.total, htotal]
    · intro a
      rw [ih.removed a, herase, BTreeMap.get?_erase]
      by_cases ha : a = account
      · simp [ha]
      · simp only [if_neg ha, List.exists_mem_cons_iff, Ne.symm ha, false_or]
    · have h1 := ih.same
      unfold SameButRefunds at h1 hsame ⊢
      rw [h1, hsame]

theorem applyStagedCancellations_ok {db : Db} {locks : Locks} {newPrice : ℕ} {r : Db × Locks}
    (h : applyStagedCancellations db locks newPrice = .ok r)
    (hbps : ∀ a txid cancel, db.stagedCancellation.get? a = some (txid, cancel) → cancel.bps ≤ BPS_UNIT) :
    CancellationsApplied db.stagedCancellation.entries db r.1 locks r.2 := by
  refine applyCancellationsLoop_ok h (fun e he => ?_) db.stagedCancellation.keys_nodup
  obtain ⟨a, txid, cancel⟩ := e
  exact hbps a txid cancel (BTreeMap.mem_entries.mp he)

/-- No account gains a lock. -/
theorem CancellationsApplied.kept {l : List (PublicKey × TransactionId × CancelRenewal)} {db db' : Db}
    {locks locks' : Locks} (h : CancellationsApplied l db db' locks locks') (a : PublicKey) :
    (heads (locks'.seeks.getD a [])).Sublist (heads (locks.seeks.getD a [])) ∧
      (heads (locks'.provides.getD a [])).Sublist (heads (locks.provides.getD a [])) := by
  by_cases ha : ∃ e ∈ l, e.1 = a
  · obtain ⟨e, he, rfl⟩ := ha
    have hr := h.refunded e he
    exact ⟨hr.seeks.heads_kept, hr.provides.heads_kept⟩
  · push Not at ha
    obtain ⟨-, h1, h2⟩ := h.untouched a ha
    rw [h1, h2]
    exact ⟨List.Sublist.refl _, List.Sublist.refl _⟩

/-- No cancellation is left. -/
theorem CancellationsApplied.none_left {db db' : Db} {locks locks' : Locks}
    (h : CancellationsApplied db.stagedCancellation.entries db db' locks locks') (a : PublicKey) :
    db'.stagedCancellation.get? a = none := by
  rw [h.removed a]
  cases hg : db.stagedCancellation.get? a with
  | none => exact Or.inl rfl
  | some e => exact Or.inr ⟨(a, e), BTreeMap.mem_entries.mpr hg, rfl⟩

end StabilityPoolOld
