import Fedi.StabilityPoolOld.Ledger

/-!
# Old stability pool: the refunds of a turnover

A turnover settles the locks, applies the cancellations, restages what is left and
writes the new cycle (`TurnedOver`).  With `settled` an account's settled locks, of
one kind only, its cancellation moves

    (amountSum settled) * bps ⌈/⌉ 10000

msats to its idle balance and leaves the rest of the locks (`MovedExactly`).  The
new cycle credits idle balances only of accounts that have a provide locked in it.
-/

namespace StabilityPoolOld

open BTreeMaps Runs StabilityPool

/-- The steps of a turnover from `db` to `db'`; only votes and past cycles differ
between `db` and `before`. -/
structure TurnedOver (ratio : CollateralRatio) (db db' : Db) (cycle cycle' : Cycle) (settled kept : Locks)
    (before mid written : Db) : Prop where
  before_eq : before = { db with
    pastCycle := before.pastCycle, cycleChangeVote := before.cycleChangeVote }
  settle : settleLocks ⟨cycle.lockedSeeks, cycle.lockedProvides⟩ cycle.startPrice cycle'.startPrice
    (randomnessOf cycle'.startTime) = .ok settled
  cancel : applyStagedCancellations before settled cycle'.startPrice = .ok (mid, kept)
  write : calculateLocksAndWriteCycle ratio (restageRemainingLocks mid kept) cycle'.index
    cycle'.startTime cycle'.startPrice (randomnessOf cycle'.startTime) = .ok written
  done : db' = { written with cycleChangeVote := db'.cycleChangeVote }

/-- `moved` msats of the account's settled locks went to its idle balance, those of
its newest seeks first. -/
structure MovedExactly (db mid : Db) (settled kept : Locks) (a : PublicKey) (moved : ℕ) : Prop where
  idle : mid.idleBalance.getD a 0 = db.idleBalance.getD a 0 + moved
  locks : amountSum (kept.seeks.getD a []) + amountSum (kept.provides.getD a []) + moved =
    amountSum (settled.seeks.getD a []) + amountSum (settled.provides.getD a [])
  newest : TakenNewestFirst (settled.seeks.getD a []) (kept.seeks.getD a []) moved

/-- Settled msats of the account. -/
def Locks.accountTotal (locks : Locks) (a : PublicKey) : ℕ :=
  amountSum (locks.seeks.getD a []) + amountSum (locks.provides.getD a [])

theorem taken_nil {M : Type} {kept : List (Deposit M)} {n : ℕ} (h : Taken [] kept n) : kept = [] := by
  have hsub := h.heads_kept
  exact heads_eq_nil.mp (List.eq_nil_of_subset_nil hsub.subset)

/-- With one kind of locks only, the two refunds are one rounding of the total. -/
theorem movedExactly_of_refunded {db mid : Db} {settled kept : Locks} {a : PublicKey} {bps : ℕ}
    (h : Refunded db mid settled kept a bps)
    (hone : settled.seeks.getD a [] = [] ∨ settled.provides.getD a [] = [])
    (hs : InOrder (settled.seeks.getD a [])) :
    MovedExactly db mid settled kept a (settled.accountTotal a * bps ⌈/⌉ BPS_UNIT) := by
  have hidle := h.idle
  have hseeks := h.seeks
  have hprovides := h.provides
  have hnewest := hseeks.newest hs
  have h1 := hseeks.total
  have h2 := hprovides.total
  rw [Locks.refund] at hidle
  rcases hone with hnil | hnil
  · have hzero : refundOf settled.seeks a bps = 0 := by simp [refundOf, hnil]
    have hall : refundOf settled.provides a bps = settled.accountTotal a * bps ⌈/⌉ BPS_UNIT := by
      simp [refundOf, Locks.accountTotal, hnil]
    have hkept : kept.seeks.getD a [] = [] := by
      rw [hnil] at hseeks
      exact taken_nil hseeks
    rw [hzero] at hidle h1
    rw [hall] at hidle h2
    refine ⟨by omega, by omega, fun q => ?_⟩
    rw [hkept, hnil]
    simp
  · have hzero : refundOf settled.provides a bps = 0 := by simp [refundOf, hnil]
    have hall : refundOf settled.seeks a bps = settled.accountTotal a * bps ⌈/⌉ BPS_UNIT := by
      simp [refundOf, Locks.accountTotal, hnil]
    rw [hzero] at hidle h2
    rw [hall] at hidle h1 hnewest
    exact ⟨by omega, by omega, hnewest⟩

/-- A turnover after the first cycle. -/
theorem turnedOver_of_turnover {ratio : CollateralRatio} {db db' : Db} {cycle : Cycle}
    {index time price : ℕ} (hcur : db.currentCycle = some cycle)
    (h : turnover ratio db index time price = .ok db') :
    ∃ cycle' settled kept before mid written, db'.currentCycle = some cycle' ∧
      TurnedOver ratio db db' cycle cycle' settled kept before mid written := by
  obtain ⟨last, hlast, h⟩ := bind_eq_ok.mp h
  obtain ⟨written, hwritten, h⟩ := bind_eq_ok.mp h
  rw [pure_eq_ok] at h
  subst h
  obtain ⟨settled, r, hsettle, hr, rfl⟩ := settleLastCycle_some hcur hlast
  obtain ⟨cycle', hcycle', rfl, rfl, rfl⟩ := (calculateLocksAndWriteCycle_ok hwritten).current
  exact ⟨cycle', settled, r.2, _, r.1, written, hcycle', {
    before_eq := rfl
    settle := hsettle
    cancel := hr
    write := hwritten
    done := rfl }⟩

/-- What a turnover does to the accounts, with and without a cancellation. -/
theorem TurnedOver.accounts {ratio : CollateralRatio} {db db' : Db} {cycle cycle' : Cycle}
    {settled kept : Locks} {before mid written : Db} (hinv : Inv db)
    (hcur : db.currentCycle = some cycle)
    (h : TurnedOver ratio db db' cycle cycle' settled kept before mid written) :
    (∀ a txid cancel, db.stagedCancellation.get? a = some (txid, cancel) →
        MovedExactly db mid settled kept a (settled.accountTotal a * cancel.bps ⌈/⌉ BPS_UNIT)) ∧
      (∀ a, db.stagedCancellation.get? a = none → Untouched db mid settled kept a) ∧
      ∀ a, db'.lockedProvides.getD a [] = [] → db'.idleBalance.getD a 0 = mid.idleBalance.getD a 0 := by
  have hidle : before.idleBalance = db.idleBalance := by rw [h.before_eq]
  have hcancel : before.stagedCancellation = db.stagedCancellation := by rw [h.before_eq]
  have happlied := applyStagedCancellations_ok h.cancel (by rw [hcancel]; exact hinv.bps)
  obtain ⟨hheads, -⟩ := settleLocks_ok h.settle
  have hls : db.lockedSeeks = cycle.lockedSeeks := by rw [Db.lockedSeeks, hcur]
  have hlp : db.lockedProvides = cycle.lockedProvides := by rw [Db.lockedProvides, hcur]
  refine ⟨fun a txid cancel ha => ?_, fun a ha => ?_, fun a ha => ?_⟩
  · have hmem : (a, txid, cancel) ∈ before.stagedCancellation.entries := by
      rw [BTreeMap.mem_entries, hcancel]
      exact ha
    have hr := happlied.refunded _ hmem
    have hr' : Refunded db mid settled kept a cancel.bps :=
      ⟨by rw [← hidle]; exact hr.idle, hr.seeks, hr.provides⟩
    refine movedExactly_of_refunded hr' ?_ ?_
    · -- the account has seeks or provides locked, not both
      by_contra hno
      rw [not_or, ← heads_eq_nil, ← heads_eq_nil, (hheads a).1, (hheads a).2, heads_eq_nil,
        heads_eq_nil] at hno
      refine hinv.exclusive a ⟨Or.inr ?_, Or.inr ?_⟩
      · rw [hls]
        exact hno.1
      · rw [hlp]
        exact hno.2
    · -- settlement keeps the sequences of the locks
      have hs := hinv.inOrder a
      rw [hls] at hs
      rw [InOrder, sequences_eq_heads] at hs ⊢
      rw [(hheads a).1]
      exact hs
  · have hfresh : ∀ e ∈ before.stagedCancellation.entries, e.1 ≠ a := by
      rintro ⟨a', e⟩ he rfl
      rw [BTreeMap.mem_entries, hcancel, ha] at he
      cases he
    obtain ⟨h1, h2, h3⟩ := happlied.untouched a hfresh
    exact ⟨by rw [← hidle]; exact h1, h2, h3⟩
  · have hw := calculateLocksAndWriteCycle_ok h.write
    have hdone := h.done
    have hlocked : db'.lockedProvides = written.lockedProvides := by rw [hdone]; rfl
    rw [hlocked] at ha
    have hi := hw.idle a ha
    rw [hdone]
    exact hi

/-- In every state a run reaches no account has both seeks and provides, an account
with a staged cancellation has nothing staged, and the pool holds what was deposited
and not withdrawn.  An item that ends the cycle moves the cancelled part, rounded up,
of every cancelling account's settled locks to its idle balance, newest seeks first,
and nothing of the others. -/
theorem ledger_of_run {cfg : StabilityPoolConfigConsensus} {evs : List Event} {st : Ledger}
    (h : runEvents cfg evs = .ok st) :
    (∀ a, ¬(st.db.hasSeeks a ∧ st.db.hasProvides a)) ∧
      (∀ a, st.db.stagedCancellation.get? a ≠ none →
        st.db.stagedSeeks.getD a [] = [] ∧ st.db.stagedProvides.getD a [] = []) ∧
      st.db.liabilities + st.withdrawn = st.deposited ∧
      ∀ item peerId db' cycle cycle', processConsensusItem cfg st.db item peerId = .ok db' →
        st.db.currentCycle = some cycle → db'.currentCycle = some cycle' → cycle'.index ≠ cycle.index →
        ∃ settled kept before mid written,
          TurnedOver cfg.collateralRatio st.db db' cycle cycle' settled kept before mid written ∧
          (∀ a txid cancel, st.db.stagedCancellation.get? a = some (txid, cancel) →
            MovedExactly st.db mid settled kept a (settled.accountTotal a * cancel.bps ⌈/⌉ BPS_UNIT)) ∧
          (∀ a, st.db.stagedCancellation.get? a = none → Untouched st.db mid settled kept a) ∧
          ∀ a, db'.lockedProvides.getD a [] = [] →
            db'.idleBalance.getD a 0 = mid.idleBalance.getD a 0 := by
  obtain ⟨hinv, hsum⟩ := runEvents_sound h
  refine ⟨hinv.exclusive, hinv.cancelling, hsum, fun item peerId db' cycle cycle' hitem hcur hcur' hne => ?_⟩
  obtain ⟨votes, rfl | ⟨time, price, vote, -, hturn⟩⟩ := processConsensusItem_cases hitem
  · -- a recorded vote leaves the cycle
    have hsame : some cycle' = some cycle := hcur'.symm.trans hcur
    exact absurd (congrArg Cycle.index (Option.some.inj hsame)) hne
  · have hvoted : ({ st.db with cycleChangeVote := votes } : Db).currentCycle = some cycle := hcur
    obtain ⟨cycle'', settled, kept, before, mid, written, hcycle'', hturned⟩ :=
      turnedOver_of_turnover hvoted hturn
    have hsame : cycle'' = cycle' := Option.some.inj (hcycle''.symm.trans hcur')
    subst hsame
    have hturned' : TurnedOver cfg.collateralRatio st.db db' cycle cycle'' settled kept before mid written :=
      ⟨hturned.before_eq, hturned.settle, hturned.cancel, hturned.write, hturned.done⟩
    exact ⟨settled, kept, before, mid, written, hturned', hturned'.accounts hinv hcur⟩

/-! ## A small federation -/

/-- Three votes, collateral one to one. -/
def demoConfig : StabilityPoolConfigConsensus where
  consensusThreshold := 3
  collateralRatio := ⟨1, 1⟩
  minAllowedSeek := 10000
  minAllowedProvide := 10000
  maxAllowedProvideFeeRatePpb := 2000
  minAllowedCancellationBps := 100

def demoVotes (index time price : ℕ) (peers : List PeerId) : List Event :=
  peers.map fun peer => .consensusItem peer (.v0 ⟨index, time, price⟩)

/-- Account 7 seeks 100000 and then 50000 msats, which account 8 covers; once they
are locked account 7 cancels 40% of them, and two of three votes end the cycle. -/
def demoRun : List Event :=
  demoVotes 0 1000 10000000 [0, 1, 2] ++
    [.output 1 (.v0 7 (.seek 100000)), .output 2 (.v0 8 (.provide 200000 0)),
      .output 3 (.v0 7 (.seek 50000))] ++
    demoVotes 1 2000 10000000 [0, 1, 2] ++ [.output 4 (.v0 7 (.cancelRenewal ⟨4000⟩))] ++
    demoVotes 2 3000 10000000 [0, 1]

/-- The third vote moves 60000 msats. -/
theorem ledger_of_run_demo : ∃ st db' settled kept mid, runEvents demoConfig demoRun = .ok st ∧
    processConsensusItem demoConfig st.db (.v0 ⟨2, 3000, 10000000⟩) 2 = .ok db' ∧
    st.db.liabilities + st.withdrawn = st.deposited ∧
    MovedExactly st.db mid settled kept 7 (settled.accountTotal 7 * 4000 ⌈/⌉ BPS_UNIT) ∧
    db'.idleBalance.getD 7 0 = 60000 := by
  have hrun : (((runEvents demoConfig demoRun).toOption.bind fun st =>
      (processConsensusItem demoConfig st.db (.v0 ⟨2, 3000, 10000000⟩) 2).toOption.map fun db' =>
        (st.db.currentCycle.map Cycle.index, db'.currentCycle.map Cycle.index,
          st.db.stagedCancellation.get? 7, db'.idleBalance.getD 7 0))) =
        some (some 1, some 2, some (4, ⟨4000⟩), 60000) := by
    decide +kernel
  cases h : runEvents demoConfig demoRun with
  | error p =>
    rw [h] at hrun
    cases hrun
  | ok st =>
    cases hitem : processConsensusItem demoConfig st.db (.v0 ⟨2, 3000, 10000000⟩) 2 with
    | error e =>
      simp only [h, Except.toOption, Option.bind_some, hitem] at hrun
      cases hrun
    | ok db' =>
      simp only [h, Except.toOption, Option.bind_some, hitem, Option.map_some, Option.some.injEq,
        Prod.mk.injEq] at hrun
      obtain ⟨hindex, hindex', hcancel, hidle⟩ := hrun
      obtain ⟨cycle, hcycle, h1⟩ := Option.map_eq_some_iff.mp hindex
      obtain ⟨cycle', hcycle', h2⟩ := Option.map_eq_some_iff.mp hindex'
      obtain ⟨-, -, hsum, hturn⟩ := ledger_of_run h
      obtain ⟨settled, kept, -, mid, -, -, hmoved, -⟩ := hturn _ _ _ _ _ hitem hcycle hcycle' (by omega)
      exact ⟨st, db', settled, kept, mid, rfl, hitem, hsum, hmoved 7 4 ⟨4000⟩ hcancel, hidle⟩

end StabilityPoolOld
