import Fedi.StabilityPool.Conservation

/-!
# Collateral coverage

In every reachable state the locked provides cover the locked seeks at the
collateral ratio.  A turnover establishes it whatever is staged
(`TurnoverStep.covered`); within a cycle only transfers touch the locks, and they
keep the sum of each side.
-/

namespace StabilityPool

open BTreeMaps KeyedLogs Runs

/-- The locked seeks are covered by the locked provides. -/
def Db.Covered (ratio : CollateralRatio) (db : Db) : Prop :=
  ∀ cycle, db.currentCycle = some cycle →
    amountSum cycle.lockedSeeks.flat * ratio.provider ≤ amountSum cycle.lockedProvides.flat * ratio.seeker

theorem covered_iff {ratio : CollateralRatio} {db : Db} {cycle : Cycle}
    (hc : db.currentCycle = some cycle) : db.Covered ratio ↔
      tableWeight (fun _ _ => 1) (cycle.locked .seek) * ratio.provider ≤
        tableWeight (fun _ _ => 1) (cycle.locked .provide) * ratio.seeker := by
  simp only [Db.Covered, hc, Option.some.injEq, forall_eq', tableWeight_one, Cycle.locked]

/-- Coverage only reads the sums of the locks. -/
theorem Db.Covered.congr {ratio : CollateralRatio} {db db' : Db} (h : db.Covered ratio)
    {cycle cycle' : Cycle} (hc : db.currentCycle = some cycle) (hc' : db'.currentCycle = some cycle')
    (hsum : ∀ s, tableWeight (fun _ _ => 1) (cycle'.locked s) =
      tableWeight (fun _ _ => 1) (cycle.locked s)) : db'.Covered ratio := by
  rw [covered_iff hc', hsum, hsum]
  exact (covered_iff hc).mp h

theorem AccountMove.covered {ratio : CollateralRatio} {db db' : Db} {txid : TransactionId}
    {cycle : Cycle} {s : Side} {sender recipient : AccountId} {keptStaged drainedStaged newStaged
      keptLocked drainedLocked newLocked : List (Deposit s.Meta)} {credit : ℕ} {log : List Posting}
    (h : AccountMove db db' txid cycle s sender recipient keptStaged drainedStaged newStaged keptLocked
      drainedLocked newLocked credit log)
    (hsum : amountSum newLocked = amountSum drainedLocked) (hcov : db.Covered ratio) :
    db'.Covered ratio := by
  obtain ⟨t, ht, hm⟩ := h.locked
  refine hcov.congr h.current ht fun s' => ?_
  by_cases hs : s' = s
  · subst hs
    have := hm.weigh_eq fun _ _ => 1
    rw [weigh_one, weigh_one] at this
    rw [locked_setLocked]
    omega
  · rw [locked_setLocked_ne _ _ _ hs]

theorem processInput_covered {C : Crypto} {ratio : CollateralRatio} {db : Db} {txid : TransactionId}
    {i : StabilityPoolInput} {r : Db × InputMeta} (hcov : db.Covered ratio)
    (h : processInput C db txid i = .ok r) : r.1.Covered ratio := by
  rcases processInput_ok h with ⟨u, -, hu⟩ | ⟨w, -, hw⟩
  · obtain ⟨cycle, kept, drained, hm, -⟩ := processUnlockInput_ok hu
    exact hm.covered rfl hcov
  · obtain ⟨-, -, hr⟩ := processWithdrawalInput_ok hw
    rw [hr]
    exact hcov

theorem processOutput_covered {C : Crypto} {cfg : StabilityPoolConfigConsensus} {ratio : CollateralRatio}
    {db : Db} {txid : TransactionId} {o : StabilityPoolOutput} {r : OutputResult}
    (hcov : db.Covered ratio) (h : processOutput C cfg db txid o = .ok r) : r.1.Covered ratio := by
  rcases processOutput_ok h with ⟨s, cycle, a, metadata, kind, hc, hallowed, -, hr⟩ | ⟨t, -, -, ht⟩
  · obtain ⟨hcredit, hdebit⟩ := hallowed.credit
    rw [hr]
    exact (stageDeposit_move hc txid a r.2 metadata hcredit hdebit).covered rfl hcov
  · obtain ⟨-, -, cycle, s, metadata, staged, locked, -, -, -, hstep⟩ := processTransferOutput_ok ht
    refine hstep.move.covered ?_ hcov
    rw [hstep.locked_eq]
    exact transferPart_amountSum _ _ _ _ _

theorem TurnoverStep.covered {ratio : CollateralRatio} {db db' middle : Db} {info : CycleInfo}
    {remaining : Locks} {log : List Posting} {seeks charged : List AccountSeek}
    {provides : List AccountProvide} {feeRate feePool : ℕ}
    (h : TurnoverStep ratio db info db' middle remaining log seeks charged provides feeRate feePool) :
    db'.Covered ratio := by
  rw [covered_iff (show db'.currentCycle = some _ from h.written.current)]
  simp only [Cycle.locked, tableWeight_groupMap, pairsWeight_one]
  exact h.written.covered

theorem processConsensusItem_covered {cfg : StabilityPoolConfigConsensus} {db db' : Db}
    {item : StabilityPoolConsensusItem} {peerId : PeerId} (hcov : db.Covered cfg.collateralRatio)
    (h : processConsensusItem cfg db item peerId = .ok db') : db'.Covered cfg.collateralRatio := by
  cases processConsensusItem_ok h with
  | version version => exact hcov
  | vote vote => exact hcov
  | turnover vote _ info _ hnext hfirst hmany hinfo hturn =>
    obtain ⟨_, _, _, _, _, _, _, _, hstep⟩ := turnover_ok hturn
    exact hstep.covered

theorem covered_of_reachable {C : Crypto} {cfg : StabilityPoolConfigConsensus} {db : Db}
    (h : Reachable C cfg db) : db.Covered cfg.collateralRatio :=
  reachable_induction (P := Db.Covered cfg.collateralRatio) (fun _ hc => by cases hc)
    (fun _ _ _ _ hp h => processConsensusItem_covered hp h) (fun _ _ _ _ hp h => processInput_covered hp h)
    (fun _ _ _ _ hp h => processOutput_covered hp h) h

/-- Locked provides cover locked seeks in every reachable state; every turnover
establishes this from any database, every input and output keeps it. -/
theorem collateral_coverage {C : Crypto} {cfg : StabilityPoolConfigConsensus} {db : Db}
    (h : Reachable C cfg db) : db.Covered cfg.collateralRatio ∧
      (∀ ratio start info db', turnover ratio start info = .ok db' → db'.Covered ratio) ∧
      (∀ ratio start txid i r, Db.Covered ratio start → processInput C start txid i = .ok r →
        r.1.Covered ratio) ∧
      ∀ ratio start txid o r, Db.Covered ratio start → processOutput C cfg start txid o = .ok r →
        r.1.Covered ratio := by
  refine ⟨covered_of_reachable h, fun ratio start info db' hturn => ?_,
    fun ratio start txid i r hcov hi => processInput_covered hcov hi,
    fun ratio start txid o r hcov ho => processOutput_covered hcov ho⟩
  obtain ⟨_, _, _, _, _, _, _, _, hstep⟩ := turnover_ok hturn
  exact hstep.covered

theorem collateral_coverage_demo : ∃ db cycle, Reachable demoCrypto demoConfig db ∧
    db.currentCycle = some cycle ∧ amountSum cycle.lockedSeeks.flat = 100000 ∧
      amountSum cycle.lockedSeeks.flat * 1 ≤ amountSum cycle.lockedProvides.flat * 1 := by
  have hrun : ((runEvents demoCrypto demoConfig demoOpening).map fun st =>
      st.db.currentCycle.map fun c => amountSum c.lockedSeeks.flat).toOption = some (some 100000) := by
    decide +kernel
  cases h : runEvents demoCrypto demoConfig demoOpening with
  | error e =>
    rw [h] at hrun
    cases hrun
  | ok st =>
    have hreach : Reachable demoCrypto demoConfig st.db := ⟨_, st, h, rfl⟩
    rw [h] at hrun
    obtain ⟨cycle, hc, hsum⟩ := Option.map_eq_some_iff.mp (Option.some.inj hrun)
    exact ⟨st.db, cycle, hreach, hc, hsum, (collateral_coverage hreach).1 cycle hc⟩

end StabilityPool
