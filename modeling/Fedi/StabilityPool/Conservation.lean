import Fedi.StabilityPool.Invariants

/-!
# Value conservation

`Db.total` is every msat the module holds: idle, staged, and locked in the
current cycle.  Each step changes it by exactly what Fedimint is told,

    total db' + withdrawn by the step = total db + deposited by the step

so over a run `total + withdrawn = deposited` (`runEvents_total`).
-/

namespace StabilityPool

open BTreeMaps KeyedLogs Runs

/-- Idle, staged and locked msats. -/
def Db.total (db : Db) : ℕ :=
  db.idleBalance.sumBy (fun _ x => x) + amountSum db.stagedSeeks.flat + amountSum db.stagedProvides.flat +
    amountSum (db.locked .seek).flat + amountSum (db.locked .provide).flat

/-- Staged and locked msats of one side. -/
def Db.sideTotal (db : Db) (s : Side) : ℕ :=
  tableWeight (fun _ _ => 1) (db.staged s) + tableWeight (fun _ _ => 1) (db.locked s)

theorem total_eq (db : Db) : db.total =
    db.idleBalance.sumBy (fun _ x => x) + db.sideTotal .seek + db.sideTotal .provide := by
  simp only [Db.total, Db.sideTotal, tableWeight_one, Db.staged]
  omega

theorem sumBy_idle_credit {idle idle' : BTreeMap AccountId ℕ} {a : AccountId} {credit : ℕ}
    (h : ∀ a', idle'.getD a' 0 = idle.getD a' 0 + if a' = a then credit else 0) :
    idle'.sumBy (fun _ x => x) = idle.sumBy (fun _ x => x) + credit := by
  have hcongr : idle'.sumBy (fun _ x => x) =
      (idle.insert a (idle.getD a 0 + credit)).sumBy fun _ x => x := by
    refine BTreeMap.sumBy_congr_getD (d := 0) (fun _ => rfl) fun a' => ?_
    rw [h, BTreeMap.getD_insert]
    split_ifs with ha
    · rw [ha]
    · rw [Nat.add_zero]
  have hins := BTreeMap.sumBy_insert_getD (f := fun _ x => x) (d := 0) idle a
    (idle.getD a 0 + credit) rfl
  omega

/-! ## Inputs and outputs -/

theorem AccountMove.total {db db' : Db} {txid : TransactionId} {cycle : Cycle} {s : Side}
    {sender recipient : AccountId} {keptStaged drainedStaged newStaged keptLocked drainedLocked
      newLocked : List (Deposit s.Meta)} {credit : ℕ} {log : List Posting}
    (h : AccountMove db db' txid cycle s sender recipient keptStaged drainedStaged newStaged keptLocked
      drainedLocked newLocked credit log) :
    db'.total + amountSum drainedStaged + amountSum drainedLocked =
      db.total + amountSum newStaged + amountSum newLocked + credit := by
  obtain ⟨hl, hls⟩ := h.locked_eq
  have hidle := sumBy_idle_credit h.idle
  have h1 := h.staged.weigh_eq fun _ _ => 1
  have h2 := hl.weigh_eq fun _ _ => 1
  simp only [weigh_one] at h1 h2
  rw [total_eq, total_eq, hidle]
  cases s with
  | seek =>
    have h3 := h.staged_side .provide (by decide)
    have h4 := hls .provide (by decide)
    simp only [Db.sideTotal, h3, h4]
    omega
  | provide =>
    have h3 := h.staged_side .seek (by decide)
    have h4 := hls .seek (by decide)
    simp only [Db.sideTotal, h3, h4]
    omega

theorem processUnlockInput_total {C : Crypto} {db : Db} {txid : TransactionId}
    {input : UnlockForWithdrawalInput} {r : Db × InputMeta}
    (h : processUnlockInput C db txid input = .ok r) : r.1.total = db.total ∧ r.2.amount = 0 := by
  obtain ⟨cycle, kept, drained, hm, -, -, -, -, -, hamount⟩ := processUnlockInput_ok h
  have := hm.total
  simp only [amountSum_nil] at this
  exact ⟨by omega, hamount⟩

theorem processInput_total {C : Crypto} {db : Db} {txid : TransactionId} {i : StabilityPoolInput}
    {r : Db × InputMeta} (h : processInput C db txid i = .ok r) :
    r.1.total + r.2.amount = db.total := by
  rcases processInput_ok h with ⟨u, -, hu⟩ | ⟨w, -, hw⟩
  · obtain ⟨h1, h2⟩ := processUnlockInput_total hu
    omega
  · obtain ⟨hle, hamount, hr⟩ := processWithdrawalInput_ok hw
    have hins := BTreeMap.sumBy_insert_getD (f := fun _ x => x) (d := 0) db.idleBalance
      (w.account.id C) (db.idleBalance.getD (w.account.id C) 0 - w.amount) rfl
    have hside : ∀ s, r.1.sideTotal s = db.sideTotal s := fun s => by
      rw [hr]
      cases s <;> rfl
    rw [total_eq, total_eq, hside, hside, hamount, hr]
    simp only at hins ⊢
    omega

theorem TransferDone.total {C : Crypto} {cfg : StabilityPoolConfigConsensus} {db db' : Db}
    {txid : TransactionId} {signed : SignedTransferRequest}
    (h : TransferDone C cfg db txid signed db') : db'.total = db.total := by
  obtain ⟨cycle, s, metadata, staged, locked, -, -, -, hstep⟩ := h
  have hm := hstep.move.total
  have hs : amountSum staged.incoming = amountSum staged.drained := by
    rw [hstep.staged_eq]
    exact transferPart_amountSum _ _ _ _ _
  have hl : amountSum locked.incoming = amountSum locked.drained := by
    rw [hstep.locked_eq]
    exact transferPart_amountSum _ _ _ _ _
  omega

theorem processOutput_total {C : Crypto} {cfg : StabilityPoolConfigConsensus} {db : Db}
    {txid : TransactionId} {o : StabilityPoolOutput} {r : OutputResult}
    (h : processOutput C cfg db txid o = .ok r) : r.1.total = db.total + r.2 := by
  rcases processOutput_ok h with ⟨s, cycle, a, metadata, kind, hc, hallowed, -, hr⟩ | ⟨t, -, -, ht⟩
  · obtain ⟨hcredit, hdebit⟩ := hallowed.credit
    have hm := (stageDeposit_move hc txid a r.2 metadata hcredit hdebit).total
    rw [← hr] at hm
    simpa [newDeposit] using hm
  · obtain ⟨hzero, -, hdone⟩ := processTransferOutput_ok ht
    rw [hdone.total, hzero, Nat.add_zero]

/-! ## Turnover -/

theorem TurnoverStep.total {ratio : CollateralRatio} {db db' middle : Db} {info : CycleInfo}
    {remaining : Locks} {log : List Posting} {seeks charged : List AccountSeek}
    {provides : List AccountProvide} {feeRate feePool : ℕ}
    (h : TurnoverStep ratio db info db' middle remaining log seeks charged provides feeRate feePool) :
    db'.total = db.total := by
  have hseek := h.settled.staged_weight .seek fun _ _ => 1
  have hprovide := h.settled.staged_weight .provide fun _ _ => 1
  have hlocked := h.settled.total
  have hidle := h.settled.idle_sum
  have hseek' := h.written.staged_seek fun _ _ => 1
  have hprovide' := h.written.staged_provide fun _ _ => 1
  have hidle' := h.written.idle_sum
  have hcharged := h.written.charged_sum
  have hlockedSeeks : db'.locked .seek = BTreeMap.groupMap charged := by
    rw [locked_of_current (show db'.currentCycle = some _ from h.written.current)]
    rfl
  have hlockedProvides : db'.locked .provide = BTreeMap.groupMap provides := by
    rw [locked_of_current (show db'.currentCycle = some _ from h.written.current)]
    rfl
  rw [pairsWeight_one] at hseek' hprovide'
  simp only [total_eq, Db.sideTotal, hlockedSeeks, hlockedProvides, tableWeight_groupMap, pairsWeight_one]
  simp only [Locks.weight, Locks.on, Db.staged] at *
  omega

theorem processConsensusItem_total {cfg : StabilityPoolConfigConsensus} {db db' : Db}
    {item : StabilityPoolConsensusItem} {peerId : PeerId}
    (h : processConsensusItem cfg db item peerId = .ok db') : db'.total = db.total := by
  cases processConsensusItem_ok h with
  | version version => rfl
  | vote vote => rfl
  | turnover vote _ info _ hnext hfirst hmany hinfo hturn =>
    obtain ⟨_, _, _, _, _, _, _, _, hstep⟩ := turnover_ok hturn
    rw [hstep.total]
    rfl

/-! ## Runs -/

theorem applyEvent_total {C : Crypto} {cfg : StabilityPoolConfigConsensus} {st st' : Ledger} {e : Event}
    (hst : st.db.total + st.withdrawn = st.deposited) (h : applyEvent C cfg st e = .ok st') :
    st'.db.total + st'.withdrawn = st'.deposited := by
  cases e with
  | consensusItem peerId item =>
    simp only [applyEvent, bind_eq_ok, pure_eq_ok] at h
    obtain ⟨db', h1, rfl⟩ := h
    have := processConsensusItem_total h1
    simp only
    omega
  | input txid i =>
    simp only [applyEvent, bind_eq_ok, pure_eq_ok] at h
    obtain ⟨r, h1, rfl⟩ := h
    have := processInput_total h1
    simp only
    omega
  | output txid o =>
    simp only [applyEvent, bind_eq_ok, pure_eq_ok] at h
    obtain ⟨r, h1, rfl⟩ := h
    have := processOutput_total h1
    simp only
    omega

theorem runEvents_total {C : Crypto} {cfg : StabilityPoolConfigConsensus} {evs : List Event} {st : Ledger}
    (h : runEvents C cfg evs = .ok st) : st.db.total + st.withdrawn = st.deposited :=
  run_invariant (P := fun st => st.db.total + st.withdrawn = st.deposited)
    (fun _ _ _ hp hst => applyEvent_total hp hst) rfl h

/-- Over every run the pool holds what was deposited and not withdrawn; turnovers
and other consensus items, unlocks and transfers do not change what it holds. -/
theorem value_conservation {C : Crypto} {cfg : StabilityPoolConfigConsensus} {evs : List Event}
    {st : Ledger} (h : runEvents C cfg evs = .ok st) :
    st.db.total + st.withdrawn = st.deposited ∧
      (∀ item peerId db', processConsensusItem cfg st.db item peerId = .ok db' →
        db'.total = st.db.total) ∧
      (∀ txid unlock r, processInput C st.db txid (.v0 (.unlockForWithdrawal unlock)) = .ok r →
        r.1.total = st.db.total) ∧
      (∀ txid withdrawal r, processInput C st.db txid (.v0 (.withdrawal withdrawal)) = .ok r →
        r.1.total + withdrawal.amount = st.db.total ∧ r.2.amount = withdrawal.amount) ∧
      ∀ txid o transfer r, (o = .v0 (.transfer transfer) ∨ o = .v1 (.transfer transfer)) →
        processOutput C cfg st.db txid o = .ok r → r.1.total = st.db.total ∧ r.2 = 0 := by
  refine ⟨runEvents_total h, fun item peerId db' h' => processConsensusItem_total h',
    fun txid unlock r h' => ?_, fun txid withdrawal r h' => ?_, fun txid o transfer r ho h' => ?_⟩
  · rcases processInput_ok h' with ⟨u, -, hu⟩ | ⟨w, hw, -⟩
    · exact (processUnlockInput_total hu).1
    · cases hw
  · rcases processInput_ok h' with ⟨u, hu, -⟩ | ⟨w, hw, hw'⟩
    · cases hu
    · cases hw
      have := processInput_total h'
      obtain ⟨-, hamount, -⟩ := processWithdrawalInput_ok hw'
      exact ⟨by omega, hamount⟩
  · have htotal := processOutput_total h'
    obtain ⟨hzero, -⟩ := processTransferOutput_ok (processOutput_transfer_ok ho h').2
    exact ⟨by omega, hzero⟩

theorem value_conservation_demo : ∃ st, runEvents demoCrypto demoConfig demoOpening = .ok st ∧
    st.deposited = 200000 ∧ st.db.total + st.withdrawn = st.deposited := by
  have hrun : ((runEvents demoCrypto demoConfig demoOpening).map (·.deposited)).toOption = some 200000 := by
    decide +kernel
  cases h : runEvents demoCrypto demoConfig demoOpening with
  | error e =>
    rw [h] at hrun
    cases hrun
  | ok st =>
    rw [h] at hrun
    exact ⟨st, rfl, Option.some.inj hrun, (value_conservation h).1⟩

end StabilityPool
