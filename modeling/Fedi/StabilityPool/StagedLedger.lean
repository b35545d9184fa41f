import Fedi.StabilityPool.Isolation

/-!
# The account history is a ledger of the staged balances

Every step appends postings to the history (`LedgerStep`), and under every weight

    staged' + debits posted = staged + credits posted

so in a reachable state what is staged under an account and a sequence is the sum
of its credits less that of its debits.  Serials are contiguous and written once,
since the history is a book that is only posted to (`KeyedLogs.Records`).
-/

namespace StabilityPool

open BTreeMaps KeyedLogs Runs

/-- Staged msats of both sides, weighted. -/
def Db.stagedWeight (w : AccountId → ℕ → ℕ) (db : Db) : ℕ :=
  tableWeight w db.stagedSeeks + tableWeight w db.stagedProvides

/-- What a step posts is what it changes of the staged balances. -/
def LedgerStep (db db' : Db) : Prop :=
  ∃ log, db'.accountHistory = postAll db.accountHistory log ∧ ∀ w,
    db'.stagedWeight w + postedWeight AccountHistoryItemKind.stagedDebit w log =
      db.stagedWeight w + postedWeight AccountHistoryItemKind.stagedCredit w log

theorem ledgerStep_of_eq {db db' : Db} (hhistory : db'.accountHistory = db.accountHistory)
    (hstaged : ∀ s, db'.staged s = db.staged s) : LedgerStep db db' := by
  refine ⟨[], hhistory, fun w => ?_⟩
  have hs : db'.stagedSeeks = db.stagedSeeks := hstaged .seek
  have hp : db'.stagedProvides = db.stagedProvides := hstaged .provide
  rw [Db.stagedWeight, Db.stagedWeight, hs, hp]
  rfl

theorem AccountMove.ledgerStep {db db' : Db} {txid : TransactionId} {cycle : Cycle} {s : Side}
    {sender recipient : AccountId} {keptStaged drainedStaged newStaged keptLocked drainedLocked
      newLocked : List (Deposit s.Meta)} {credit : ℕ} {log : List Posting}
    (h : AccountMove db db' txid cycle s sender recipient keptStaged drainedStaged newStaged keptLocked
      drainedLocked newLocked credit log) : LedgerStep db db' := by
  refine ⟨log, h.history, fun w => ?_⟩
  have hmoved := h.staged.weigh_eq w
  rw [h.debit, h.posted]
  cases s with
  | seek =>
    have hp : db'.stagedProvides = db.stagedProvides := h.staged_side .provide (by decide)
    simp only [Db.stagedWeight, Db.staged, hp] at hmoved ⊢
    omega
  | provide =>
    have hs : db'.stagedSeeks = db.stagedSeeks := h.staged_side .seek (by decide)
    simp only [Db.stagedWeight, Db.staged, hs] at hmoved ⊢
    omega

/-- The postings of a turnover. -/
def turnoverLog (info : CycleInfo) (remaining : Locks) (unlocked : List Posting)
    (seeks : List AccountSeek) (provides : List AccountProvide) : List Posting :=
  unlocked ++ (lockLog info remaining.seeks seeks ++ lockLog info remaining.provides provides)

section
variable {ratio : CollateralRatio} {db db' middle : Db} {info : CycleInfo} {remaining : Locks}
  {log : List Posting} {seeks charged : List AccountSeek} {provides : List AccountProvide}
  {feeRate feePool : ℕ}

theorem TurnoverStep.history (h : TurnoverStep ratio db info db' middle remaining log seeks charged
      provides feeRate feePool) :
    db'.accountHistory = postAll db.accountHistory (turnoverLog info remaining log seeks provides) := by
  have h1 : db'.accountHistory = _ := h.written.history
  have h2 : middle.accountHistory = postAll db.accountHistory log := by
    rw [h.settled.db_eq]
  rw [h1, h2, turnoverLog, postAll_append _ log]

theorem Settled.log_weight (h : Settled db info middle remaining log) (w : AccountId → ℕ → ℕ) :
    postedWeight AccountHistoryItemKind.stagedDebit w log = 0 ∧
      postedWeight AccountHistoryItemKind.stagedCredit w log = 0 := by
  constructor <;> refine postedWeight_eq_zero _ w fun e he => ?_ <;>
    rw [(h.log_mem e he).1] <;> rfl

theorem TurnoverStep.ledgerStep {cfg : StabilityPoolConfigConsensus} (h : TurnoverStep ratio db info db'
      middle remaining log seeks charged provides feeRate feePool) (hwf : Wf cfg db) :
    LedgerStep db db' := by
  refine ⟨_, h.history, fun w => ?_⟩
  have hnd : ∀ s a, (sequences ((middle.staged s).getD a [])).Nodup := fun s a =>
    h.settled.staged_nodup (hwf.staged_nodup s a)
  obtain ⟨hseekKeys, hprovideKeys⟩ := h.written.keys_nodup hnd
  have hrem : ∀ s, (stateKeys (remaining.on s).pairs).Nodup := fun s =>
    stateKeys_pairs_nodup fun a => h.settled.remaining_nodup (hwf.locked_nodup s a)
  have hb1 := lockLog_balance info w (hrem .seek) hseekKeys
  have hb2 := lockLog_balance info w (hrem .provide) hprovideKeys
  obtain ⟨hd, hc⟩ := h.settled.log_weight w
  have hm1 := h.settled.staged_weight .seek w
  have hm2 := h.settled.staged_weight .provide w
  have hs := h.written.staged_seek w
  have hp := h.written.staged_provide w
  simp only [turnoverLog, postedWeight_append, hd, hc, Db.stagedWeight]
  simp only [Locks.on, Db.staged] at hb1 hb2 hm1 hm2 hs hp
  omega

end

/-! ## Steps -/

theorem processInput_ledgerStep {C : Crypto} {db : Db} {txid : TransactionId} {i : StabilityPoolInput}
    {r : Db × InputMeta} (h : processInput C db txid i = .ok r) : LedgerStep db r.1 := by
  rcases processInput_ok h with ⟨u, -, hu⟩ | ⟨w, -, hw⟩
  · obtain ⟨cycle, kept, drained, hm, -⟩ := processUnlockInput_ok hu
    exact hm.ledgerStep
  · obtain ⟨-, -, hr⟩ := processWithdrawalInput_ok hw
    rw [hr]
    exact ledgerStep_of_eq rfl fun s => by cases s <;> rfl

theorem processOutput_ledgerStep {C : Crypto} {cfg : StabilityPoolConfigConsensus} {db : Db}
    {txid : TransactionId} {o : StabilityPoolOutput} {r : OutputResult}
    (h : processOutput C cfg db txid o = .ok r) : LedgerStep db r.1 := by
  rcases processOutput_ok h with ⟨s, cycle, a, metadata, kind, hc, hallowed, -, hr⟩ | ⟨t, -, -, ht⟩
  · obtain ⟨hcredit, hdebit⟩ := hallowed.credit
    rw [hr]
    exact (stageDeposit_move hc txid a r.2 metadata hcredit hdebit).ledgerStep
  · obtain ⟨-, -, cycle, s, metadata, staged, locked, -, -, -, hstep⟩ := processTransferOutput_ok ht
    exact hstep.move.ledgerStep

theorem processConsensusItem_ledgerStep {cfg : StabilityPoolConfigConsensus} {db db' : Db}
    {item : StabilityPoolConsensusItem} {peerId : PeerId} (hwf : Wf cfg db)
    (h : processConsensusItem cfg db item peerId = .ok db') : LedgerStep db db' := by
  cases processConsensusItem_ok h with
  | version version => exact ledgerStep_of_eq rfl fun s => by cases s <;> rfl
  | vote vote => exact ledgerStep_of_eq rfl fun s => by cases s <;> rfl
  | turnover vote _ info _ hnext hfirst hmany hinfo hturn =>
    obtain ⟨_, _, _, _, _, _, _, _, hstep⟩ := turnover_ok hturn
    exact hstep.ledgerStep (show Wf cfg (recordVote db peerId vote) from
      hwf.congr (fun s => by cases s <;> rfl) rfl rfl rfl)

theorem applyEvent_ledgerStep {C : Crypto} {cfg : StabilityPoolConfigConsensus} {st st' : Ledger}
    {e : Event} (hwf : Wf cfg st.db) (h : applyEvent C cfg st e = .ok st') :
    LedgerStep st.db st'.db := by
  cases e with
  | consensusItem peerId item =>
    simp only [applyEvent, bind_eq_ok, pure_eq_ok] at h
    obtain ⟨db', h1, rfl⟩ := h
    exact processConsensusItem_ledgerStep hwf h1
  | input txid i =>
    simp only [applyEvent, bind_eq_ok, pure_eq_ok] at h
    obtain ⟨r, h1, rfl⟩ := h
    exact processInput_ledgerStep h1
  | output txid o =>
    simp only [applyEvent, bind_eq_ok, pure_eq_ok] at h
    obtain ⟨r, h1, rfl⟩ := h
    exact processOutput_ledgerStep h1

theorem applyEvent_wf {C : Crypto} {cfg : StabilityPoolConfigConsensus} {st st' : Ledger}
    {e : Event} (hwf : Wf cfg st.db) (h : applyEvent C cfg st e = .ok st') : Wf cfg st'.db := by
  cases e with
  | consensusItem peerId item =>
    simp only [applyEvent, bind_eq_ok, pure_eq_ok] at h
    obtain ⟨db', h1, rfl⟩ := h
    exact processConsensusItem_wf hwf h1
  | input txid i =>
    simp only [applyEvent, bind_eq_ok, pure_eq_ok] at h
    obtain ⟨r, h1, rfl⟩ := h
    exact processInput_wf hwf h1
  | output txid o =>
    simp only [applyEvent, bind_eq_ok, pure_eq_ok] at h
    obtain ⟨r, h1, rfl⟩ := h
    exact processOutput_wf hwf h1

/-! ## Runs -/

/-- The history is the book of `log`, whose credits and debits make up what is staged. -/
structure LedgerInv (cfg : StabilityPoolConfigConsensus) (db : Db) (log : List Posting) : Prop where
  wf : Wf cfg db
  records : Records db.accountHistory log
  balance : ∀ w, db.stagedWeight w + postedWeight AccountHistoryItemKind.stagedDebit w log =
    postedWeight AccountHistoryItemKind.stagedCredit w log

theorem ledgerInv_initial (cfg : StabilityPoolConfigConsensus) : LedgerInv cfg Db.initial [] where
  wf := wf_initial cfg
  records := records_empty
  balance _ := rfl

theorem LedgerInv.step {cfg : StabilityPoolConfigConsensus} {db db' : Db} {log : List Posting}
    (h : LedgerInv cfg db log) (hwf : Wf cfg db') (hstep : LedgerStep db db') :
    ∃ log', LedgerInv cfg db' (log ++ log') := by
  obtain ⟨log', hlog, hw⟩ := hstep
  refine ⟨log', hwf, ?_, fun w => ?_⟩
  · rw [hlog]
    exact records_postAll h.records log'
  · have h1 := h.balance w
    have h2 := hw w
    rw [postedWeight_append, postedWeight_append]
    omega

/-- Along a run the log only grows. -/
theorem run_ledgerInv {C : Crypto} {cfg : StabilityPoolConfigConsensus} :
    ∀ {evs : List Event} {st st' : Ledger} {log : List Posting}, LedgerInv cfg st.db log →
      run (applyEvent C cfg) st evs = .ok st' → ∃ log', LedgerInv cfg st'.db (log ++ log')
  | [], st, st', log, hinv, h => by
    cases h
    exact ⟨[], by rwa [List.append_nil]⟩
  | e :: evs, st, st', log, hinv, h => by
    obtain ⟨st1, h1, h2⟩ := run_cons.mp h
    obtain ⟨log1, hinv1⟩ := hinv.step (applyEvent_wf hinv.wf h1) (applyEvent_ledgerStep hinv.wf h1)
    obtain ⟨log2, hinv2⟩ := run_ledgerInv hinv1 h2
    exact ⟨log1 ++ log2, by rwa [← List.append_assoc]⟩

/-- Amount staged by an account under a sequence. -/
def Db.stagedUnder (db : Db) (a : AccountId) (sequence : ℕ) : ℕ :=
  weigh (atSequence sequence) (db.stagedSeeks.getD a []) +
    weigh (atSequence sequence) (db.stagedProvides.getD a [])

/-- Amount of an account's history items of some kinds and one sequence. -/
def historySum (kinds : AccountHistoryItemKind → Bool) (sequence : ℕ) (items : List AccountHistoryItem) :
    ℕ := ((items.filter fun i => kinds i.kind && decide (i.depositSequence = sequence)).map (·.amount)).sum

theorem LedgerInv.stagedUnder {cfg : StabilityPoolConfigConsensus} {db : Db} {log : List Posting}
    (h : LedgerInv cfg db log) (a : AccountId) (q : ℕ) :
    db.stagedUnder a q + historySum AccountHistoryItemKind.stagedDebit q (accountHistoryItems db a) =
      historySum AccountHistoryItemKind.stagedCredit q (accountHistoryItems db a) := by
  have hb := h.balance (atDeposit a q)
  rw [postedWeight_atDeposit, postedWeight_atDeposit, ← h.records.values a] at hb
  rw [Db.stagedWeight, tableWeight_atDeposit, tableWeight_atDeposit] at hb
  exact hb

theorem LedgerInv.serials {cfg : StabilityPoolConfigConsensus} {db : Db} {log : List Posting}
    (h : LedgerInv cfg db log) (a : AccountId) :
    (db.accountHistory.getD a .empty).keys = List.range (accountHistoryCount db a) := by
  have hn := h.records a
  rw [accountHistoryCount_eq, hn.nextSerial, BTreeMap.keys, hn]
  apply List.ext_getElem <;> simp

/-- The history is a faithful, gapless, append-only ledger of what is staged. -/
theorem account_history_ledger {C : Crypto} {cfg : StabilityPoolConfigConsensus} {evs : List Event}
    {st : Ledger} (h : runEvents C cfg evs = .ok st) :
    (∀ a q, st.db.stagedUnder a q +
        historySum AccountHistoryItemKind.stagedDebit q (accountHistoryItems st.db a) =
      historySum AccountHistoryItemKind.stagedCredit q (accountHistoryItems st.db a)) ∧
    (∀ a, (st.db.accountHistory.getD a .empty).keys = List.range (accountHistoryCount st.db a)) ∧
    ∀ evs' st', run (applyEvent C cfg) st evs' = .ok st' → ∀ a i item,
      (st.db.accountHistory.getD a .empty).get? i = some item →
        (st'.db.accountHistory.getD a .empty).get? i = some item := by
  obtain ⟨log, hinv⟩ := run_ledgerInv (ledgerInv_initial cfg) h
  refine ⟨hinv.stagedUnder, hinv.serials, fun evs' st' h' a i item hitem => ?_⟩
  obtain ⟨log', hinv'⟩ := run_ledgerInv hinv h'
  rw [hinv.records.get?] at hitem
  rw [hinv'.records.get?, itemsOf_append, List.getElem?_append_left]
  · exact hitem
  · exact (List.getElem?_eq_some_iff.mp hitem).1

theorem account_history_ledger_demo : ∃ st, runEvents demoCrypto demoConfig demoOpening = .ok st ∧
    (accountHistoryItems st.db (demoSeeker.id demoCrypto)).length = 2 ∧
    st.db.stagedUnder (demoSeeker.id demoCrypto) 0 +
        historySum AccountHistoryItemKind.stagedDebit 0
          (accountHistoryItems st.db (demoSeeker.id demoCrypto)) =
      historySum AccountHistoryItemKind.stagedCredit 0
        (accountHistoryItems st.db (demoSeeker.id demoCrypto)) := by
  have hrun : ((runEvents demoCrypto demoConfig demoOpening).map fun st =>
      (accountHistoryItems st.db (demoSeeker.id demoCrypto)).length).toOption = some 2 := by
    decide +kernel
  cases h : runEvents demoCrypto demoConfig demoOpening with
  | error e =>
    rw [h] at hrun
    cases hrun
  | ok st =>
    rw [h] at hrun
    exact ⟨st, rfl, Option.some.inj hrun, (account_history_ledger h).1 _ 0⟩

end StabilityPool
