import Fedi.StabilityPool.Commits

/-!
# Every deposit was opened by a row

A deposit that may be locked came into its account by a row of its transaction: a deposit to the
staged list, or a transfer in.  Later changes of locks are posted under the same transaction, so
a `StagedToLocked` row is never the first of its transaction:

    runCommits C cfg cs = .ok st → st.db.Opened        (runCommits_opened)

The median vote never makes a price of zero (`effectivePrice`), and so every row has a price.
-/

namespace StabilityPool

open BTreeMaps KeyedLogs Runs

/-! ## Rows that open -/

/-- A deposit that may be locked came in. -/
def AccountHistoryItemKind.Opens (kind : AccountHistoryItemKind) : Prop :=
  kind = .depositToStaged ∨ kind.transferIn?.isSome

/-- A row of the transaction opened a deposit. -/
def OpenedIn (rows : List AccountHistoryItem) (txid : TransactionId) : Prop :=
  ∃ row ∈ rows, row.txid = txid ∧ row.kind.Opens

theorem OpenedIn.append {rows : List AccountHistoryItem} {txid : TransactionId} (h : OpenedIn rows txid)
    (news : List AccountHistoryItem) : OpenedIn (rows ++ news) txid := by
  obtain ⟨row, hrow, hopens⟩ := h
  exact ⟨row, List.mem_append_left _ hrow, hopens⟩

/-- What is locked was opened before. -/
def LocksOpened (rows : List AccountHistoryItem) : Prop :=
  ∀ before row after, rows = before ++ row :: after → row.kind = .stagedToLocked → OpenedIn before row.txid

theorem locksOpened_nil : LocksOpened [] := by
  intro before row after h
  cases before <;> cases h

theorem LocksOpened.append {rows news : List AccountHistoryItem} (h : LocksOpened rows)
    (hnews : ∀ row ∈ news, row.kind = .stagedToLocked → OpenedIn rows row.txid) : LocksOpened (rows ++ news) := by
  intro before row after heq hkind
  rcases List.append_eq_append_iff.mp heq with ⟨middle, hbefore, hmiddle⟩ | ⟨middle, hrows, hmiddle⟩
  · -- the row is new
    rw [hbefore]
    refine OpenedIn.append (hnews row ?_ hkind) middle
    rw [hmiddle]
    exact List.mem_append_right _ List.mem_cons_self
  · cases middle with
    | nil =>
      rw [List.append_nil] at hrows
      rw [← hrows]
      refine hnews row ?_ hkind
      rw [List.nil_append] at hmiddle
      rw [← hmiddle]
      exact List.mem_cons_self
    | cons first middle =>
      rw [List.cons_append] at hmiddle
      obtain ⟨hfirst, -⟩ := List.cons.inj hmiddle
      rw [← hfirst] at hrows
      exact h before row middle hrows hkind

/-- Deposits and locks are opened by rows, and cycles and rows have prices. -/
structure Db.Opened (db : Db) : Prop where
  posted : db.Posted
  price : ∀ cycle, db.currentCycle = some cycle → cycle.startPrice ≠ 0
  rows : ∀ a, ∀ row ∈ db.history a, row.cycle.startPrice ≠ 0 ∧ db.currentCycle ≠ none
  deposits : ∀ s a x, a.accType ≠ .btcDepositor → db.Holds s a x → OpenedIn (db.history a) x.1
  locks : ∀ a, LocksOpened (db.history a)

theorem opened_initial : Db.initial.Opened where
  posted := posted_initial
  price := fun cycle h => by cases h
  rows := fun a row h => by cases h
  deposits := by
    intro s a x _ h
    rcases h with h | h <;> cases s <;> cases h
  locks := fun a => locksOpened_nil

/-! ## Steps -/

/-- What one event does to the deposits, and the rows it posts. -/
structure OpeningStep (db db' : Db) (log : List Posting) : Prop where
  price : ∀ cycle, db'.currentCycle = some cycle → cycle.startPrice ≠ 0
  started : db.currentCycle ≠ none → db'.currentCycle ≠ none
  history : db'.accountHistory = postAll db.accountHistory log
  rows : ∀ p ∈ log, p.2.cycle.startPrice ≠ 0 ∧ db'.currentCycle ≠ none
  locks : ∀ p ∈ log, p.2.kind = .stagedToLocked → p.1.accType ≠ .btcDepositor ∧
    ∃ (s : Side) (x : TransactionId × ℕ × s.Meta), db.Holds s p.1 x ∧ x.1 = p.2.txid
  deposits : ∀ s a x, a.accType ≠ .btcDepositor → db'.Holds s a x →
    db.Holds s a x ∨ ∃ p ∈ log, p.1 = a ∧ p.2.txid = x.1 ∧ p.2.kind.Opens

/-- A step keeps the invariant. -/
theorem OpeningStep.opened {db db' : Db} {log : List Posting} (h : OpeningStep db db' log) (hdb : db.Opened) :
    db'.Opened := by
  have hposts : PostsOnly (· ∈ log) db db' := ⟨log, h.history, fun p hp => hp⟩
  obtain ⟨old, hold⟩ := hdb.posted
  have hhistory : ∀ a, db'.history a = db.history a ++ itemsOf a log := by
    intro a
    unfold Db.history
    rw [h.history, (records_postAll hold log).values, hold.values, itemsOf_append]
  constructor
  · exact hposts.posted hdb.posted
  · exact h.price
  · intro a row hrow
    rw [hhistory] at hrow
    rcases List.mem_append.mp hrow with hrow | hrow
    · obtain ⟨hprice, hcycle⟩ := hdb.rows a row hrow
      exact ⟨hprice, h.started hcycle⟩
    · exact h.rows (a, row) (mem_itemsOf.mp hrow)
  · intro s a x ha hx
    rw [hhistory]
    rcases h.deposits s a x ha hx with hx | ⟨p, hp, hpa, htxid, hopens⟩
    · exact (hdb.deposits s a x ha hx).append _
    · refine ⟨p.2, List.mem_append_right _ (mem_itemsOf.mpr ?_), htxid, hopens⟩
      rw [← hpa]
      exact hp
  · intro a
    rw [hhistory]
    refine (hdb.locks a).append fun row hrow hkind => ?_
    obtain ⟨ha, s, x, hx, htxid⟩ := h.locks (a, row) (mem_itemsOf.mp hrow) hkind
    rw [← htxid]
    exact hdb.deposits s a x ha hx

section

variable {db db' : Db} {txid : TransactionId}

/-- A step that leaves deposits, cycle and history as they are. -/
theorem openingStep_of_eq (hdb : db.Opened) (hstaged : ∀ s, db'.staged s = db.staged s)
    (hcurrent : db'.currentCycle = db.currentCycle) (hhistory : db'.accountHistory = db.accountHistory) :
    OpeningStep db db' [] where
  price := fun cycle hc => hdb.price cycle (hcurrent ▸ hc)
  started := fun hc => hcurrent ▸ hc
  history := hhistory
  rows := fun p hp => by cases hp
  locks := fun p hp => by cases hp
  deposits := by
    intro s a x _ hx
    left
    rwa [Db.Holds, hstaged, Db.locked, hcurrent] at hx

/-- A move of an account, posted in the current cycle. -/
theorem AccountMove.openingStep {cycle : Cycle} {s : Side} {sender recipient : AccountId}
    {keptStaged drainedStaged newStaged keptLocked drainedLocked newLocked : List (Deposit s.Meta)} {credit : ℕ}
    {log : List Posting} (h : AccountMove db db' txid cycle s sender recipient keptStaged drainedStaged newStaged
      keptLocked drainedLocked newLocked credit log) (hdb : db.Opened)
    (hrows : ∀ p ∈ log, p.2.cycle = cycle.info ∧ p.2.kind ≠ .stagedToLocked)
    (hopens : recipient.accType ≠ .btcDepositor → ∀ d ∈ newStaged ++ newLocked,
      ∃ p ∈ log, p.1 = recipient ∧ p.2.txid = d.txid ∧ p.2.kind.Opens) : OpeningStep db db' log := by
  obtain ⟨t, ht, -⟩ := h.locked
  have hprice : cycle.startPrice ≠ 0 := hdb.price cycle h.current
  constructor
  · intro cycle' hc
    rw [ht] at hc
    cases hc
    cases s <;> exact hprice
  · intro _ hnone
    rw [ht] at hnone
    cases hnone
  · exact h.history
  · intro p hp
    rw [(hrows p hp).1, ht]
    exact ⟨hprice, fun hnone => by cases hnone⟩
  · intro p hp hkind
    exact absurd hkind (hrows p hp).2
  · intro s' a x ha hx
    rcases h.holds hx with hx | ⟨rfl, rfl, d, hd, rfl⟩
    · exact .inl hx
    · exact .inr (hopens ha d hd)

end

section

variable {C : Crypto} {cfg : StabilityPoolConfigConsensus} {db db' : Db} {txid : TransactionId}

theorem processInput_openingStep {i : StabilityPoolInput} {r : Db × InputMeta} (hdb : db.Opened)
    (h : processInput C db txid i = .ok r) : ∃ log, OpeningStep db r.1 log := by
  rcases processInput_ok h with ⟨u, -, hu⟩ | ⟨w, -, hw⟩
  · obtain ⟨cycle, kept, drained, hmove, -⟩ := processUnlockInput_ok hu
    refine ⟨_, hmove.openingStep hdb (fun p hp => ?_) fun _ d hd => by cases hd⟩
    simp only [List.mem_map] at hp
    obtain ⟨_, ⟨d, -, rfl⟩, rfl⟩ := hp
    exact ⟨rfl, fun hkind => by cases hkind⟩
  · obtain ⟨-, -, hr⟩ := processWithdrawalInput_ok hw
    rw [hr]
    exact ⟨[], openingStep_of_eq hdb (fun s => by cases s <;> rfl) rfl rfl⟩

theorem DepositStep.openingStep {r : OutputResult} (hdb : db.Opened) (h : DepositStep cfg db txid r) :
    ∃ log, OpeningStep db r.1 log := by
  obtain ⟨s, cycle, a, metadata, kind, hc, hallowed, -, hr⟩ := h
  obtain ⟨hcredit, hdebit⟩ := hallowed.credit
  rw [hr]
  refine ⟨_, (stageDeposit_move hc txid a r.2 metadata hcredit hdebit).openingStep hdb (fun p hp => ?_)
    fun ha d hd => ?_⟩
  · rw [List.mem_singleton.mp hp]
    refine ⟨rfl, ?_⟩
    show kind ≠ .stagedToLocked
    cases hallowed <;> exact fun hkind => by cases hkind
  · rw [List.append_nil, List.mem_singleton] at hd
    rw [hd]
    refine ⟨_, List.mem_singleton_self _, rfl, rfl, ?_⟩
    show kind.Opens
    cases hallowed with
    | seek => exact .inl rfl
    | btcBalance hbtc => exact absurd hbtc ha
    | provide => exact .inl rfl

theorem TransferStep.openingStep {signed : SignedTransferRequest} {s : Side} {cycle : Cycle} {metadata : s.Meta}
    {staged locked : TransferParts s.Meta} (hdb : db.Opened)
    (h : TransferStep C db txid signed s cycle metadata staged locked db') :
    OpeningStep db db' (transferLog C signed.transferRequest cycle.info txid staged locked) := by
  refine h.move.openingStep hdb (fun p hp => ?_) fun _ d hd => ?_
  · simp only [transferLog, transferOuts, transferIns, List.map_append, List.map_map, List.mem_append,
      List.mem_map] at hp
    rcases hp with (⟨d, -, rfl⟩ | ⟨d, -, rfl⟩) | (⟨d, -, rfl⟩ | ⟨d, -, rfl⟩) <;>
      exact ⟨rfl, fun hkind => by cases hkind⟩
  · -- a deposit that comes in has a row of its transaction
    have htxid : d.txid = txid := (h.move.fresh d hd).1
    rw [htxid]
    unfold transferLog transferIns
    rcases List.mem_append.mp hd with hd | hd
    · refine ⟨_, List.mem_append_right _ (List.mem_map_of_mem (List.mem_append_left _ (List.mem_map_of_mem hd))),
        rfl, rfl, .inr rfl⟩
    · refine ⟨_, List.mem_append_right _ (List.mem_map_of_mem (List.mem_append_right _ (List.mem_map_of_mem hd))),
        rfl, rfl, .inr rfl⟩

theorem processOutput_openingStep {o : StabilityPoolOutput} {r : OutputResult} (hdb : db.Opened)
    (h : processOutput C cfg db txid o = .ok r) : ∃ log, OpeningStep db r.1 log := by
  rcases processOutput_ok h with hdeposit | ⟨t, -, -, ht⟩
  · exact hdeposit.openingStep hdb
  · obtain ⟨-, -, cycle, s, metadata, staged, locked, -, -, -, hstep⟩ := processTransferOutput_ok ht
    exact ⟨_, hstep.openingStep hdb⟩

/-! ## Turnover -/

theorem effectivePrice_ne_zero {current : Option Cycle} {price newPrice : ℕ}
    (hcurrent : ∀ cycle, current = some cycle → cycle.startPrice ≠ 0)
    (h : effectivePrice current price = .ok newPrice) : newPrice ≠ 0 := by
  unfold effectivePrice at h
  split_ifs at h with hzero
  · cases hc : current with
    | none =>
      rw [hc] at h
      cases h
    | some cycle =>
      rw [hc] at h
      cases h
      exact hcurrent cycle hc
  · cases h
    exact hzero

/-- A lock that grew is one of the new locks, under the transaction of an old or a new one. -/
theorem lockPosting_stagedToLocked {M : Type} {info : CycleInfo} {k : AccountId ×ₗ ℕ} {o n : Option (Deposit M)}
    {p : Posting} (h : lockPosting info (k, o, n) = some p) (hkind : p.2.kind = .stagedToLocked) :
    ∃ d, n = some d ∧ ((∃ e, o = some e ∧ p.2.txid = e.txid) ∨ p.2.txid = d.txid) := by
  unfold lockPosting at h
  split_ifs at h with hless hmore
  · cases h
    cases hkind
  · cases h
    cases n with
    | none =>
      have hzero : stateAmount (none : Option (Deposit M)) = 0 := rfl
      have hlt : stateAmount o < stateAmount (none : Option (Deposit M)) := hmore
      omega
    | some d =>
      refine ⟨d, rfl, ?_⟩
      cases o with
      | none => exact .inr rfl
      | some e => exact .inl ⟨e, rfl, rfl⟩

theorem lockPosting_cycle {M : Type} {info : CycleInfo}
    {e : (AccountId ×ₗ ℕ) × (Option (Deposit M) × Option (Deposit M))} {p : Posting}
    (h : lockPosting info e = some p) : p.2.cycle = info := by
  unfold lockPosting at h
  split_ifs at h <;> cases h <;> rfl

section

variable {ratio : CollateralRatio} {info : CycleInfo} {middle : Db} {remaining : Locks} {log : List Posting}
  {seeks charged : List AccountSeek} {provides : List AccountProvide} {feeRate feePool : ℕ}

/-- Deposits behind a lock that grew were held before the turnover. -/
theorem TurnoverStep.holds_of_lock
    (h : TurnoverStep ratio db info db' middle remaining log seeks charged provides feeRate feePool) {s : Side}
    {p : Posting} {o n : Option (Deposit s.Meta)}
    (ho : ∀ d, o = some d → d ∈ (remaining.on s).getD p.1 [])
    (hn : ∀ d, n = some d → d.head ∈ heads ((middle.staged s).getD p.1 []))
    (hposting : lockPosting info (toLex (p.1, p.2.depositSequence), o, n) = some p)
    (hkind : p.2.kind = .stagedToLocked) :
    ∃ x : TransactionId × ℕ × s.Meta, db.Holds s p.1 x ∧ x.1 = p.2.txid := by
  obtain ⟨d, hd, htxid⟩ := lockPosting_stagedToLocked hposting hkind
  rcases htxid with ⟨e, he, htxid⟩ | htxid
  · refine ⟨e.head, .inr ((h.settled.heads_sublist s p.1).subset (List.mem_map_of_mem (ho e he))), htxid.symm⟩
  · exact ⟨d.head, h.settled.mem_staged (hn d hd), htxid.symm⟩

theorem TurnoverStep.openingStep (hwf : Wf cfg db) (hprice : info.startPrice ≠ 0)
    (h : TurnoverStep ratio db info db' middle remaining log seeks charged provides feeRate feePool) :
    OpeningStep db db' (turnoverLog info remaining log seeks provides) := by
  have hcurrent : ∃ cycle, db'.currentCycle = some cycle ∧ cycle.startPrice = info.startPrice :=
    ⟨_, h.written.current, rfl⟩
  obtain ⟨cycle, hcycle, hcyclePrice⟩ := hcurrent
  have hstarted : db'.currentCycle ≠ none := by
    rw [hcycle]
    exact fun hnone => by cases hnone
  -- the rows of a turnover are of the new cycle
  have hinfo : ∀ p ∈ turnoverLog info remaining log seeks provides, p.2.cycle = info := by
    intro p hp
    unfold turnoverLog at hp
    rcases List.mem_append.mp hp with hp | hp
    · exact (h.settled.log_mem p hp).2.1
    · rcases List.mem_append.mp hp with hp | hp
      · obtain ⟨o, n, -, -, hposting⟩ := mem_lockLog hp
        exact lockPosting_cycle hposting
      · obtain ⟨o, n, -, -, hposting⟩ := mem_lockLog hp
        exact lockPosting_cycle hposting
  constructor
  · intro cycle' hc
    rw [hcycle] at hc
    cases hc
    rw [hcyclePrice]
    exact hprice
  · exact fun _ => hstarted
  · exact h.history
  · intro p hp
    rw [hinfo p hp]
    exact ⟨hprice, hstarted⟩
  · intro p hp hkind
    unfold turnoverLog at hp
    rcases List.mem_append.mp hp with hp | hp
    · rw [(h.settled.log_mem p hp).1] at hkind
      cases hkind
    · rcases List.mem_append.mp hp with hp | hp
      · obtain ⟨o, n, ho, hn, hposting⟩ := mem_lockLog hp
        have hnew : ∀ d, n = some d → p.1.accType ≠ .btcDepositor ∧ d.head ∈ heads (middle.stagedSeeks.getD p.1 []) :=
          fun d hd => h.written.mem_seeks (mem_pairHeads.mpr ⟨d, (hn d hd).1, rfl⟩)
        obtain ⟨d, hd, -⟩ := lockPosting_stagedToLocked hposting hkind
        obtain ⟨x, hx⟩ := h.holds_of_lock (s := .seek) (fun d hd => (ho d hd).1) (fun d hd => (hnew d hd).2) hposting
          hkind
        exact ⟨(hnew d hd).1, .seek, x, hx⟩
      · obtain ⟨o, n, ho, hn, hposting⟩ := mem_lockLog hp
        have hnew : ∀ d, n = some d → d.head ∈ heads (middle.stagedProvides.getD p.1 []) :=
          fun d hd => h.written.mem_provides (mem_pairHeads.mpr ⟨d, (hn d hd).1, rfl⟩)
        obtain ⟨x, hx⟩ := h.holds_of_lock (s := .provide) (fun d hd => (ho d hd).1) hnew hposting hkind
        refine ⟨fun hbtc => ?_, .provide, x, hx⟩
        have hside := hwf.side .provide p.1 x hx.1
        rw [hbtc] at hside
        cases hside
  · intro s a x _ hx
    exact .inl (h.holds hx)

end

theorem processConsensusItem_openingStep {item : StabilityPoolConsensusItem} {peerId : PeerId} (hwf : Wf cfg db)
    (hdb : db.Opened) (h : processConsensusItem cfg db item peerId = .ok db') : ∃ log, OpeningStep db db' log := by
  cases processConsensusItem_ok h with
  | version version => exact ⟨[], openingStep_of_eq hdb (fun s => by cases s <;> rfl) rfl rfl⟩
  | vote vote => exact ⟨[], openingStep_of_eq hdb (fun s => by cases s <;> rfl) rfl rfl⟩
  | turnover vote _ info _ hnext hfirst hmany hinfo hturn =>
    obtain ⟨price, -, heffective⟩ := hinfo.price
    obtain ⟨_, _, _, _, _, _, _, _, hstep⟩ := turnover_ok hturn
    have hrecorded : Wf cfg (recordVote db peerId vote) := hwf.congr (fun s => by cases s <;> rfl) rfl rfl rfl
    have hopening := hstep.openingStep hrecorded (effectivePrice_ne_zero hdb.price heffective)
    exact ⟨_, hopening.price, hopening.started, hopening.history, hopening.rows, hopening.locks, hopening.deposits⟩

/-! ## Runs -/

theorem applyEvent_opened {st st' : Ledger} {e : Event} (h : applyEvent C cfg st e = .ok st')
    (hst : Wf cfg st.db ∧ st.db.Opened) : Wf cfg st'.db ∧ st'.db.Opened := by
  obtain ⟨hwf, hdb⟩ := hst
  cases e with
  | consensusItem peerId item =>
    simp only [applyEvent, bind_eq_ok, pure_eq_ok] at h
    obtain ⟨db', h1, rfl⟩ := h
    obtain ⟨log, hstep⟩ := processConsensusItem_openingStep hwf hdb h1
    exact ⟨processConsensusItem_wf hwf h1, hstep.opened hdb⟩
  | input txid i =>
    simp only [applyEvent, bind_eq_ok, pure_eq_ok] at h
    obtain ⟨r, h1, rfl⟩ := h
    obtain ⟨log, hstep⟩ := processInput_openingStep hdb h1
    exact ⟨processInput_wf hwf h1, hstep.opened hdb⟩
  | output txid o =>
    simp only [applyEvent, bind_eq_ok, pure_eq_ok] at h
    obtain ⟨r, h1, rfl⟩ := h
    obtain ⟨log, hstep⟩ := processOutput_openingStep hdb h1
    exact ⟨processOutput_wf hwf h1, hstep.opened hdb⟩

/-- At every moment of a run. -/
theorem runCommits_opened {cs : List Commit} {st : Ledger} (h : runCommits C cfg cs = .ok st) : st.db.Opened := by
  have hcommit : ∀ (st : Ledger) (c : Commit) (st' : Ledger), Wf cfg st.db ∧ st.db.Opened →
      applyCommit C cfg st c = .ok st' → Wf cfg st'.db ∧ st'.db.Opened :=
    fun st c st' hst hc => run_invariant (P := fun st : Ledger => Wf cfg st.db ∧ st.db.Opened)
      (fun _ _ _ hmid hstep => applyEvent_opened hstep hmid) hst hc
  exact (run_invariant (P := fun st : Ledger => Wf cfg st.db ∧ st.db.Opened) hcommit
    ⟨wf_initial cfg, opened_initial⟩ h).2

/-! ## Requests -/

/-- A pending request is of a transaction of the run. -/
theorem runCommits_requested {cs : List Commit} {st : Ledger} (h : runCommits C cfg cs = .ok st) {a : AccountId}
    {request : UnlockRequest} (hrequest : st.db.unlockRequests.get? a = some request) :
    request.txid ∈ cs.filterMap Commit.txid? := by
  by_contra hother
  have hspares := (run_commits_spares hother h (onlyPays_initial request.txid a).spares).1
  exact hspares.unrequested ⟨a, request, hrequest, rfl⟩

/-- Under a transaction that is over, rows of lock changes and of released locks may still come. -/
theorem run_commits_releases {txid : TransactionId} {cs : List Commit} (hcs : txid ∉ cs.filterMap Commit.txid?)
    {st st' : Ledger} (h : run (applyCommit C cfg) st cs = .ok st') :
    PostsOnly (fun p => p.2.txid = txid → p.2.kind.ChangesLock ∨ p.2.kind = .lockedToIdle) st.db st'.db := by
  refine run_commits_rel (R := fun st st' => PostsOnly
    (fun p => p.2.txid = txid → p.2.kind.ChangesLock ∨ p.2.kind = .lockedToIdle) st.db st'.db)
    (fun st => postsOnly_refl _ _) (fun _ _ _ => PostsOnly.trans) (fun st e st' he hstep => ?_) hcs h
  refine (applyEvent_postsOnly hstep).mono fun p hp htxid => ?_
  rcases hp with hown | hlock | ⟨hkind, -⟩
  · exact absurd (by rw [hown, htxid]) he
  · exact .inl hlock
  · exact .inr hkind

end

end StabilityPool
