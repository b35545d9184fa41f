import Fedi.StabilityPool.Releases

/-!
# What the federation commits at once

Fedimint commits a consensus item alone and a transaction with all its inputs and outputs, so an
answer of the server shows a database between two commits.  A transaction is accepted once: the
ids of the transactions of a run are distinct.

`received txid` folds the rows of an account into what the account received under one
transaction.  Transfer-in rows are posted by the outputs of their own transaction only, and so

    received txid (history before) = none ∨
      received txid (history before) = received txid (history after)      (received_at_once)

at every two moments of a run.
-/

namespace StabilityPool

open BTreeMaps KeyedLogs Runs

/-! ## Commits -/

inductive Commit where
  | consensusItem (peerId : PeerId) (item : StabilityPoolConsensusItem)
  | transaction (txid : TransactionId) (inputs : List StabilityPoolInput) (outputs : List StabilityPoolOutput)

def Commit.events : Commit → List Event
  | .consensusItem peerId item => [.consensusItem peerId item]
  | .transaction txid inputs outputs => inputs.map (.input txid) ++ outputs.map (.output txid)

def Commit.txid? : Commit → Option TransactionId
  | .consensusItem _ _ => none
  | .transaction txid _ _ => some txid

def applyCommit (C : Crypto) (cfg : StabilityPoolConfigConsensus) (st : Ledger) (c : Commit) : Res Ledger :=
  run (applyEvent C cfg) st c.events

/-- Run a sequence of commits from the fresh database. -/
def runCommits (C : Crypto) (cfg : StabilityPoolConfigConsensus) (cs : List Commit) : Res Ledger :=
  run (applyCommit C cfg) Ledger.initial cs

/-! ## Received transfers -/

/-- The sender and the metadata of a transfer-in row. -/
def AccountHistoryItemKind.transferIn? : AccountHistoryItemKind → Option (AccountId × List UInt8)
  | .stagedTransferIn sender metadata | .lockedTransferIn sender metadata => some (sender, metadata)
  | _ => none

/-- What an account received under a transaction. -/
structure ReceivedTransfer where
  cycle : CycleInfo
  amount : ℕ
  sender : AccountId
  metadata : List UInt8

/-- Transfer-in rows of the transaction add up; the last of them names cycle, sender and metadata. -/
def receive (txid : TransactionId) (r : Option ReceivedTransfer) (item : AccountHistoryItem) :
    Option ReceivedTransfer :=
  if item.txid = txid then
    match item.kind.transferIn? with
    | some (sender, metadata) =>
      some ⟨item.cycle, item.amount + (r.map ReceivedTransfer.amount).getD 0, sender, metadata⟩
    | none => r
  else r

def received (txid : TransactionId) (items : List AccountHistoryItem) : Option ReceivedTransfer :=
  items.foldl (receive txid) none

/-- The row is a transfer-in row of the transaction. -/
def AccountHistoryItem.Brings (item : AccountHistoryItem) (txid : TransactionId) : Prop :=
  item.txid = txid ∧ item.kind.transferIn?.isSome

theorem receive_of_not_brings {txid : TransactionId} {item : AccountHistoryItem} (h : ¬ item.Brings txid)
    (r : Option ReceivedTransfer) : receive txid r item = r := by
  unfold receive
  split
  next htxid =>
    cases hk : item.kind.transferIn? with
    | none => rfl
    | some p => exact absurd ⟨htxid, by rw [hk]; rfl⟩ h
  next => rfl

/-- Other rows leave what was received as it is. -/
theorem foldl_receive_of_not_brings {txid : TransactionId} {items : List AccountHistoryItem}
    (h : ∀ item ∈ items, ¬ item.Brings txid) (r : Option ReceivedTransfer) :
    items.foldl (receive txid) r = r := by
  induction items generalizing r with
  | nil => rfl
  | cons item items ih =>
    rw [List.foldl_cons, receive_of_not_brings (h item List.mem_cons_self)]
    exact ih (fun i hi => h i (List.mem_cons_of_mem _ hi)) r

theorem received_append_of_not_brings {txid : TransactionId} {items news : List AccountHistoryItem}
    (h : ∀ item ∈ news, ¬ item.Brings txid) : received txid (items ++ news) = received txid items := by
  unfold received
  rw [List.foldl_append]
  exact foldl_receive_of_not_brings h _

/-- Rows of one transfer: their amounts add up. -/
theorem foldl_receive_of_same {txid : TransactionId} {info : CycleInfo} {sender : AccountId}
    {metadata : List UInt8} {rows : List AccountHistoryItem}
    (h : ∀ row ∈ rows, row.txid = txid ∧ row.cycle = info ∧ row.kind.transferIn? = some (sender, metadata))
    (n : ℕ) :
    rows.foldl (receive txid) (some ⟨info, n, sender, metadata⟩) =
      some ⟨info, n + (rows.map AccountHistoryItem.amount).sum, sender, metadata⟩ := by
  induction rows generalizing n with
  | nil => rfl
  | cons row rows ih =>
    obtain ⟨htxid, hcycle, hkind⟩ := h row List.mem_cons_self
    have hrow : receive txid (some ⟨info, n, sender, metadata⟩) row =
        some ⟨info, n + row.amount, sender, metadata⟩ := by
      unfold receive
      rw [if_pos htxid, hkind, hcycle]
      show some (ReceivedTransfer.mk info (row.amount + n) sender metadata) = _
      rw [Nat.add_comm]
    rw [List.foldl_cons, hrow, ih (fun r hr => h r (List.mem_cons_of_mem _ hr)), List.map_cons, List.sum_cons,
      Nat.add_assoc]

theorem foldl_receive_none_of_same {txid : TransactionId} {info : CycleInfo} {sender : AccountId}
    {metadata : List UInt8} {rows : List AccountHistoryItem}
    (h : ∀ row ∈ rows, row.txid = txid ∧ row.cycle = info ∧ row.kind.transferIn? = some (sender, metadata)) :
    rows.foldl (receive txid) none =
      if rows = [] then none
      else some ⟨info, (rows.map AccountHistoryItem.amount).sum, sender, metadata⟩ := by
  cases rows with
  | nil => rfl
  | cons row rows =>
    obtain ⟨htxid, hcycle, hkind⟩ := h row List.mem_cons_self
    have hrow : receive txid none row = some ⟨info, row.amount, sender, metadata⟩ := by
      unfold receive
      rw [if_pos htxid, hkind, hcycle]
      rfl
    rw [List.foldl_cons, hrow, foldl_receive_of_same fun r hr => h r (List.mem_cons_of_mem _ hr)]
    simp

/-! ## Postings of a step -/

/-- Everything posted between the databases satisfies `P`. -/
def PostsOnly (P : Posting → Prop) (db db' : Db) : Prop :=
  ∃ log, db'.accountHistory = postAll db.accountHistory log ∧ ∀ p ∈ log, P p

section

variable {P Q : Posting → Prop} {db db' db'' : Db}

theorem postsOnly_refl (P : Posting → Prop) (db : Db) : PostsOnly P db db :=
  ⟨[], rfl, fun _ hp => (by cases hp)⟩

theorem PostsOnly.trans (h : PostsOnly P db db') (h' : PostsOnly P db' db'') : PostsOnly P db db'' := by
  obtain ⟨log, hlog, hp⟩ := h
  obtain ⟨log', hlog', hp'⟩ := h'
  refine ⟨log ++ log', by rw [hlog', hlog, postAll_append], fun p hmem => ?_⟩
  rcases List.mem_append.mp hmem with hmem | hmem
  · exact hp p hmem
  · exact hp' p hmem

theorem PostsOnly.mono (h : PostsOnly P db db') (himp : ∀ p, P p → Q p) : PostsOnly Q db db' := by
  obtain ⟨log, hlog, hp⟩ := h
  exact ⟨log, hlog, fun p hmem => himp p (hp p hmem)⟩

end

/-- Changes of the locks, which a turnover posts under the transaction of the deposit. -/
def AccountHistoryItemKind.ChangesLock (kind : AccountHistoryItemKind) : Prop :=
  kind = .stagedToLocked ∨ kind = .lockedToStaged

/-- What a step may post: rows of its own transaction, changes of locks, and releases of locks under
the transaction of a request. -/
def PostedBy (txid? : Option TransactionId) (db : Db) (p : Posting) : Prop :=
  txid? = some p.2.txid ∨ p.2.kind.ChangesLock ∨ p.2.kind = .lockedToIdle ∧ db.RequestsUnlock p.2.txid

def Event.txid? : Event → Option TransactionId
  | .consensusItem _ _ => none
  | .input txid _ => some txid
  | .output txid _ => some txid

section

variable {C : Crypto} {cfg : StabilityPoolConfigConsensus}

theorem lockPosting_changesLock {M : Type} {info : CycleInfo}
    {e : (AccountId ×ₗ ℕ) × (Option (Deposit M) × Option (Deposit M))} {p : Posting}
    (h : lockPosting info e = some p) : p.2.kind.ChangesLock := by
  unfold lockPosting at h
  split_ifs at h <;> cases h
  · exact .inr rfl
  · exact .inl rfl

theorem TurnoverStep.postsOnly {ratio : CollateralRatio} {db db' middle : Db} {info : CycleInfo} {remaining : Locks}
    {log : List Posting} {seeks charged : List AccountSeek} {provides : List AccountProvide} {feeRate feePool : ℕ}
    (h : TurnoverStep ratio db info db' middle remaining log seeks charged provides feeRate feePool) :
    PostsOnly (PostedBy none db) db db' := by
  refine ⟨_, h.history, fun p hp => ?_⟩
  unfold turnoverLog at hp
  rcases List.mem_append.mp hp with hp | hp
  · obtain ⟨hkind, -, -, req, hreq, htxid⟩ := h.settled.log_mem p hp
    exact .inr (.inr ⟨hkind, p.1, req, hreq, htxid.symm⟩)
  · rcases List.mem_append.mp hp with hp | hp
    · obtain ⟨o, n, -, -, hposting⟩ := mem_lockLog hp
      exact .inr (.inl (lockPosting_changesLock hposting))
    · obtain ⟨o, n, -, -, hposting⟩ := mem_lockLog hp
      exact .inr (.inl (lockPosting_changesLock hposting))

theorem processConsensusItem_postsOnly {db db' : Db} {item : StabilityPoolConsensusItem} {peerId : PeerId}
    (h : processConsensusItem cfg db item peerId = .ok db') : PostsOnly (PostedBy none db) db db' := by
  cases processConsensusItem_ok h with
  | version version => exact ⟨[], rfl, fun _ hp => (by cases hp)⟩
  | vote vote => exact ⟨[], rfl, fun _ hp => (by cases hp)⟩
  | turnover vote _ info _ hnext hfirst hmany hinfo hturn =>
    obtain ⟨_, _, _, _, _, _, _, _, hstep⟩ := turnover_ok hturn
    exact hstep.postsOnly

theorem processInput_postsOnly {db : Db} {txid : TransactionId} {i : StabilityPoolInput} {r : Db × InputMeta}
    (h : processInput C db txid i = .ok r) : PostsOnly (PostedBy (some txid) db) db r.1 := by
  rcases processInput_ok h with ⟨u, -, hu⟩ | ⟨w, -, hw⟩
  · obtain ⟨cycle, kept, drained, hmove, -⟩ := processUnlockInput_ok hu
    refine ⟨_, hmove.history, fun p hp => .inl ?_⟩
    simp only [List.mem_map] at hp
    obtain ⟨_, ⟨d, -, rfl⟩, rfl⟩ := hp
    rfl
  · obtain ⟨-, -, hr⟩ := processWithdrawalInput_ok hw
    rw [hr]
    exact ⟨[], rfl, fun _ hp => (by cases hp)⟩

/-- All rows of a transfer are of its transaction. -/
theorem mem_transferLog_txid {M : Type} {request : TransferRequest} {info : CycleInfo} {txid : TransactionId}
    {staged locked : TransferParts M} {p : Posting} (h : p ∈ transferLog C request info txid staged locked) :
    some txid = some p.2.txid := by
  simp only [transferLog, transferOuts, transferIns, List.map_append, List.map_map, List.mem_append,
    List.mem_map] at h
  rcases h with (⟨d, -, rfl⟩ | ⟨d, -, rfl⟩) | (⟨d, -, rfl⟩ | ⟨d, -, rfl⟩) <;> rfl

theorem processOutput_postsOnly {db : Db} {txid : TransactionId} {o : StabilityPoolOutput} {r : OutputResult}
    (h : processOutput C cfg db txid o = .ok r) : PostsOnly (PostedBy (some txid) db) db r.1 := by
  rcases processOutput_ok h with ⟨s, cycle, a, metadata, kind, -, -, -, hr⟩ | ⟨t, -, -, ht⟩
  · rw [hr, stageDeposit_eq]
    refine ⟨_, rfl, fun p hp => .inl ?_⟩
    rw [List.mem_singleton.mp hp]
    rfl
  · obtain ⟨-, -, cycle, s, metadata, staged, locked, -, -, -, hstep⟩ := processTransferOutput_ok ht
    exact ⟨_, hstep.move.history, fun p hp => .inl (mem_transferLog_txid hp)⟩

theorem applyEvent_postsOnly {st st' : Ledger} {e : Event} (h : applyEvent C cfg st e = .ok st') :
    PostsOnly (PostedBy e.txid? st.db) st.db st'.db := by
  cases e with
  | consensusItem peerId item =>
    simp only [applyEvent, bind_eq_ok, pure_eq_ok] at h
    obtain ⟨db', h1, rfl⟩ := h
    exact processConsensusItem_postsOnly h1
  | input txid i =>
    simp only [applyEvent, bind_eq_ok, pure_eq_ok] at h
    obtain ⟨r, h1, rfl⟩ := h
    exact processInput_postsOnly h1
  | output txid o =>
    simp only [applyEvent, bind_eq_ok, pure_eq_ok] at h
    obtain ⟨r, h1, rfl⟩ := h
    exact processOutput_postsOnly h1

theorem Commit.events_txid? (c : Commit) : ∀ e ∈ c.events, e.txid? = c.txid? := by
  intro e he
  cases c with
  | consensusItem peerId item =>
    rw [List.mem_singleton.mp he]
    rfl
  | transaction txid inputs outputs =>
    unfold Commit.events at he
    rcases List.mem_append.mp he with he | he
    · obtain ⟨i, -, rfl⟩ := List.mem_map.mp he
      rfl
    · obtain ⟨o, -, rfl⟩ := List.mem_map.mp he
      rfl

/-- What every event of other transactions respects, the commits without the transaction respect. -/
theorem run_commits_rel {R : Ledger → Ledger → Prop} {txid : TransactionId} (hrefl : ∀ st, R st st)
    (htrans : ∀ a b c, R a b → R b c → R a c)
    (hevent : ∀ st e st', e.txid? ≠ some txid → applyEvent C cfg st e = .ok st' → R st st') {cs : List Commit}
    (hcs : txid ∉ cs.filterMap Commit.txid?) {st st' : Ledger} (h : run (applyCommit C cfg) st cs = .ok st') :
    R st st' := by
  refine run_rel_of_mem (Q := fun c : Commit => c.txid? ≠ some txid) hrefl htrans (fun st c st' hc hstep => ?_)
    (fun c hmem hc => hcs (List.mem_filterMap.mpr ⟨c, hmem, hc⟩)) h
  refine run_rel_of_mem hrefl htrans hevent (fun e he => ?_) hstep
  rw [c.events_txid? e he]
  exact hc

/-- Commits without the transaction bring nothing in under it. -/
theorem run_commits_postsOnly {txid : TransactionId} {cs : List Commit} (hcs : txid ∉ cs.filterMap Commit.txid?)
    {st st' : Ledger} (h : run (applyCommit C cfg) st cs = .ok st') :
    PostsOnly (fun p => ¬ p.2.Brings txid) st.db st'.db := by
  refine run_commits_rel (R := fun st st' => PostsOnly (fun p => ¬ p.2.Brings txid) st.db st'.db)
    (fun st => postsOnly_refl _ _) (fun _ _ _ => PostsOnly.trans) (fun st e st' he hstep => ?_) hcs h
  refine (applyEvent_postsOnly hstep).mono fun p hp => ?_
  rintro ⟨htxid, hsome⟩
  rcases hp with hown | (hkind | hkind) | ⟨hkind, -⟩
  · exact he (by rw [hown, htxid])
  · rw [hkind] at hsome
    cases hsome
  · rw [hkind] at hsome
    cases hsome
  · rw [hkind] at hsome
    cases hsome

/-- Under a transaction that spares the locks, other commits post nothing but changes of locks. -/
theorem run_commits_spares {txid : TransactionId} {cs : List Commit} (hcs : txid ∉ cs.filterMap Commit.txid?)
    {st st' : Ledger} (h : run (applyCommit C cfg) st cs = .ok st') (hspares : st.db.SparesLocks txid) :
    st'.db.SparesLocks txid ∧ PostsOnly (fun p => p.2.txid = txid → p.2.kind.ChangesLock) st.db st'.db := by
  refine run_commits_rel (R := fun st st' => st.db.SparesLocks txid →
      st'.db.SparesLocks txid ∧ PostsOnly (fun p => p.2.txid = txid → p.2.kind.ChangesLock) st.db st'.db)
    (fun st hst => ⟨hst, postsOnly_refl _ _⟩) ?_ (fun st e st' he hstep hst => ?_) hcs h hspares
  · intro a b c hab hbc ha
    obtain ⟨hb, hposts⟩ := hab ha
    obtain ⟨hc, hposts'⟩ := hbc hb
    exact ⟨hc, hposts.trans hposts'⟩
  · have hother : ¬ e.Unlocks txid := by
      rintro ⟨unlock, rfl⟩
      exact he rfl
    refine ⟨applyEvent_sparesLocks hstep hst hother, (applyEvent_postsOnly hstep).mono fun p hp htxid => ?_⟩
    rcases hp with hown | hlock | ⟨-, hrequest⟩
    · exact absurd (by rw [hown, htxid]) he
    · exact hlock
    · rw [htxid] at hrequest
      exact absurd hrequest hst.unrequested

/-! ## The history of an account -/

/-- The rows of an account. -/
def Db.history (db : Db) (a : AccountId) : List AccountHistoryItem := (db.accountHistory.getD a .empty).values

/-- The history is a book of postings. -/
def Db.Posted (db : Db) : Prop := ∃ log, Records db.accountHistory log

theorem PostsOnly.posted {P : Posting → Prop} {db db' : Db} (h : PostsOnly P db db') (hposted : db.Posted) :
    db'.Posted := by
  obtain ⟨log, hlog⟩ := hposted
  obtain ⟨log', heq, -⟩ := h
  exact ⟨log ++ log', by rw [heq]; exact records_postAll hlog log'⟩

theorem Db.Posted.numbered {db : Db} (h : db.Posted) (a : AccountId) :
    Numbered (db.accountHistory.getD a .empty) (db.history a) := by
  obtain ⟨log, hlog⟩ := h
  unfold Db.history
  rw [hlog.values]
  exact hlog a

/-- New rows come after the old ones. -/
theorem PostsOnly.history {P : Posting → Prop} {db db' : Db} (h : PostsOnly P db db') (hposted : db.Posted)
    (a : AccountId) : ∃ news, db'.history a = db.history a ++ news ∧ ∀ item ∈ news, P (a, item) := by
  obtain ⟨log, hlog⟩ := hposted
  obtain ⟨log', heq, hP⟩ := h
  refine ⟨itemsOf a log', ?_, fun item hitem => hP _ (mem_itemsOf.mp hitem)⟩
  have hafter := records_postAll hlog log'
  unfold Db.history
  rw [heq, hafter.values, hlog.values, itemsOf_append]

theorem posted_initial : Db.initial.Posted := ⟨[], records_empty⟩

/-- A commit posts. -/
theorem applyCommit_postsOnly {st st' : Ledger} {c : Commit} (h : applyCommit C cfg st c = .ok st') :
    PostsOnly (fun _ => True) st.db st'.db :=
  run_rel (R := fun st st' : Ledger => PostsOnly (fun _ => True) st.db st'.db) (fun _ => postsOnly_refl _ _)
    (fun _ _ _ => PostsOnly.trans) (fun _ _ _ hstep => (applyEvent_postsOnly hstep).mono fun _ _ => trivial) h

theorem run_commits_posted {cs : List Commit} {st st' : Ledger} (h : run (applyCommit C cfg) st cs = .ok st')
    (hposted : st.db.Posted) : st'.db.Posted :=
  run_invariant (P := fun st => st.db.Posted) (fun _ _ _ hst hc => (applyCommit_postsOnly hc).posted hst) hposted h

theorem runCommits_posted {cs : List Commit} {st : Ledger} (h : runCommits C cfg cs = .ok st) : st.db.Posted :=
  run_commits_posted h posted_initial

/-- The history of an account only grows. -/
theorem run_commits_history {cs : List Commit} {st st' : Ledger} (h : run (applyCommit C cfg) st cs = .ok st')
    (hposted : st.db.Posted) (a : AccountId) : st.db.history a <+: st'.db.history a := by
  induction cs generalizing st with
  | nil =>
    cases h
    exact List.prefix_rfl
  | cons c cs ih =>
    obtain ⟨s1, h1, h2⟩ := run_cons.mp h
    have hposts := applyCommit_postsOnly h1
    obtain ⟨news, hnews, -⟩ := hposts.history hposted a
    have hstep : st.db.history a <+: s1.db.history a := ⟨news, hnews.symm⟩
    exact hstep.trans (ih h2 (hposts.posted hposted))

/-- Commits without the transaction do not change what it brought. -/
theorem received_of_other_commits {txid : TransactionId} {cs : List Commit}
    (hcs : txid ∉ cs.filterMap Commit.txid?) {st st' : Ledger} (h : run (applyCommit C cfg) st cs = .ok st')
    (hposted : st.db.Posted) (a : AccountId) :
    received txid (st'.db.history a) = received txid (st.db.history a) := by
  obtain ⟨news, hnews, hbrings⟩ := (run_commits_postsOnly hcs h).history hposted a
  rw [hnews]
  exact received_append_of_not_brings hbrings

/-- A transaction is accepted once. -/
theorem accepted_once {before after : List Commit} {c : Commit} {txid : TransactionId}
    (hids : ((before ++ c :: after).filterMap Commit.txid?).Nodup) (hc : c.txid? = some txid) :
    txid ∉ before.filterMap Commit.txid? ∧ txid ∉ after.filterMap Commit.txid? := by
  rw [List.filterMap_append, List.filterMap_cons_some hc] at hids
  have hnot := (List.nodup_cons.mp (List.nodup_middle.mp hids)).1
  rwa [List.mem_append, not_or] at hnot

/-- What a transaction brings an account comes in one commit. -/
theorem received_at_once {before after : List Commit} {st st' : Ledger}
    (hids : ((before ++ after).filterMap Commit.txid?).Nodup) (h : runCommits C cfg before = .ok st)
    (h' : run (applyCommit C cfg) st after = .ok st') (a : AccountId) (txid : TransactionId) :
    received txid (st.db.history a) = none ∨
      received txid (st.db.history a) = received txid (st'.db.history a) := by
  have hposted := runCommits_posted h
  by_cases hafter : txid ∈ after.filterMap Commit.txid?
  · -- the transaction is still to come
    rw [List.filterMap_append] at hids
    have hbefore : txid ∉ before.filterMap Commit.txid? :=
      fun hmem => (List.nodup_append.mp hids).2.2 txid hmem txid hafter rfl
    left
    rw [received_of_other_commits hbefore h posted_initial a]
    rfl
  · exact .inr (received_of_other_commits hafter h' hposted a).symm

/-! ## A transaction that is one transfer -/

theorem transferOnSide_converts {s : Side} {db : Db} {txid : TransactionId} {signed : SignedTransferRequest}
    {cycle : Cycle} {metadata : s.Meta} {r : OutputResult}
    (h : transferOnSide C s db txid signed cycle metadata = .ok r) :
    ∃ total, FiatAmount.toBtcAmount signed.transferRequest.transferAmount cycle.startPrice = .ok total := by
  obtain ⟨u, hu, -⟩ := bind_eq_ok.mp h
  simp only [processTransferOutputInner, bind_eq_ok, mapErr_eq_ok] at hu
  obtain ⟨_, -, db1, -, total, htotal, -⟩ := hu
  exact ⟨total, htotal⟩

/-- The amount of an accepted transfer has a value in msats. -/
theorem processTransferOutput_converts {db : Db} {txid : TransactionId} {t : TransferOutput} {r : OutputResult}
    {cycle : Cycle} (hc : db.currentCycle = some cycle) (h : processTransferOutput C cfg db txid t = .ok r) :
    FiatAmount.toBtcAmount t.signedRequest.transferRequest.transferAmount cycle.startPrice =
      .ok (transferTotal t.signedRequest.transferRequest cycle) := by
  have hsome : ∃ total, FiatAmount.toBtcAmount t.signedRequest.transferRequest.transferAmount cycle.startPrice =
      .ok total := by
    simp only [processTransferOutput, hc] at h
    split_ifs at h with htype hexpired
    cases hsender : t.signedRequest.transferRequest.sender.accType with
    | seeker =>
      rw [hsender] at h
      exact transferOnSide_converts h
    | btcDepositor =>
      rw [hsender] at h
      exact transferOnSide_converts h
    | provider =>
      rw [hsender] at h
      cases hfee : t.signedRequest.transferRequest.newFeeRate with
      | none =>
        rw [hfee] at h
        cases h
      | some fee =>
        rw [hfee] at h
        dsimp only at h
        split_ifs at h
        exact transferOnSide_converts h
  obtain ⟨total, htotal⟩ := hsome
  rw [htotal]
  simp only [FiatAmount.toBtcAmount, divP, tryIntoU64, bind_eq_ok] at htotal
  obtain ⟨msats, hmsats, htotal⟩ := htotal
  split_ifs at hmsats htotal
  cases hmsats
  cases htotal
  rfl

/-- The rows of the receiver are of the transfer and add up to its amount. -/
theorem transferIns_rows {M : Type} (request : TransferRequest) (info : CycleInfo) (txid : TransactionId)
    (staged locked : TransferParts M) :
    (∀ row ∈ transferIns C request info txid staged locked, row.txid = txid ∧ row.cycle = info ∧
        row.kind.transferIn? = some (request.sender.id C, request.metadata)) ∧
      ((transferIns C request info txid staged locked).map AccountHistoryItem.amount).sum =
        amountSum staged.incoming + amountSum locked.incoming := by
  constructor
  · intro row hrow
    rcases List.mem_append.mp hrow with hrow | hrow
    · obtain ⟨d, -, rfl⟩ := List.mem_map.mp hrow
      exact ⟨rfl, rfl, rfl⟩
    · obtain ⟨d, -, rfl⟩ := List.mem_map.mp hrow
      exact ⟨rfl, rfl, rfl⟩
  · unfold transferIns
    rw [List.map_append, List.sum_append, List.map_map, List.map_map]
    rfl

theorem TransferStep.history_recipient {db db' : Db} {txid : TransactionId} {signed : SignedTransferRequest}
    {s : Side} {cycle : Cycle} {metadata : s.Meta} {staged locked : TransferParts s.Meta}
    (h : TransferStep C db txid signed s cycle metadata staged locked db') (hposted : db.Posted)
    (hne : signed.transferRequest.sender.id C ≠ signed.transferRequest.recipient) :
    db'.history signed.transferRequest.recipient = db.history signed.transferRequest.recipient ++
      transferIns C signed.transferRequest cycle.info txid staged locked := by
  obtain ⟨log, hlog⟩ := hposted
  unfold Db.history
  rw [h.move.history, (records_postAll hlog _).values, hlog.values, itemsOf_append, transferLog, itemsOf_append,
    itemsOf_map_ne hne, itemsOf_map_self, List.nil_append]

/-- What the receiver of a transfer has received, staged and locked parts together. -/
theorem TransferStep.received {db db' : Db} {txid : TransactionId} {signed : SignedTransferRequest} {s : Side}
    {cycle : Cycle} {metadata : s.Meta} {staged locked : TransferParts s.Meta}
    (h : TransferStep C db txid signed s cycle metadata staged locked db') (hposted : db.Posted)
    (hne : signed.transferRequest.sender.id C ≠ signed.transferRequest.recipient)
    (hbefore : received txid (db.history signed.transferRequest.recipient) = none) :
    received txid (db'.history signed.transferRequest.recipient) =
      if transferTotal signed.transferRequest cycle = 0 then none
      else some ⟨cycle.info, transferTotal signed.transferRequest cycle, signed.transferRequest.sender.id C,
        signed.transferRequest.metadata⟩ := by
  obtain ⟨hrows, hsum⟩ := transferIns_rows (C := C) signed.transferRequest cycle.info txid staged locked
  -- what is left after the staged part is covered by the locks
  have htotal : amountSum staged.incoming + amountSum locked.incoming = transferTotal signed.transferRequest cycle := by
    have hcovered := h.covered
    have hstaged : amountSum staged.incoming = amountSum staged.drained := by
      rw [h.staged_eq]
      exact transferPart_amountSum _ _ _ _ _
    have hdrained : amountSum staged.drained = min (transferTotal signed.transferRequest cycle)
        (amountSum ((db.staged s).getD (signed.transferRequest.sender.id C) [])) := by
      rw [h.staged_eq]
      exact transferPart_drained_sum _ _ _ _ _
    have hlocked : amountSum locked.incoming = min (transferTotal signed.transferRequest cycle - amountSum staged.drained)
        (amountSum ((cycle.locked s).getD (signed.transferRequest.sender.id C) [])) := by
      rw [h.locked_eq, transferPart_amountSum]
      exact transferPart_drained_sum _ _ _ _ _
    omega
  rw [htotal] at hsum
  have hempty : transferIns C signed.transferRequest cycle.info txid staged locked = [] ↔
      transferTotal signed.transferRequest cycle = 0 := by
    constructor
    · intro hnil
      rw [← hsum, hnil]
      rfl
    · intro hzero
      have hstaged : staged.incoming = [] := by
        rw [h.staged_eq, hzero]
        unfold transferPart
        rw [drainInReverse_zero]
        rfl
      have hlocked : locked.incoming = [] := by
        rw [h.locked_eq, hzero, Nat.zero_sub]
        unfold transferPart
        rw [drainInReverse_zero]
        rfl
      unfold transferIns
      rw [hstaged, hlocked]
      rfl
  rw [h.history_recipient hposted hne]
  unfold StabilityPool.received at hbefore ⊢
  rw [List.foldl_append, hbefore, foldl_receive_none_of_same hrows, hsum]
  simp only [hempty]

/-- A transaction that is one transfer to another account, at the current cycle's price. -/
theorem applyCommit_transfer_received {st st' : Ledger} {txid : TransactionId} {signed : SignedTransferRequest}
    (h : applyCommit C cfg st (.transaction txid [] [.v0 (.transfer ⟨signed⟩)]) = .ok st')
    (hposted : st.db.Posted) (hne : signed.transferRequest.sender.id C ≠ signed.transferRequest.recipient)
    (hbefore : received txid (st.db.history signed.transferRequest.recipient) = none) :
    ∃ cycle, st.db.currentCycle = some cycle ∧ cycle.startPrice ≠ 0 ∧
      FiatAmount.toBtcAmount signed.transferRequest.transferAmount cycle.startPrice =
        .ok (transferTotal signed.transferRequest cycle) ∧
      received txid (st'.db.history signed.transferRequest.recipient) =
        if transferTotal signed.transferRequest cycle = 0 then none
        else some ⟨cycle.info, transferTotal signed.transferRequest cycle, signed.transferRequest.sender.id C,
          signed.transferRequest.metadata⟩ := by
  obtain ⟨s1, h1, h2⟩ := run_cons.mp h
  cases h2
  simp only [applyEvent, bind_eq_ok, pure_eq_ok] at h1
  obtain ⟨r, hr, rfl⟩ := h1
  obtain ⟨-, ht⟩ := processOutput_transfer_ok (.inl rfl) hr
  obtain ⟨-, -, cycle, s, metadata, staged, locked, -, -, -, hstep⟩ := processTransferOutput_ok ht
  exact ⟨cycle, hstep.move.current, hstep.price, processTransferOutput_converts hstep.move.current ht,
    hstep.received hposted hne hbefore⟩

/-! ## The rows under a transfer -/

/-- Under the transaction the rows are transfer-ins and changes of locks. -/
def OnlyBrings (txid : TransactionId) (rows : List AccountHistoryItem) : Prop :=
  ∀ item ∈ rows, item.txid = txid → item.kind.transferIn?.isSome ∨ item.kind.ChangesLock

theorem OnlyBrings.append {txid : TransactionId} {rows news : List AccountHistoryItem} (h : OnlyBrings txid rows)
    (hnews : ∀ item ∈ news, item.txid = txid → item.kind.transferIn?.isSome ∨ item.kind.ChangesLock) :
    OnlyBrings txid (rows ++ news) := by
  intro item hitem htxid
  rcases List.mem_append.mp hitem with hitem | hitem
  · exact h item hitem htxid
  · exact hnews item hitem htxid

/-- A state in which the transaction has touched the account by transfers to it at most. -/
structure Db.OnlyPays (db : Db) (txid : TransactionId) (a : AccountId) : Prop where
  spares : db.SparesLocks txid
  rows : OnlyBrings txid (db.history a)

theorem onlyPays_initial (txid : TransactionId) (a : AccountId) : Db.initial.OnlyPays txid a where
  spares := by
    constructor
    · rintro ⟨a', req, hget, -⟩
      cases hget
    · rintro ⟨a', item, ⟨i, hget⟩, -⟩
      cases hget
  rows := fun item hitem => by cases hitem

theorem Db.OnlyPays.of_other_commits {txid : TransactionId} {a : AccountId} {cs : List Commit}
    (hcs : txid ∉ cs.filterMap Commit.txid?) {st st' : Ledger} (h : run (applyCommit C cfg) st cs = .ok st')
    (hposted : st.db.Posted) (hst : st.db.OnlyPays txid a) : st'.db.OnlyPays txid a := by
  obtain ⟨hspares, hposts⟩ := run_commits_spares hcs h hst.spares
  obtain ⟨news, hnews, hlocks⟩ := hposts.history hposted a
  refine ⟨hspares, ?_⟩
  rw [hnews]
  exact hst.rows.append fun item hitem htxid => .inr (hlocks item hitem htxid)

/-- The transfer itself. -/
theorem Db.OnlyPays.of_transfer {st st' : Ledger} {txid : TransactionId} {signed : SignedTransferRequest}
    (h : applyCommit C cfg st (.transaction txid [] [.v0 (.transfer ⟨signed⟩)]) = .ok st')
    (hposted : st.db.Posted) (hne : signed.transferRequest.sender.id C ≠ signed.transferRequest.recipient)
    (hst : st.db.OnlyPays txid signed.transferRequest.recipient) :
    st'.db.OnlyPays txid signed.transferRequest.recipient := by
  obtain ⟨s1, h1, h2⟩ := run_cons.mp h
  cases h2
  have hspares := applyEvent_sparesLocks h1 hst.spares (by rintro ⟨unlock, he⟩; cases he)
  simp only [applyEvent, bind_eq_ok, pure_eq_ok] at h1
  obtain ⟨r, hr, rfl⟩ := h1
  obtain ⟨-, ht⟩ := processOutput_transfer_ok (.inl rfl) hr
  obtain ⟨-, -, cycle, s, metadata, staged, locked, -, -, -, hstep⟩ := processTransferOutput_ok ht
  refine ⟨hspares, ?_⟩
  rw [hstep.history_recipient hposted hne]
  refine hst.rows.append fun item hitem _ => .inl ?_
  rw [((transferIns_rows _ _ _ _ _).1 item hitem).2.2]
  rfl

/-- At every moment of a run in which the transaction is that one transfer. -/
theorem runCommits_onlyPays {txid : TransactionId} {signed : SignedTransferRequest}
    (hne : signed.transferRequest.sender.id C ≠ signed.transferRequest.recipient) {cs : List Commit}
    (hids : (cs.filterMap Commit.txid?).Nodup)
    (honly : ∀ c ∈ cs, c.txid? = some txid → c = .transaction txid [] [.v0 (.transfer ⟨signed⟩)]) {st : Ledger}
    (h : runCommits C cfg cs = .ok st) : st.db.OnlyPays txid signed.transferRequest.recipient := by
  by_cases hmem : txid ∈ cs.filterMap Commit.txid?
  · obtain ⟨c, hc, hid⟩ := List.mem_filterMap.mp hmem
    obtain ⟨before, after, rfl⟩ := List.append_of_mem hc
    obtain ⟨hbefore, hafter⟩ := accepted_once hids hid
    rw [honly c hc hid] at h
    obtain ⟨mid, h1, h2⟩ := run_append.mp h
    obtain ⟨paid, h3, h4⟩ := run_cons.mp h2
    have hposted := runCommits_posted h1
    have hmid := Db.OnlyPays.of_other_commits hbefore h1 posted_initial
      (onlyPays_initial txid signed.transferRequest.recipient)
    exact Db.OnlyPays.of_other_commits hafter h4 ((applyCommit_postsOnly h3).posted hposted)
      (hmid.of_transfer h3 hposted hne)
  · exact Db.OnlyPays.of_other_commits hmem h posted_initial (onlyPays_initial _ _)

end

end StabilityPool
