import Fedi.StabilityPool.NewCycle

/-!
# What a consensus item does to the database

A vote is recorded; at the threshold it also turns the cycle over.  A turnover
settles, unlocks and restages the old locks (`Settled`), then locks anew and
writes the cycle (`CycleWritten`).

    processConsensusItem cfg db item peer = .ok db' →
      ItemStep cfg db item peer db'                                  (processConsensusItem_ok)
-/

namespace StabilityPool

open BTreeMaps KeyedLogs Runs

/-! ## The old locks -/

/-- What settling the last cycle, if any, did: the remaining locks are merged
into the staged lists, the unlocked amounts are idle. -/
structure Settled (db : Db) (info : CycleInfo) (db' : Db) (remaining : Locks) (log : List Posting) :
    Prop where
  heads_sublist : ∀ s a, (heads ((remaining.on s).getD a [])).Sublist (heads ((db.locked s).getD a []))
  total : remaining.weight (fun _ _ => 1) +
      postedWeight AccountHistoryItemKind.isLockedToIdle (fun _ _ => 1) log =
    tableWeight (fun _ _ => 1) (db.locked .seek) + tableWeight (fun _ _ => 1) (db.locked .provide)
  staged : ∀ s a, (db'.staged s).getD a [] =
    restaged ((db.staged s).getD a []) ((remaining.on s).get? a)
  staged_weight : ∀ s w, tableWeight w (db'.staged s) =
    tableWeight w (db.staged s) + tableWeight w (remaining.on s)
  idle : ∀ a, db'.idleBalance.getD a 0 = db.idleBalance.getD a 0 +
    postedWeight AccountHistoryItemKind.isLockedToIdle (atAccount a) log
  idle_sum : db'.idleBalance.sumBy (fun _ x => x) = db.idleBalance.sumBy (fun _ x => x) +
    postedWeight AccountHistoryItemKind.isLockedToIdle (fun _ _ => 1) log
  log_mem : ∀ p ∈ log, p.2.kind = .lockedToIdle ∧ p.2.cycle = info ∧ p.1.accType ≠ .btcDepositor ∧
    ∃ req, db.unlockRequests.get? p.1 = some req ∧ p.2.txid = req.txid
  requests : ∀ a, db'.unlockRequests.get? a =
    if db.currentCycle.isSome then none else db.unlockRequests.get? a
  db_eq : db' = { db with
    idleBalance := db'.idleBalance
    stagedSeeks := db'.stagedSeeks
    stagedProvides := db'.stagedProvides
    unlockRequests := db'.unlockRequests
    pastCycle := db'.pastCycle
    accountHistory := postAll db.accountHistory log }

theorem settleCurrentCycle_ok {db : Db} {cycle : Cycle} (hc : db.currentCycle = some cycle)
    {info : CycleInfo} {randomness : ℕ} {r : Db × Locks}
    (h : settleCurrentCycle db cycle info randomness = .ok r) :
    ∃ log, Settled db info r.1 r.2 log := by
  simp only [settleCurrentCycle, bind_eq_ok, pure_eq_ok] at h
  obtain ⟨settled, hsettled, u, hu, rfl⟩ := h
  obtain ⟨hheads, htotal⟩ := settleLocks_ok hsettled
  obtain ⟨log, hlog⟩ := processUnlockRequestsLoop_ok hu
  obtain ⟨hstaged, hweight, seeks, provides, heq⟩ := restageRemainingLocks_ok u.1 u.2
  have hlocked : ∀ s, db.locked s = (⟨cycle.lockedSeeks, cycle.lockedProvides⟩ : Locks).on s := by
    intro s
    rw [locked_of_current hc]
    cases s <;> rfl
  have hu1 : ∀ s, u.1.staged s = db.staged s := by
    intro s
    rw [hlog.db_eq]
    cases s <;> rfl
  refine ⟨log, {
    heads_sublist := fun s a => by
      rw [hlocked, ← hheads s a]
      exact hlog.heads_sublist s a
    total := by
      rw [hlog.weight, htotal, hlocked .seek, hlocked .provide]
      rfl
    staged := fun s a => by rw [hstaged, hu1]
    staged_weight := fun s w => by rw [hweight, hu1]
    idle := fun a => by
      rw [heq]
      exact hlog.idle a
    idle_sum := by
      rw [heq]
      exact hlog.idle_sum
    log_mem := fun p hp => by
      obtain ⟨h1, h2, h3, req, hreq, h4⟩ := hlog.log_mem p hp
      exact ⟨h1, h2, h3, req, BTreeMap.mem_entries.mp hreq, h4⟩
    requests := fun a => by
      rw [heq]
      show u.1.unlockRequests.get? a = _
      rw [hlog.requests, hc, if_pos (show (some cycle).isSome from rfl)]
      split_ifs with ha
      · rfl
      · exact BTreeMap.get?_eq_none.mpr ha
    db_eq := by
      rw [heq, hlog.db_eq] }⟩

theorem settleLastCycle_ok {db : Db} {info : CycleInfo} {randomness : ℕ} {r : Db × Locks}
    (h : settleLastCycle db info randomness = .ok r) : ∃ log, Settled db info r.1 r.2 log := by
  unfold settleLastCycle at h
  cases hc : db.currentCycle with
  | some cycle =>
    rw [hc] at h
    exact settleCurrentCycle_ok hc h
  | none =>
    rw [hc] at h
    cases h
    have hlocked : ∀ s, db.locked s = .empty := fun s => by
      rw [Db.locked, hc]
    have hon : ∀ s, (⟨.empty, .empty⟩ : Locks).on s = .empty := fun s => by cases s <;> rfl
    refine ⟨[], {
      heads_sublist := fun s a => by rw [hlocked, hon]
      total := by
        rw [hlocked, hlocked]
        rfl
      staged := fun s a => by
        rw [hon]
        rfl
      staged_weight := fun s w => by
        rw [hon]
        rfl
      idle := fun a => rfl
      idle_sum := rfl
      log_mem := fun p hp => by cases hp
      requests := fun a => by
        rw [hc]
        rfl
      db_eq := rfl }⟩

theorem mergeDeposits_nodup {M : Type} (staged locked : List (Deposit M)) :
    (sequences (mergeDeposits staged locked)).Nodup := (mergeDeposits_sorted _ _).imp fun h => h.ne

theorem Settled.staged_nodup {db db' : Db} {info : CycleInfo} {remaining : Locks} {log : List Posting}
    (h : Settled db info db' remaining log) {s : Side} {a : AccountId}
    (hnd : (sequences ((db.staged s).getD a [])).Nodup) : (sequences ((db'.staged s).getD a [])).Nodup := by
  rw [h.staged]
  cases (remaining.on s).get? a with
  | none => exact hnd
  | some ds => exact mergeDeposits_nodup _ _

theorem Settled.remaining_nodup {db db' : Db} {info : CycleInfo} {remaining : Locks} {log : List Posting}
    (h : Settled db info db' remaining log) {s : Side} {a : AccountId}
    (hnd : (sequences ((db.locked s).getD a [])).Nodup) :
    (sequences ((remaining.on s).getD a [])).Nodup := by
  rw [sequences_eq_heads] at hnd ⊢
  exact hnd.sublist ((h.heads_sublist s a).map _)

theorem Settled.mem_staged {db db' : Db} {info : CycleInfo} {remaining : Locks} {log : List Posting}
    (h : Settled db info db' remaining log) {s : Side} {a : AccountId}
    {x : TransactionId × ℕ × s.Meta} (hx : x ∈ heads ((db'.staged s).getD a [])) :
    x ∈ heads ((db.staged s).getD a []) ∨ x ∈ heads ((db.locked s).getD a []) := by
  rw [h.staged] at hx
  cases hg : (remaining.on s).get? a with
  | none =>
    rw [hg] at hx
    exact Or.inl hx
  | some ds =>
    rw [hg] at hx
    rcases List.mem_append.mp ((heads_mergeDeposits _ _).subset hx) with hx | hx
    · exact Or.inl hx
    · refine Or.inr ((h.heads_sublist s a).subset ?_)
      rwa [BTreeMap.getD_of_get? hg]

/-! ## The new cycle, from the staged tables -/

section
variable {ratio : CollateralRatio} {db db' : Db} {info : CycleInfo} {old : Locks}
  {seeks charged : List AccountSeek} {provides : List AccountProvide} {feeRate feePool : ℕ}

theorem filterKeys_get?_none {M : Type} (t : DepositTable M) {a : AccountId}
    (h : a.accType ≠ .btcDepositor) : (t.filterKeys fun a => !stabilizes a).get? a = none := by
  rw [BTreeMap.get?_filterKeys, stabilizes_iff.mpr h]
  rfl

theorem Matched.staged_mem {M : Type} {l locked staged : List (AccountId × Deposit M)}
    (h : Matched l locked staged) {e : AccountId × Deposit M} (he : e ∈ staged) :
    (e.1, e.2.head) ∈ pairHeads l := h.staged_heads.subset (mem_pairHeads.mpr ⟨e.2, he, rfl⟩)

theorem CycleWritten.staged_seek (h : CycleWritten ratio db info old db' seeks charged provides feeRate feePool)
    (w : AccountId → ℕ → ℕ) :
    tableWeight w db'.stagedSeeks + pairsWeight w seeks = tableWeight w db.stagedSeeks := by
  obtain ⟨staged, hm, heq⟩ := h.seeks_matched
  have hins := (insertAll_groupMap (t := db.stagedSeeks.filterKeys fun a => !stabilizes a)
    (l := staged) fun e he =>
      filterKeys_get?_none _ (mem_sortedStagedSeeks.mp (hm.staged_mem he)).1).1 w
  have hsplit := hm.weigh_eq w
  have hall := pairsWeight_sortedStagedSeeks db w
  rw [heq]
  omega

theorem CycleWritten.staged_provide
    (h : CycleWritten ratio db info old db' seeks charged provides feeRate feePool)
    (w : AccountId → ℕ → ℕ) :
    tableWeight w db'.stagedProvides + pairsWeight w provides = tableWeight w db.stagedProvides := by
  obtain ⟨staged, hm, heq⟩ := h.provides_matched
  have hins := (insertAll_groupMap (t := (.empty : DepositTable FeeRate)) (l := staged) fun e _ =>
    BTreeMap.get?_empty e.1).1 w
  have hsplit := hm.weigh_eq w
  have hall := pairsWeight_sortedStagedProvides db w
  rw [heq]
  rw [tableWeight_empty] at hins
  omega

/-- Btc depositors keep their staged lists. -/
theorem CycleWritten.staged_btc (h : CycleWritten ratio db info old db' seeks charged provides feeRate feePool)
    {a : AccountId} (ha : a.accType = .btcDepositor) :
    db'.stagedSeeks.getD a [] = db.stagedSeeks.getD a [] := by
  obtain ⟨staged, hm, heq⟩ := h.seeks_matched
  rw [heq, (insertAll_groupMap fun e he =>
    filterKeys_get?_none _ (mem_sortedStagedSeeks.mp (hm.staged_mem he)).1).2 a, getD_filterKeys]
  have hst : (!stabilizes a) = true := by simp [stabilizes, ha]
  have hnone : (BTreeMap.groupMap staged).getD a [] = [] := by
    rw [BTreeMap.getD_groupMap, List.map_eq_nil_iff, List.filter_eq_nil_iff]
    rintro e he hea
    have := (mem_sortedStagedSeeks.mp (hm.staged_mem he)).1
    rw [of_decide_eq_true hea] at this
    exact this ha
  rw [if_pos hst, hnone, List.append_nil]

theorem CycleWritten.mem_staged (h : CycleWritten ratio db info old db' seeks charged provides feeRate feePool)
    {s : Side} {a : AccountId} {x : TransactionId × ℕ × s.Meta}
    (hx : x ∈ heads ((db'.staged s).getD a [])) : x ∈ heads ((db.staged s).getD a []) := by
  cases s with
  | seek =>
    obtain ⟨staged, hm, heq⟩ := h.seeks_matched
    have hx : x ∈ heads (db'.stagedSeeks.getD a []) := hx
    rw [heq, (insertAll_groupMap fun e he =>
      filterKeys_get?_none _ (mem_sortedStagedSeeks.mp (hm.staged_mem he)).1).2 a, heads,
      List.map_append, List.mem_append, getD_filterKeys] at hx
    rcases hx with hx | hx
    · split_ifs at hx
      · exact hx
      · cases hx
    · exact (mem_sortedStagedSeeks.mp (hm.staged_heads.subset (mem_heads_groupMap.mp hx))).2
  | provide =>
    obtain ⟨staged, hm, heq⟩ := h.provides_matched
    have hx : x ∈ heads (db'.stagedProvides.getD a []) := hx
    rw [heq, (insertAll_groupMap fun e _ => BTreeMap.get?_empty e.1).2 a] at hx
    exact mem_sortedStagedProvides.mp (hm.staged_heads.subset (mem_heads_groupMap.mp hx))

theorem CycleWritten.mem_seeks (h : CycleWritten ratio db info old db' seeks charged provides feeRate feePool)
    {a : AccountId} {x : TransactionId × ℕ × Unit} (hx : (a, x) ∈ pairHeads seeks) :
    a.accType ≠ .btcDepositor ∧ x ∈ heads (db.stagedSeeks.getD a []) := by
  obtain ⟨staged, hm, -⟩ := h.seeks_matched
  exact mem_sortedStagedSeeks.mp (hm.locked_heads.subset hx)

theorem CycleWritten.mem_provides
    (h : CycleWritten ratio db info old db' seeks charged provides feeRate feePool) {a : AccountId}
    {x : TransactionId × ℕ × FeeRate} (hx : (a, x) ∈ pairHeads provides) :
    x ∈ heads (db.stagedProvides.getD a []) := by
  obtain ⟨staged, hm, -⟩ := h.provides_matched
  exact mem_sortedStagedProvides.mp (hm.locked_heads.subset hx)

/-- New locks were staged before. -/
theorem CycleWritten.mem_locked (h : CycleWritten ratio db info old db' seeks charged provides feeRate feePool)
    {s : Side} {a : AccountId} {x : TransactionId × ℕ × s.Meta}
    (hx : x ∈ heads ((db'.locked s).getD a [])) :
    x ∈ heads ((db.staged s).getD a []) ∧ a.accType ≠ .btcDepositor ∨
      s = .provide ∧ x ∈ heads ((db.staged s).getD a []) := by
  rw [locked_of_current h.current] at hx
  cases s with
  | seek =>
    rw [show Cycle.locked _ Side.seek = BTreeMap.groupMap charged from rfl, mem_heads_groupMap,
      h.charged_heads] at hx
    obtain ⟨h1, h2⟩ := h.mem_seeks hx
    exact Or.inl ⟨h2, h1⟩
  | provide =>
    rw [show Cycle.locked _ Side.provide = BTreeMap.groupMap provides from rfl, mem_heads_groupMap] at hx
    exact Or.inr ⟨rfl, h.mem_provides hx⟩

theorem stateKeys_sorted_nodup (hnd : ∀ s a, (sequences ((db.staged s).getD a [])).Nodup) :
    (stateKeys (sortedStagedSeeks db)).Nodup ∧ (stateKeys (sortedStagedProvides db)).Nodup := by
  have hseek := stateKeys_pairs_nodup (t := db.stagedSeeks.filterKeys stabilizes) fun a => by
    rw [getD_filterKeys]
    split_ifs
    · exact hnd .seek a
    · exact List.nodup_nil
  have hprovide := stateKeys_pairs_nodup (t := db.stagedProvides) fun a => hnd .provide a
  exact ⟨(List.Perm.nodup_iff ((sortedStagedSeeks_perm db).map _)).mpr hseek,
    (List.Perm.nodup_iff ((sortedStagedProvides_perm db).map _)).mpr hprovide⟩

/-- The keys of the new locks are distinct. -/
theorem CycleWritten.keys_nodup (h : CycleWritten ratio db info old db' seeks charged provides feeRate feePool)
    (hnd : ∀ s a, (sequences ((db.staged s).getD a [])).Nodup) :
    (stateKeys seeks).Nodup ∧ (stateKeys provides).Nodup := by
  obtain ⟨hs, hp⟩ := stateKeys_sorted_nodup hnd
  obtain ⟨staged, hm, -⟩ := h.seeks_matched
  obtain ⟨staged', hm', -⟩ := h.provides_matched
  exact ⟨stateKeys_sublist hm.locked_heads.sublist hs, stateKeys_sublist hm'.locked_heads.sublist hp⟩

theorem CycleWritten.staged_nodup
    (h : CycleWritten ratio db info old db' seeks charged provides feeRate feePool)
    (hnd : ∀ s a, (sequences ((db.staged s).getD a [])).Nodup) (s : Side) (a : AccountId) :
    (sequences ((db'.staged s).getD a [])).Nodup := by
  obtain ⟨hs, hp⟩ := stateKeys_sorted_nodup hnd
  cases s with
  | seek =>
    obtain ⟨staged, hm, heq⟩ := h.seeks_matched
    show (sequences (db'.stagedSeeks.getD a [])).Nodup
    by_cases ha : a.accType = .btcDepositor
    · rw [h.staged_btc ha]
      exact hnd .seek a
    · have hnone : (db.stagedSeeks.filterKeys fun a => !stabilizes a).getD a [] = [] :=
        BTreeMap.getD_of_none (filterKeys_get?_none _ ha) _
      rw [heq, (insertAll_groupMap fun e he =>
        filterKeys_get?_none _ (mem_sortedStagedSeeks.mp (hm.staged_mem he)).1).2 a, hnone,
        List.nil_append]
      exact groupMap_nodup (stateKeys_sublist hm.staged_heads.sublist hs) a
  | provide =>
    obtain ⟨staged, hm, heq⟩ := h.provides_matched
    show (sequences (db'.stagedProvides.getD a [])).Nodup
    rw [heq, (insertAll_groupMap fun e _ => BTreeMap.get?_empty e.1).2 a]
    exact groupMap_nodup (stateKeys_sublist hm.staged_heads.sublist hp) a

theorem CycleWritten.locked_nodup
    (h : CycleWritten ratio db info old db' seeks charged provides feeRate feePool)
    (hnd : ∀ s a, (sequences ((db.staged s).getD a [])).Nodup) (s : Side) (a : AccountId) :
    (sequences ((db'.locked s).getD a [])).Nodup := by
  obtain ⟨hs, hp⟩ := h.keys_nodup hnd
  rw [locked_of_current h.current]
  cases s with
  | seek =>
    refine groupMap_nodup ?_ a
    rwa [stateKeys_eq_pairHeads, h.charged_heads, ← stateKeys_eq_pairHeads]
  | provide => exact groupMap_nodup hp a

end

/-! ## Turnover -/

/-- What a turnover did, phase by phase. -/
structure TurnoverStep (ratio : CollateralRatio) (db : Db) (info : CycleInfo) (db' middle : Db)
    (remaining : Locks) (log : List Posting) (seeks charged : List AccountSeek)
    (provides : List AccountProvide) (feeRate feePool : ℕ) : Prop where
  settled : Settled db info middle remaining log
  written : CycleWritten ratio middle info remaining
    { db' with cycleChangeVote := middle.cycleChangeVote } seeks charged provides feeRate feePool
  votes : db'.cycleChangeVote = db.cycleChangeVote.erase info.idx

theorem turnover_ok {ratio : CollateralRatio} {db db' : Db} {info : CycleInfo}
    (h : turnover ratio db info = .ok db') :
    ∃ middle remaining log seeks charged provides feeRate feePool,
      TurnoverStep ratio db info db' middle remaining log seeks charged provides feeRate feePool := by
  simp only [turnover, bind_eq_ok, pure_eq_ok] at h
  obtain ⟨r, hr, db3, hdb3, rfl⟩ := h
  obtain ⟨log, hsettled⟩ := settleLastCycle_ok hr
  obtain ⟨seeks, charged, provides, feeRate, feePool, hwritten⟩ := calculateLocksAndWriteCycle_ok hdb3
  have hvotes : db3.cycleChangeVote = r.1.cycleChangeVote := by rw [hwritten.db_eq]
  refine ⟨r.1, r.2, log, seeks, charged, provides, feeRate, feePool, hsettled, ?_, ?_⟩
  · rw [← hvotes]
    exact hwritten
  · show db3.cycleChangeVote.erase info.idx = _
    rw [hvotes, hsettled.db_eq]

/-! ## Consensus items -/

/-- The cycle a vote at the threshold starts. -/
structure NextCycle (db : Db) (vote : StabilityPoolConsensusItemV0)
    (votes : List StabilityPoolConsensusItemV0) (info : CycleInfo) : Prop where
  idx : info.idx = vote.nextCycleIndex
  time : medianBy (·.time) votes = .ok info.startTime
  price : ∃ price, medianBy (·.price) votes = .ok price ∧
    effectivePrice db.currentCycle price = .ok info.startPrice

/-- The votes for an index once a peer's vote is recorded. -/
def votesWith (db : Db) (vote : StabilityPoolConsensusItemV0) (peerId : PeerId) :
    List StabilityPoolConsensusItemV0 :=
  ((cycleChangeVotes db vote.nextCycleIndex).insert peerId vote).values

theorem recordVote_votes (db : Db) (vote : StabilityPoolConsensusItemV0) (peerId : PeerId) :
    cycleChangeVotes (recordVote db peerId vote) vote.nextCycleIndex =
      (cycleChangeVotes db vote.nextCycleIndex).insert peerId vote := BTreeMap.getD_insert_self _ _ _ _

/-- What an accepted consensus item did. -/
inductive ItemStep (cfg : StabilityPoolConfigConsensus) (db : Db) :
    StabilityPoolConsensusItem → PeerId → Db → Prop where
  | version (version : ModuleConsensusVersion) (peerId : PeerId) :
    ItemStep cfg db (.v1 version) peerId
      { db with consensusVersionVote := db.consensusVersionVote.insert peerId version }
  | vote (vote : StabilityPoolConsensusItemV0) (peerId : PeerId)
    (hnext : isForNextCycle db.currentCycle vote.nextCycleIndex = true)
    (hfirst : (cycleChangeVotes db vote.nextCycleIndex).get? peerId = none)
    (hfew : (votesWith db vote peerId).length < cfg.consensusThreshold) :
    ItemStep cfg db (.v0 vote) peerId (recordVote db peerId vote)
  | turnover (vote : StabilityPoolConsensusItemV0) (peerId : PeerId) (info : CycleInfo) (db' : Db)
    (hnext : isForNextCycle db.currentCycle vote.nextCycleIndex = true)
    (hfirst : (cycleChangeVotes db vote.nextCycleIndex).get? peerId = none)
    (hmany : cfg.consensusThreshold ≤ (votesWith db vote peerId).length)
    (hinfo : NextCycle db vote (votesWith db vote peerId) info)
    (hturn : turnover cfg.collateralRatio (recordVote db peerId vote) info = .ok db') :
    ItemStep cfg db (.v0 vote) peerId db'

theorem processConsensusItem_ok {cfg : StabilityPoolConfigConsensus} {db db' : Db}
    {item : StabilityPoolConsensusItem} {peerId : PeerId}
    (h : processConsensusItem cfg db item peerId = .ok db') : ItemStep cfg db item peerId db' := by
  cases item with
  | default variant => cases h
  | v1 version =>
    simp only [processConsensusItem, processVersionVote, bind_eq_ok] at h
    obtain ⟨_, -, active, -, h⟩ := h
    split_ifs at h
    rw [pure_eq_ok] at h
    subst h
    exact .version version peerId
  | v0 vote =>
    simp only [processConsensusItem, processCycleVote, ensure, bind_eq_ok] at h
    obtain ⟨_, hnext, _, hfirst, h⟩ := h
    split_ifs at hnext hfirst h with hn hf hfew
    · rw [pure_eq_ok] at h
      subst h
      rw [recordVote_votes] at hfew
      exact .vote vote peerId hn hf hfew
    · simp only [bind_eq_ok] at h
      obtain ⟨time, htime, price, hprice, start, hstart, h⟩ := h
      rw [recordVote_votes] at hfew htime hprice
      exact .turnover vote peerId ⟨vote.nextCycleIndex, start, time⟩ db' hn hf (not_lt.mp hfew)
        ⟨rfl, htime, price, hprice, hstart⟩ h

end StabilityPool
