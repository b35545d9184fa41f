import Fedi.Lib.OrderStat
import Fedi.StabilityPool.TransferSafety

/-!
# Votes

Every stored vote was cast by its peer in an accepted consensus item for the index
it is stored under, and no index has `consensusThreshold` of them (`VotesInv`):
the vote that reaches the threshold starts the cycle, which removes the votes of
its index.  With

    consensusThreshold = n - (n - 1) / 3    and at most (n - 1) / 3 faulty peers

more than half of the votes of a turnover are honest, so honest votes enclose both
medians.
-/

namespace StabilityPool

open BTreeMaps KeyedLogs Runs OrderStat

/-! ## Stored votes -/

/-- The vote of a peer, as an event. -/
def voteEvent (peerId : PeerId) (vote : StabilityPoolConsensusItemV0) : Event :=
  .consensusItem peerId (.v0 vote)

/-- The stored votes after a run. -/
structure VotesInv (cfg : StabilityPoolConfigConsensus) (evs : List Event) (db : Db) : Prop where
  cast : ∀ idx peerId vote, (cycleChangeVotes db idx).get? peerId = some vote →
    vote.nextCycleIndex = idx ∧ voteEvent peerId vote ∈ evs
  few : ∀ idx, (cycleChangeVotes db idx).values.length < cfg.consensusThreshold

theorem length_values_insert {K V : Type} [LinearOrder K] {m : BTreeMap K V} {k : K} (v : V)
    (h : m.get? k = none) : (m.insert k v).values.length = m.values.length + 1 := by
  have hlen : ∀ m : BTreeMap K V, m.sumBy (fun _ _ => 1) = m.values.length := fun m => by
    simp [BTreeMap.sumBy, sumEntries, BTreeMap.values]
  have := BTreeMap.sumBy_insert (fun _ _ => 1) m k v
  rw [h, hlen, hlen, Option.elim_none] at this
  exact this

theorem VotesInv.mono {cfg : StabilityPoolConfigConsensus} {evs : List Event} {db db' : Db}
    (h : VotesInv cfg evs db) (e : Event) (heq : db'.cycleChangeVote = db.cycleChangeVote) :
    VotesInv cfg (evs ++ [e]) db' where
  cast := fun idx peerId vote hv => by
    rw [cycleChangeVotes, heq] at hv
    obtain ⟨h1, h2⟩ := h.cast idx peerId vote hv
    exact ⟨h1, List.mem_append_left _ h2⟩
  few := fun idx => by
    rw [cycleChangeVotes, heq]
    exact h.few idx

/-- A vote together with the stored votes for its index. -/
theorem VotesInv.votes_cast {cfg : StabilityPoolConfigConsensus} {evs : List Event} {db : Db}
    (h : VotesInv cfg evs db) (vote : StabilityPoolConsensusItemV0) (peerId : PeerId)
    {p : PeerId} {v : StabilityPoolConsensusItemV0}
    (hv : ((cycleChangeVotes db vote.nextCycleIndex).insert peerId vote).get? p = some v) :
    v.nextCycleIndex = vote.nextCycleIndex ∧ voteEvent p v ∈ evs ++ [voteEvent peerId vote] := by
  rw [BTreeMap.get?_insert] at hv
  split_ifs at hv with hp
  · cases hv
    subst hp
    exact ⟨rfl, List.mem_append_right _ List.mem_cons_self⟩
  · obtain ⟨h1, h2⟩ := h.cast _ p v hv
    exact ⟨h1, List.mem_append_left _ h2⟩

theorem cycleChangeVotes_recordVote (db : Db) (vote : StabilityPoolConsensusItemV0) (peerId : PeerId)
    (idx : ℕ) : cycleChangeVotes (recordVote db peerId vote) idx =
      if idx = vote.nextCycleIndex then (cycleChangeVotes db vote.nextCycleIndex).insert peerId vote
      else cycleChangeVotes db idx := BTreeMap.getD_insert _ _ _ _ _

theorem VotesInv.item {cfg : StabilityPoolConfigConsensus} {evs : List Event} {db db' : Db}
    {item : StabilityPoolConsensusItem} {peerId : PeerId} (h : VotesInv cfg evs db)
    (hpos : 0 < cfg.consensusThreshold) (hstep : ItemStep cfg db item peerId db') :
    VotesInv cfg (evs ++ [.consensusItem peerId item]) db' := by
  cases hstep with
  | version version => exact h.mono _ rfl
  | vote vote _ hnext hfirst hfew =>
    constructor
    · intro idx p v hv
      rw [cycleChangeVotes_recordVote] at hv
      split_ifs at hv with hidx
      · rw [hidx]
        exact h.votes_cast vote peerId hv
      · obtain ⟨h1, h2⟩ := h.cast idx p v hv
        exact ⟨h1, List.mem_append_left _ h2⟩
    · intro idx
      rw [cycleChangeVotes_recordVote]
      split_ifs
      · exact hfew
      · exact h.few idx
  | turnover vote _ info _ hnext hfirst hmany hinfo hturn =>
    obtain ⟨middle, remaining, log, seeks, charged, provides, feeRate, feePool, hstep⟩ := turnover_ok hturn
    have hvotes : ∀ idx, cycleChangeVotes db' idx =
        if idx = vote.nextCycleIndex then .empty else cycleChangeVotes db idx := by
      intro idx
      rw [cycleChangeVotes, hstep.votes, BTreeMap.getD_erase, hinfo.idx]
      have hrec := cycleChangeVotes_recordVote db vote peerId idx
      rw [cycleChangeVotes] at hrec
      rw [hrec]
      split_ifs <;> rfl
    constructor
    · intro idx p v hv
      rw [hvotes] at hv
      split_ifs at hv
      · cases hv
      · obtain ⟨h1, h2⟩ := h.cast idx p v hv
        exact ⟨h1, List.mem_append_left _ h2⟩
    · intro idx
      rw [hvotes]
      split_ifs
      · exact hpos
      · exact h.few idx

theorem processInput_votes {C : Crypto} {db : Db} {txid : TransactionId} {i : StabilityPoolInput}
    {r : Db × InputMeta} (h : processInput C db txid i = .ok r) :
    r.1.cycleChangeVote = db.cycleChangeVote := by
  rcases processInput_ok h with ⟨u, -, hu⟩ | ⟨w, -, hw⟩
  · obtain ⟨cycle, kept, drained, hmove, -⟩ := processUnlockInput_ok hu
    exact hmove.votes
  · obtain ⟨-, -, hr⟩ := processWithdrawalInput_ok hw
    rw [hr]

theorem processOutput_votes {C : Crypto} {cfg : StabilityPoolConfigConsensus} {db : Db}
    {txid : TransactionId} {o : StabilityPoolOutput} {r : OutputResult}
    (h : processOutput C cfg db txid o = .ok r) : r.1.cycleChangeVote = db.cycleChangeVote := by
  rcases processOutput_ok h with ⟨s, cycle, a, metadata, kind, -, -, -, hr⟩ | ⟨t, -, -, ht⟩
  · rw [hr, stageDeposit_eq]
    cases s <;> rfl
  · obtain ⟨-, -, cycle, s, metadata, staged, locked, -, -, -, hstep⟩ := processTransferOutput_ok ht
    exact hstep.move.votes

theorem votesInv_of_run {C : Crypto} {cfg : StabilityPoolConfigConsensus}
    (hpos : 0 < cfg.consensusThreshold) {evs : List Event} {st : Ledger}
    (h : runEvents C cfg evs = .ok st) : VotesInv cfg evs st.db := by
  have h0 : VotesInv cfg [] Ledger.initial.db := ⟨fun idx p v hv => (by cases hv), fun idx => hpos⟩
  refine run_induction (P := fun evs st => VotesInv cfg evs st.db) h0 (fun evs st e st' _ hp hst => ?_) h
  cases e with
  | consensusItem peerId item =>
    simp only [applyEvent, bind_eq_ok, pure_eq_ok] at hst
    obtain ⟨db', h1, rfl⟩ := hst
    exact hp.item hpos (processConsensusItem_ok h1)
  | input txid i =>
    simp only [applyEvent, bind_eq_ok, pure_eq_ok] at hst
    obtain ⟨r, h1, rfl⟩ := hst
    exact hp.mono _ (processInput_votes h1)
  | output txid o =>
    simp only [applyEvent, bind_eq_ok, pure_eq_ok] at hst
    obtain ⟨r, h1, rfl⟩ := hst
    exact hp.mono _ (processOutput_votes h1)

/-! ## Honest votes -/

/-- Some honest peers' values enclose `m`. -/
def BetweenHonest (faulty : Finset PeerId) (votes : List (PeerId × StabilityPoolConsensusItemV0))
    (value : StabilityPoolConsensusItemV0 → ℕ) (m : ℕ) : Prop :=
  ∃ x ∈ votes, ∃ y ∈ votes, x.1 ∉ faulty ∧ y.1 ∉ faulty ∧ value x.2 ≤ m ∧ m ≤ value y.2

theorem countP_faulty_le (faulty : Finset PeerId) {votes : List (PeerId × StabilityPoolConsensusItemV0)}
    (h : (votes.map Prod.fst).Nodup) : (votes.countP fun v => decide (v.1 ∈ faulty)) ≤ faulty.card := by
  have hcount : (votes.countP fun v => decide (v.1 ∈ faulty)) =
      ((votes.map Prod.fst).filter (· ∈ faulty)).length := by
    rw [← List.countP_eq_length_filter, List.countP_map]
    rfl
  rw [hcount, ← List.toFinset_card_of_nodup (h.filter _)]
  refine Finset.card_le_card fun p hp => ?_
  rw [List.mem_toFinset, List.mem_filter] at hp
  exact of_decide_eq_true hp.2

theorem medianBy_between {faulty : Finset PeerId} {votes : List (PeerId × StabilityPoolConsensusItemV0)}
    {key : StabilityPoolConsensusItemV0 → ℕ} {m : ℕ} (hnd : (votes.map Prod.fst).Nodup)
    (hhonest : 2 * faulty.card < votes.length) (h : medianBy key (votes.map Prod.snd) = .ok m) :
    BetweenHonest faulty votes key m := by
  unfold medianBy at h
  split at h
  · cases h
  · next v hv =>
    cases h
    have hbad : 2 * (votes.countP fun v => decide (v.1 ∈ faulty)) < votes.length := by
      have := countP_faulty_le faulty hnd
      omega
    obtain ⟨x, hx, y, hy, hgx, hgy, hxv, hvy⟩ := median_between hv hbad
    exact ⟨x, hx, y, hy, of_decide_eq_false hgx, of_decide_eq_false hgy, hxv, hvy⟩

/-- A turnover to `cycle`, started by the votes of distinct peers for its index. -/
structure TurnoverOn (cfg : StabilityPoolConfigConsensus) (evs : List Event) (db : Db)
    (votes : List (PeerId × StabilityPoolConsensusItemV0)) (cycle : Cycle) : Prop where
  distinct : (votes.map Prod.fst).Nodup
  count : votes.length = cfg.consensusThreshold
  cast : ∀ v ∈ votes, voteEvent v.1 v.2 ∈ evs ∧ v.2.nextCycleIndex = cycle.index
  next : ∀ old, db.currentCycle = some old → cycle.index = old.index + 1
  time : medianBy (·.time) (votes.map Prod.snd) = .ok cycle.startTime
  price : ∃ price, medianBy (·.price) (votes.map Prod.snd) = .ok price ∧
    effectivePrice db.currentCycle price = .ok cycle.startPrice

theorem turnoverOn_of_item {cfg : StabilityPoolConfigConsensus} {evs : List Event} {db db' : Db}
    {item : StabilityPoolConsensusItem} {peerId : PeerId} {cycle : Cycle} (h : VotesInv cfg evs db)
    (hitem : processConsensusItem cfg db item peerId = .ok db')
    (hcycle : db'.currentCycle = some cycle) (hnew : db.currentCycle ≠ some cycle) :
    ∃ votes, TurnoverOn cfg (evs ++ [.consensusItem peerId item]) db votes cycle := by
  cases processConsensusItem_ok hitem with
  | version version => exact absurd hcycle hnew
  | vote vote _ _ _ _ => exact absurd hcycle hnew
  | turnover vote _ info _ hnext hfirst hmany hinfo hturn =>
    obtain ⟨middle, remaining, log, seeks, charged, provides, feeRate, feePool, hstep⟩ := turnover_ok hturn
    have hcur := hstep.written.current
    have hc : cycle.index = info.idx ∧ cycle.startTime = info.startTime ∧
        cycle.startPrice = info.startPrice := by
      have := hcycle.symm.trans hcur
      cases this
      exact ⟨rfl, rfl, rfl⟩
    have hlen : (votesWith db vote peerId).length = cfg.consensusThreshold := by
      have h1 := length_values_insert vote hfirst
      have h2 := h.few vote.nextCycleIndex
      rw [votesWith] at hmany ⊢
      omega
    refine ⟨((cycleChangeVotes db vote.nextCycleIndex).insert peerId vote).entries, {
      distinct := (BTreeMap.keys_sorted _).imp fun hlt => hlt.ne
      count := by rw [← hlen, votesWith, BTreeMap.values, List.length_map]
      cast := fun v hv => ?_
      next := fun old hold => ?_
      time := by rw [hc.2.1]; exact hinfo.time
      price := by rw [hc.2.2]; exact hinfo.price }⟩
    · obtain ⟨h1, h2⟩ := h.votes_cast vote peerId (BTreeMap.mem_entries.mp hv)
      exact ⟨h2, by rw [h1, hc.1, hinfo.idx]⟩
    · rw [hold] at hnext
      rw [hc.1, hinfo.idx]
      simpa [isForNextCycle] using hnext

/-- With at most a third of the peers faulty, an accepted item that changes the current
cycle does so on votes of distinct peers for exactly the next index, and honest votes enclose
the start time and, unless the median price is zero, the start price. -/
theorem byzantine_turnover {C : Crypto} {cfg : StabilityPoolConfigConsensus} {n : ℕ} (hn : 0 < n)
    (hthreshold : cfg.consensusThreshold = n - (n - 1) / 3) {faulty : Finset PeerId}
    (hfaulty : faulty.card ≤ (n - 1) / 3) {evs : List Event} {st : Ledger}
    (hrun : runEvents C cfg evs = .ok st) {item : StabilityPoolConsensusItem} {peerId : PeerId} {db' : Db}
    (hitem : processConsensusItem cfg st.db item peerId = .ok db') {cycle : Cycle}
    (hcycle : db'.currentCycle = some cycle) (hnew : st.db.currentCycle ≠ some cycle) :
    ∃ votes, TurnoverOn cfg (evs ++ [.consensusItem peerId item]) st.db votes cycle ∧
      BetweenHonest faulty votes (·.time) cycle.startTime ∧
      (BetweenHonest faulty votes (·.price) cycle.startPrice ∨
        medianBy (·.price) (votes.map Prod.snd) = .ok 0 ∧
          ∃ old, st.db.currentCycle = some old ∧ cycle.startPrice = old.startPrice) := by
  obtain ⟨votes, hturn⟩ := turnoverOn_of_item (votesInv_of_run (by omega) hrun) hitem hcycle hnew
  have hhonest : 2 * faulty.card < votes.length := by
    rw [hturn.count]
    omega
  refine ⟨votes, hturn, medianBy_between hturn.distinct hhonest hturn.time, ?_⟩
  obtain ⟨price, hmedian, hprice⟩ := hturn.price
  unfold effectivePrice at hprice
  split_ifs at hprice with hzero
  · right
    rw [hzero] at hmedian
    cases hold : st.db.currentCycle with
    | none =>
      rw [hold] at hprice
      cases hprice
    | some old =>
      rw [hold] at hprice
      exact ⟨hmedian, old, rfl, (Except.ok.inj hprice).symm⟩
  · left
    rw [← Except.ok.inj hprice]
    exact medianBy_between hturn.distinct hhonest hmedian

theorem byzantine_turnover_demo : ∃ st db' cycle votes,
    runEvents demoCrypto demoConfig ((demoVotes 0 1000 10000000).take 2) = .ok st ∧
    processConsensusItem demoConfig st.db (.v0 ⟨0, 5000, 20000000⟩) 2 = .ok db' ∧
    TurnoverOn demoConfig ((demoVotes 0 1000 10000000).take 2 ++
      [.consensusItem 2 (.v0 ⟨0, 5000, 20000000⟩)]) st.db votes cycle ∧
    BetweenHonest {2} votes (·.time) cycle.startTime := by
  have hrun : (((runEvents demoCrypto demoConfig ((demoVotes 0 1000 10000000).take 2)).bind fun st =>
      (processConsensusItem demoConfig st.db (.v0 ⟨0, 5000, 20000000⟩) 2).map fun db' =>
        (st, db')).map fun r => (r.1.db.currentCycle.isSome, r.2.currentCycle.isSome)).toOption =
        some (false, true) := by
    decide +kernel
  cases h : runEvents demoCrypto demoConfig ((demoVotes 0 1000 10000000).take 2) with
  | error e =>
    rw [h] at hrun
    cases hrun
  | ok st =>
    cases hitem : processConsensusItem demoConfig st.db (.v0 ⟨0, 5000, 20000000⟩) 2 with
    | error e =>
      simp only [h, Except.bind, hitem] at hrun
      cases hrun
    | ok db' =>
      simp only [h, Except.bind, hitem, Except.map, Except.toOption, Option.some.injEq,
        Prod.mk.injEq] at hrun
      obtain ⟨cycle, hcycle⟩ := Option.isSome_iff_exists.mp hrun.2
      have hnew : st.db.currentCycle ≠ some cycle := fun hc => by simp [hc] at hrun
      have hfaulty : ({2} : Finset PeerId).card ≤ (4 - 1) / 3 := by decide
      obtain ⟨votes, hturn, htime, -⟩ := byzantine_turnover (by decide) rfl hfaulty h hitem hcycle hnew
      exact ⟨st, db', cycle, votes, rfl, hitem, hturn, htime⟩

end StabilityPool
