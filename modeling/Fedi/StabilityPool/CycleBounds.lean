import Fedi.StabilityPool.Guardians

/-!
# What honest guardians guarantee

With at most `(n - 1) / 3` of `n` guardians faulty, in whatever order fetches, proposals, restarts and
agreed events interleave, and however far behind a guardian is when it proposes:

    most of the answering sources of each honest guardian quote within [lo, hi] →
      lo ≤ cycle.startPrice ≤ hi                                      (startPrice_within_quotes)
    c.startTime + (c'.index - c.index) * (cycleDuration + 1) ≤ c'.startTime        (cycles_spaced)
    no version vote ends the thread of a guardian                   (version_votes_never_panic)

A turnover takes more than half of its votes from honest guardians, and an honest vote for the cycle
after `c` was made by a guardian that saw `c` run out: cycles of one index agree along a run
(`cycle_unique`), as the index of the current cycle only grows.
-/

namespace StabilityPool

open BTreeMaps Runs OrderStat

/-! ## The current cycle along a run -/

/-- The current cycle of a later state: the same, up to its locks, or one with a greater index. -/
def CycleAdvances (db db' : Db) : Prop :=
  ∀ cycle, db.currentCycle = some cycle →
    ∃ cycle', db'.currentCycle = some cycle' ∧ (cycle'.info = cycle.info ∨ cycle.index < cycle'.index)

theorem CycleAdvances.refl (db : Db) : CycleAdvances db db := fun cycle h => ⟨cycle, h, .inl rfl⟩

theorem index_of_info {c c' : Cycle} (h : c'.info = c.info) : c'.index = c.index := congrArg CycleInfo.idx h

theorem startTime_of_info {c c' : Cycle} (h : c'.info = c.info) : c'.startTime = c.startTime :=
  congrArg CycleInfo.startTime h

theorem startPrice_of_info {c c' : Cycle} (h : c'.info = c.info) : c'.startPrice = c.startPrice :=
  congrArg CycleInfo.startPrice h

theorem CycleAdvances.trans {a b c : Db} (h : CycleAdvances a b) (h' : CycleAdvances b c) : CycleAdvances a c := by
  intro cycle hcycle
  obtain ⟨cycle', hcycle', hab⟩ := h cycle hcycle
  obtain ⟨cycle'', hcycle'', hbc⟩ := h' cycle' hcycle'
  refine ⟨cycle'', hcycle'', ?_⟩
  rcases hab with hab | hab <;> rcases hbc with hbc | hbc
  · exact .inl (hbc.trans hab)
  · right
    rw [← index_of_info hab]
    exact hbc
  · right
    rw [index_of_info hbc]
    exact hab
  · exact .inr (hab.trans hbc)

/-- Only the locks of the current cycle changed. -/
def SameCycle (db db' : Db) : Prop := db'.currentCycle.map Cycle.info = db.currentCycle.map Cycle.info

theorem SameCycle.back {db db' : Db} (h : SameCycle db db') {cycle' : Cycle} (hc : db'.currentCycle = some cycle') :
    ∃ cycle, db.currentCycle = some cycle ∧ cycle'.info = cycle.info := by
  rw [SameCycle, hc] at h
  obtain ⟨cycle, hcycle, hinfo⟩ := Option.map_eq_some_iff.mp h.symm
  exact ⟨cycle, hcycle, hinfo.symm⟩

theorem SameCycle.advances {db db' : Db} (h : SameCycle db db') : CycleAdvances db db' := by
  intro cycle hcycle
  have hback : SameCycle db' db := h.symm
  obtain ⟨cycle', hcycle', hinfo⟩ := hback.back hcycle
  exact ⟨cycle', hcycle', .inl hinfo.symm⟩

theorem setLocked_info (c : Cycle) (s : Side) (t : DepositTable s.Meta) : (c.setLocked s t).info = c.info := by
  cases s <;> rfl

theorem AccountMove.sameCycle {db db' : Db} {txid : TransactionId} {cycle : Cycle} {s : Side} {a b : AccountId}
    {ks ds ns kl dl nl : List (Deposit s.Meta)} {credit : ℕ} {log : List Posting}
    (h : AccountMove db db' txid cycle s a b ks ds ns kl dl nl credit log) : SameCycle db db' := by
  obtain ⟨t, ht, -⟩ := h.locked
  rw [SameCycle, ht, h.current, Option.map_some, Option.map_some, setLocked_info]

theorem processInput_sameCycle {C : Crypto} {db : Db} {txid : TransactionId} {i : StabilityPoolInput}
    {r : Db × InputMeta} (h : processInput C db txid i = .ok r) : SameCycle db r.1 := by
  rcases processInput_ok h with ⟨u, -, hu⟩ | ⟨w, -, hw⟩
  · obtain ⟨cycle, kept, drained, hmove, -⟩ := processUnlockInput_ok hu
    exact hmove.sameCycle
  · obtain ⟨-, -, hr⟩ := processWithdrawalInput_ok hw
    rw [hr]
    rfl

theorem processOutput_sameCycle {C : Crypto} {cfg : StabilityPoolConfigConsensus} {db : Db} {txid : TransactionId}
    {o : StabilityPoolOutput} {r : OutputResult} (h : processOutput C cfg db txid o = .ok r) : SameCycle db r.1 := by
  rcases processOutput_ok h with ⟨s, cycle, a, metadata, kind, -, -, -, hr⟩ | ⟨t, -, -, ht⟩
  · rw [hr, stageDeposit_eq]
    cases s <;> rfl
  · obtain ⟨-, -, cycle, s, metadata, staged, locked, -, -, -, hstep⟩ := processTransferOutput_ok ht
    exact hstep.move.sameCycle

/-- An event leaves the current cycle, or is the vote that starts the next one. -/
theorem applyEvent_cycle {C : Crypto} {cfg : StabilityPoolConfigConsensus} {evs : List Event} {st st' : Ledger}
    {e : Event} (hinv : VotesInv cfg evs st.db) (h : applyEvent C cfg st e = .ok st') :
    SameCycle st.db st'.db ∨
      ∃ cycle votes, st'.db.currentCycle = some cycle ∧ TurnoverOn cfg (evs ++ [e]) st.db votes cycle := by
  cases e with
  | consensusItem peerId item =>
    simp only [applyEvent, bind_eq_ok, pure_eq_ok] at h
    obtain ⟨db', hitem, rfl⟩ := h
    have hstep := processConsensusItem_ok hitem
    cases hstep with
    | version version => exact .inl rfl
    | vote vote _ _ _ _ => exact .inl rfl
    | turnover vote _ info _ hnext _ _ hinfo hturn =>
      obtain ⟨middle, remaining, log, seeks, charged, provides, feeRate, feePool, hturned⟩ := turnover_ok hturn
      obtain ⟨cycle, hcycle, hindex⟩ : ∃ cycle, db'.currentCycle = some cycle ∧ cycle.index = info.idx :=
        ⟨_, hturned.written.current, rfl⟩
      -- the new cycle has the index voted for, so it is not the old one
      have hnew : st.db.currentCycle ≠ some cycle := by
        intro hold
        rw [hold] at hnext
        have hvoted : vote.nextCycleIndex = cycle.index + 1 := of_decide_eq_true hnext
        have hidx := hinfo.idx
        omega
      obtain ⟨votes, hon⟩ := turnoverOn_of_item hinv hitem hcycle hnew
      exact .inr ⟨cycle, votes, hcycle, hon⟩
  | input txid i =>
    simp only [applyEvent, bind_eq_ok, pure_eq_ok] at h
    obtain ⟨r, hr, rfl⟩ := h
    exact .inl (processInput_sameCycle hr)
  | output txid o =>
    simp only [applyEvent, bind_eq_ok, pure_eq_ok] at h
    obtain ⟨r, hr, rfl⟩ := h
    exact .inl (processOutput_sameCycle hr)

theorem applyEvent_advances {C : Crypto} {cfg : StabilityPoolConfigConsensus} {evs : List Event} {st st' : Ledger}
    {e : Event} (hinv : VotesInv cfg evs st.db) (h : applyEvent C cfg st e = .ok st') : CycleAdvances st.db st'.db := by
  rcases applyEvent_cycle hinv h with hsame | ⟨cycle', votes, hcycle', hon⟩
  · exact hsame.advances
  · intro cycle hcycle
    refine ⟨cycle', hcycle', .inr ?_⟩
    have := hon.next cycle hcycle
    omega

/-- The states of a longer run advance those of a shorter one. -/
theorem run_advances {C : Crypto} {cfg : StabilityPoolConfigConsensus} (hpos : 0 < cfg.consensusThreshold)
    {before after : List Event} {st st' : Ledger} (h : runEvents C cfg before = .ok st)
    (h' : runEvents C cfg (before ++ after) = .ok st') : CycleAdvances st.db st'.db := by
  induction after using List.reverseRecOn generalizing st' with
  | nil =>
    rw [List.append_nil, h] at h'
    cases h'
    exact .refl _
  | append_singleton after e ih =>
    rw [← List.append_assoc] at h'
    obtain ⟨st1, h1, h2⟩ := run_snoc.mp h'
    exact (ih h1).trans (applyEvent_advances (votesInv_of_run hpos h1) h2)

/-- Cycles of one index agree along a run. -/
theorem cycle_unique {C : Crypto} {cfg : StabilityPoolConfigConsensus} (hpos : 0 < cfg.consensusThreshold)
    {before evs : List Event} {st st' : Ledger} (hpre : before <+: evs) (h : runEvents C cfg before = .ok st)
    (h' : runEvents C cfg evs = .ok st') {c c' : Cycle} (hc : st.db.currentCycle = some c)
    (hc' : st'.db.currentCycle = some c') (hindex : c.index = c'.index) : c'.info = c.info := by
  obtain ⟨after, rfl⟩ := hpre
  obtain ⟨c'', hc'', hinfo⟩ := run_advances hpos h h' c hc
  rw [hc'] at hc''
  cases hc''
  rcases hinfo with hinfo | hlt
  · exact hinfo
  · omega

/-! ## Turnovers of a federation -/

section

variable {C : Crypto} {cfg : GuardianConfig} {n : ℕ} {faulty : Finset PeerId} {Priced : ℕ → Prop}

/-- The votes of a turnover that come from honest guardians were submitted by them. -/
theorem FedInv.submitted_of_vote {s : Federation} (h : FedInv C cfg faulty Priced s) {event : Event}
    (hmay : mayAgree faulty s.submitted event = true) {p : PeerId} {vote : StabilityPoolConsensusItemV0}
    (hvote : voteEvent p vote ∈ s.agreed ++ [event]) (hp : p ∉ faulty) : (p, .v0 vote) ∈ s.submitted := by
  rcases List.mem_append.mp hvote with hold | hnew
  · exact h.cast p _ hold hp
  · rw [List.mem_singleton] at hnew
    subst hnew
    have := of_decide_eq_true hmay
    exact this.resolve_left hp

/-- What a turnover takes from the honest guardians: a vote that is due and starts no later than the
new cycle, and prices that enclose the median. -/
structure HonestTurnover (C : Crypto) (cfg : GuardianConfig) (Priced : ℕ → Prop) (s : Federation) (cycle : Cycle) :
    Prop where
  next : ∀ old, s.ledger.db.currentCycle = some old → cycle.index = old.index + 1
  due : ∃ vote, DueVote C cfg s.agreed vote ∧ vote.nextCycleIndex = cycle.index ∧ vote.time ≤ cycle.startTime
  price : ∃ median low high, Priced low ∧ Priced high ∧ low ≤ median ∧ median ≤ high ∧
    effectivePrice s.ledger.db.currentCycle median = .ok cycle.startPrice

theorem honestTurnover (hn : 0 < n) (hthreshold : cfg.consensus.consensusThreshold = n - (n - 1) / 3)
    (hfaulty : faulty.card ≤ (n - 1) / 3) {s : Federation} (h : FedInv C cfg faulty Priced s) {event : Event}
    (hmay : mayAgree faulty s.submitted event = true) {votes : List (PeerId × StabilityPoolConsensusItemV0)}
    {cycle : Cycle} (hon : TurnoverOn cfg.consensus (s.agreed ++ [event]) s.ledger.db votes cycle) :
    HonestTurnover C cfg Priced s cycle := by
  have hhonest : 2 * faulty.card < votes.length := by
    rw [hon.count]
    omega
  have hsubmitted : ∀ v ∈ votes, v.1 ∉ faulty → Priced v.2.price ∧ DueVote C cfg s.agreed v.2 := fun v hv hp =>
    h.votes v.1 v.2 (h.submitted_of_vote hmay (hon.cast v hv).1 hp) hp
  refine ⟨hon.next, ?_, ?_⟩
  · obtain ⟨x, hx, -, -, hgood, -, hle, -⟩ := medianBy_between hon.distinct hhonest hon.time
    exact ⟨x.2, (hsubmitted x hx hgood).2, (hon.cast x hx).2, hle⟩
  · obtain ⟨median, hmedian, heffective⟩ := hon.price
    obtain ⟨x, hx, y, hy, hgood, hgood', hle, hge⟩ := medianBy_between hon.distinct hhonest hmedian
    exact ⟨median, x.2.price, y.2.price, (hsubmitted x hx hgood).1, (hsubmitted y hy hgood').1, hle, hge, heffective⟩

/-- A step of a federation leaves the current cycle, or is a turnover. -/
theorem fedStep_cycle (hn : 0 < n) (hthreshold : cfg.consensus.consensusThreshold = n - (n - 1) / 3)
    (hfaulty : faulty.card ≤ (n - 1) / 3) {s s' : Federation} {e : FedEvent} (h : FedInv C cfg faulty Priced s)
    (hstep : fedStep C cfg n faulty s e = .ok s') : SameCycle s.ledger.db s'.ledger.db ∨
      ∃ cycle, s'.ledger.db.currentCycle = some cycle ∧ HonestTurnover C cfg Priced s cycle := by
  cases e with
  | agree event =>
    simp only [fedStep, ensure, bind_eq_ok, pure_eq_ok] at hstep
    obtain ⟨_, hmay, ledger, happly, rfl⟩ := hstep
    split_ifs at hmay with hmay'
    rcases applyEvent_cycle (votesInv_of_run (by omega) h.ran) happly with hsame | ⟨cycle, votes, hcycle, hon⟩
    · exact .inl hsame
    · exact .inr ⟨cycle, hcycle, honestTurnover hn hthreshold hfaulty h hmay' hon⟩
  | propose peerId processed now delay =>
    simp only [fedStep, bind_eq_ok, pure_eq_ok] at hstep
    obtain ⟨own, -, r, -, rfl⟩ := hstep
    exact .inl rfl
  | fetchPrice peerId now results =>
    cases hstep
    exact .inl rfl
  | fetchVersions peerId answers =>
    cases hstep
    exact .inl rfl
  | activateVoting peerId =>
    cases hstep
    exact .inl rfl
  | restart peerId =>
    cases hstep
    exact .inl rfl

/-- A turnover comes more than the duration of a cycle after the cycle it ends. -/
theorem HonestTurnover.late (hpos : 0 < cfg.consensus.consensusThreshold) {s : Federation}
    (h : FedInv C cfg faulty Priced s) {cycle old : Cycle} (hturn : HonestTurnover C cfg Priced s cycle)
    (hold : s.ledger.db.currentCycle = some old) : old.startTime + cfg.cycleDuration < cycle.startTime := by
  obtain ⟨vote, hdue, hindex, htime⟩ := hturn.due
  obtain ⟨before, own, hpre, hran, hnext, hover⟩ := hdue.seen
  have hcycle := hturn.next old hold
  cases hown : own.db.currentCycle with
  | none =>
    -- a guardian that saw no cycle voted for index 0
    rw [hown] at hnext
    simp only [nextCycleIndex] at hnext
    omega
  | some seen =>
    rw [hown] at hnext
    simp only [nextCycleIndex] at hnext
    have hsame := cycle_unique hpos hpre hran h.ran hown hold (by omega)
    have := hover seen hown
    rw [← startTime_of_info hsame] at this
    omega

/-! ## Prices -/

/-- Most of the quotes are within the bounds, if there are any. -/
def WithinMost (lo hi : ℕ) (quotes : List ℕ) : Prop :=
  quotes ≠ [] → 2 * quotes.countP (fun quote => decide (¬ (lo ≤ quote ∧ quote ≤ hi))) < quotes.length

/-- A positive price within the bounds. -/
def PriceWithin (lo hi price : ℕ) : Prop := 0 < price ∧ lo ≤ price ∧ price ≤ hi

theorem pricedFetch_within {lo hi : ℕ} {evs : List FedEvent}
    (hquotes : ∀ peerId now results, FedEvent.fetchPrice peerId now results ∈ evs → peerId ∉ faulty →
      WithinMost lo hi (quotes results)) : ∀ e ∈ evs, PricedFetch faulty (PriceWithin lo hi) e := by
  intro e he
  cases e with
  | fetchPrice peerId now results =>
    intro hp price hprice
    have hmem := getPrice_mem hprice
    have hmost := hquotes peerId now results he hp (List.ne_nil_of_mem hmem)
    exact ⟨pos_of_mem_quotes hmem, getPrice_within hprice hmost⟩
  | _ => exact trivial

theorem HonestTurnover.price_within {lo hi : ℕ} {s : Federation} {cycle : Cycle}
    (h : HonestTurnover C cfg (PriceWithin lo hi) s cycle) : lo ≤ cycle.startPrice ∧ cycle.startPrice ≤ hi := by
  obtain ⟨median, low, high, hlow, hhigh, hle, hge, heffective⟩ := h.price
  -- an honest vote has a price, so the median is no zero
  have hpos : median ≠ 0 := by
    have := hlow.1
    omega
  unfold effectivePrice at heffective
  rw [if_neg hpos] at heffective
  cases heffective
  exact ⟨hlow.2.1.trans hle, hge.trans hhigh.2.2⟩

/-- Where most of the price sources that answer an honest guardian quote within bounds, each time it
asks, the start price of every cycle is within these bounds. -/
theorem startPrice_within_quotes (hn : 0 < n) (hthreshold : cfg.consensus.consensusThreshold = n - (n - 1) / 3)
    (hfaulty : faulty.card ≤ (n - 1) / 3) {lo hi : ℕ} {evs : List FedEvent}
    (hquotes : ∀ peerId now results, FedEvent.fetchPrice peerId now results ∈ evs → peerId ∉ faulty →
      WithinMost lo hi (quotes results)) {s : Federation} (hrun : runFederation C cfg n faulty evs = .ok s)
    {cycle : Cycle} (hcycle : s.ledger.db.currentCycle = some cycle) :
    lo ≤ cycle.startPrice ∧ cycle.startPrice ≤ hi := by
  have hpriced := pricedFetch_within hquotes
  refine run_induction (P := fun evs s => (∀ e ∈ evs, PricedFetch faulty (PriceWithin lo hi) e) →
    ∀ cycle, s.ledger.db.currentCycle = some cycle → lo ≤ cycle.startPrice ∧ cycle.startPrice ≤ hi)
    ?_ ?_ hrun hpriced cycle hcycle
  · intro _ cycle hcycle
    cases hcycle
  · intro evs s e s' hbefore ih hstep hevs cycle' hcycle'
    have hpricedBefore : ∀ e ∈ evs, PricedFetch faulty (PriceWithin lo hi) e := fun e he =>
      hevs e (List.mem_append_left _ he)
    have hinv := fedInv_of_run hpricedBefore hbefore
    rcases fedStep_cycle hn hthreshold hfaulty hinv hstep with hsame | ⟨new, hnew, hturn⟩
    · obtain ⟨cycle, hcycle, hinfo⟩ := hsame.back hcycle'
      rw [startPrice_of_info hinfo]
      exact ih hpricedBefore cycle hcycle
    · rw [hnew] at hcycle'
      cases hcycle'
      exact hturn.price_within

/-- Four guardians, of which 3 is faulty, and cycles of ten minutes. -/
def demoGuardianConfig : GuardianConfig := ⟨demoConfig, 600 * NANOS_PER_SEC⟩

/-- Guardians 0 and 1 fetch the price and propose the first cycle, which the faulty vote joins. -/
def demoFirstCycle (results : List OracleResult) (price : ℕ) : List FedEvent :=
  [0, 1].map (.fetchPrice · 500 results) ++ [0, 1].map (.propose · 0 1000 1) ++
    [.agree (.consensusItem 3 (.v0 ⟨0, 99999, 1⟩))] ++ [0, 1].map fun p => .agree (.consensusItem p (.v0 ⟨0, 1001, price⟩))

theorem exists_cycle_of_run {x : Res Federation}
    (h : (x.map fun s => s.ledger.db.currentCycle.isSome).toOption = some true) :
    ∃ s cycle, x = .ok s ∧ s.ledger.db.currentCycle = some cycle := by
  cases x with
  | error e => cases h
  | ok s =>
    obtain ⟨cycle, hcycle⟩ := Option.isSome_iff_exists.mp (Option.some.inj h)
    exact ⟨s, cycle, rfl, hcycle⟩

theorem startPrice_within_quotes_demo : ∃ s cycle,
    runFederation demoCrypto demoGuardianConfig 4 {3}
      (demoFirstCycle [some (.ok 6500000), none, some (.ok 0), some (.ok 1), some (.ok 6510000)] 6500000) = .ok s ∧
    s.ledger.db.currentCycle = some cycle ∧ 6000000 ≤ cycle.startPrice ∧ cycle.startPrice ≤ 7000000 := by
  obtain ⟨s, cycle, h, hcycle⟩ := exists_cycle_of_run (x := runFederation demoCrypto demoGuardianConfig 4 {3}
    (demoFirstCycle [some (.ok 6500000), none, some (.ok 0), some (.ok 1), some (.ok 6510000)] 6500000))
    (by decide +kernel)
  refine ⟨s, cycle, h, hcycle, ?_⟩
  refine startPrice_within_quotes (by decide) rfl (by decide) ?_ h hcycle
  intro peerId now results hmem _
  simp only [demoFirstCycle, List.map_cons, List.map_nil, List.cons_append, List.nil_append, List.mem_cons,
    FedEvent.fetchPrice.injEq, reduceCtorEq, List.not_mem_nil, or_false] at hmem
  rcases hmem with ⟨-, -, rfl⟩ | ⟨-, -, rfl⟩
  all_goals exact fun _ => by decide

/-! ## Times -/

theorem exists_spaced_cycle (hn : 0 < n) (hthreshold : cfg.consensus.consensusThreshold = n - (n - 1) / 3)
    (hfaulty : faulty.card ≤ (n - 1) / 3) {evs later : List FedEvent} {s s' : Federation}
    (hrun : runFederation C cfg n faulty evs = .ok s) (hlater : runFederation C cfg n faulty (evs ++ later) = .ok s')
    {c : Cycle} (hc : s.ledger.db.currentCycle = some c) :
    ∃ c', s'.ledger.db.currentCycle = some c' ∧ c.index ≤ c'.index ∧
      c.startTime + (c'.index - c.index) * (cfg.cycleDuration + 1) ≤ c'.startTime := by
  induction later using List.reverseRecOn generalizing s' with
  | nil =>
    rw [List.append_nil, hrun] at hlater
    cases hlater
    refine ⟨c, hc, le_rfl, ?_⟩
    simp
  | append_singleton later e ih =>
    rw [← List.append_assoc] at hlater
    obtain ⟨middle, hmiddle, hstep⟩ := run_snoc.mp hlater
    have hinv : FedInv C cfg faulty (fun _ => True) middle := fedInv_of_run (fun e _ => pricedFetch_any e) hmiddle
    obtain ⟨old, hold, hle, htime⟩ := ih hmiddle
    rcases fedStep_cycle hn hthreshold hfaulty hinv hstep with hsame | ⟨new, hnew, hturn⟩
    · have hback : SameCycle s'.ledger.db middle.ledger.db := hsame.symm
      obtain ⟨old', hold', hinfo⟩ := hback.back hold
      rw [index_of_info hinfo] at hle htime
      rw [startTime_of_info hinfo] at htime
      exact ⟨old', hold', hle, htime⟩
    · have hnext := hturn.next old hold
      have hlate := hturn.late (by omega) hinv hold
      refine ⟨new, hnew, by omega, ?_⟩
      have hcount : new.index - c.index = old.index - c.index + 1 := by omega
      rw [hcount, Nat.add_mul, Nat.one_mul]
      omega

/-- Between any two moments of a run, the start times are apart by more than the duration of a cycle
for every cycle in between. -/
theorem cycles_spaced (hn : 0 < n) (hthreshold : cfg.consensus.consensusThreshold = n - (n - 1) / 3)
    (hfaulty : faulty.card ≤ (n - 1) / 3) {evs later : List FedEvent} {s s' : Federation}
    (hrun : runFederation C cfg n faulty evs = .ok s) (hlater : runFederation C cfg n faulty (evs ++ later) = .ok s')
    {c c' : Cycle} (hc : s.ledger.db.currentCycle = some c) (hc' : s'.ledger.db.currentCycle = some c') :
    c.index ≤ c'.index ∧ c.startTime + (c'.index - c.index) * (cfg.cycleDuration + 1) ≤ c'.startTime := by
  obtain ⟨c'', hc'', hspaced⟩ := exists_spaced_cycle hn hthreshold hfaulty hrun hlater hc
  rw [hc'] at hc''
  cases hc''
  exact hspaced

/-- The guardians propose the second cycle on the state after three agreed events. -/
def demoSecondCycle (time price : ℕ) : List FedEvent :=
  [0, 1].map (.propose · 3 time 1) ++ [.agree (.consensusItem 3 (.v0 ⟨1, 0, 1⟩))] ++
    [0, 1].map fun p => .agree (.consensusItem p (.v0 ⟨1, time + 1, price⟩))

theorem cycles_spaced_demo : ∃ s s' c c',
    runFederation demoCrypto demoGuardianConfig 4 {3} (demoFirstCycle [some (.ok 6500000)] 6500000) = .ok s ∧
    runFederation demoCrypto demoGuardianConfig 4 {3}
      (demoFirstCycle [some (.ok 6500000)] 6500000 ++ demoSecondCycle 700000000000 6500000) = .ok s' ∧
    s.ledger.db.currentCycle = some c ∧ s'.ledger.db.currentCycle = some c' ∧
    c.startTime + (c'.index - c.index) * 600000000001 ≤ c'.startTime := by
  obtain ⟨s, c, h, hc⟩ := exists_cycle_of_run (x := runFederation demoCrypto demoGuardianConfig 4 {3}
    (demoFirstCycle [some (.ok 6500000)] 6500000)) (by decide +kernel)
  obtain ⟨s', c', h', hc'⟩ := exists_cycle_of_run (x := runFederation demoCrypto demoGuardianConfig 4 {3}
    (demoFirstCycle [some (.ok 6500000)] 6500000 ++ demoSecondCycle 700000000000 6500000)) (by decide +kernel)
  have hspaced := cycles_spaced (by decide) rfl (by decide) h h' hc hc'
  exact ⟨s, s', c, c', h, h', hc, hc', hspaced.2⟩

/-! ## Versions -/

/-- The version a quorum of accepted votes supports is one the honest guardians support. -/
theorem ActiveVersion.supported {evs : List Event} {active : ModuleConsensusVersion}
    (h : ActiveVersion cfg.consensus evs active) (hfaulty : faulty.card < cfg.consensus.consensusThreshold)
    (hhonest : ∀ p version, versionEvent p version ∈ evs → p ∉ faulty → version ≤ CONSENSUS_VERSION) :
    active ≤ CONSENSUS_VERSION := by
  rcases h with hgreatest | ⟨-, rfl⟩
  · have hquorum : cfg.consensus.consensusThreshold ≤ (supporters evs active).card := hgreatest.1
    -- more supporters than faulty guardians
    obtain ⟨p, hp, hgood⟩ : ∃ p ∈ supporters evs active, p ∉ faulty := by
      by_contra hnone
      push Not at hnone
      have := Finset.card_le_card (fun p hp => hnone p hp : supporters evs active ⊆ faulty)
      omega
    obtain ⟨version, hle, hvote⟩ := mem_supporters.mp hp
    exact hle.trans (hhonest p version hvote hgood)
  · decide

/-- No version vote, of an honest or a faulty guardian, ends the thread of a guardian: the active
version is never above the one that the code supports. -/
theorem version_votes_never_panic (hn : 0 < n) (hthreshold : cfg.consensus.consensusThreshold = n - (n - 1) / 3)
    (hfaulty : faulty.card ≤ (n - 1) / 3) {evs : List FedEvent} {s : Federation}
    (hrun : runFederation C cfg n faulty evs = .ok s) {peerId : PeerId} {version : ModuleConsensusVersion}
    (hmay : mayAgree faulty s.submitted (versionEvent peerId version) = true) (p : Panic) :
    processConsensusItem cfg.consensus s.ledger.db (.v1 version) peerId ≠ .error (.panic p) := by
  have hinv : FedInv C cfg faulty (fun _ => True) s := fedInv_of_run (fun e _ => pricedFetch_any e) hrun
  intro h
  simp only [processConsensusItem, processVersionVote, ensure] at h
  by_cases hnew : s.ledger.db.consensusVersionVote.getD peerId INITIAL_MODULE_CONSENSUS_VERSION < version
  · have hvotes := (versionsInv_of_run hinv.ran).insert hnew
    obtain ⟨active, hactive, hspec⟩ : ∃ active, consensusModuleConsensusVersion cfg.consensus
        { s.ledger.db with consensusVersionVote := s.ledger.db.consensusVersionVote.insert peerId version } = .ok active ∧
          ActiveVersion cfg.consensus (s.agreed ++ [versionEvent peerId version]) active :=
      activeVersion_of_inv (by omega) hvotes
    have hsupported : active ≤ CONSENSUS_VERSION := by
      have hfew : faulty.card < cfg.consensus.consensusThreshold := by omega
      refine hspec.supported hfew ?_
      intro p v hv hp
      have hsubmitted : (p, .v1 v) ∈ s.submitted := by
        rcases List.mem_append.mp hv with hold | hlast
        · exact hinv.cast p _ hold hp
        · rw [List.mem_singleton] at hlast
          cases hlast
          exact (of_decide_eq_true hmay).resolve_left hp
      exact hinv.versions p v hsubmitted hp
    simp only [if_pos hnew, ok_bind, hactive, if_pos hsupported] at h
    cases h
  · simp only [if_neg hnew] at h
    cases h

/-- The faulty guardian votes for a version nobody supports, after an honest vote. -/
theorem version_votes_never_panic_demo : ∃ s,
    runFederation demoCrypto demoGuardianConfig 4 {3} [.activateVoting 0, .propose 0 0 1000 1,
      .agree (versionEvent 0 CONSENSUS_VERSION)] = .ok s ∧
    ∀ p, processConsensusItem demoConfig s.ledger.db (.v1 ⟨9, 0⟩) 3 ≠ .error (.panic p) := by
  obtain ⟨s, h⟩ := exists_of_succeeds (show succeeds (runFederation demoCrypto demoGuardianConfig 4 {3}
    [.activateVoting 0, .propose 0 0 1000 1, .agree (versionEvent 0 CONSENSUS_VERSION)]) = true by decide +kernel)
  have hmay : mayAgree {3} s.submitted (versionEvent 3 ⟨9, 0⟩) = true := by
    simp [mayAgree, versionEvent]
  exact ⟨s, h, version_votes_never_panic (by decide) rfl (by decide) h hmay⟩

end

end StabilityPool
