import Fedi.StabilityPool.NewCycleFaults

/-!
# When a turnover fails

In a reachable state the turnover at a non-zero median price succeeds exactly when
(`TurnoverSafe`)

- the locked seeks, if there are any, are not all zero: their sum divides;
- the fiat amounts of the unlock requests convert to fewer than `2^64` msats;
- if some seek is left positive and some provide is left with a fee rate below `B`,
  then one of those provides is left positive: their included sum divides.

Locked provides are never all zero (`Db.ProvidesHeld`): a cycle that locked only zeros
was never written, and transfers keep the sum.
-/

namespace StabilityPool

open BTreeMaps KeyedLogs Runs

/-! ## Locked provides are not all zero -/

def Db.ProvidesHeld (db : Db) : Prop :=
  (∃ a, (db.locked .provide).getD a [] ≠ []) → tableWeight (fun _ _ => 1) (db.locked .provide) ≠ 0

theorem Db.ProvidesHeld.congr {db db' : Db} (h : db.ProvidesHeld)
    (hlocked : db'.locked .provide = db.locked .provide) : db'.ProvidesHeld := by
  unfold Db.ProvidesHeld
  rw [hlocked]
  exact h

theorem Splits.nil {M : Type} {kept drained : List (Deposit M)} (h : Splits [] kept drained) :
    kept = [] ∧ drained = [] := by
  have hk := h.kept_heads.length_le
  have hd := h.drained_heads.length_le
  simp only [heads, List.length_map, List.length_nil, Nat.le_zero] at hk hd
  exact ⟨List.eq_nil_of_length_eq_zero hk, List.eq_nil_of_length_eq_zero hd⟩

theorem AccountMove.providesHeld {db db' : Db} {txid : TransactionId} {cycle : Cycle} {s : Side}
    {sender recipient : AccountId} {keptStaged drainedStaged newStaged keptLocked drainedLocked
      newLocked : List (Deposit s.Meta)} {credit : ℕ} {log : List Posting}
    (h : AccountMove db db' txid cycle s sender recipient keptStaged drainedStaged newStaged keptLocked
      drainedLocked newLocked credit log)
    (hsum : amountSum newLocked = amountSum drainedLocked)
    (hnil : (db.locked s).getD sender [] = [] → newLocked = []) (hheld : db.ProvidesHeld) :
    db'.ProvidesHeld := by
  obtain ⟨hm, hside⟩ := h.locked_eq
  by_cases hs : s = .provide
  · subst hs
    rintro ⟨a, ha⟩
    have hex : ∃ a, (db.locked .provide).getD a [] ≠ [] := by
      by_contra hnone
      push Not at hnone
      rw [hm.getD_eq, hnil (hnone sender)] at ha
      have hkept := (Splits.nil (hnone sender ▸ hm.splits)).1
      rw [hkept, hnone a] at ha
      simp at ha
    have hw := hm.weigh_eq fun _ _ => 1
    rw [weigh_one, weigh_one] at hw
    have := hheld hex
    omega
  · exact hheld.congr (hside .provide (Ne.symm hs))

theorem processInput_providesHeld {C : Crypto} {db : Db} {txid : TransactionId} {i : StabilityPoolInput}
    {r : Db × InputMeta} (hheld : db.ProvidesHeld) (h : processInput C db txid i = .ok r) :
    r.1.ProvidesHeld := by
  rcases processInput_ok h with ⟨u, -, hu⟩ | ⟨w, -, hw⟩
  · obtain ⟨cycle, kept, drained, hm, -⟩ := processUnlockInput_ok hu
    exact hm.providesHeld rfl (fun _ => rfl) hheld
  · obtain ⟨-, -, hr⟩ := processWithdrawalInput_ok hw
    rw [hr]
    exact hheld

theorem processOutput_providesHeld {C : Crypto} {cfg : StabilityPoolConfigConsensus} {db : Db}
    {txid : TransactionId} {o : StabilityPoolOutput} {r : OutputResult} (hheld : db.ProvidesHeld)
    (h : processOutput C cfg db txid o = .ok r) : r.1.ProvidesHeld := by
  rcases processOutput_ok h with ⟨s, cycle, a, metadata, kind, hc, hallowed, -, hr⟩ | ⟨t, -, -, ht⟩
  · obtain ⟨hcredit, hdebit⟩ := hallowed.credit
    rw [hr]
    exact (stageDeposit_move hc txid a r.2 metadata hcredit hdebit).providesHeld rfl (fun _ => rfl) hheld
  · obtain ⟨-, -, cycle, s, metadata, staged, locked, -, -, -, hstep⟩ := processTransferOutput_ok ht
    refine hstep.move.providesHeld ?_ ?_ hheld
    · rw [hstep.locked_eq]
      exact transferPart_amountSum _ _ _ _ _
    · intro hnil
      rw [locked_of_current hstep.move.current] at hnil
      exact hstep.locked_nil hnil

theorem TurnoverStep.providesHeld {ratio : CollateralRatio} {db db' middle : Db} {info : CycleInfo}
    {remaining : Locks} {log : List Posting} {seeks charged : List AccountSeek}
    {provides : List AccountProvide} {feeRate feePool : ℕ}
    (h : TurnoverStep ratio db info db' middle remaining log seeks charged provides feeRate feePool) :
    db'.ProvidesHeld := by
  have hcurrent : db'.currentCycle = some _ := h.written.current
  unfold Db.ProvidesHeld
  rw [locked_of_current hcurrent]
  show (∃ a, (BTreeMap.groupMap provides).getD a [] ≠ []) →
    tableWeight (fun _ _ => 1) (BTreeMap.groupMap provides) ≠ 0
  rintro ⟨a, ha⟩
  rw [tableWeight_groupMap, pairsWeight_one]
  refine h.written.included ?_
  rintro rfl
  exact ha rfl

theorem processConsensusItem_providesHeld {cfg : StabilityPoolConfigConsensus} {db db' : Db}
    {item : StabilityPoolConsensusItem} {peerId : PeerId} (hheld : db.ProvidesHeld)
    (h : processConsensusItem cfg db item peerId = .ok db') : db'.ProvidesHeld := by
  cases processConsensusItem_ok h with
  | version version => exact hheld
  | vote vote => exact hheld
  | turnover vote _ info _ hnext hfirst hmany hinfo hturn =>
    obtain ⟨_, _, _, _, _, _, _, _, hstep⟩ := turnover_ok hturn
    exact hstep.providesHeld

theorem providesHeld_of_reachable {C : Crypto} {cfg : StabilityPoolConfigConsensus} {db : Db}
    (h : Reachable C cfg db) : db.ProvidesHeld := by
  have h0 : Db.initial.ProvidesHeld := by
    rintro ⟨a, ha⟩
    exact absurd rfl ha
  exact reachable_induction h0 (fun _ _ _ _ hp h => processConsensusItem_providesHeld hp h)
    (fun _ _ _ _ hp h => processInput_providesHeld hp h)
    (fun _ _ _ _ hp h => processOutput_providesHeld hp h) h

/-! ## Settling the last cycle -/

/-- What a turnover at `price` needs of the state before it. -/
structure TurnoverSafe (db : Db) (price randomness : ℕ) : Prop where
  seeks : ∀ cycle, db.currentCycle = some cycle → cycle.lockedSeeks.flat ≠ [] →
    amountSum cycle.lockedSeeks.flat ≠ 0
  requests : ∀ a amount, db.requested a = some amount → amount.Fits price
  provides : (∃ a e, a.accType ≠ .btcDepositor ∧ DepositLeft db price randomness .seek a e ∧ 0 < e.amount) →
    (∃ a e, DepositLeft db price randomness .provide a e ∧ e.metadata.ppb < B) →
      ∃ a e, DepositLeft db price randomness .provide a e ∧ e.metadata.ppb < B ∧ 0 < e.amount

theorem flat_ne_nil {M : Type} {t : DepositTable M} (h : t.flat ≠ []) : ∃ a, t.getD a [] ≠ [] := by
  obtain ⟨d, hd⟩ := List.exists_mem_of_ne_nil _ h
  obtain ⟨a, ha⟩ := BTreeMap.mem_flat.mp hd
  exact ⟨a, List.ne_nil_of_mem ha⟩

theorem requested_eq_some {db : Db} {a : AccountId} {amount : FiatOrAll} :
    db.requested a = some amount ↔ ∃ req, db.unlockRequests.get? a = some req ∧ req.unlockAmount = amount :=
  Option.map_eq_some_iff

theorem settleLastCycle_succeeds_iff {cfg : StabilityPoolConfigConsensus} {db : Db} (hwf : Wf cfg db)
    (hcovered : db.Covered cfg.collateralRatio) (hheld : db.ProvidesHeld)
    (hcp : 1 ≤ cfg.collateralRatio.provider) (hfits : db.total < 2 ^ 64) {info : CycleInfo}
    (hprice : info.startPrice ≠ 0) {randomness : ℕ} :
    (∃ r, settleLastCycle db info randomness = .ok r) ↔
      (∀ cycle, db.currentCycle = some cycle → cycle.lockedSeeks.flat ≠ [] →
        amountSum cycle.lockedSeeks.flat ≠ 0) ∧
      ∀ a amount, db.requested a = some amount → amount.Fits info.startPrice := by
  unfold settleLastCycle
  cases hc : db.currentCycle with
  | none =>
    refine ⟨fun _ => ⟨fun cycle hcycle => (by cases hcycle), fun a amount ha => ?_⟩, fun _ => ⟨_, rfl⟩⟩
    obtain ⟨req, hreq, -⟩ := requested_eq_some.mp ha
    have := hwf.request_cycle a req hreq
    rw [hc] at this
    cases this
  | some cycle =>
    have hlocked : ∀ s, db.locked s = cycle.locked s := locked_of_current hc
    have hbound : amountSum cycle.lockedSeeks.flat + amountSum cycle.lockedProvides.flat < 2 ^ 64 := by
      rw [Db.total, hlocked, hlocked] at hfits
      simp only [Cycle.locked] at hfits
      omega
    have hprovides : cycle.lockedProvides.flat ≠ [] → amountSum cycle.lockedProvides.flat ≠ 0 := by
      intro hne
      have := hheld (by rw [hlocked]; exact flat_ne_nil hne)
      rwa [hlocked, tableWeight_one] at this
    have hnone : cycle.lockedProvides.flat = [] → amountSum cycle.lockedSeeks.flat = 0 := by
      intro hnil
      have hcov := hcovered cycle hc
      rw [hnil, amountSum_nil, Nat.zero_mul] at hcov
      exact (Nat.mul_eq_zero.mp (Nat.le_zero.mp hcov)).resolve_right (by omega)
    have hreqs : ∀ e ∈ db.unlockRequests.entries, e.1.accType ≠ .btcDepositor := fun e he =>
      hwf.request_btc e.1 e.2 (BTreeMap.mem_entries.mp he)
    have hrequests : (∀ e ∈ db.unlockRequests.entries, e.2.unlockAmount.Fits info.startPrice) ↔
        ∀ a amount, db.requested a = some amount → amount.Fits info.startPrice := by
      constructor
      · intro h a amount ha
        obtain ⟨req, hreq, rfl⟩ := requested_eq_some.mp ha
        exact h (a, req) (BTreeMap.mem_entries.mpr hreq)
      · intro h e he
        exact h e.1 _ (requested_eq_some.mpr ⟨e.2, BTreeMap.mem_entries.mp he, rfl⟩)
    have hserve : ∀ locks, (∃ r, (processUnlockRequests
        { db with pastCycle := db.pastCycle.insert cycle.index cycle } locks info >>= fun r =>
          pure (restageRemainingLocks r.1 r.2, r.2)) = .ok r) ↔
        ∀ e ∈ db.unlockRequests.entries, e.2.unlockAmount.Fits info.startPrice := fun locks =>
      (exists_ok_bind_total fun _ => ⟨_, rfl⟩).trans (processUnlockRequestsLoop_succeeds_iff hprice hreqs)
    simp only [settleCurrentCycle]
    rw [exists_ok_bind, ← hrequests]
    simp only [hserve, exists_and_right]
    rw [settleLocks_succeeds_iff hprice hbound hnone]
    constructor
    · rintro ⟨⟨hseeks, -⟩, hfit⟩
      refine ⟨fun c hcc => ?_, hfit⟩
      cases hcc
      exact hseeks
    · rintro ⟨hseeks, hfit⟩
      exact ⟨⟨hseeks cycle rfl, hprovides⟩, hfit⟩

/-! ## The turnover -/

/-- Sums of the staged lists after settling. -/
theorem Settled.staged_le_total {db middle : Db} {info : CycleInfo} {remaining : Locks} {log : List Posting}
    (h : Settled db info middle remaining log) :
    tableWeight (fun _ _ => 1) middle.stagedSeeks + tableWeight (fun _ _ => 1) middle.stagedProvides ≤
      db.total := by
  have hseek := h.staged_weight .seek fun _ _ => 1
  have hprovide := h.staged_weight .provide fun _ _ => 1
  have htotal := h.total
  rw [total_eq, Db.sideTotal, Db.sideTotal]
  simp only [Db.staged, Locks.on, Locks.weight] at hseek hprovide htotal ⊢
  omega

theorem le_pairSum {M : Type} {l : List (AccountId × Deposit M)} {e : AccountId × Deposit M} (he : e ∈ l) :
    e.2.amount ≤ pairSum l :=
  List.single_le_sum (fun _ _ => Nat.zero_le _) _ (List.mem_map_of_mem he)

theorem pairSum_ne_zero {M : Type} {l : List (AccountId × Deposit M)} :
    pairSum l ≠ 0 ↔ ∃ e ∈ l, 0 < e.2.amount := by
  constructor
  · intro h
    by_contra hnone
    push Not at hnone
    refine h (List.sum_eq_zero fun x hx => ?_)
    obtain ⟨e, he, rfl⟩ := List.mem_map.mp hx
    exact Nat.le_zero.mp (hnone e he)
  · rintro ⟨e, he, hpos⟩
    have := le_pairSum he
    omega

theorem mem_sortedStagedSeeks_pair {db : Db} {e : AccountSeek} : e ∈ sortedStagedSeeks db ↔
    e.1.accType ≠ .btcDepositor ∧ e.2 ∈ db.stagedSeeks.getD e.1 [] := by
  rw [(sortedStagedSeeks_perm db).mem_iff, show e = (e.1, e.2) from rfl, BTreeMap.mem_pairs,
    getD_filterKeys, ← stabilizes_iff]
  by_cases h : stabilizes e.1 = true <;> simp [h]

theorem mem_sortedStagedProvides_pair {db : Db} {e : AccountProvide} : e ∈ sortedStagedProvides db ↔
    e.2 ∈ db.stagedProvides.getD e.1 [] := by
  rw [(sortedStagedProvides_perm db).mem_iff, show e = (e.1, e.2) from rfl, BTreeMap.mem_pairs]

section
variable {cfg : StabilityPoolConfigConsensus} {db : Db} {info : CycleInfo} {randomness : ℕ} {r : Db × Locks}

theorem settled_seeks_iff (hwf : Wf cfg db) (hprice : info.startPrice ≠ 0)
    (hr : settleLastCycle db info randomness = .ok r) :
    pairSum (sortedStagedSeeks r.1) ≠ 0 ↔ ∃ a e, a.accType ≠ .btcDepositor ∧
      DepositLeft db info.startPrice randomness .seek a e ∧ 0 < e.amount := by
  have hleft : ∀ a, (∃ e ∈ r.1.stagedSeeks.getD a [], True ∧ 1 ≤ e.amount) ↔
      ∃ e, DepositLeft db info.startPrice randomness .seek a e ∧ True ∧ 1 ≤ e.amount :=
    settleLastCycle_left (s := .seek) (p := fun _ => True) hwf hprice hr (le_refl 1)
  rw [pairSum_ne_zero]
  constructor
  · rintro ⟨⟨a, d⟩, he, hpos⟩
    obtain ⟨ha, hd⟩ := mem_sortedStagedSeeks_pair.mp he
    obtain ⟨e, hde, -, hpos⟩ := (hleft a).mp ⟨d, hd, trivial, hpos⟩
    exact ⟨a, e, ha, hde, hpos⟩
  · rintro ⟨a, e, ha, hde, hpos⟩
    obtain ⟨d, hd, -, hpos⟩ := (hleft a).mpr ⟨e, hde, trivial, hpos⟩
    exact ⟨(a, d), mem_sortedStagedSeeks_pair.mpr ⟨ha, hd⟩, hpos⟩

theorem settled_provides_iff (hwf : Wf cfg db) (hprice : info.startPrice ≠ 0)
    (hr : settleLastCycle db info randomness = .ok r) {k : ℕ} (hk : k ≤ 1) :
    (∃ e ∈ sortedStagedProvides r.1, e.2.metadata.ppb < B ∧ k ≤ e.2.amount) ↔
      ∃ a e, DepositLeft db info.startPrice randomness .provide a e ∧ e.metadata.ppb < B ∧ k ≤ e.amount := by
  have hleft : ∀ a, (∃ e ∈ r.1.stagedProvides.getD a [], e.metadata.ppb < B ∧ k ≤ e.amount) ↔
      ∃ e, DepositLeft db info.startPrice randomness .provide a e ∧ e.metadata.ppb < B ∧ k ≤ e.amount :=
    settleLastCycle_left (s := .provide) (p := fun fee => fee.ppb < B) hwf hprice hr hk
  constructor
  · rintro ⟨⟨a, d⟩, he, hd⟩
    obtain ⟨e, he⟩ := (hleft a).mp ⟨d, mem_sortedStagedProvides_pair.mp he, hd⟩
    exact ⟨a, e, he⟩
  · rintro ⟨a, e, he⟩
    obtain ⟨d, hd, hpos⟩ := (hleft a).mpr ⟨e, he⟩
    exact ⟨(a, d), mem_sortedStagedProvides_pair.mpr hd, hpos⟩

/-- Everything that is staged after settling can be matched. -/
theorem settled_lockable (hwf : Wf cfg db) (hfee : cfg.maxAllowedProvideFeeRatePpb ≤ B)
    (hfits : db.total < 2 ^ 64) (hr : settleLastCycle db info randomness = .ok r) :
    pairSum (sortedStagedSeeks r.1) < 2 ^ 64 ∧ Lockable (sortedStagedProvides r.1) := by
  obtain ⟨log, hsettled⟩ := settleLastCycle_ok hr
  have hle := hsettled.staged_le_total
  have hseeks := pairsWeight_sortedStagedSeeks r.1 fun _ _ => 1
  have hprovides := pairsWeight_sortedStagedProvides r.1 fun _ _ => 1
  rw [pairsWeight_one] at hseeks hprovides
  refine ⟨by omega, ?_⟩
  rintro ⟨a, d⟩ he
  constructor
  · have hd : d.head ∈ heads ((r.1.staged .provide).getD a []) :=
      List.mem_map_of_mem (mem_sortedStagedProvides_pair.mp he)
    have hallowed : d.metadata.ppb ≤ cfg.maxAllowedProvideFeeRatePpb :=
      hwf.allowed .provide a d.head (hsettled.mem_staged hd)
    exact hallowed.trans hfee
  · have := le_pairSum he
    omega

end

theorem turnover_succeeds_iff {cfg : StabilityPoolConfigConsensus} {db : Db} (hwf : Wf cfg db)
    (hcovered : db.Covered cfg.collateralRatio) (hheld : db.ProvidesHeld)
    (hcp : 1 ≤ cfg.collateralRatio.provider) (hcs : 1 ≤ cfg.collateralRatio.seeker)
    (hfee : cfg.maxAllowedProvideFeeRatePpb ≤ B) (hfits : db.total < 2 ^ 64) {info : CycleInfo}
    (hprice : info.startPrice ≠ 0) :
    (∃ db', turnover cfg.collateralRatio db info = .ok db') ↔
      TurnoverSafe db info.startPrice (info.startTime % 1000000000) := by
  obtain ⟨randomness, hrandomness⟩ : ∃ r, info.startTime % 1000000000 = r := ⟨_, rfl⟩
  have hwrite : ∀ r, settleLastCycle db info randomness = .ok r →
      ((∃ db', (calculateLocksAndWriteCycle cfg.collateralRatio r.1 info randomness r.2 >>= fun db' =>
          pure { db' with cycleChangeVote := db'.cycleChangeVote.erase info.idx }) = .ok db') ↔
        ((∃ a e, a.accType ≠ .btcDepositor ∧ DepositLeft db info.startPrice randomness .seek a e ∧
            0 < e.amount) →
          (∃ a e, DepositLeft db info.startPrice randomness .provide a e ∧ e.metadata.ppb < B) →
            ∃ a e, DepositLeft db info.startPrice randomness .provide a e ∧ e.metadata.ppb < B ∧
              0 < e.amount)) := by
    intro r hr
    obtain ⟨hseeks, hprovides⟩ := settled_lockable hwf hfee hfits hr
    have hany := settled_provides_iff hwf hprice hr (Nat.zero_le 1)
    have hpositive := settled_provides_iff hwf hprice hr (le_refl 1)
    simp only [Nat.zero_le, and_true] at hany
    refine (exists_ok_bind_total fun _ => ⟨_, rfl⟩).trans ?_
    rw [calculateLocksAndWriteCycle_succeeds_iff hcp hcs hseeks hprovides, settled_seeks_iff hwf hprice hr,
      hany]
    exact imp_congr_right fun _ => imp_congr_right fun _ => hpositive
  unfold turnover
  rw [hrandomness, exists_ok_bind]
  constructor
  · rintro ⟨r, hr, hb⟩
    obtain ⟨hseeks, hrequests⟩ := (settleLastCycle_succeeds_iff hwf hcovered hheld hcp hfits hprice).mp ⟨r, hr⟩
    exact ⟨hseeks, hrequests, (hwrite r hr).mp hb⟩
  · intro hsafe
    obtain ⟨r, hr⟩ := (settleLastCycle_succeeds_iff hwf hcovered hheld hcp hfits hprice).mpr
      ⟨hsafe.seeks, hsafe.requests⟩
    exact ⟨r, hr, (hwrite r hr).mpr hsafe.provides⟩

/-! ## The vote that reaches the threshold -/

/-- A vote that reaches the threshold, with a non-zero median price. -/
structure TurnoverVote (cfg : StabilityPoolConfigConsensus) (db : Db) (vote : StabilityPoolConsensusItemV0)
    (peerId : PeerId) (time price : ℕ) : Prop where
  next : isForNextCycle db.currentCycle vote.nextCycleIndex = true
  first : (cycleChangeVotes db vote.nextCycleIndex).get? peerId = none
  many : cfg.consensusThreshold ≤ (votesWith db vote peerId).length
  medianTime : medianBy (·.time) (votesWith db vote peerId) = .ok time
  medianPrice : medianBy (·.price) (votesWith db vote peerId) = .ok price
  nonzero : price ≠ 0

/-- In a reachable database, the vote that reaches the threshold is processed without a
fault exactly when the state is safe for its median price. -/
theorem turnover_never_faults_iff {C : Crypto} {cfg : StabilityPoolConfigConsensus}
    (hcp : 1 ≤ cfg.collateralRatio.provider) (hcs : 1 ≤ cfg.collateralRatio.seeker)
    (hfee : cfg.maxAllowedProvideFeeRatePpb ≤ 1000000000) {db : Db} (hreach : Reachable C cfg db)
    (hfits : db.total < 2 ^ 64) {vote : StabilityPoolConsensusItemV0} {peerId : PeerId} {time price : ℕ}
    (hvote : TurnoverVote cfg db vote peerId time price) :
    (∃ db', processConsensusItem cfg db (.v0 vote) peerId = .ok db') ↔
      TurnoverSafe db price (time % 1000000000) := by
  have hprocess : processConsensusItem cfg db (.v0 vote) peerId =
      turnover cfg.collateralRatio (recordVote db peerId vote) ⟨vote.nextCycleIndex, price, time⟩ := by
    have hcount : ¬ (cycleChangeVotes (recordVote db peerId vote) vote.nextCycleIndex).values.length <
        cfg.consensusThreshold := by
      rw [recordVote_votes]
      exact not_lt.mpr hvote.many
    have htime := hvote.medianTime
    have hprice := hvote.medianPrice
    unfold votesWith at htime hprice
    rw [← recordVote_votes] at htime hprice
    have heffective : effectivePrice (recordVote db peerId vote).currentCycle price = .ok price :=
      if_neg hvote.nonzero
    simp only [processConsensusItem, processCycleVote, ensure, if_pos hvote.next, if_pos hvote.first, ok_bind,
      if_neg hcount, htime, hprice, heffective]
  have hwf : Wf cfg (recordVote db peerId vote) :=
    (wf_of_reachable hreach).congr (fun s => by cases s <;> rfl) rfl rfl rfl
  have hdb := covered_of_reachable hreach
  have hcovered : (recordVote db peerId vote).Covered cfg.collateralRatio := hdb
  have hheld : (recordVote db peerId vote).ProvidesHeld := (providesHeld_of_reachable hreach).congr rfl
  have hprice : (⟨vote.nextCycleIndex, price, time⟩ : CycleInfo).startPrice ≠ 0 := hvote.nonzero
  have hrecord : TurnoverSafe (recordVote db peerId vote) price (time % 1000000000) ↔
      TurnoverSafe db price (time % 1000000000) := by
    constructor
    · intro h
      exact ⟨h.seeks, h.requests, h.provides⟩
    · intro h
      exact ⟨h.seeks, h.requests, h.provides⟩
  rw [hprocess, ← hrecord]
  exact turnover_succeeds_iff hwf hcovered hheld hcp hcs hfee hfits hprice

theorem turnover_never_faults_iff_demo : ∃ st, runEvents demoCrypto demoConfig demoOpening.dropLast =
      .ok st ∧ TurnoverSafe st.db 10000000 2000 := by
  have hrun : ((runEvents demoCrypto demoConfig demoOpening.dropLast).map fun st => decide
      (st.db.total < 2 ^ 64 ∧ isForNextCycle st.db.currentCycle 1 = true ∧
        (cycleChangeVotes st.db 1).get? 2 = none ∧ 3 ≤ (votesWith st.db ⟨1, 2000, 10000000⟩ 2).length ∧
        medianBy (·.time) (votesWith st.db ⟨1, 2000, 10000000⟩ 2) = .ok 2000 ∧
        medianBy (·.price) (votesWith st.db ⟨1, 2000, 10000000⟩ 2) = .ok 10000000 ∧
        succeeds (processConsensusItem demoConfig st.db (.v0 ⟨1, 2000, 10000000⟩) 2) = true)).toOption =
      some true := by decide +kernel
  cases h : runEvents demoCrypto demoConfig demoOpening.dropLast with
  | error e =>
    rw [h] at hrun
    cases hrun
  | ok st =>
    rw [h] at hrun
    obtain ⟨hfits, hnext, hfirst, hmany, htime, hprice, hok⟩ := of_decide_eq_true (Option.some.inj hrun)
    have hvote : TurnoverVote demoConfig st.db ⟨1, 2000, 10000000⟩ 2 2000 10000000 :=
      ⟨hnext, hfirst, hmany, htime, hprice, by decide⟩
    exact ⟨st, rfl, (turnover_never_faults_iff (by decide) (by decide) (by decide) ⟨_, st, h, rfl⟩ hfits
      hvote).mp (exists_of_succeeds hok)⟩

/-- The price falls so far that the locked provides are spent on the seeks. -/
def demoCrash : List Event := demoOpening ++ (demoVotes 2 3000 4000000).take 2

/-- The vote for the cycle after the fall divides by the zero provides. -/
theorem turnover_faults_after_crash : ∃ st, runEvents demoCrypto demoConfig demoCrash = .ok st ∧
    TurnoverVote demoConfig st.db ⟨2, 3000, 4000000⟩ 2 3000 4000000 ∧
    processConsensusItem demoConfig st.db (.v0 ⟨2, 3000, 4000000⟩) 2 = .error (.panic .divisionByZero) := by
  have hrun : ((runEvents demoCrypto demoConfig demoCrash).map fun st => decide
      (isForNextCycle st.db.currentCycle 2 = true ∧ (cycleChangeVotes st.db 2).get? 2 = none ∧
        3 ≤ (votesWith st.db ⟨2, 3000, 4000000⟩ 2).length ∧
        medianBy (·.time) (votesWith st.db ⟨2, 3000, 4000000⟩ 2) = .ok 3000 ∧
        medianBy (·.price) (votesWith st.db ⟨2, 3000, 4000000⟩ 2) = .ok 4000000 ∧
        ((processConsensusItem demoConfig st.db (.v0 ⟨2, 3000, 4000000⟩) 2).map fun _ => ()) =
          .error (.panic .divisionByZero))).toOption = some true := by decide +kernel
  cases h : runEvents demoCrypto demoConfig demoCrash with
  | error e =>
    rw [h] at hrun
    cases hrun
  | ok st =>
    rw [h] at hrun
    obtain ⟨hnext, hfirst, hmany, htime, hprice, hfault⟩ := of_decide_eq_true (Option.some.inj hrun)
    refine ⟨st, rfl, ⟨hnext, hfirst, hmany, htime, hprice, by decide⟩, ?_⟩
    cases hitem : processConsensusItem demoConfig st.db (.v0 ⟨2, 3000, 4000000⟩) 2 with
    | ok db' =>
      rw [hitem] at hfault
      cases hfault
    | error e =>
      rw [hitem] at hfault
      cases hfault
      rfl

end StabilityPool
