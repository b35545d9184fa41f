import Fedi.StabilityPool.NewestFirst
import Fedi.StabilityPool.Sync

/-!
# Lifetime fees

A turnover takes a fee from every seek it locks and adds it up under the seek's transaction,
whoever the seek belongs to:

    seekLifetimeFee t = own fees of a under t + fees of other accounts under t

So what `sync` reports for a transaction is what the account itself has paid exactly where no
other account has paid for a seek of that transaction (`sync_lifetimeFee_iff`).
-/

namespace StabilityPool

open BTreeMaps KeyedLogs Runs

/-! ## The seeks that a step locks -/

/-- The cycle that a vote starts, if it does. -/
def nextCycleOf (cfg : StabilityPoolConfigConsensus) (db : Db) (peerId : PeerId)
    (vote : StabilityPoolConsensusItemV0) : Option CycleInfo :=
  if (votesWith db vote peerId).length < cfg.consensusThreshold then none
  else do
    let time ← (medianBy (·.time) (votesWith db vote peerId)).toOption
    let price ← (medianBy (·.price) (votesWith db vote peerId)).toOption
    let startPrice ← (effectivePrice db.currentCycle price).toOption
    return ⟨vote.nextCycleIndex, startPrice, time⟩

/-- The seeks that a turnover locks, before their fees, and the fee rate. -/
def lockedForCycle (ratio : CollateralRatio) (db : Db) (newCycleInfo : CycleInfo) :
    Res (List AccountSeek × ℕ) := do
  let r ← settleLastCycle db newCycleInfo (newCycleInfo.startTime % 1000000000)
  let stagedSeeks := sortedStagedSeeks r.1
  let p ← calculateLockedProvidesAndFeeRate stagedSeeks (sortedStagedProvides r.1) ratio.provider ratio.seeker
  let s ← calculateLockedSeeks stagedSeeks p.feeRate ratio.provider ratio.seeker p.includedProvidesSum
  return (s.1, p.feeRate)

/-- Seeks locked before their fees, the fee rate, and what the new cycle has of them. -/
structure Locking where
  seeks : List AccountSeek
  feeRate : ℕ
  locked : DepositTable Unit

/-- What a step locks. -/
def lockingOf (cfg : StabilityPoolConfigConsensus) (db : Db) (e : Event) (db' : Db) : Option Locking :=
  match e with
  | .consensusItem peerId (.v0 vote) => do
    let info ← nextCycleOf cfg db peerId vote
    let r ← (lockedForCycle cfg.collateralRatio (recordVote db peerId vote) info).toOption
    return ⟨r.1, r.2, db'.locked .seek⟩
  | _ => none

/-- All that a run locks. -/
def lockings (C : Crypto) (cfg : StabilityPoolConfigConsensus) : Ledger → List Event → List Locking
  | _, [] => []
  | st, e :: evs =>
    match applyEvent C cfg st e with
    | .ok st' => (lockingOf cfg st.db e st'.db).toList ++ lockings C cfg st' evs
    | .error _ => []

/-- What is taken from a seek between its locking and the new cycle. -/
def Locking.fee (l : Locking) (e : AccountSeek) : ℕ := e.2.amount - amountAt (l.locked.getD e.1 []) e.2.sequence

/-- The fees of some of the seeks. -/
def feesOf (ls : List Locking) (mine : AccountSeek → Bool) : ℕ :=
  (ls.map fun l => ((l.seeks.filter mine).map l.fee).sum).sum

/-- The fees deducted from an account's own locked seeks of a transaction. -/
def ownFees (ls : List Locking) (a : AccountId) (txid : TransactionId) : ℕ :=
  feesOf ls fun e => decide (e.1 = a ∧ e.2.txid = txid)

section
variable {C : Crypto} {cfg : StabilityPoolConfigConsensus} {st st' : Ledger} {e : Event} {evs : List Event}

theorem lockings_snoc {st0 : Ledger} (hrun : run (applyEvent C cfg) st0 evs = .ok st)
    (hstep : applyEvent C cfg st e = .ok st') :
    lockings C cfg st0 (evs ++ [e]) = lockings C cfg st0 evs ++ (lockingOf cfg st.db e st'.db).toList := by
  induction evs generalizing st0 with
  | nil =>
    cases hrun
    show lockings C cfg st [e] = _
    unfold lockings
    rw [hstep]
    simp [lockings]
  | cons e' evs ih =>
    obtain ⟨st1, hfirst, hrest⟩ := run_cons.mp hrun
    rw [List.cons_append, lockings, lockings, hfirst]
    simp only []
    rw [ih hrest, List.append_assoc]

theorem feesOf_append (ls ls' : List Locking) (mine : AccountSeek → Bool) :
    feesOf (ls ++ ls') mine = feesOf ls mine + feesOf ls' mine := by
  unfold feesOf
  rw [List.map_append, List.sum_append]

/-- The fees of a transaction are an account's own and those of the others. -/
theorem feesOf_split (ls : List Locking) (p q : AccountSeek → Bool) :
    feesOf ls p = (feesOf ls fun e => q e && p e) + feesOf ls fun e => !q e && p e := by
  have hsum : ∀ (f : AccountSeek → ℕ) (l : List AccountSeek), ((l.filter p).map f).sum =
      ((l.filter fun e => q e && p e).map f).sum + ((l.filter fun e => !q e && p e).map f).sum := by
    intro f l
    induction l with
    | nil => rfl
    | cons e l ih =>
      by_cases hp : p e <;> by_cases hq : q e <;> simp [hp, hq, ih] <;> omega
  induction ls with
  | nil => rfl
  | cons l ls ih =>
    simp only [feesOf, List.map_cons, List.sum_cons] at ih ⊢
    rw [ih, hsum]
    omega

theorem feesOf_eq_zero {ls : List Locking} {mine : AccountSeek → Bool} :
    feesOf ls mine = 0 ↔ ∀ l ∈ ls, ∀ e ∈ l.seeks, mine e = true → l.fee e = 0 := by
  unfold feesOf
  rw [List.sum_eq_zero_iff, List.forall_mem_map]
  refine forall₂_congr fun l _ => ?_
  rw [List.sum_eq_zero_iff, List.forall_mem_map]
  simp only [List.mem_filter, and_imp]

end

/-! ## What a turnover charges -/

/-- The fee of an amount: a share of it, rounded up. -/
def feeAt (feeRate amount : ℕ) : ℕ := amount * feeRate ⌈/⌉ B

theorem feeAt_eq_zero {feeRate amount : ℕ} : feeAt feeRate amount = 0 ↔ amount * feeRate = 0 := by
  have hB : 0 < B := by decide
  unfold feeAt
  rw [← Nat.le_zero, ceilDiv_le_iff_le_mul hB, Nat.mul_zero, Nat.le_zero]

/-- A seek less its fee. -/
def chargeSeek (fee : ℕ → ℕ) (e : AccountSeek) : AccountSeek :=
  (e.1, { e.2 with amount := e.2.amount - fee e.2.amount })

theorem chargeSeek_fst (fee : ℕ → ℕ) (e : AccountSeek) : (chargeSeek fee e).1 = e.1 := rfl

theorem chargeSeek_sequence (fee : ℕ → ℕ) (e : AccountSeek) :
    (chargeSeek fee e).2.sequence = e.2.sequence := rfl

theorem chargeSeek_amount (fee : ℕ → ℕ) (e : AccountSeek) :
    (chargeSeek fee e).2.amount = e.2.amount - fee e.2.amount := rfl

theorem chargeFees_charges {feeRate : ℕ} {seeks : List AccountSeek} {db : Db}
    {r : List AccountSeek × ℕ × Db} (h : chargeFees feeRate seeks db = .ok r) :
    r.1 = seeks.map (chargeSeek (feeAt feeRate)) ∧ (∀ e ∈ seeks, feeAt feeRate e.2.amount ≤ e.2.amount) ∧
      ∀ txid, r.2.2.seekLifetimeFee.getD txid 0 = db.seekLifetimeFee.getD txid 0 +
        ((seeks.filter fun e => decide (e.2.txid = txid)).map fun e => feeAt feeRate e.2.amount).sum := by
  induction seeks generalizing db r with
  | nil =>
    cases h
    exact ⟨rfl, fun e he => absurd he List.not_mem_nil, fun txid => rfl⟩
  | cons e seeks ih =>
    obtain ⟨a, seek⟩ := e
    unfold chargeFees at h
    obtain ⟨fee, hfee, h⟩ := bind_eq_ok.mp h
    obtain ⟨fee', hfee', h⟩ := bind_eq_ok.mp h
    obtain ⟨amount, hamount, h⟩ := bind_eq_ok.mp h
    obtain ⟨r', hr', h⟩ := bind_eq_ok.mp h
    rw [pure_eq_ok] at h
    subst h
    simp only [ceilDivision, divP, unwrapU64, subP] at hfee hfee' hamount
    split_ifs at hfee hfee' hamount with h1 h2 h3
    cases hfee'
    cases hamount
    obtain ⟨hmap, hle, hlifetime⟩ := ih hr'
    have hfee : fee = feeAt feeRate seek.amount := by
      unfold feeAt
      rw [Nat.ceilDiv_eq_add_pred_div]
      exact (Except.ok.inj hfee).symm
    subst hfee
    refine ⟨?_, ?_, ?_⟩
    · rw [List.map_cons, ← hmap]
      rfl
    · intro e he
      rcases List.mem_cons.mp he with rfl | he
      · exact not_lt.mp h3
      · exact hle e he
    · intro txid
      rw [hlifetime, BTreeMap.getD_insert]
      by_cases htxid : seek.txid = txid
      · rw [if_pos htxid.symm, List.filter_cons_of_pos (by simpa using htxid), List.map_cons, List.sum_cons, htxid,
          Nat.add_assoc]
      · rw [if_neg (Ne.symm htxid), List.filter_cons_of_neg (by simpa using htxid)]

section
variable {ratio : CollateralRatio} {db db' : Db} {info : CycleInfo}

theorem distributeFeesAndWriteCycle_charges {lockedSeeks : List AccountSeek} {lockedProvides : List AccountProvide}
    {feeRate included randomness : ℕ} {old : Locks}
    (h : distributeFeesAndWriteCycle db lockedSeeks lockedProvides feeRate included info randomness old = .ok db') :
    db'.locked .seek = BTreeMap.groupMap (lockedSeeks.map (chargeSeek (feeAt feeRate))) ∧
      (∀ e ∈ lockedSeeks, feeAt feeRate e.2.amount ≤ e.2.amount) ∧
      ∀ txid, db'.seekLifetimeFee.getD txid 0 = db.seekLifetimeFee.getD txid 0 +
        ((lockedSeeks.filter fun e => decide (e.2.txid = txid)).map fun e => feeAt feeRate e.2.amount).sum := by
  simp only [distributeFeesAndWriteCycle, updateHistoryForLocks_eq, ok_bind, bind_eq_ok, pure_eq_ok] at h
  obtain ⟨charged, hcharged, owed, -, fees, -, db1, hdb1, rfl⟩ := h
  obtain ⟨hmap, hle, hlifetime⟩ := chargeFees_charges hcharged
  obtain ⟨⟨idle, hidle⟩, -⟩ := payFees_ok hdb1
  refine ⟨?_, hle, ?_⟩
  · rw [← hmap, locked_of_current rfl]
    rfl
  · intro txid
    show db1.seekLifetimeFee.getD txid 0 = _
    rw [hidle]
    exact hlifetime txid

/-- Every seek that a turnover locks pays its fee, and the fee is added up under its transaction. -/
theorem turnover_charges (h : turnover ratio db info = .ok db') :
    ∃ seeks feeRate, lockedForCycle ratio db info = .ok (seeks, feeRate) ∧
      db'.locked .seek = BTreeMap.groupMap (seeks.map (chargeSeek (feeAt feeRate))) ∧
      (∀ e ∈ seeks, feeAt feeRate e.2.amount ≤ e.2.amount) ∧
      ∀ txid, db'.seekLifetimeFee.getD txid 0 = db.seekLifetimeFee.getD txid 0 +
        ((seeks.filter fun e => decide (e.2.txid = txid)).map fun e => feeAt feeRate e.2.amount).sum := by
  simp only [turnover, bind_eq_ok, pure_eq_ok] at h
  obtain ⟨r, hr, db3, hdb3, rfl⟩ := h
  obtain ⟨log, hsettled⟩ := settleLastCycle_ok hr
  simp only [calculateLocksAndWriteCycle, bind_eq_ok] at hdb3
  obtain ⟨p, hp, s, hs, hdb3⟩ := hdb3
  obtain ⟨hlocked, hle, hlifetime⟩ := distributeFeesAndWriteCycle_charges hdb3
  have hbefore : (writeRemainingStagedSeeksAndProvides (removeExtracted r.1) s.2 p.stagedProvides).seekLifetimeFee =
      db.seekLifetimeFee := by
    show r.1.seekLifetimeFee = _
    rw [hsettled.db_eq]
  rw [hbefore] at hlifetime
  refine ⟨s.1, p.feeRate, ?_, hlocked, hle, hlifetime⟩
  exact bind_eq_ok.mpr ⟨r, hr, bind_eq_ok.mpr ⟨p, hp, bind_eq_ok.mpr ⟨s, hs, rfl⟩⟩⟩

end

/-- In the new cycle a seek has its amount less the fee. -/
theorem fee_eq {l : Locking} {fee : ℕ → ℕ} (hlocked : l.locked = BTreeMap.groupMap (l.seeks.map (chargeSeek fee)))
    (hle : ∀ e ∈ l.seeks, fee e.2.amount ≤ e.2.amount) (hnd : ∀ a, (sequences (l.locked.getD a [])).Nodup) :
    ∀ e ∈ l.seeks, l.fee e = fee e.2.amount := by
  intro e he
  have hcharged : chargeSeek fee e ∈ l.seeks.map (chargeSeek fee) := List.mem_map.mpr ⟨e, he, rfl⟩
  have hmem : (chargeSeek fee e).2 ∈ l.locked.getD e.1 [] := by
    rw [hlocked, BTreeMap.getD_groupMap]
    refine List.mem_map_of_mem (List.mem_filter.mpr ⟨hcharged, ?_⟩)
    rw [decide_eq_true_iff, chargeSeek_fst]
  have hamount := amountAt_of_mem (hnd e.1) hmem
  rw [chargeSeek_sequence, chargeSeek_amount] at hamount
  have hfee := hle e he
  unfold Locking.fee
  rw [hamount]
  omega

/-! ## Steps -/

section
variable {C : Crypto} {cfg : StabilityPoolConfigConsensus} {db db' : Db} {st st' : Ledger} {e : Event}

theorem nextCycleOf_eq_some {peerId : PeerId} {vote : StabilityPoolConsensusItemV0} {info : CycleInfo} :
    nextCycleOf cfg db peerId vote = some info ↔
      cfg.consensusThreshold ≤ (votesWith db vote peerId).length ∧ NextCycle db vote (votesWith db vote peerId) info := by
  unfold nextCycleOf
  by_cases hfew : (votesWith db vote peerId).length < cfg.consensusThreshold
  · rw [if_pos hfew]
    constructor
    · intro h
      cases h
    · rintro ⟨hmany, -⟩
      omega
  · rw [if_neg hfew]
    simp only [Option.bind_eq_bind, Option.bind_eq_some_iff, toOption_eq_some, Option.pure_def, Option.some.injEq]
    constructor
    · rintro ⟨time, htime, price, hprice, start, hstart, rfl⟩
      exact ⟨not_lt.mp hfew, rfl, htime, price, hprice, hstart⟩
    · rintro ⟨-, hidx, htime, price, hprice, hstart⟩
      refine ⟨info.startTime, htime, price, hprice, info.startPrice, hstart, ?_⟩
      rw [← hidx]

/-- What a step has locked and charged, and where the charges are added up. -/
structure ChargedStep (cfg : StabilityPoolConfigConsensus) (db : Db) (e : Event) (db' : Db) : Prop where
  fee : ∀ l ∈ (lockingOf cfg db e db').toList, ∀ x ∈ l.seeks, l.fee x = feeAt l.feeRate x.2.amount
  added : ∀ txid, db'.seekLifetimeFee.getD txid 0 = db.seekLifetimeFee.getD txid 0 +
    feesOf (lockingOf cfg db e db').toList fun x => decide (x.2.txid = txid)

theorem chargedStep_of_none (hnone : lockingOf cfg db e db' = none)
    (hsame : db'.seekLifetimeFee = db.seekLifetimeFee) : ChargedStep cfg db e db' := by
  constructor
  · intro l hl
    rw [hnone] at hl
    cases hl
  · intro txid
    rw [hnone, hsame]
    rfl

theorem ChargedStep.iff_of_some {l : Locking} (hsome : lockingOf cfg db e db' = some l) :
    ChargedStep cfg db e db' ↔ (∀ x ∈ l.seeks, l.fee x = feeAt l.feeRate x.2.amount) ∧
      ∀ txid, db'.seekLifetimeFee.getD txid 0 = db.seekLifetimeFee.getD txid 0 +
        ((l.seeks.filter fun x => decide (x.2.txid = txid)).map l.fee).sum := by
  have hone : ∀ mine, feesOf [l] mine = ((l.seeks.filter mine).map l.fee).sum := fun mine => by simp [feesOf]
  constructor
  · rintro ⟨hfee, hadded⟩
    rw [hsome] at hfee hadded
    refine ⟨hfee l List.mem_cons_self, fun txid => ?_⟩
    rw [hadded, ← hone]
    rfl
  · rintro ⟨hfee, hadded⟩
    constructor
    · rw [hsome]
      intro l' hl'
      rw [List.mem_singleton.mp hl']
      exact hfee
    · rw [hsome]
      intro txid
      rw [hadded, ← hone]
      rfl

theorem processConsensusItem_charges {item : StabilityPoolConsensusItem} {peerId : PeerId} (hwf : Wf cfg db')
    (h : processConsensusItem cfg db item peerId = .ok db') : ChargedStep cfg db (.consensusItem peerId item) db' := by
  cases processConsensusItem_ok h with
  | version version => exact chargedStep_of_none rfl rfl
  | vote vote _ hnext hfirst hfew =>
    refine chargedStep_of_none ?_ rfl
    have hnone : nextCycleOf cfg db peerId vote = none := if_pos hfew
    simp only [lockingOf, hnone]
    rfl
  | turnover vote _ info _ hnext hfirst hmany hinfo hturn =>
    obtain ⟨seeks, feeRate, hseeks, hlocked, hle, hlifetime⟩ := turnover_charges hturn
    have hlocking : lockingOf cfg db (.consensusItem peerId (.v0 vote)) db' = some ⟨seeks, feeRate, db'.locked .seek⟩ := by
      refine Option.bind_eq_some_iff.mpr ⟨info, nextCycleOf_eq_some.mpr ⟨hmany, hinfo⟩, ?_⟩
      exact Option.bind_eq_some_iff.mpr ⟨(seeks, feeRate), toOption_eq_some.mpr hseeks, rfl⟩
    have hfee := @fee_eq ⟨seeks, feeRate, db'.locked .seek⟩ (feeAt feeRate) hlocked hle (hwf.locked_nodup .seek)
    rw [ChargedStep.iff_of_some hlocking]
    refine ⟨hfee, fun txid => ?_⟩
    have hsum : ((seeks.filter fun x => decide (x.2.txid = txid)).map fun x => feeAt feeRate x.2.amount) =
        (seeks.filter fun x => decide (x.2.txid = txid)).map (Locking.fee ⟨seeks, feeRate, db'.locked .seek⟩) := by
      refine List.map_congr_left fun x hx => ?_
      exact (hfee x (List.mem_filter.mp hx).1).symm
    rw [← hsum]
    exact hlifetime txid

theorem applyEvent_charges (hwf : Wf cfg st'.db) (h : applyEvent C cfg st e = .ok st') :
    ChargedStep cfg st.db e st'.db := by
  cases e with
  | consensusItem peerId item =>
    simp only [applyEvent, bind_eq_ok, pure_eq_ok] at h
    obtain ⟨db', hitem, rfl⟩ := h
    exact processConsensusItem_charges hwf hitem
  | input txid i =>
    simp only [applyEvent, bind_eq_ok, pure_eq_ok] at h
    obtain ⟨r, hinput, rfl⟩ := h
    refine chargedStep_of_none rfl ?_
    rcases processInput_ok hinput with ⟨u, -, hu⟩ | ⟨w, -, hw⟩
    · obtain ⟨cycle, kept, drained, hmove, -⟩ := processUnlockInput_ok hu
      exact hmove.seekLifetimeFee
    · obtain ⟨-, -, hr⟩ := processWithdrawalInput_ok hw
      show r.1.seekLifetimeFee = _
      rw [hr]
  | output txid o =>
    simp only [applyEvent, bind_eq_ok, pure_eq_ok] at h
    obtain ⟨r, houtput, rfl⟩ := h
    refine chargedStep_of_none rfl ?_
    rcases processOutput_ok houtput with ⟨s, cycle, a, metadata, kind, hc, hallowed, -, hr⟩ | ⟨t, -, -, ht⟩
    · obtain ⟨hcredit, hdebit⟩ := hallowed.credit
      show r.1.seekLifetimeFee = _
      rw [hr]
      exact (stageDeposit_move hc txid a r.2 metadata hcredit hdebit).seekLifetimeFee
    · obtain ⟨-, -, cycle, s, metadata, staged, locked, -, -, -, hstep⟩ := processTransferOutput_ok ht
      exact hstep.move.seekLifetimeFee

end

/-! ## Runs -/

section
variable {C : Crypto} {cfg : StabilityPoolConfigConsensus} {evs : List Event} {st : Ledger} {a : AccountId}

/-- Along a run every seek pays its fee, and the lifetime fee of a transaction is what all of
its seeks have paid. -/
theorem run_charges (h : runEvents C cfg evs = .ok st) :
    (∀ l ∈ lockings C cfg .initial evs, ∀ x ∈ l.seeks, l.fee x = feeAt l.feeRate x.2.amount) ∧
      ∀ txid, st.db.seekLifetimeFee.getD txid 0 =
        feesOf (lockings C cfg .initial evs) fun x => decide (x.2.txid = txid) := by
  refine @run_induction _ _ _ (applyEvent C cfg) (fun evs st =>
    (∀ l ∈ lockings C cfg .initial evs, ∀ x ∈ l.seeks, l.fee x = feeAt l.feeRate x.2.amount) ∧
      ∀ txid, st.db.seekLifetimeFee.getD txid 0 =
        feesOf (lockings C cfg .initial evs) fun x => decide (x.2.txid = txid)) _ ?_ ?_ evs st h
  · exact ⟨fun l hl => absurd hl List.not_mem_nil, fun txid => rfl⟩
  · rintro evs st e st' hrun ⟨hfee, hadded⟩ hstep
    have hreach : Reachable C cfg st'.db := ⟨evs ++ [e], st', run_snoc.mpr ⟨st, hrun, hstep⟩, rfl⟩
    have hcharged := applyEvent_charges (wf_of_reachable hreach) hstep
    rw [lockings_snoc hrun hstep]
    constructor
    · intro l hl
      rcases List.mem_append.mp hl with hl | hl
      · exact hfee l hl
      · exact hcharged.fee l hl
    · intro txid
      rw [hcharged.added, hadded, feesOf_append]

/-! ## What `sync` reports -/

theorem lockedSeeksLifetimeFee_get? (db : Db) (cycle : Cycle) (txid : TransactionId) :
    (lockedSeeksLifetimeFee db cycle a).get? txid =
      if txid ∈ (cycle.lockedSeeks.getD a []).map (·.txid) then some (db.seekLifetimeFee.getD txid 0) else none := by
  have hfold : ∀ (seeks : List Seek) (fees : BTreeMap TransactionId ℕ),
      (seeks.foldl (fun feeMap seek => feeMap.insert seek.txid (db.seekLifetimeFee.getD seek.txid 0)) fees).get? txid =
        if txid ∈ seeks.map (·.txid) then some (db.seekLifetimeFee.getD txid 0) else fees.get? txid := by
    intro seeks
    induction seeks with
    | nil => intro fees; rfl
    | cons seek seeks ih =>
      intro fees
      rw [List.foldl_cons, ih, BTreeMap.get?_insert]
      rw [List.map_cons]
      by_cases hrest : txid ∈ seeks.map (·.txid)
      · rw [if_pos hrest, if_pos (List.mem_cons_of_mem _ hrest)]
      · by_cases hseek : txid = seek.txid
        · rw [if_neg hrest, if_pos hseek, hseek, if_pos List.mem_cons_self]
        · rw [if_neg hrest, if_neg hseek, if_neg]
          intro hmem
          rcases List.mem_cons.mp hmem with heq | hmem
          · exact hseek heq
          · exact hrest hmem
  exact hfold _ _

/-- A seeker is told of the transactions of its locked seeks. -/
theorem sync_reports {db : Db} (ha : a.accType = .seeker) (txid : TransactionId) (fee : ℕ) :
    (∃ resp fees, sync db a = .ok resp ∧ resp.lockedSeeksLifetimeFee = some fees ∧ fees.get? txid = some fee) ↔
      (∃ seek ∈ (db.locked .seek).getD a [], seek.txid = txid) ∧ fee = db.seekLifetimeFee.getD txid 0 := by
  unfold sync
  cases hc : db.currentCycle with
  | none =>
    have hnil : (db.locked .seek).getD a [] = [] := by
      rw [Db.locked, hc]
      rfl
    rw [hnil]
    constructor
    · rintro ⟨resp, fees, h, -⟩
      cases h
    · rintro ⟨⟨seek, hseek, -⟩, -⟩
      cases hseek
  | some cycle =>
    rw [locked_of_current hc]
    simp only [ha, Except.ok.injEq]
    constructor
    · rintro ⟨resp, fees, rfl, hfees, hget⟩
      cases hfees
      rw [lockedSeeksLifetimeFee_get?] at hget
      split_ifs at hget with hmem
      exact ⟨List.mem_map.mp hmem, (Option.some.inj hget).symm⟩
    · rintro ⟨hmem, rfl⟩
      refine ⟨_, _, rfl, rfl, ?_⟩
      rw [lockedSeeksLifetimeFee_get?]
      exact if_pos (List.mem_map.mpr hmem)

/-- What `sync` reports for a transaction is what the account's own seeks of it have paid,
exactly where no seek of it that belongs to another account has been charged. -/
theorem sync_lifetimeFee_iff (h : runEvents C cfg evs = .ok st) (ha : a.accType = .seeker) (txid : TransactionId) :
    (∀ resp fees fee, sync st.db a = .ok resp → resp.lockedSeeksLifetimeFee = some fees → fees.get? txid = some fee →
        fee = ownFees (lockings C cfg .initial evs) a txid) ↔
      ((∃ seek ∈ (st.db.locked .seek).getD a [], seek.txid = txid) →
        ∀ l ∈ lockings C cfg .initial evs, ∀ x ∈ l.seeks, x.2.txid = txid → x.1 ≠ a → x.2.amount * l.feeRate = 0) := by
  obtain ⟨hfee, hadded⟩ := run_charges h
  -- the lifetime fee is the account's own fees exactly where the others' are zero
  have hothers : st.db.seekLifetimeFee.getD txid 0 = ownFees (lockings C cfg .initial evs) a txid ↔
      ∀ l ∈ lockings C cfg .initial evs, ∀ x ∈ l.seeks, x.2.txid = txid → x.1 ≠ a → x.2.amount * l.feeRate = 0 := by
    rw [hadded, feesOf_split _ _ fun x => decide (x.1 = a)]
    have hown : ownFees (lockings C cfg .initial evs) a txid = feesOf (lockings C cfg .initial evs) fun x =>
        decide (x.1 = a) && decide (x.2.txid = txid) := by
      unfold ownFees
      simp only [Bool.decide_and]
    rw [hown, Nat.add_eq_left, feesOf_eq_zero]
    constructor
    · intro hzero l hl x hx htxid hne
      have := hzero l hl x hx (by simp [htxid, hne])
      rw [hfee l hl x hx] at this
      exact feeAt_eq_zero.mp this
    · intro hzero l hl x hx hmine
      rw [hfee l hl x hx, feeAt_eq_zero]
      simp only [Bool.and_eq_true, Bool.not_eq_true', decide_eq_false_iff_not, decide_eq_true_eq] at hmine
      exact hzero l hl x hx hmine.2 hmine.1
  rw [← hothers]
  constructor
  · intro hall hlocked
    obtain ⟨resp, fees, hsync, hfees, hget⟩ := (sync_reports ha txid _).mpr ⟨hlocked, rfl⟩
    exact hall resp fees _ hsync hfees hget
  · intro hown resp fees fee hsync hfees hget
    obtain ⟨hlocked, rfl⟩ := (sync_reports ha txid fee).mp ⟨resp, fees, hsync, hfees, hget⟩
    exact hown hlocked

end

/-- Deposits of two seekers, and a turnover that locks both at 1000 ppb. -/
def demoTwoSeekers (txid txid' : TransactionId) : List Event :=
  demoVotes 0 1000 10000000 ++
    [.output txid (.v0 (.depositToSeek ⟨demoSeeker.id demoCrypto, 100000⟩)),
      .output txid' (.v0 (.depositToSeek ⟨(Account.single 9 .seeker).id demoCrypto, 100000⟩)),
      .output 2 (.v0 (.depositToProvide ⟨demoProvider.id demoCrypto, 300000, ⟨1000⟩⟩))] ++
    demoVotes 1 2000 10000000

theorem sync_lifetimeFee_demo : ∃ st, runEvents demoCrypto demoConfig (demoTwoSeekers 1 3) = .ok st ∧
    ∀ resp fees fee, sync st.db (demoSeeker.id demoCrypto) = .ok resp → resp.lockedSeeksLifetimeFee = some fees →
      fees.get? 1 = some fee →
        fee = ownFees (lockings demoCrypto demoConfig .initial (demoTwoSeekers 1 3)) (demoSeeker.id demoCrypto) 1 := by
  have hok : (runEvents demoCrypto demoConfig (demoTwoSeekers 1 3)).toOption.isSome := by decide +kernel
  have hothers : ∀ l ∈ lockings demoCrypto demoConfig .initial (demoTwoSeekers 1 3), ∀ x ∈ l.seeks, x.2.txid = 1 →
      x.1 ≠ demoSeeker.id demoCrypto → x.2.amount * l.feeRate = 0 := by
    decide +kernel
  obtain ⟨st, hst⟩ := Option.isSome_iff_exists.mp hok
  have hrun := toOption_eq_some.mp hst
  exact ⟨st, hrun, (sync_lifetimeFee_iff hrun rfl 1).mpr fun _ => hothers⟩

/-- With one transaction for both, `sync` reports the fees of both to either. -/
theorem sync_reports_both_fees : ¬ ∀ st resp fees fee,
    runEvents demoCrypto demoConfig (demoTwoSeekers 1 1) = .ok st →
      sync st.db (demoSeeker.id demoCrypto) = .ok resp → resp.lockedSeeksLifetimeFee = some fees →
        fees.get? 1 = some fee →
          fee = ownFees (lockings demoCrypto demoConfig .initial (demoTwoSeekers 1 1)) (demoSeeker.id demoCrypto) 1 := by
  intro h
  have hown : ownFees (lockings demoCrypto demoConfig .initial (demoTwoSeekers 1 1)) (demoSeeker.id demoCrypto) 1 = 1 := by
    decide +kernel
  have hreported : ((runEvents demoCrypto demoConfig (demoTwoSeekers 1 1)).toOption.bind fun st =>
      (sync st.db (demoSeeker.id demoCrypto)).toOption.bind fun resp =>
        resp.lockedSeeksLifetimeFee.bind fun fees => fees.get? 1) = some 2 := by
    decide +kernel
  simp only [Option.bind_eq_some_iff, toOption_eq_some] at hreported
  obtain ⟨st, hrun, resp, hsync, fees, hfees, hget⟩ := hreported
  have hfee := h st resp fees 2 hrun hsync hfees hget
  rw [hown] at hfee
  cases hfee

end StabilityPool
