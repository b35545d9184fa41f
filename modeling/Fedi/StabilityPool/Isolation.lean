import Fedi.StabilityPool.Coverage

/-!
# Btc depositors are isolated from the cycles

Btc depositors keep their deposits in the staged seeks, and nothing of a turnover
reaches them: they have no locks and no unlock requests (`Wf`), so settlement and
unlocking pass them by, `extract_sorted_staged_seeks_and_provides` skips their
keys, and fees go to providers.

A turnover can only fail by a panic or by an amount that does not fit `u64`
(`turnover_failsOnly`), so the bail on a btc depositor's request never happens.
-/

namespace StabilityPool

open BTreeMaps KeyedLogs Runs

/-! ## Faults of a turnover -/

/-- A panic, or a failed `try_into`. -/
def TurnoverFault (e : Fault) : Prop :=
  (∃ p, e = .panic p) ∨ e = .bail "out of range integral type conversion attempted"

theorem TurnoverFault.of_panic (p : Panic) : TurnoverFault (.panic p) := Or.inl ⟨p, rfl⟩

theorem divP_failsOnly (a b : ℕ) : FailsOnly TurnoverFault (divP a b) := by
  unfold divP
  split_ifs
  · exact failsOnly_error (.of_panic _)
  · exact failsOnly_ok _

theorem subP_failsOnly (a b : ℕ) : FailsOnly TurnoverFault (subP a b) := by
  unfold subP
  split_ifs
  · exact failsOnly_error (.of_panic _)
  · exact failsOnly_ok _

theorem modP_failsOnly (a b : ℕ) : FailsOnly TurnoverFault (modP a b) := by
  unfold modP
  split_ifs
  · exact failsOnly_error (.of_panic _)
  · exact failsOnly_ok _

theorem unwrapU64_failsOnly (a : ℕ) : FailsOnly TurnoverFault (unwrapU64 a) := by
  unfold unwrapU64
  split_ifs
  · exact failsOnly_ok _
  · exact failsOnly_error (.of_panic _)

theorem toBtcAmount_failsOnly (fiat price : ℕ) :
    FailsOnly TurnoverFault (FiatAmount.toBtcAmount fiat price) := by
  refine (divP_failsOnly _ _).bind fun msats _ => ?_
  unfold tryIntoU64
  split_ifs
  · exact failsOnly_ok _
  · exact failsOnly_error (Or.inr rfl)

theorem distributeLoop_failsOnly {M : Type} (pool total : ℕ) :
    ∀ (ds : List (Deposit M)) (draining : ℕ),
      FailsOnly TurnoverFault (distributeLoop pool total ds draining)
  | [], _ => failsOnly_ok _
  | _ :: ds, _ => (divP_failsOnly _ _).bind fun _ _ => (subP_failsOnly _ _).bind fun _ _ =>
      (unwrapU64_failsOnly _).bind fun _ _ =>
        (distributeLoop_failsOnly pool total ds _).bind fun _ _ => failsOnly_ok _

theorem distributeFromPool_failsOnly {M : Type} (ds : List (Deposit M)) (pool randomness : ℕ) :
    FailsOnly TurnoverFault (distributeFromPool ds pool randomness) := by
  refine (distributeLoop_failsOnly _ _ _ _).bind fun r _ => ?_
  split_ifs
  · exact (modP_failsOnly _ _).bind fun _ _ => (unwrapU64_failsOnly _).bind fun _ _ => failsOnly_ok _
  · exact failsOnly_ok _

theorem settleLocks_failsOnly (locks : Locks) (startPrice newPrice randomness : ℕ) :
    FailsOnly TurnoverFault (settleLocks locks startPrice newPrice randomness) :=
  (divP_failsOnly _ _).bind fun _ _ => (distributeFromPool_failsOnly _ _ _).bind fun _ _ =>
    (distributeFromPool_failsOnly _ _ _).bind fun _ _ => failsOnly_ok _

theorem processUnlockRequestsInner_failsOnly {M : Type} (db : Db) (a : AccountId) (req : UnlockRequest)
    (items : List (Deposit M)) (info : CycleInfo) :
    FailsOnly TurnoverFault (processUnlockRequestsInner db a req items info) := by
  refine FailsOnly.bind ?_ fun _ _ => failsOnly_ok _
  cases req.unlockAmount with
  | fiat fiat => exact (toBtcAmount_failsOnly _ _).bind fun _ _ => failsOnly_ok _
  | all => exact failsOnly_ok _

theorem unlockFromMap_failsOnly {M : Type} (db : Db) (a : AccountId) (req : UnlockRequest)
    (locked : DepositTable M) (info : CycleInfo) :
    FailsOnly TurnoverFault (unlockFromMap db a req locked info) := by
  unfold unlockFromMap
  cases locked.get? a with
  | none => exact (processUnlockRequestsInner_failsOnly _ _ _ _ _).bind fun _ _ => failsOnly_ok _
  | some ds => exact (processUnlockRequestsInner_failsOnly _ _ _ _ _).bind fun _ _ => failsOnly_ok _

/-- Without requests of btc depositors, the bail on them is not reached. -/
theorem processUnlockRequestsLoop_failsOnly (info : CycleInfo) :
    ∀ (reqs : List (AccountId × UnlockRequest)) (db : Db) (locks : Locks),
      (∀ e ∈ reqs, e.1.accType ≠ .btcDepositor) →
        FailsOnly TurnoverFault (processUnlockRequestsLoop info reqs db locks)
  | [], _, _, _ => failsOnly_ok _
  | (a, req) :: reqs, db, locks, h => by
    refine FailsOnly.bind ?_ fun r _ => processUnlockRequestsLoop_failsOnly info reqs r.1 r.2
      fun e he => h e (List.mem_cons_of_mem _ he)
    have ha : a.accType ≠ .btcDepositor := h (a, req) List.mem_cons_self
    unfold processUnlockRequest
    cases htype : a.accType with
    | seeker => exact (unlockFromMap_failsOnly _ _ _ _ _).bind fun _ _ => failsOnly_ok _
    | provider => exact (unlockFromMap_failsOnly _ _ _ _ _).bind fun _ _ => failsOnly_ok _
    | btcDepositor => exact absurd htype ha

theorem remainingProviderCollateralNeeded_failsOnly (seeksSum feeRate collP collS included : ℕ) :
    FailsOnly TurnoverFault (remainingProviderCollateralNeeded seeksSum feeRate collP collS included) := by
  refine (subP_failsOnly _ _).bind fun net _ => ?_
  dsimp only
  split_ifs
  · exact failsOnly_ok _
  · exact divP_failsOnly _ _

theorem lockProvidesLoop_failsOnly (seeksSum collP collS : ℕ) :
    ∀ (l : List AccountProvide) (feeRate remaining included : ℕ),
      FailsOnly TurnoverFault (lockProvidesLoop seeksSum collP collS l feeRate remaining included)
  | [], _, _, _ => failsOnly_ok _
  | (a, provide) :: l, feeRate, remaining, included => by
    unfold lockProvidesLoop
    split_ifs with hrem
    · exact failsOnly_ok _
    refine FailsOnly.bind ?_ fun next _ => ?_
    · unfold nextFeeRate
      split_ifs
      · refine (remainingProviderCollateralNeeded_failsOnly _ _ _ _ _).bind fun m _ => ?_
        split_ifs
        · exact failsOnly_ok _
        · exact failsOnly_ok _
      · exact failsOnly_ok _
    · rcases next with - | ⟨f, n⟩
      · exact failsOnly_ok _
      refine (unwrapU64_failsOnly _).bind fun msats _ => ?_
      dsimp only
      split_ifs
      · exact (lockProvidesLoop_failsOnly seeksSum collP collS l _ _ _).bind fun _ _ => failsOnly_ok _
      · exact failsOnly_ok _

theorem lockSeeksLoop_failsOnly :
    ∀ (l : List AccountSeek) (included : ℕ), FailsOnly TurnoverFault (lockSeeksLoop l included)
  | [], _ => failsOnly_ok _
  | (a, seek) :: l, included => by
    unfold lockSeeksLoop
    split_ifs
    · exact failsOnly_ok _
    refine (unwrapU64_failsOnly _).bind fun msats _ => ?_
    dsimp only
    split_ifs
    · exact (lockSeeksLoop_failsOnly l _).bind fun _ _ => failsOnly_ok _
    · exact failsOnly_ok _

theorem chargeFees_failsOnly (feeRate : ℕ) :
    ∀ (seeks : List AccountSeek) (db : Db), FailsOnly TurnoverFault (chargeFees feeRate seeks db)
  | [], _ => failsOnly_ok _
  | _ :: seeks, _ => (divP_failsOnly _ _).bind fun _ _ => (unwrapU64_failsOnly _).bind fun _ _ =>
      (subP_failsOnly _ _).bind fun _ _ =>
        (chargeFees_failsOnly feeRate seeks _).bind fun _ _ => failsOnly_ok _

theorem feesOwed_failsOnly (pool included : ℕ) :
    ∀ (l : List (AccountId × List Provide)) (draining : ℕ),
      FailsOnly TurnoverFault (feesOwed pool included l draining)
  | [], _ => failsOnly_ok _
  | _ :: l, _ => (divP_failsOnly _ _).bind fun _ _ => (subP_failsOnly _ _).bind fun _ _ =>
      (feesOwed_failsOnly pool included l _).bind fun _ _ => failsOnly_ok _

theorem payFees_failsOnly :
    ∀ (fees : List (AccountId × ℕ)) (db : Db), FailsOnly TurnoverFault (payFees fees db)
  | [], _ => failsOnly_ok _
  | _ :: fees, _ => (unwrapU64_failsOnly _).bind fun _ _ => payFees_failsOnly fees _

theorem distributeFeesAndWriteCycle_failsOnly (db : Db) (lockedSeeks : List AccountSeek)
    (lockedProvides : List AccountProvide) (feeRate included : ℕ) (info : CycleInfo) (randomness : ℕ)
    (old : Locks) : FailsOnly TurnoverFault (distributeFeesAndWriteCycle db lockedSeeks lockedProvides
      feeRate included info randomness old) := by
  simp only [distributeFeesAndWriteCycle, updateHistoryForLocks_eq, ok_bind]
  refine (chargeFees_failsOnly _ _ _).bind fun _ _ => (feesOwed_failsOnly _ _ _ _).bind fun _ _ =>
    FailsOnly.bind ?_ fun _ _ => (payFees_failsOnly _ _).bind fun _ _ => failsOnly_ok _
  unfold addLeftoverFee
  split_ifs
  · exact (modP_failsOnly _ _).bind fun _ _ => failsOnly_ok _
  · exact failsOnly_ok _

theorem turnover_failsOnly (ratio : CollateralRatio) (db : Db) (info : CycleInfo)
    (h : ∀ a req, db.unlockRequests.get? a = some req → a.accType ≠ .btcDepositor) :
    FailsOnly TurnoverFault (turnover ratio db info) := by
  refine FailsOnly.bind ?_ fun r _ => FailsOnly.bind ?_ fun _ _ => failsOnly_ok _
  · unfold settleLastCycle
    cases db.currentCycle with
    | none => exact failsOnly_ok _
    | some cycle =>
      refine (settleLocks_failsOnly _ _ _ _).bind fun locks _ =>
        FailsOnly.bind (processUnlockRequestsLoop_failsOnly _ _ _ _ fun e he => ?_) fun _ _ => failsOnly_ok _
      exact h e.1 e.2 (BTreeMap.mem_entries.mp he)
  · refine FailsOnly.bind ((remainingProviderCollateralNeeded_failsOnly _ _ _ _ _).bind fun _ _ =>
      lockProvidesLoop_failsOnly _ _ _ _ _ _ _) fun p _ => FailsOnly.bind ?_ fun s _ =>
        distributeFeesAndWriteCycle_failsOnly _ _ _ _ _ _ _ _
    exact ((subP_failsOnly _ _).bind fun _ _ => divP_failsOnly _ _).bind fun _ _ => lockSeeksLoop_failsOnly _ _

/-- The message of `process_unlock_requests` for a btc depositor. -/
def btcDepositorBail : Fault := .bail "Invalid operation for BtcDepositor account"

theorem TurnoverFault.ne_btcDepositorBail {e : Fault} (h : TurnoverFault e) : e ≠ btcDepositorBail := by
  rcases h with ⟨p, rfl⟩ | rfl
  · exact fun h => by cases h
  · decide

/-- Messages that start differently differ. -/
theorem bail_append_ne {start : String} (tail : String) (hne : start ≠ "")
    (hfirst : start.toList.head? ≠ some 'I') : Fault.bail (start ++ tail) ≠ btcDepositorBail := by
  intro h
  have := congrArg (fun s => s.toList.head?) (Fault.bail.inj h)
  simp [hne] at this
  exact hfirst this

theorem ensure_failsOnly {P : Fault → Prop} (c : Prop) [Decidable c] (msg : String) (h : P (.bail msg)) :
    FailsOnly P (ensure c msg) := by
  unfold ensure
  split_ifs
  · exact failsOnly_ok _
  · exact failsOnly_error h

theorem medianBy_failsOnly (key : StabilityPoolConsensusItemV0 → ℕ)
    (votes : List StabilityPoolConsensusItemV0) : FailsOnly TurnoverFault (medianBy key votes) := by
  unfold medianBy
  split
  · exact failsOnly_error (.of_panic _)
  · exact failsOnly_ok _

theorem effectivePrice_failsOnly (currentCycle : Option Cycle) (price : ℕ) :
    FailsOnly TurnoverFault (effectivePrice currentCycle price) := by
  unfold effectivePrice
  split_ifs
  · cases currentCycle with
    | none => exact failsOnly_error (.of_panic _)
    | some cycle => exact failsOnly_ok _
  · exact failsOnly_ok _

/-- The bail on a btc depositor's unlock request is unreachable. -/
theorem processConsensusItem_ne_bail {cfg : StabilityPoolConfigConsensus} {db : Db} (hwf : Wf cfg db)
    (item : StabilityPoolConsensusItem) (peerId : PeerId) :
    processConsensusItem cfg db item peerId ≠ .error btcDepositorBail := by
  have hweaken : ∀ {α : Type} {x : Res α}, FailsOnly TurnoverFault x →
      FailsOnly (· ≠ btcDepositorBail) x := fun hx e he => (hx e he).ne_btcDepositorBail
  have hall : FailsOnly (· ≠ btcDepositorBail) (processConsensusItem cfg db item peerId) := by
    cases item with
    | default variant => exact failsOnly_error (bail_append_ne _ (by decide) (by decide))
    | v1 version =>
      refine (ensure_failsOnly _ _ (by decide)).bind fun _ _ => FailsOnly.bind (hweaken ?_) fun _ _ => ?_
      · unfold consensusModuleConsensusVersion
        dsimp only
        split_ifs
        · exact failsOnly_ok _
        · split
          · exact failsOnly_error (.of_panic _)
          · exact failsOnly_ok _
      · split_ifs
        · exact failsOnly_ok _
        · exact failsOnly_error (by decide)
    | v0 vote =>
      refine (ensure_failsOnly _ _ (by decide)).bind fun _ _ =>
        (ensure_failsOnly (P := (· ≠ btcDepositorBail)) _ _
          (bail_append_ne _ (by decide) (by decide))).bind fun _ _ => hweaken ?_
      dsimp only
      split_ifs
      · exact failsOnly_ok _
      · exact (medianBy_failsOnly _ _).bind fun _ _ => (medianBy_failsOnly _ _).bind fun _ _ =>
          (effectivePrice_failsOnly _ _).bind fun _ _ => turnover_failsOnly _ _ _ hwf.request_btc
  exact fun h => hall _ h rfl

/-! ## Balances of btc depositors -/

theorem restaged_weigh {M : Type} (w : ℕ → ℕ) (staged : List (Deposit M))
    (locked : Option (List (Deposit M))) :
    weigh w (restaged staged locked) = weigh w staged + weigh w (locked.getD []) := by
  cases locked with
  | none => rfl
  | some ds => exact weigh_mergeDeposits w staged ds

theorem TurnoverStep.btc {cfg : StabilityPoolConfigConsensus} {ratio : CollateralRatio}
    {db db' middle : Db} {info : CycleInfo} {remaining : Locks} {log : List Posting}
    {seeks charged : List AccountSeek} {provides : List AccountProvide} {feeRate feePool : ℕ}
    (h : TurnoverStep ratio db info db' middle remaining log seeks charged provides feeRate feePool)
    (hwf : Wf cfg db) {a : AccountId} (ha : a.accType = .btcDepositor) :
    (∀ w, weigh w (db'.stagedSeeks.getD a []) = weigh w (db.stagedSeeks.getD a [])) ∧
      db'.idleBalance.getD a 0 = db.idleBalance.getD a 0 := by
  constructor
  · intro w
    have hnone : (remaining.on .seek).getD a [] = [] := by
      have := h.settled.heads_sublist .seek a
      rw [hwf.locked_btc a ha] at this
      simpa [heads] using this
    have hbtc : db'.stagedSeeks.getD a [] = middle.stagedSeeks.getD a [] := h.written.staged_btc ha
    have hmiddle : middle.stagedSeeks.getD a [] =
        restaged (db.stagedSeeks.getD a []) ((remaining.on .seek).get? a) := h.settled.staged .seek a
    rw [hbtc, hmiddle, restaged_weigh]
    rw [BTreeMap.getD] at hnone
    rw [hnone, weigh_nil, Nat.add_zero]
  · have hfees : a ∉ provides.map Prod.fst := by
      intro hm
      obtain ⟨e, he, rfl⟩ := List.mem_map.mp hm
      have hx := h.written.mem_provides (mem_pairHeads.mpr ⟨e.2, he, rfl⟩)
      have hside := hwf.side .provide e.1 e.2.head (h.settled.mem_staged hx)
      rw [ha] at hside
      cases hside
    have hunlock : postedWeight AccountHistoryItemKind.isLockedToIdle (atAccount a) log = 0 := by
      have hzero : ∀ p ∈ log, (if AccountHistoryItemKind.isLockedToIdle p.2.kind then
          atAccount a p.1 p.2.depositSequence * p.2.amount else 0) = 0 := by
        intro p hp
        have hne : p.1 ≠ a := fun he => (h.settled.log_mem p hp).2.2.1 (he ▸ ha)
        simp [atAccount, hne]
      rw [postedWeight, List.map_congr_left hzero]
      simp
    have h1 : db'.idleBalance.getD a 0 = middle.idleBalance.getD a 0 := h.written.idle_other a hfees
    rw [h1, h.settled.idle, hunlock, Nat.add_zero]

/-- Btc depositors have no locks and no unlock requests, never make a turnover
fail, and no consensus item changes their staged or idle balance. -/
theorem btc_depositor_isolated {C : Crypto} {cfg : StabilityPoolConfigConsensus} {db : Db}
    (h : Reachable C cfg db) {a : AccountId} (ha : a.accType = .btcDepositor) :
    (∀ cycle, db.currentCycle = some cycle →
      cycle.lockedSeeks.getD a [] = [] ∧ cycle.lockedProvides.getD a [] = []) ∧
    db.unlockRequests.get? a = none ∧
    (∀ item peerId, processConsensusItem cfg db item peerId ≠ .error btcDepositorBail) ∧
    ∀ item peerId db', processConsensusItem cfg db item peerId = .ok db' →
      amountSum (db'.stagedSeeks.getD a []) = amountSum (db.stagedSeeks.getD a []) ∧
      (∀ q, weigh (atSequence q) (db'.stagedSeeks.getD a []) =
        weigh (atSequence q) (db.stagedSeeks.getD a [])) ∧
      db'.idleBalance.getD a 0 = db.idleBalance.getD a 0 := by
  have hwf := wf_of_reachable h
  refine ⟨fun cycle hc => ⟨?_, ?_⟩, ?_, processConsensusItem_ne_bail hwf, fun item peerId db' hi => ?_⟩
  · have := hwf.locked_btc a ha
    rwa [locked_of_current hc] at this
  · by_contra hne
    obtain ⟨d, hd⟩ := List.exists_mem_of_ne_nil _ hne
    have hside := hwf.side .provide a d.head (Or.inr (by
      rw [locked_of_current hc]
      exact List.mem_map_of_mem hd))
    rw [ha] at hside
    cases hside
  · cases hr : db.unlockRequests.get? a with
    | none => rfl
    | some req => exact absurd ha (hwf.request_btc a req hr)
  · cases processConsensusItem_ok hi with
    | version version => exact ⟨rfl, fun _ => rfl, rfl⟩
    | vote vote => exact ⟨rfl, fun _ => rfl, rfl⟩
    | turnover vote _ info _ hnext hfirst hmany hinfo hturn =>
      obtain ⟨_, _, _, _, _, _, _, _, hstep⟩ := turnover_ok hturn
      obtain ⟨hstaged, hidle⟩ := hstep.btc
        (show Wf cfg (recordVote db peerId vote) from
          hwf.congr (fun s => by cases s <;> rfl) rfl rfl rfl) ha
      refine ⟨?_, fun q => hstaged _, hidle⟩
      have := hstaged fun _ => 1
      rwa [weigh_one, weigh_one] at this

def demoBtcDepositor : AccountId := (Account.single 9 .btcDepositor).id demoCrypto

/-- The guardians agree on the version with deposits to the bitcoin balance, and one of 100000 msats is staged; two of
them have voted for the next cycle. -/
def demoBtcDeposit : List Event :=
  [.consensusItem 0 (.v1 CONSENSUS_VERSION), .consensusItem 1 (.v1 CONSENSUS_VERSION),
    .consensusItem 2 (.v1 CONSENSUS_VERSION)] ++
  demoVotes 0 1000 10000000 ++
  [.output 1 (.v1 (.depositToBtcBalance ⟨demoBtcDepositor, 100000, []⟩)),
    .output 2 (.v0 (.depositToProvide ⟨demoProvider.id demoCrypto, 100000, ⟨0⟩⟩))] ++
  (demoVotes 1 2000 10000000).take 2

/-- The vote of the third guardian makes the turnover. -/
theorem btc_depositor_isolated_demo : ∃ db db', Reachable demoCrypto demoConfig db ∧
    amountSum (db.stagedSeeks.getD demoBtcDepositor []) = 100000 ∧
    processConsensusItem demoConfig db (.v0 ⟨1, 2000, 10000000⟩) 2 = .ok db' ∧
    (db'.currentCycle.map Cycle.index) = some 1 ∧
    amountSum (db'.stagedSeeks.getD demoBtcDepositor []) = 100000 := by
  have hturnover : ((runEvents demoCrypto demoConfig demoBtcDeposit) >>= fun st =>
      (processConsensusItem demoConfig st.db (.v0 ⟨1, 2000, 10000000⟩) 2).map fun db' =>
        (amountSum (st.db.stagedSeeks.getD demoBtcDepositor []), db'.currentCycle.map Cycle.index)) =
      .ok (100000, some 1) := by decide +kernel
  obtain ⟨st, h, hturnover⟩ := bind_eq_ok.mp hturnover
  cases hitem : processConsensusItem demoConfig st.db (.v0 ⟨1, 2000, 10000000⟩) 2 with
  | error e =>
    rw [hitem] at hturnover
    cases hturnover
  | ok db' =>
    rw [hitem] at hturnover
    obtain ⟨hstaged, hcycle⟩ := Prod.mk.inj (Except.ok.inj hturnover)
    have hreach : Reachable demoCrypto demoConfig st.db := ⟨_, st, h, rfl⟩
    obtain ⟨-, -, -, hkeeps⟩ := btc_depositor_isolated hreach (show demoBtcDepositor.accType = .btcDepositor from rfl)
    refine ⟨st.db, db', hreach, hstaged, hitem, hcycle, ?_⟩
    rw [(hkeeps _ _ _ hitem).1]
    exact hstaged

end StabilityPool
