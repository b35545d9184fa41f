import Fedi.StabilityPoolOld.NewCycle

/-!
# Old stability pool: what holds over every run

`Event` is one thing Fedimint hands to the module.  An input, output or consensus
item that is refused leaves the state as it was; a run ends where a guardian would
panic.  In every state that a run reaches

    ¬(hasSeeks a ∧ hasProvides a)
    liabilities + withdrawn = deposited

an account with a staged cancellation has nothing staged, and a turnover moves
`total * bps ⌈/⌉ 10000` msats of its settled locks to its idle balance, the newest
seeks first (`ledger_of_run` in the next module).
-/

namespace StabilityPoolOld

open BTreeMaps Runs StabilityPool

inductive Event where
  | consensusItem (peerId : PeerId) (item : StabilityPoolConsensusItem)
  | input (input : StabilityPoolInput)
  | output (txid : TransactionId) (output : StabilityPoolOutput)

/-- The database, the msats outputs deposited and the msats inputs paid out. -/
structure Ledger where
  db : Db
  deposited : ℕ
  withdrawn : ℕ

def Ledger.initial : Ledger := ⟨Db.initial, 0, 0⟩

/-- Fedimint drops the database transaction of what is refused. -/
def applyEvent (cfg : StabilityPoolConfigConsensus) (st : Ledger) : Event → Except Panic Ledger
  | .consensusItem peerId item =>
    match processConsensusItem cfg st.db item peerId with
    | .ok db => .ok { st with db := db }
    | .error (.panic p) => .error p
    | .error _ => .ok st
  | .input input =>
    match processInput st.db input with
    | .ok (db, amount) => .ok { st with db := db, withdrawn := st.withdrawn + amount }
    | .error _ => .ok st
  | .output txid output =>
    match processOutput cfg st.db txid output with
    | .ok (db, amount) => .ok { st with db := db, deposited := st.deposited + amount }
    | .error _ => .ok st

/-- Run a sequence of events from the fresh database, up to a panic. -/
def runEvents (cfg : StabilityPoolConfigConsensus) (evs : List Event) : Except Panic Ledger :=
  run (applyEvent cfg) Ledger.initial evs

/-! ## The invariant -/

/-- Staged or locked seeks. -/
def Db.hasSeeks (db : Db) (a : PublicKey) : Prop :=
  db.stagedSeeks.getD a [] ≠ [] ∨ db.lockedSeeks.getD a [] ≠ []

/-- Staged or locked provides. -/
def Db.hasProvides (db : Db) (a : PublicKey) : Prop :=
  db.stagedProvides.getD a [] ≠ [] ∨ db.lockedProvides.getD a [] ≠ []

structure Inv (db : Db) : Prop where
  exclusive : ∀ a, ¬(db.hasSeeks a ∧ db.hasProvides a)
  cancelling : ∀ a, db.stagedCancellation.get? a ≠ none →
    db.stagedSeeks.getD a [] = [] ∧ db.stagedProvides.getD a [] = []
  bps : ∀ a txid cancel, db.stagedCancellation.get? a = some (txid, cancel) → cancel.bps ≤ BPS_UNIT
  cycle : db.currentCycle = none → ∀ a, db.stagedCancellation.get? a = none
  inOrder : ∀ a, InOrder (db.lockedSeeks.getD a [])

theorem inv_initial : Inv Db.initial where
  exclusive a h := by
    rcases h.1 with h | h <;> exact h rfl
  cancelling a h := absurd rfl h
  bps a txid cancel h := by cases h
  cycle _ _ := rfl
  inOrder _ := List.Pairwise.nil

/-! ## Inputs -/

section
variable {M : Type}

theorem withdrawLoop_sum : ∀ (ds : List (Deposit M)) (n : ℕ),
    amountSum (withdrawLoop ds n).1 + n = amountSum ds + (withdrawLoop ds n).2
  | [], n => by simp [withdrawLoop]
  | d :: ds, n => by
    unfold withdrawLoop
    by_cases hn : n = 0
    · have ih := withdrawLoop_sum ds 0
      simp only [if_pos hn, amountSum_cons]
      omega
    · have ih := withdrawLoop_sum ds (n - min d.amount n)
      simp only [if_neg hn]
      by_cases hd : min d.amount n = d.amount
      · rw [if_pos hd, amountSum_cons]
        omega
      · rw [if_neg hd, amountSum_cons, amountSum_cons]
        simp only
        omega

/-- What leaves the staged list satisfies the withdrawal; nothing is staged anew. -/
theorem withdrawStaged_ok (staged : DepositTable M) (account : PublicKey) (n : ℕ) :
    amountSum (withdrawStaged staged account n).1.flat + n =
        amountSum staged.flat + (withdrawStaged staged account n).2 ∧
      ∀ a, staged.getD a [] = [] → (withdrawStaged staged account n).1.getD a [] = [] := by
  simp only [withdrawStaged]
  split_ifs with h
  · have hloop := withdrawLoop_sum (staged.getD account []).reverse n
    have hins := amountSum_flat_insert staged account
      (withdrawLoop (staged.getD account []).reverse n).1.reverse
    rw [amountSum_reverse] at hloop hins
    constructor
    · simp only
      omega
    · intro a ha
      have hne : a ≠ account := fun hea => h.2 (hea ▸ ha)
      rw [BTreeMap.getD_insert_ne _ _ _ hne, ha]
  · exact ⟨rfl, fun _ ha => ha⟩

end

theorem withdrawIdle_ok (idle : BTreeMap PublicKey ℕ) (account : PublicKey) (n : ℕ) :
    (withdrawIdle idle account n).1.sumBy (fun _ x => x) + n =
      idle.sumBy (fun _ x => x) + (withdrawIdle idle account n).2 := by
  simp only [withdrawIdle]
  split_ifs with h
  · have hins := BTreeMap.sumBy_insert_getD (f := fun _ x => x) (d := 0) idle account
      (idle.getD account 0 - min (idle.getD account 0) n) rfl
    simp only at hins ⊢
    omega
  · rfl

/-- A withdrawal takes its amount out of the pool and stages nothing. -/
theorem processInput_ok {db : Db} {input : StabilityPoolInput} {r : Db × ℕ}
    (h : processInput db input = .ok r) :
    r.1.liabilities + r.2 = db.liabilities ∧
      (∀ a, db.stagedSeeks.getD a [] = [] → r.1.stagedSeeks.getD a [] = []) ∧
      (∀ a, db.stagedProvides.getD a [] = [] → r.1.stagedProvides.getD a [] = []) ∧
      r.1 = { db with
        idleBalance := r.1.idleBalance
        stagedSeeks := r.1.stagedSeeks
        stagedProvides := r.1.stagedProvides } := by
  obtain ⟨⟨account, amount⟩, -, h⟩ := bind_eq_ok.mp h
  simp only at h
  split_ifs at h with h1 h2 h3
  rw [pure_eq_ok] at h
  subst h
  rw [not_not] at h3
  have hi := withdrawIdle_ok db.idleBalance account amount
  obtain ⟨hs, hs'⟩ := withdrawStaged_ok db.stagedSeeks account (withdrawIdle db.idleBalance account amount).2
  obtain ⟨hp, hp'⟩ := withdrawStaged_ok db.stagedProvides account
    (withdrawStaged db.stagedSeeks account (withdrawIdle db.idleBalance account amount).2).2
  refine ⟨?_, hs', hp', rfl⟩
  simp only [Db.liabilities, Db.lockedSeeks, Db.lockedProvides]
  omega

theorem processInput_inv {db : Db} {input : StabilityPoolInput} {r : Db × ℕ} (hinv : Inv db)
    (h : processInput db input = .ok r) : Inv r.1 := by
  obtain ⟨-, hs, hp, hdb⟩ := processInput_ok h
  have hlocked : r.1.lockedSeeks = db.lockedSeeks ∧ r.1.lockedProvides = db.lockedProvides := by
    rw [hdb]
    exact ⟨rfl, rfl⟩
  have hcancel : r.1.stagedCancellation = db.stagedCancellation := by rw [hdb]
  have hseeks : ∀ a, r.1.hasSeeks a → db.hasSeeks a := by
    intro a ha
    rw [Db.hasSeeks, hlocked.1] at ha
    exact ha.imp_left fun hne hnil => hne (hs a hnil)
  have hprovides : ∀ a, r.1.hasProvides a → db.hasProvides a := by
    intro a ha
    rw [Db.hasProvides, hlocked.2] at ha
    exact ha.imp_left fun hne hnil => hne (hp a hnil)
  constructor
  · exact fun a ha => hinv.exclusive a ⟨hseeks a ha.1, hprovides a ha.2⟩
  · intro a ha
    rw [hcancel] at ha
    obtain ⟨h1, h2⟩ := hinv.cancelling a ha
    exact ⟨hs a h1, hp a h2⟩
  · rw [hcancel]
    exact hinv.bps
  · rw [hcancel, hdb]
    exact hinv.cycle
  · rw [hlocked.1]
    exact hinv.inOrder

/-! ## Outputs -/

theorem processOutput_ok {cfg : StabilityPoolConfigConsensus} {db : Db} {txid : TransactionId}
    {output : StabilityPoolOutput} {r : Db × ℕ} (h : processOutput cfg db txid output = .ok r) :
    ∃ account action, checkAction cfg action = .ok () ∧ stageAction db txid account action = .ok r := by
  obtain ⟨⟨account, action⟩, -, h⟩ := bind_eq_ok.mp h
  obtain ⟨u, hu, h⟩ := bind_eq_ok.mp h
  exact ⟨account, action, hu, h⟩

theorem stageAction_liabilities {db : Db} {txid : TransactionId} {account : PublicKey}
    {action : IntendedAction} {r : Db × ℕ} (h : stageAction db txid account action = .ok r) :
    r.1.liabilities = db.liabilities + r.2 := by
  cases action with
  | seek amount =>
    simp only [stageAction] at h
    split_ifs at h
    cases h
    have hins := amountSum_flat_insert db.stagedSeeks account
      (db.stagedSeeks.getD account [] ++ [⟨txid, db.stagedSeekSequence.getD 0, amount, ()⟩])
    simp only [amountSum_append, amountSum_cons, amountSum_nil] at hins
    simp only [Db.liabilities, Db.lockedSeeks, Db.lockedProvides]
    omega
  | provide amount minFeeRate =>
    simp only [stageAction] at h
    split_ifs at h
    cases h
    have hins := amountSum_flat_insert db.stagedProvides account
      (db.stagedProvides.getD account [] ++ [⟨txid, db.stagedProvideSequence.getD 0, amount, minFeeRate⟩])
    simp only [amountSum_append, amountSum_cons, amountSum_nil] at hins
    simp only [Db.liabilities, Db.lockedSeeks, Db.lockedProvides]
    omega
  | cancelRenewal cancel =>
    simp only [stageAction] at h
    split_ifs at h
    cases h
    rfl
  | undoCancelRenewal =>
    simp only [stageAction] at h
    split_ifs at h
    cases h
    rfl

/-- Staging for an account without a cancellation, seeks or provides but not both,
keeps the invariant. -/
theorem Inv.stage {db db' : Db} {account : PublicKey} (hinv : Inv db)
    (hcancel : db.stagedCancellation.get? account = none)
    (hone : ¬(db'.hasSeeks account ∧ db'.hasProvides account))
    (hseeks : ∀ a, a ≠ account → db'.stagedSeeks.getD a [] = db.stagedSeeks.getD a [])
    (hprovides : ∀ a, a ≠ account → db'.stagedProvides.getD a [] = db.stagedProvides.getD a [])
    (hcancels : db'.stagedCancellation = db.stagedCancellation)
    (hcycle : db'.currentCycle = db.currentCycle) : Inv db' := by
  have hls : db'.lockedSeeks = db.lockedSeeks := by rw [Db.lockedSeeks, Db.lockedSeeks, hcycle]
  have hlp : db'.lockedProvides = db.lockedProvides := by
    rw [Db.lockedProvides, Db.lockedProvides, hcycle]
  constructor
  · intro a ha
    by_cases hea : a = account
    · exact hone (hea ▸ ha)
    · rw [Db.hasSeeks, Db.hasProvides, hls, hlp, hseeks a hea, hprovides a hea] at ha
      exact hinv.exclusive a ha
  · intro a ha
    rw [hcancels] at ha
    have hea : a ≠ account := fun he => ha (he ▸ hcancel)
    rw [hseeks a hea, hprovides a hea]
    exact hinv.cancelling a ha
  · rw [hcancels]
    exact hinv.bps
  · rw [hcancels, hcycle]
    exact hinv.cycle
  · rw [hls]
    exact hinv.inOrder

/-- Each action's own check is what keeps the invariant for its account. -/
theorem stageAction_inv {cfg : StabilityPoolConfigConsensus} {db : Db} {txid : TransactionId}
    {account : PublicKey} {action : IntendedAction} {r : Db × ℕ} (hinv : Inv db)
    (hcheck : checkAction cfg action = .ok ()) (h : stageAction db txid account action = .ok r) :
    Inv r.1 := by
  cases action with
  | seek amount =>
    simp only [stageAction] at h
    split_ifs at h with hc
    cases h
    obtain ⟨hstaged, hlocked, hcancel⟩ := hc
    refine hinv.stage hcancel ?_ ?_ ?_ rfl rfl
    · rintro ⟨-, hp | hp⟩
      · exact hp hstaged
      · exact hp hlocked
    · intro a ha
      exact BTreeMap.getD_insert_ne _ _ _ ha
    · intro a _
      rfl
  | provide amount minFeeRate =>
    simp only [stageAction] at h
    split_ifs at h with hc
    cases h
    obtain ⟨hstaged, hlocked, hcancel⟩ := hc
    refine hinv.stage hcancel ?_ ?_ ?_ rfl rfl
    · rintro ⟨hs | hs, -⟩
      · exact hs hstaged
      · exact hs hlocked
    · intro a _
      rfl
    · intro a ha
      exact BTreeMap.getD_insert_ne _ _ _ ha
  | cancelRenewal cancel =>
    simp only [stageAction] at h
    split_ifs at h with hc
    cases h
    obtain ⟨hseeks, hprovides, -, hxor⟩ := hc
    constructor
    · exact hinv.exclusive
    · intro a ha
      by_cases hea : a = account
      · rw [hea]
        exact ⟨hseeks, hprovides⟩
      · simp only [BTreeMap.get?_insert_ne _ _ hea] at ha
        exact hinv.cancelling a ha
    · intro a txid' cancel' hg
      by_cases hea : a = account
      · simp only [hea, BTreeMap.get?_insert_self, Option.some.injEq, Prod.mk.injEq] at hg
        rw [← hg.2]
        -- `process_output` refuses more than all basis points
        simp only [checkAction] at hcheck
        split_ifs at hcheck with hb
        rw [BPS_UNIT]
        omega
      · simp only [BTreeMap.get?_insert_ne _ _ hea] at hg
        exact hinv.bps a txid' cancel' hg
    · intro hnone a
      -- something is locked, so there is a cycle
      have hcurrent : db.currentCycle = none := hnone
      simp [Db.lockedSeeks, Db.lockedProvides, hcurrent] at hxor
    · exact hinv.inOrder
  | undoCancelRenewal =>
    simp only [stageAction] at h
    split_ifs at h with hc
    cases h
    have herase : ∀ {a e}, (db.stagedCancellation.erase account).get? a = some e →
        db.stagedCancellation.get? a = some e := by
      intro a e hg
      rw [BTreeMap.get?_erase] at hg
      split_ifs at hg
      exact hg
    constructor
    · exact hinv.exclusive
    · intro a ha
      obtain ⟨e, he⟩ := Option.ne_none_iff_exists'.mp ha
      exact hinv.cancelling a (by rw [herase he]; exact Option.some_ne_none e)
    · exact fun a txid' cancel' hg => hinv.bps a txid' cancel' (herase hg)
    · intro hnone a
      have hall := hinv.cycle hnone
      show (db.stagedCancellation.erase account).get? a = none
      rw [BTreeMap.get?_erase, hall a, ite_self]
    · exact hinv.inOrder

/-! ## Turnovers -/

/-- The steps that end a cycle. -/
theorem settleLastCycle_some {db db' : Db} {cycle : Cycle} {newPrice randomness : ℕ}
    (hcur : db.currentCycle = some cycle) (h : settleLastCycle db newPrice randomness = .ok db') :
    ∃ settled r, settleLocks ⟨cycle.lockedSeeks, cycle.lockedProvides⟩ cycle.startPrice newPrice
        randomness = .ok settled ∧
      applyStagedCancellations { db with pastCycle := db.pastCycle.insert cycle.index cycle } settled
        newPrice = .ok r ∧
      db' = restageRemainingLocks r.1 r.2 := by
  obtain ⟨_, _, _, _, current, _, _, _, _, _⟩ := db
  cases hcur
  obtain ⟨settled, hsettle, h⟩ := bind_eq_ok.mp h
  obtain ⟨r, hr, h⟩ := bind_eq_ok.mp h
  rw [pure_eq_ok] at h
  exact ⟨settled, r, hsettle, hr, h.symm⟩

/-- Deposits of the account that are staged after the last cycle is settled were
staged or locked before, and no cancellation is left. -/
theorem settleLastCycle_ok {db db' : Db} {newPrice randomness : ℕ} (hinv : Inv db)
    (h : settleLastCycle db newPrice randomness = .ok db') :
    db'.idleSum + amountSum db'.stagedSeeks.flat + amountSum db'.stagedProvides.flat = db.liabilities ∧
      (∀ a, ¬db.hasSeeks a → db'.stagedSeeks.getD a [] = []) ∧
      (∀ a, ¬db.hasProvides a → db'.stagedProvides.getD a [] = []) ∧
      ∀ a, db'.stagedCancellation.get? a = none := by
  cases hcur : db.currentCycle with
  | none =>
    simp only [settleLastCycle, hcur] at h
    cases h
    refine ⟨?_, fun a ha => ?_, fun a ha => ?_, hinv.cycle hcur⟩
    · simp only [Db.liabilities, Db.lockedSeeks, Db.lockedProvides, hcur]
      rfl
    · by_contra hne
      exact ha (Or.inl hne)
    · by_contra hne
      exact ha (Or.inl hne)
  | some cycle =>
    obtain ⟨settled, r, hsettle, hr, rfl⟩ := settleLastCycle_some hcur h
    obtain ⟨hheads, hsum⟩ := settleLocks_ok hsettle
    have happlied := applyStagedCancellations_ok hr hinv.bps
    have hls : db.lockedSeeks = cycle.lockedSeeks := by rw [Db.lockedSeeks, hcur]
    have hlp : db.lockedProvides = cycle.lockedProvides := by rw [Db.lockedProvides, hcur]
    -- an account without locks keeps none through settlement and cancellation
    have hkept : ∀ a, (cycle.lockedSeeks.getD a [] = [] → r.2.seeks.getD a [] = []) ∧
        (cycle.lockedProvides.getD a [] = [] → r.2.provides.getD a [] = []) := by
      intro a
      obtain ⟨h1, h2⟩ := happlied.kept a
      rw [(hheads a).1] at h1
      rw [(hheads a).2] at h2
      constructor
      · intro ha
        rw [ha] at h1
        exact heads_eq_nil.mp (List.eq_nil_of_subset_nil h1.subset)
      · intro ha
        rw [ha] at h2
        exact heads_eq_nil.mp (List.eq_nil_of_subset_nil h2.subset)
    have hsame := happlied.same
    have hstaged : r.1.stagedSeeks = db.stagedSeeks ∧ r.1.stagedProvides = db.stagedProvides := by
      unfold SameButRefunds at hsame
      rw [hsame]
      exact ⟨rfl, rfl⟩
    refine ⟨?_, fun a ha => ?_, fun a ha => ?_, fun a => happlied.none_left a⟩
    · have htotal := happlied.total
      simp only [restageRemainingLocks, amountSum_flat_restageTable, hstaged.1, hstaged.2, Db.liabilities,
        hls, hlp, Db.idleSum, Locks.sum] at htotal hsum ⊢
      omega
    · rw [Db.hasSeeks, not_or, not_not, not_not, hls] at ha
      refine restageTable_nil ?_ ((hkept a).1 ha.2)
      rw [hstaged.1, ha.1]
    · rw [Db.hasProvides, not_or, not_not, not_not, hlp] at ha
      refine restageTable_nil ?_ ((hkept a).2 ha.2)
      rw [hstaged.2, ha.1]

theorem turnover_ok {ratio : CollateralRatio} {db db' : Db} {index time price : ℕ} (hinv : Inv db)
    (h : turnover ratio db index time price = .ok db') :
    Inv db' ∧ db'.liabilities = db.liabilities := by
  obtain ⟨settled, hsettled, h⟩ := bind_eq_ok.mp h
  obtain ⟨written, hwritten, h⟩ := bind_eq_ok.mp h
  rw [pure_eq_ok] at h
  subst h
  obtain ⟨hsum, hseeks, hprovides, hcancel⟩ := settleLastCycle_ok hinv hsettled
  have hw := calculateLocksAndWriteCycle_ok hwritten
  have hnone : ∀ a, written.stagedCancellation.get? a = none := fun a => by rw [hw.cancellation, hcancel a]
  refine ⟨⟨?_, ?_, ?_, ?_, hw.inOrder⟩, hw.liabilities.trans hsum⟩
  · -- seeks or provides of the new cycle come from seeks or provides of the old one
    intro a ha
    refine hinv.exclusive a ⟨?_, ?_⟩
    · by_contra hno
      obtain ⟨h1, h2⟩ := hw.seeks a (hseeks a hno)
      exact ha.1.elim (fun h => h h1) fun h => h h2
    · by_contra hno
      obtain ⟨h1, h2⟩ := hw.provides a (hprovides a hno)
      exact ha.2.elim (fun h => h h1) fun h => h h2
  · exact fun a ha => absurd (hnone a) ha
  · intro a txid cancel ha
    have ha' : written.stagedCancellation.get? a = some (txid, cancel) := ha
    rw [hnone a] at ha'
    cases ha'
  · exact fun _ => hnone

/-- An accepted item records a vote, and at the threshold turns the cycle over. -/
theorem processConsensusItem_cases {cfg : StabilityPoolConfigConsensus} {db db' : Db}
    {item : StabilityPoolConsensusItem} {peerId : PeerId}
    (h : processConsensusItem cfg db item peerId = .ok db') :
    ∃ votes, db' = { db with cycleChangeVote := votes } ∨
      ∃ time price, ∃ vote : StabilityPoolConsensusItemV0,
        isForNextCycle db.currentCycle vote.nextCycleIndex = true ∧
        turnover cfg.collateralRatio { db with cycleChangeVote := votes } vote.nextCycleIndex time price =
          .ok db' := by
  unfold processConsensusItem at h
  cases item with
  | default variant => cases h
  | v0 vote =>
    obtain ⟨u1, h1, h⟩ := bind_eq_ok.mp h
    obtain ⟨u2, h2, h⟩ := bind_eq_ok.mp h
    simp only [ensure] at h1
    split_ifs at h1 with hnext
    refine ⟨(recordVote db peerId vote).cycleChangeVote, ?_⟩
    simp only at h
    split_ifs at h with hthreshold
    · rw [pure_eq_ok] at h
      exact Or.inl h.symm
    · obtain ⟨time, -, h⟩ := bind_eq_ok.mp h
      obtain ⟨median, -, h⟩ := bind_eq_ok.mp h
      obtain ⟨price, -, h⟩ := bind_eq_ok.mp h
      exact Or.inr ⟨time, price, vote, hnext, h⟩

/-- The votes are no part of the ledger. -/
theorem Inv.votes {db : Db} (hinv : Inv db)
    (votes : BTreeMap ℕ (BTreeMap PeerId StabilityPoolConsensusItemV0)) :
    Inv { db with cycleChangeVote := votes } :=
  ⟨hinv.exclusive, hinv.cancelling, hinv.bps, hinv.cycle, hinv.inOrder⟩

theorem processConsensusItem_ok {cfg : StabilityPoolConfigConsensus} {db db' : Db}
    {item : StabilityPoolConsensusItem} {peerId : PeerId} (hinv : Inv db)
    (h : processConsensusItem cfg db item peerId = .ok db') :
    Inv db' ∧ db'.liabilities = db.liabilities := by
  obtain ⟨votes, rfl | ⟨time, price, vote, -, hturn⟩⟩ := processConsensusItem_cases h
  · exact ⟨hinv.votes votes, rfl⟩
  · have hok := turnover_ok (hinv.votes votes) hturn
    exact hok

/-! ## Runs -/

/-- The invariant, and nothing gained or lost. -/
structure Sound (st : Ledger) : Prop where
  inv : Inv st.db
  conserved : st.db.liabilities + st.withdrawn = st.deposited

theorem applyEvent_sound {cfg : StabilityPoolConfigConsensus} {st st' : Ledger} {e : Event}
    (hst : Sound st) (h : applyEvent cfg st e = .ok st') : Sound st' := by
  obtain ⟨hinv, hsum⟩ := hst
  cases e with
  | consensusItem peerId item =>
    simp only [applyEvent] at h
    split at h
    · rename_i db' hitem
      cases h
      obtain ⟨h1, h2⟩ := processConsensusItem_ok hinv hitem
      exact ⟨h1, by simp only [h2, hsum]⟩
    · cases h
    · cases h
      exact ⟨hinv, hsum⟩
  | input input =>
    simp only [applyEvent] at h
    split at h
    · rename_i db' amount hinput
      cases h
      have htotal := (processInput_ok hinput).1
      exact ⟨processInput_inv hinv hinput, by simp only at htotal ⊢; omega⟩
    · cases h
      exact ⟨hinv, hsum⟩
  | output txid output =>
    simp only [applyEvent] at h
    split at h
    · rename_i db' amount houtput
      cases h
      obtain ⟨account, action, hcheck, hstage⟩ := processOutput_ok houtput
      have htotal := stageAction_liabilities hstage
      exact ⟨stageAction_inv hinv hcheck hstage, by simp only at htotal ⊢; omega⟩
    · cases h
      exact ⟨hinv, hsum⟩

theorem runEvents_sound {cfg : StabilityPoolConfigConsensus} {evs : List Event} {st : Ledger}
    (h : runEvents cfg evs = .ok st) : Sound st :=
  run_invariant (P := Sound) (fun _ _ _ hst he => applyEvent_sound hst he) ⟨inv_initial, rfl⟩ h

end StabilityPoolOld
