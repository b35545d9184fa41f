import Fedi.StabilityPoolOld.Transactions

/-!
# Old stability pool: cycle turnover (`process_consensus_item` and what it calls)

The turnover settles the locks of the ending cycle at the new price, moves the
cancelled part of them to idle balances, restages the rest, matches everything
staged into the locks of the new cycle, and pays the providers' fees.

As in the second version, loops that pop from a deque are recursions on the list,
and `insertionSort` stands for the unstable sorts.
-/

namespace StabilityPoolOld

open BTreeMaps StabilityPool

/-! ## Settlement -/

structure Locks where
  seeks : DepositTable Unit
  provides : DepositTable ℕ

/-- `settle_locks`; its two copies of the distribution are `distributeFromPool`. -/
def settleLocks (locks : Locks) (startPrice newPrice randomness : ℕ) : Res Locks := do
  let totalSeekMsats := amountSum locks.seeks.flat
  let totalProvideMsats := amountSum locks.provides.flat
  let totalMsatsAvailable := totalSeekMsats + totalProvideMsats
  let msatsNeededForSeeks ← ceilDivision (totalSeekMsats * startPrice) newPrice
  let seeksMsatPool := min msatsNeededForSeeks totalMsatsAvailable
  let providesMsatPool := totalMsatsAvailable - seeksMsatPool
  let seeks ← distributeFromPool locks.seeks.flat seeksMsatPool randomness
  let provides ← distributeFromPool locks.provides.flat providesMsatPool randomness
  return ⟨locks.seeks.refill seeks, locks.provides.refill provides⟩

/-! ## Cancellations -/

/-- What the cancellation loop took from a lock it visited, and whether that drained it. -/
structure Cancelled where
  stagedTxid : TransactionId
  cancellable : ℕ
  drained : Bool
deriving DecidableEq

/-- The loop over the reversed locks: the locks with the cancelled amounts taken
off, and one entry per visited lock. -/
def cancelLoop {M : Type} : List (Deposit M) → ℕ → Res (List (Deposit M) × List Cancelled)
  | [], _ => .ok ([], [])
  | d :: ds, msatToCancel => do
    let cancellable ← unwrapU64 (min msatToCancel d.amount)
    let left := d.amount - cancellable
    let cancelled : Cancelled := ⟨d.txid, cancellable, decide (left = 0)⟩
    if msatToCancel - cancellable = 0 then
      return ({ d with amount := left } :: ds, [cancelled])
    else
      let r ← cancelLoop ds (msatToCancel - cancellable)
      return ({ d with amount := left } :: r.1, cancelled :: r.2)

/-- Cancel `bps` of an account's locks, newest first, and drop the drained ones. -/
def cancelLocked {M : Type} (locked : DepositTable M) (account : PublicKey) (bps : ℕ) :
    Res (DepositTable M × List Cancelled) :=
  let totalAccountMsat := amountSum (locked.getD account [])
  if totalAccountMsat ≠ 0 then do
    let msatToCancel ← ceilDivision (totalAccountMsat * bps) BPS_UNIT
    let r ← cancelLoop (locked.getD account []).reverse msatToCancel
    return (locked.insert account (r.1.reverse.filter fun d => decide (d.amount ≠ 0)), r.2)
  else return (locked, [])

/-- The metadata of the seek a cancelled lock came from, if it has any. -/
def recordWithdrawal (account : PublicKey) (newPrice : ℕ)
    (seekMetadata : BTreeMap (PublicKey ×ₗ TransactionId) SeekMetadata) (c : Cancelled) :
    BTreeMap (PublicKey ×ₗ TransactionId) SeekMetadata :=
  match seekMetadata.get? (toLex (account, c.stagedTxid)) with
  | none => seekMetadata
  | some metadata =>
    seekMetadata.insert (toLex (account, c.stagedTxid))
      { metadata with
        withdrawnAmount := metadata.withdrawnAmount + c.cancellable
        withdrawnAmountCents := metadata.withdrawnAmountCents + amountToCents c.cancellable newPrice
        fullyWithdrawn := c.drained || metadata.fullyWithdrawn }

/-- Sum of what was cancelled. -/
def cancelledSum (cs : List Cancelled) : ℕ := (cs.map (·.cancellable)).sum

/-- One staged cancellation: cancel from the seeks and from the provides, refund
to the idle balance, remove the cancellation. -/
def applyStagedCancellation (newPrice : ℕ) (db : Db) (locks : Locks) (account : PublicKey) (bps : ℕ) :
    Res (Db × Locks) := do
  let seeks ← cancelLocked locks.seeks account bps
  let provides ← cancelLocked locks.provides account bps
  let msatsToRefund ← unwrapU64 (cancelledSum seeks.2 + cancelledSum provides.2)
  let db := { db with
    seekMetadata := seeks.2.foldl (recordWithdrawal account newPrice) db.seekMetadata }
  let db := creditIdleBalance db account msatsToRefund
  return ({ db with stagedCancellation := db.stagedCancellation.erase account },
    ⟨seeks.1, provides.1⟩)

def applyCancellationsLoop (newPrice : ℕ) :
    List (PublicKey × TransactionId × CancelRenewal) → Db → Locks → Res (Db × Locks)
  | [], db, locks => .ok (db, locks)
  | (account, _, cancel) :: cancellations, db, locks => do
    let r ← applyStagedCancellation newPrice db locks account cancel.bps
    applyCancellationsLoop newPrice cancellations r.1 r.2

def applyStagedCancellations (db : Db) (locks : Locks) (newPrice : ℕ) : Res (Db × Locks) :=
  applyCancellationsLoop newPrice db.stagedCancellation.entries db locks

/-! ## Restaging -/

/-- Every account's locks merged into its staged list. -/
def restageTable {M : Type} (staged locked : DepositTable M) : DepositTable M :=
  locked.entries.foldl (fun t e => t.insert e.1 (mergeDeposits (t.getD e.1 []) e.2)) staged

def restageRemainingLocks (db : Db) (locks : Locks) : Db :=
  { db with
    stagedSeeks := restageTable db.stagedSeeks locks.seeks
    stagedProvides := restageTable db.stagedProvides locks.provides }

/-! ## Matching -/

abbrev AccountSeek := PublicKey × Deposit Unit
abbrev AccountProvide := PublicKey × Deposit ℕ

/-- Sum of the amounts of a list of accounts' deposits. -/
def pairSum {M : Type} (l : List (PublicKey × Deposit M)) : ℕ := (l.map (·.2.amount)).sum

/-- Staged seeks by sequence. -/
def sortedStagedSeeks (db : Db) : List AccountSeek :=
  db.stagedSeeks.pairs.insertionSort fun a b => a.2.sequence ≤ b.2.sequence

/-- Order of staged provides: by minimum fee rate, then by sequence. -/
def provideLe (a b : AccountProvide) : Prop :=
  a.2.metadata < b.2.metadata ∨ a.2.metadata = b.2.metadata ∧ a.2.sequence ≤ b.2.sequence

instance : DecidableRel provideLe := fun a b => by unfold provideLe; infer_instance

def sortedStagedProvides (db : Db) : List AccountProvide :=
  db.stagedProvides.pairs.insertionSort provideLe

structure LockedProvidesAndFeeRateResult where
  lockedProvides : List AccountProvide
  includedProvidesSum : ℕ
  feeRate : ℕ
  stagedProvides : List AccountProvide

/-- Include provides from the front while collateral is needed. -/
def lockProvidesLoop (seeksSum collP collS : ℕ) :
    List AccountProvide → (feeRate remainingCollNeeded includedProvidesSum : ℕ) →
      Res LockedProvidesAndFeeRateResult
  | [], feeRate, _, included => .ok ⟨[], included, feeRate, []⟩
  | (account, provide) :: staged, feeRate, remaining, included =>
    if remaining = 0 then .ok ⟨[], included, feeRate, (account, provide) :: staged⟩
    else do
      let next ← nextFeeRate seeksSum collP collS provide.metadata feeRate remaining included
      match next with
      | none => return ⟨[], included, feeRate, (account, provide) :: staged⟩
      | some (feeRate, remaining) =>
        let amountUsed ← unwrapU64 (min remaining provide.amount)
        let locked := (account, { provide with amount := amountUsed })
        if provide.amount - amountUsed = 0 then
          let r ← lockProvidesLoop seeksSum collP collS staged feeRate (remaining - amountUsed)
            (included + amountUsed)
          return { r with lockedProvides := locked :: r.lockedProvides }
        else
          -- `amountUsed` was all that was needed: the loop ends
          return ⟨[locked], included + amountUsed, feeRate,
            (account, { provide with amount := provide.amount - amountUsed }) :: staged⟩

def calculateLockedProvidesAndFeeRate (stagedSeeks : List AccountSeek)
    (stagedProvides : List AccountProvide) (collP collS : ℕ) :
    Res LockedProvidesAndFeeRateResult := do
  let seeksSum := pairSum stagedSeeks
  let remaining ← remainingProviderCollateralNeeded seeksSum 0 collP collS 0
  lockProvidesLoop seeksSum collP collS stagedProvides 0 remaining 0

/-- Include seeks from the front while the sum is not used up: locked seeks and
what stays staged. -/
def lockSeeksLoop : List AccountSeek → ℕ → Res (List AccountSeek × List AccountSeek)
  | [], _ => .ok ([], [])
  | (account, seek) :: staged, included =>
    if included = 0 then .ok ([], (account, seek) :: staged)
    else do
      let amountUsed ← unwrapU64 (min included seek.amount)
      let locked := (account, { seek with amount := amountUsed })
      if seek.amount - amountUsed = 0 then
        let r ← lockSeeksLoop staged (included - amountUsed)
        return (locked :: r.1, r.2)
      else
        return ([locked], (account, { seek with amount := seek.amount - amountUsed }) :: staged)

def calculateLockedSeeks (stagedSeeks : List AccountSeek)
    (feeRate collP collS includedProvidesSum : ℕ) : Res (List AccountSeek × List AccountSeek) := do
  let included ← includedSeeksSumBeforeFees feeRate collP collS includedProvidesSum
  lockSeeksLoop stagedSeeks included

/-- The tables are cleared when the staged deposits are extracted. -/
def writeRemainingStagedSeeksAndProvides (db : Db) (stagedSeeks : List AccountSeek)
    (stagedProvides : List AccountProvide) : Db :=
  { db with
    stagedSeeks := .insertAll .empty (.groupMap stagedSeeks)
    stagedProvides := .insertAll .empty (.groupMap stagedProvides) }

/-! ## Fees and the new cycle -/

/-- Amount and fee of the seek `(account, txid, sequence)`. -/
abbrev AmountAndFee := (PublicKey ×ₗ TransactionId ×ₗ ℕ) × (ℕ × ℕ)

/-- Reduce every locked seek by its fee: the reduced seeks, and their amounts and fees. -/
def chargeFees (feeRate : ℕ) : List AccountSeek → Res (List AccountSeek × List AmountAndFee)
  | [] => .ok ([], [])
  | (account, seek) :: seeks => do
    let fee ← ceilDivision (seek.amount * feeRate) B
    let fee ← unwrapU64 fee
    let amount ← subP seek.amount fee
    let r ← chargeFees feeRate seeks
    return ((account, { seek with amount := amount }) :: r.1,
      (toLex (account, toLex (seek.txid, seek.sequence)), (seek.amount, fee)) :: r.2)

/-- Pool of the charged fees. -/
def feePool (charged : List AmountAndFee) : ℕ := (charged.map (·.2.2)).sum

/-- The metadata of a seek that pays a fee, new on its first lock. -/
def chargeMetadata (cycleTime cyclePrice : ℕ)
    (seekMetadata : BTreeMap (PublicKey ×ₗ TransactionId) SeekMetadata) (e : AmountAndFee) :
    BTreeMap (PublicKey ×ₗ TransactionId) SeekMetadata :=
  let (account, rest) := ofLex e.1
  let (txid, sequence) := ofLex rest
  seekMetadata.insert (toLex (account, txid))
    (match seekMetadata.get? (toLex (account, txid)) with
    | some existing => { existing with feesPaidSoFar := existing.feesPaidSoFar + e.2.2 }
    | none =>
      { stagedSequence := sequence
        initialAmount := e.2.1
        initialAmountCents := amountToCents e.2.1 cyclePrice
        withdrawnAmount := 0
        withdrawnAmountCents := 0
        feesPaidSoFar := e.2.2
        firstLockStartTime := cycleTime
        fullyWithdrawn := false })

/-- Collected into an ordered map: one entry per seek. -/
def amountAndFeeMap (charged : List AmountAndFee) : BTreeMap (PublicKey ×ₗ TransactionId ×ₗ ℕ) (ℕ × ℕ) :=
  charged.foldl (fun m e => m.insert e.1 e.2) .empty

/-- Fee owed to every provider, and what is left of the pool. -/
def feesOwed (pool includedProvidesSum : ℕ) :
    List (PublicKey × List LockedProvide) → ℕ → Res (List (PublicKey × ℕ) × ℕ)
  | [], draining => .ok ([], draining)
  | (account, provides) :: rest, draining => do
    let owed ← divP (amountSum provides * pool) includedProvidesSum
    let draining ← subP draining owed
    let r ← feesOwed pool includedProvidesSum rest draining
    return ((account, owed) :: r.1, r.2)

/-- Give what is left of the fee pool to an arbitrary provider. -/
def addLeftoverFee (fees : List (PublicKey × ℕ)) (leftover randomness : ℕ) :
    Res (List (PublicKey × ℕ)) :=
  if leftover ≠ 0 then do
    let randIndex ← modP randomness fees.length
    return fees.modify randIndex fun e => (e.1, e.2 + leftover)
  else return fees

/-- Credit the fees to the providers' idle balances. -/
def payFees : List (PublicKey × ℕ) → Db → Res Db
  | [], db => .ok db
  | (account, feeOwed) :: rest, db => do
    let fee ← unwrapU64 feeOwed
    payFees rest (creditIdleBalance db account fee)

def distributeFeesAndWriteCycle (db : Db) (lockedSeeks : List AccountSeek)
    (lockedProvides : List AccountProvide) (feeRate includedProvidesSum cycleIndex cycleTime
      cyclePrice randomness : ℕ) : Res Db := do
  let charged ← chargeFees feeRate lockedSeeks
  let pool := feePool charged.2
  let db := { db with
    seekMetadata := (amountAndFeeMap charged.2).entries.foldl (chargeMetadata cycleTime cyclePrice)
      db.seekMetadata }
  let lockedProvidesMap := BTreeMap.groupMap lockedProvides
  let owed ← feesOwed pool includedProvidesSum lockedProvidesMap.entries pool
  let fees ← addLeftoverFee owed.1 owed.2 randomness
  let db ← payFees fees db
  return { db with
    currentCycle := some
      { index := cycleIndex, startTime := cycleTime, startPrice := cyclePrice, feeRate := feeRate,
        lockedSeeks := BTreeMap.groupMap charged.1, lockedProvides := lockedProvidesMap } }

def calculateLocksAndWriteCycle (ratio : CollateralRatio) (db : Db)
    (index time price randomness : ℕ) : Res Db := do
  let stagedSeeks := sortedStagedSeeks db
  let p ← calculateLockedProvidesAndFeeRate stagedSeeks (sortedStagedProvides db) ratio.provider
    ratio.seeker
  let s ← calculateLockedSeeks stagedSeeks p.feeRate ratio.provider ratio.seeker
    p.includedProvidesSum
  let db := writeRemainingStagedSeeksAndProvides db s.2 p.stagedProvides
  distributeFeesAndWriteCycle db s.1 p.lockedProvides p.feeRate p.includedProvidesSum index time price
    randomness

/-! ## Consensus items -/

/-- Record, settle, cancel and restage the locks of the ending cycle, if there is one. -/
def settleLastCycle (db : Db) (newPrice randomness : ℕ) : Res Db :=
  match db.currentCycle with
  | none => .ok db
  | some cycle => do
    let db := { db with pastCycle := db.pastCycle.insert cycle.index cycle }
    let locks ← settleLocks ⟨cycle.lockedSeeks, cycle.lockedProvides⟩ cycle.startPrice newPrice
      randomness
    let r ← applyStagedCancellations db locks newPrice
    return restageRemainingLocks r.1 r.2

/-- `subsec_nanos` of the new start time. -/
def randomnessOf (newTime : ℕ) : ℕ := newTime % 1000000000

/-- From the threshold on. -/
def turnover (ratio : CollateralRatio) (db : Db) (nextCycleIndex newTime newPrice : ℕ) : Res Db := do
  let db ← settleLastCycle db newPrice (randomnessOf newTime)
  let db ← calculateLocksAndWriteCycle ratio db nextCycleIndex newTime newPrice (randomnessOf newTime)
  return { db with cycleChangeVote := db.cycleChangeVote.erase nextCycleIndex }

/-- A zero median price keeps the previous price. -/
def effectivePrice (currentCycle : Option Cycle) (price : ℕ) : Res ℕ :=
  if price = 0 then
    match currentCycle with
    | some cycle => .ok cycle.startPrice
    | none => .error (.panic (.expectFailed "sorry, please fix your price source"))
  else .ok price

/-- The votes recorded for a cycle index, in peer order. -/
def cycleChangeVotes (db : Db) (index : ℕ) : BTreeMap PeerId StabilityPoolConsensusItemV0 :=
  db.cycleChangeVote.getD index .empty

def recordVote (db : Db) (peerId : PeerId) (vote : StabilityPoolConsensusItemV0) : Db :=
  { db with
    cycleChangeVote := db.cycleChangeVote.insert vote.nextCycleIndex
      ((cycleChangeVotes db vote.nextCycleIndex).insert peerId vote) }

/-- The vote is for the cycle after the current one, if there is one. -/
def isForNextCycle (currentCycle : Option Cycle) (nextCycleIndex : ℕ) : Bool :=
  match currentCycle with
  | some cycle => decide (nextCycleIndex = cycle.index + 1)
  | none => true

def processCycleVote (cfg : StabilityPoolConfigConsensus) (db : Db)
    (vote : StabilityPoolConsensusItemV0) (peerId : PeerId) : Res Db := do
  ensure (isForNextCycle db.currentCycle vote.nextCycleIndex = true) "Vote is not for next cycle"
  ensure ((cycleChangeVotes db vote.nextCycleIndex).get? peerId = none)
    s!"Already received peer's vote for cycle {vote.nextCycleIndex}"
  let voted := recordVote db peerId vote
  let votes := (cycleChangeVotes voted vote.nextCycleIndex).values
  if votes.length < cfg.consensusThreshold then return voted
  else
    let newTime ← medianBy (·.time) votes
    let medianPrice ← medianBy (·.price) votes
    let newPrice ← effectivePrice db.currentCycle medianPrice
    turnover cfg.collateralRatio voted vote.nextCycleIndex newTime newPrice

def processConsensusItem (cfg : StabilityPoolConfigConsensus) (db : Db)
    (consensusItem : StabilityPoolConsensusItem) (peerId : PeerId) : Res Db :=
  match consensusItem with
  | .v0 vote => processCycleVote cfg db vote peerId
  | .default variant => .error (.bail s!"Unsupported variant {variant}")

end StabilityPoolOld
