import Fedi.StabilityPool.Db

/-!
# Stability pool: cycle turnover (`server/src/lib.rs`, from `distribute_from_pool` on)

Lists stand for the source's vectors and deques.  Loops that pop from a deque
while a condition holds are recursions on the list; a `&mut` map of deposit
lists whose values are rewritten in key order is `flat`, a function on lists,
then `refill`.

`insertionSort` stands for the unstable sorts: it is stable, one of the orders
an unstable sort may produce.
-/

namespace StabilityPool

open BTreeMaps

/-- PPB unit for fee-related calculations. -/
def B : ℕ := 1000000000

/-- `dividend.div_ceil(divisor)`. -/
def ceilDivision (dividend divisor : ℕ) : Res ℕ := divP (dividend + divisor - 1) divisor

/-! ## Draining -/

section
variable {M : Type}

/-- The loop of `drain_in_reverse` on the reversed items: what stays (still
reversed) and what was drained. -/
def drainLoop : List (Deposit M) → ℕ → List (Deposit M) × List (Deposit M)
  | [], _ => ([], [])
  | item :: rest, leftToDrain =>
    let minExtractable := min item.amount leftToDrain
    let drained := { item with amount := minExtractable }
    let kept := item.amount - minExtractable
    if leftToDrain - minExtractable = 0 then
      (if kept ≠ 0 then { item with amount := kept } :: rest else rest, [drained])
    else
      -- more is needed than the item had, so nothing of it is reinserted
      let r := drainLoop rest (leftToDrain - minExtractable)
      (r.1, drained :: r.2)

/-- Drain newest first: the remaining items and the drained ones. -/
def drainInReverse (items : List (Deposit M)) (totalToDrain : ℕ) :
    List (Deposit M) × List (Deposit M) :=
  if totalToDrain = 0 then (items, [])
  else
    let r := drainLoop items.reverse totalToDrain
    (r.1.reverse, r.2)

/-! ## Settlement -/

/-- The distribution loop: every deposit's share, and what is left of the pool. -/
def distributeLoop (pool total : ℕ) : List (Deposit M) → ℕ → Res (List (Deposit M) × ℕ)
  | [], draining => .ok ([], draining)
  | d :: ds, draining => do
    let newAmount ← divP (pool * d.amount) total
    let draining ← subP draining newAmount
    let msats ← unwrapU64 newAmount
    let r ← distributeLoop pool total ds draining
    return ({ d with amount := msats } :: r.1, r.2)

def distributeFromPool (deposits : List (Deposit M)) (distributionMsatPool randomness : ℕ) :
    Res (List (Deposit M)) := do
  let r ← distributeLoop distributionMsatPool (amountSum deposits) deposits distributionMsatPool
  if r.2 ≠ 0 then
    let randIndex ← modP randomness r.1.length
    let leftover ← unwrapU64 r.2
    return r.1.modify randIndex fun d => { d with amount := d.amount + leftover }
  else
    return r.1

end

/-- Settled seeks and provides. -/
structure Locks where
  seeks : DepositTable Unit
  provides : DepositTable FeeRate

def settleLocks (locks : Locks) (startPrice newPrice : ℕ) (randomness : ℕ) : Res Locks := do
  let totalSeekMsats := amountSum locks.seeks.flat
  let totalProvideMsats := amountSum locks.provides.flat
  let totalMsatsAvailable := totalSeekMsats + totalProvideMsats
  let msatsNeededForSeeks ← ceilDivision (totalSeekMsats * startPrice) newPrice
  let seeksMsatPool := min msatsNeededForSeeks totalMsatsAvailable
  let providesMsatPool := totalMsatsAvailable - seeksMsatPool
  let seeks ← distributeFromPool locks.seeks.flat seeksMsatPool randomness
  let provides ← distributeFromPool locks.provides.flat providesMsatPool randomness
  return ⟨locks.seeks.refill seeks, locks.provides.refill provides⟩

/-! ## Unlock requests -/

/-- What a request leaves of the locks, and what it drains. -/
def drainForRequest {M : Type} (lockedDeposits : List (Deposit M)) (price : ℕ) :
    FiatOrAll → Res (List (Deposit M) × List (Deposit M))
  | .fiat fiatAmount => do
    let amountToUnlock ← FiatAmount.toBtcAmount fiatAmount price
    return drainInReverse lockedDeposits amountToUnlock
  | .all => .ok ([], lockedDeposits)

/-- Drain an account's locks for its request: the database and the locks left. -/
def processUnlockRequestsInner {M : Type} (db : Db) (accountId : AccountId)
    (unlockRequest : UnlockRequest) (lockedDeposits : List (Deposit M)) (newCycleInfo : CycleInfo) :
    Res (Db × List (Deposit M)) := do
  let drained ← drainForRequest lockedDeposits newCycleInfo.startPrice unlockRequest.unlockAmount
  let db := creditIdleBalance db accountId (amountSum drained.2)
  let db := { db with unlockRequests := db.unlockRequests.erase accountId }
  let db := addAccountHistoryItems db accountId (drained.2.map fun d =>
    { cycle := newCycleInfo, kind := .lockedToIdle, txid := unlockRequest.txid,
      depositSequence := d.sequence, amount := d.amount })
  return (db, drained.1)

/-- The request of one account against the lock map of its side; an account
without locks is drained as an empty list and gets no entry. -/
def unlockFromMap {M : Type} (db : Db) (accountId : AccountId) (unlockRequest : UnlockRequest)
    (locked : DepositTable M) (newCycleInfo : CycleInfo) : Res (Db × DepositTable M) :=
  match locked.get? accountId with
  | some deposits => do
    let r ← processUnlockRequestsInner db accountId unlockRequest deposits newCycleInfo
    return (r.1, locked.insert accountId r.2)
  | none => do
    let r ← processUnlockRequestsInner (M := M) db accountId unlockRequest [] newCycleInfo
    return (r.1, locked)

def processUnlockRequest (db : Db) (locks : Locks) (newCycleInfo : CycleInfo)
    (accountId : AccountId) (unlockRequest : UnlockRequest) : Res (Db × Locks) :=
  match accountId.accType with
  | .seeker => do
    let r ← unlockFromMap db accountId unlockRequest locks.seeks newCycleInfo
    return (r.1, { locks with seeks := r.2 })
  | .provider => do
    let r ← unlockFromMap db accountId unlockRequest locks.provides newCycleInfo
    return (r.1, { locks with provides := r.2 })
  | .btcDepositor => .error (.bail "Invalid operation for BtcDepositor account")

def processUnlockRequestsLoop (newCycleInfo : CycleInfo) :
    List (AccountId × UnlockRequest) → Db → Locks → Res (Db × Locks)
  | [], db, locks => .ok (db, locks)
  | (accountId, unlockRequest) :: requests, db, locks => do
    let r ← processUnlockRequest db locks newCycleInfo accountId unlockRequest
    processUnlockRequestsLoop newCycleInfo requests r.1 r.2

def processUnlockRequests (db : Db) (locks : Locks) (newCycleInfo : CycleInfo) : Res (Db × Locks) :=
  processUnlockRequestsLoop newCycleInfo db.unlockRequests.entries db locks

/-! ## Restaging -/

section
variable {M : Type}

/-- Merge neighbours of equal sequence into the first of them. -/
def coalesceFrom (prev : Deposit M) : List (Deposit M) → List (Deposit M)
  | [] => [prev]
  | curr :: ds =>
    if prev.sequence = curr.sequence then
      coalesceFrom { prev with amount := prev.amount + curr.amount } ds
    else prev :: coalesceFrom curr ds

def coalesce : List (Deposit M) → List (Deposit M)
  | [] => []
  | d :: ds => coalesceFrom d ds

/-- Staged deposits and locks, by sequence, equal sequences merged. -/
def mergeDeposits (staged locked : List (Deposit M)) : List (Deposit M) :=
  coalesce ((staged ++ locked).insertionSort fun a b => a.sequence ≤ b.sequence)

end

def restageRemainingLocksInner (s : Side) (db : Db) (e : AccountId × List (Deposit s.Meta)) : Db :=
  db.setStaged s ((db.staged s).insert e.1 (mergeDeposits ((db.staged s).getD e.1 []) e.2))

def restageRemainingLocks (db : Db) (locks : Locks) : Db :=
  locks.provides.entries.foldl (restageRemainingLocksInner .provide)
    (locks.seeks.entries.foldl (restageRemainingLocksInner .seek) db)

/-! ## Matching -/

/-- Remaining provider collateral needed for `seeksSum` at `feeRate`. -/
def remainingProviderCollateralNeeded (seeksSum feeRate collP collS includedProvidesSum : ℕ) :
    Res ℕ := do
  let net ← subP B feeRate
  let numeratorTerm1 := seeksSum * net * collP
  let numeratorTerm2 := includedProvidesSum * B * collS
  if numeratorTerm1 < numeratorTerm2 then return 0
  else ceilDivision (numeratorTerm1 - numeratorTerm2) (B * collS)

/-- Seeks, before fees, that the included provides collateralize. -/
def includedSeeksSumBeforeFees (feeRate collP collS includedProvidesSum : ℕ) : Res ℕ := do
  let net ← subP B feeRate
  divP (includedProvidesSum * collS * B) (net * collP)

abbrev AccountSeek := AccountId × Seek
abbrev AccountProvide := AccountId × Provide

structure LockedProvidesAndFeeRateResult where
  lockedProvides : List AccountProvide
  includedProvidesSum : ℕ
  feeRate : ℕ
  stagedProvides : List AccountProvide

/-- Fee rate and collateral needed after looking at the next provide's minimum
fee rate; `none` is the `break`. -/
def nextFeeRate (seeksSum collP collS : ℕ) (minFeeRate feeRate remainingCollNeeded
    includedProvidesSum : ℕ) : Res (Option (ℕ × ℕ)) :=
  if feeRate < minFeeRate then do
    let newRemainingCollNeeded ←
      remainingProviderCollateralNeeded seeksSum minFeeRate collP collS includedProvidesSum
    if newRemainingCollNeeded = 0 then return none
    else return some (minFeeRate, newRemainingCollNeeded)
  else return some (feeRate, remainingCollNeeded)

/-- Include provides from the front while collateral is needed. -/
def lockProvidesLoop (seeksSum collP collS : ℕ) :
    List AccountProvide → (feeRate remainingCollNeeded includedProvidesSum : ℕ) →
      Res LockedProvidesAndFeeRateResult
  | [], feeRate, _, included => .ok ⟨[], included, feeRate, []⟩
  | (accountId, provide) :: staged, feeRate, remaining, included =>
    if remaining = 0 then .ok ⟨[], included, feeRate, (accountId, provide) :: staged⟩
    else do
      let next ← nextFeeRate seeksSum collP collS provide.metadata.ppb feeRate remaining included
      match next with
      | none => return ⟨[], included, feeRate, (accountId, provide) :: staged⟩
      | some (feeRate, remaining) =>
        let amountUsed := min remaining provide.amount
        let msats ← unwrapU64 amountUsed
        let locked := (accountId, { provide with amount := msats })
        if provide.amount - amountUsed = 0 then
          let r ← lockProvidesLoop seeksSum collP collS staged feeRate (remaining - amountUsed)
            (included + amountUsed)
          return { r with lockedProvides := locked :: r.lockedProvides }
        else
          -- `amountUsed` was all that was needed: the loop ends
          return ⟨[locked], included + amountUsed, feeRate,
            (accountId, { provide with amount := provide.amount - amountUsed }) :: staged⟩

/-- Sum of the amounts of a list of accounts' deposits. -/
def pairSum {M : Type} (l : List (AccountId × Deposit M)) : ℕ := (l.map (·.2.amount)).sum

def calculateLockedProvidesAndFeeRate (stagedSeeks : List AccountSeek)
    (stagedProvides : List AccountProvide) (collP collS : ℕ) :
    Res LockedProvidesAndFeeRateResult := do
  let seeksSum := pairSum stagedSeeks
  let remaining ← remainingProviderCollateralNeeded seeksSum 0 collP collS 0
  lockProvidesLoop seeksSum collP collS stagedProvides 0 remaining 0

/-- Include seeks from the front while the sum is not used up: locked seeks and
what stays staged. -/
def lockSeeksLoop : List AccountSeek → ℕ → Res (List AccountSeek × List AccountSeek)
  | [], _ => .ok ([], [])
  | (accountId, seek) :: staged, included =>
    if included = 0 then .ok ([], (accountId, seek) :: staged)
    else do
      let amountUsed := min included seek.amount
      let msats ← unwrapU64 amountUsed
      let locked := (accountId, { seek with amount := msats })
      if seek.amount - amountUsed = 0 then
        let r ← lockSeeksLoop staged (included - amountUsed)
        return (locked :: r.1, r.2)
      else
        return ([locked], (accountId, { seek with amount := seek.amount - amountUsed }) :: staged)

def calculateLockedSeeks (stagedSeeks : List AccountSeek)
    (feeRate collP collS includedProvidesSum : ℕ) : Res (List AccountSeek × List AccountSeek) := do
  let included ← includedSeeksSumBeforeFees feeRate collP collS includedProvidesSum
  lockSeeksLoop stagedSeeks included

/-! ## Account history of locks -/

section
variable {M : Type}

abbrev StateDiffMap (M : Type) :=
  BTreeMap (AccountId ×ₗ ℕ) (Option (Deposit M) × Option (Deposit M))

/-- Old lock state per account and sequence. -/
def populateOld (oldLocks : DepositTable M) : StateDiffMap M :=
  oldLocks.pairs.foldl (fun m e => m.insert (toLex (e.1, e.2.sequence)) (some e.2, none)) .empty

/-- Add the new lock state. -/
def populateNew (newLocks : List (AccountId × Deposit M)) (m : StateDiffMap M) : StateDiffMap M :=
  newLocks.foldl (fun m e =>
    match m.get? (toLex (e.1, e.2.sequence)) with
    | some (old, _) => m.insert (toLex (e.1, e.2.sequence)) (old, some e.2)
    | none => m.insert (toLex (e.1, e.2.sequence)) (none, some e.2)) m

/-- The history item, if any, of one account and sequence. -/
def lockHistoryItem (cycleInfo : CycleInfo) (sequence : ℕ)
    (states : Option (Deposit M) × Option (Deposit M)) : Res (Option AccountHistoryItem) :=
  match states with
  | (none, none) => .error (.panic (.assertionFailed "invariant: atleast one must be set"))
  | (oldState, newState) =>
    let oldAmount := (oldState.map (·.amount)).getD 0
    let newAmount := (newState.map (·.amount)).getD 0
    let txid := ((oldState.or newState).map (·.txid)).getD 0
    if newAmount < oldAmount then
      .ok (some { cycle := cycleInfo, kind := .lockedToStaged, txid := txid,
                  depositSequence := sequence, amount := oldAmount - newAmount })
    else if newAmount = oldAmount then .ok none
    else
      .ok (some { cycle := cycleInfo, kind := .stagedToLocked, txid := txid,
                  depositSequence := sequence, amount := newAmount - oldAmount })

def updateHistoryLoop (cycleInfo : CycleInfo) :
    List ((AccountId ×ₗ ℕ) × (Option (Deposit M) × Option (Deposit M))) → Db → Res Db
  | [], db => .ok db
  | (key, states) :: rest, db => do
    let item ← lockHistoryItem cycleInfo (ofLex key).2 states
    updateHistoryLoop cycleInfo rest
      (match item with
      | none => db
      | some item => addAccountHistoryItems db (ofLex key).1 [item])

def updateHistoryForLocks (db : Db) (oldCycleLocks : DepositTable M)
    (newLocks : List (AccountId × Deposit M)) (cycleInfo : CycleInfo) : Res Db :=
  updateHistoryLoop cycleInfo (populateNew newLocks (populateOld oldCycleLocks)).entries db

end

/-! ## Fees and the new cycle -/

/-- Charge every locked seek: seeks net of fees, the fee pool, the database with
the lifetime fees. -/
def chargeFees (feeRate : ℕ) : List AccountSeek → Db → Res (List AccountSeek × ℕ × Db)
  | [], db => .ok ([], 0, db)
  | (accountId, seek) :: seeks, db => do
    let fee ← ceilDivision (seek.amount * feeRate) B
    let fee ← unwrapU64 fee
    let amount ← subP seek.amount fee
    let lifetimeFee := db.seekLifetimeFee.getD seek.txid 0 + fee
    let db := { db with seekLifetimeFee := db.seekLifetimeFee.insert seek.txid lifetimeFee }
    let r ← chargeFees feeRate seeks db
    return ((accountId, { seek with amount := amount }) :: r.1, fee + r.2.1, r.2.2)

/-- Fee owed to every provider, and what is left of the pool. -/
def feesOwed (feePool includedProvidesSum : ℕ) :
    List (AccountId × List Provide) → ℕ → Res (List (AccountId × ℕ) × ℕ)
  | [], draining => .ok ([], draining)
  | (accountId, provides) :: rest, draining => do
    let owed ← divP (amountSum provides * feePool) includedProvidesSum
    let draining ← subP draining owed
    let r ← feesOwed feePool includedProvidesSum rest draining
    return ((accountId, owed) :: r.1, r.2)

/-- Give what is left of the fee pool to an arbitrary provider. -/
def addLeftoverFee (fees : List (AccountId × ℕ)) (leftover randomness : ℕ) :
    Res (List (AccountId × ℕ)) :=
  if leftover ≠ 0 then do
    let randIndex ← modP randomness fees.length
    return fees.modify randIndex fun e => (e.1, e.2 + leftover)
  else return fees

/-- Credit the fees to the providers' idle balances. -/
def payFees : List (AccountId × ℕ) → Db → Res Db
  | [], db => .ok db
  | (accountId, feeOwed) :: rest, db => do
    let fee ← unwrapU64 feeOwed
    payFees rest (creditIdleBalance db accountId fee)

def distributeFeesAndWriteCycle (db : Db) (lockedSeeks : List AccountSeek)
    (lockedProvides : List AccountProvide) (feeRate includedProvidesSum : ℕ) (cycleInfo : CycleInfo)
    (randomness : ℕ) (oldLocks : Locks) : Res Db := do
  let db ← updateHistoryForLocks db oldLocks.seeks lockedSeeks cycleInfo
  let db ← updateHistoryForLocks db oldLocks.provides lockedProvides cycleInfo
  let charged ← chargeFees feeRate lockedSeeks db
  let lockedProvidesMap := BTreeMap.groupMap lockedProvides
  let owed ← feesOwed charged.2.1 includedProvidesSum lockedProvidesMap.entries charged.2.1
  let fees ← addLeftoverFee owed.1 owed.2 randomness
  let db ← payFees fees charged.2.2
  return { db with
    currentCycle := some
      { index := cycleInfo.idx, startTime := cycleInfo.startTime,
        startPrice := cycleInfo.startPrice, feeRate := ⟨feeRate⟩,
        lockedSeeks := BTreeMap.groupMap charged.1, lockedProvides := lockedProvidesMap } }

/-- Not a btc depositor's key. -/
def stabilizes (a : AccountId) : Bool := decide (a.accType ≠ .btcDepositor)

/-- Staged seeks by sequence, without btc depositors. -/
def sortedStagedSeeks (db : Db) : List AccountSeek :=
  (db.stagedSeeks.filterKeys stabilizes).pairs.insertionSort fun a b => a.2.sequence ≤ b.2.sequence

/-- Order of staged provides: by minimum fee rate, then by sequence. -/
def provideLe (a b : AccountProvide) : Prop :=
  a.2.metadata.ppb < b.2.metadata.ppb ∨
    a.2.metadata.ppb = b.2.metadata.ppb ∧ a.2.sequence ≤ b.2.sequence

instance : DecidableRel provideLe := fun a b => by unfold provideLe; infer_instance

def sortedStagedProvides (db : Db) : List AccountProvide :=
  db.stagedProvides.pairs.insertionSort provideLe

/-- What `extract_sorted_staged_seeks_and_provides` leaves in the database. -/
def removeExtracted (db : Db) : Db :=
  { db with
    stagedSeeks := db.stagedSeeks.filterKeys fun a => !stabilizes a
    stagedProvides := .empty }

def writeRemainingStagedSeeksAndProvides (db : Db) (stagedSeeks : List AccountSeek)
    (stagedProvides : List AccountProvide) : Db :=
  { db with
    stagedSeeks := db.stagedSeeks.insertAll (BTreeMap.groupMap stagedSeeks)
    stagedProvides := db.stagedProvides.insertAll (BTreeMap.groupMap stagedProvides) }

def calculateLocksAndWriteCycle (ratio : CollateralRatio) (db : Db) (cycleInfo : CycleInfo)
    (randomness : ℕ) (oldLocks : Locks) : Res Db := do
  let stagedSeeks := sortedStagedSeeks db
  let p ← calculateLockedProvidesAndFeeRate stagedSeeks (sortedStagedProvides db) ratio.provider
    ratio.seeker
  let s ← calculateLockedSeeks stagedSeeks p.feeRate ratio.provider ratio.seeker
    p.includedProvidesSum
  let db := writeRemainingStagedSeeksAndProvides (removeExtracted db) s.2 p.stagedProvides
  distributeFeesAndWriteCycle db s.1 p.lockedProvides p.feeRate p.includedProvidesSum cycleInfo
    randomness oldLocks

/-! ## Consensus items -/

/-- Settle, unlock and restage the locks of the ending cycle. -/
def settleCurrentCycle (db : Db) (cycle : Cycle) (newCycleInfo : CycleInfo) (randomness : ℕ) :
    Res (Db × Locks) := do
  let db := { db with pastCycle := db.pastCycle.insert cycle.index cycle }
  let locks ← settleLocks ⟨cycle.lockedSeeks, cycle.lockedProvides⟩ cycle.startPrice
    newCycleInfo.startPrice randomness
  let r ← processUnlockRequests db locks newCycleInfo
  return (restageRemainingLocks r.1 r.2, r.2)

/-- `settleCurrentCycle`, if there is a current cycle. -/
def settleLastCycle (db : Db) (newCycleInfo : CycleInfo) (randomness : ℕ) : Res (Db × Locks) :=
  match db.currentCycle with
  | some cycle => settleCurrentCycle db cycle newCycleInfo randomness
  | none => .ok (db, ⟨.empty, .empty⟩)

/-- From the threshold on: the new cycle at the median time and price. -/
def turnover (ratio : CollateralRatio) (db : Db) (newCycleInfo : CycleInfo) : Res Db := do
  let randomness := newCycleInfo.startTime % 1000000000
  let r ← settleLastCycle db newCycleInfo randomness
  let db ← calculateLocksAndWriteCycle ratio r.1 newCycleInfo randomness r.2
  return { db with cycleChangeVote := db.cycleChangeVote.erase newCycleInfo.idx }

/-- The votes recorded for a cycle index, in peer order. -/
def cycleChangeVotes (db : Db) (idx : ℕ) : BTreeMap PeerId StabilityPoolConsensusItemV0 :=
  db.cycleChangeVote.getD idx .empty

/-- The median vote under a key. -/
def medianBy (key : StabilityPoolConsensusItemV0 → ℕ) (votes : List StabilityPoolConsensusItemV0) :
    Res ℕ :=
  match (votes.insertionSort fun a b => key a ≤ key b)[votes.length / 2]? with
  | none => .error (.panic .indexOutOfBounds)
  | some vote => .ok (key vote)

/-- A zero median price keeps the previous price. -/
def effectivePrice (currentCycle : Option Cycle) (price : ℕ) : Res ℕ :=
  if price = 0 then
    match currentCycle with
    | some cycle => .ok cycle.startPrice
    | none => .error (.panic (.expectFailed "sorry, please fix your price source"))
  else .ok price

def recordVote (db : Db) (peerId : PeerId) (vote : StabilityPoolConsensusItemV0) : Db :=
  { db with
    cycleChangeVote := db.cycleChangeVote.insert vote.nextCycleIndex
      ((cycleChangeVotes db vote.nextCycleIndex).insert peerId vote) }

/-- "Vote is not for next cycle". -/
def isForNextCycle (currentCycle : Option Cycle) (nextCycleIndex : ℕ) : Bool :=
  match currentCycle with
  | some cycle => decide (nextCycleIndex = cycle.index + 1)
  | none => true

def processCycleVote (cfg : StabilityPoolConfigConsensus) (db : Db)
    (vote : StabilityPoolConsensusItemV0) (peerId : PeerId) : Res Db := do
  let nextCycleIndex := vote.nextCycleIndex
  ensure (isForNextCycle db.currentCycle nextCycleIndex = true) "Vote is not for next cycle"
  ensure ((cycleChangeVotes db nextCycleIndex).get? peerId = none)
    s!"Already received peer's vote for cycle {nextCycleIndex}"
  let db := recordVote db peerId vote
  let votes := (cycleChangeVotes db vote.nextCycleIndex).values
  if votes.length < cfg.consensusThreshold then return db
  else
    let newTime ← medianBy (·.time) votes
    let medianPrice ← medianBy (·.price) votes
    let newPrice ← effectivePrice db.currentCycle medianPrice
    turnover cfg.collateralRatio db ⟨vote.nextCycleIndex, newPrice, newTime⟩

/-- The greatest version voted for by at least the threshold of peers. -/
def consensusModuleConsensusVersion (cfg : StabilityPoolConfigConsensus) (db : Db) :
    Res ModuleConsensusVersion :=
  let versions := db.consensusVersionVote.values
  if versions.length < cfg.consensusThreshold then .ok INITIAL_MODULE_CONSENSUS_VERSION
  else
    match (versions.insertionSort (· ≤ ·))[versions.length - cfg.consensusThreshold]? with
    | none => .error (.panic .indexOutOfBounds)
    | some version => .ok version

def processVersionVote (cfg : StabilityPoolConfigConsensus) (db : Db)
    (version : ModuleConsensusVersion) (peerId : PeerId) : Res Db := do
  let currentVote := db.consensusVersionVote.getD peerId INITIAL_MODULE_CONSENSUS_VERSION
  ensure (currentVote < version) "Module consensus version vote is redundant"
  let db := { db with consensusVersionVote := db.consensusVersionVote.insert peerId version }
  let active ← consensusModuleConsensusVersion cfg db
  if active ≤ CONSENSUS_VERSION then return db
  else .error (.panic (.assertionFailed "Stability pool module does not support new consensus version, please upgrade the module"))

def processConsensusItem (cfg : StabilityPoolConfigConsensus) (db : Db)
    (consensusItem : StabilityPoolConsensusItem) (peerId : PeerId) : Res Db :=
  match consensusItem with
  | .v1 version => processVersionVote cfg db version peerId
  | .default variant => .error (.bail s!"Unsupported variant {variant}")
  | .v0 vote => processCycleVote cfg db vote peerId

end StabilityPool
