import Fedi.StabilityPool.Turnover

/-!
# Old stability pool: types and server database (`stability-pool-old`)

The module of `common/src/lib.rs` and `server/src/db.rs` of the first version.
Accounts are public keys, and one account's deposits may be seeks or provides.

Staged seeks and provides and their locks are deposits with a sequence, an amount
and, for provides, the minimum fee rate as `metadata`; the `staged_*` fields of a
lock are those of the deposit it was cut from.  Lists of such deposits, the
unsigned arithmetic and its panics are those of the second version, whose code
for them is the same.
-/

namespace StabilityPoolOld

open BTreeMaps StabilityPool

abbrev StagedSeek := Deposit Unit
abbrev StagedProvide := Deposit ℕ
abbrev LockedSeek := Deposit Unit
abbrev LockedProvide := Deposit ℕ

/-- Basis points of the settled locks that are not renewed. -/
structure CancelRenewal where
  bps : ℕ
deriving DecidableEq

inductive IntendedAction where
  | seek (amount : ℕ)
  | provide (amount minFeeRate : ℕ)
  | cancelRenewal (cancel : CancelRenewal)
  | undoCancelRenewal
deriving DecidableEq

inductive StabilityPoolInput where
  | v0 (account : PublicKey) (amount : ℕ)
  | default (variant : ℕ)
deriving DecidableEq

inductive StabilityPoolOutput where
  | v0 (account : PublicKey) (intendedAction : IntendedAction)
  | default (variant : ℕ)
deriving DecidableEq

inductive StabilityPoolConsensusItem where
  | v0 (vote : StabilityPoolConsensusItemV0)
  | default (variant : ℕ)
deriving DecidableEq

inductive StabilityPoolInputError where
  | invalidWithdrawalAmount
  | insufficientBalance
  | unknownInputVariant (msg : String)
deriving DecidableEq

inductive StabilityPoolOutputError where
  | cannotSeek
  | cannotProvide
  | amountTooLow
  | feeRateTooHigh
  | cannotCancelAutoRenewal
  | invalidBPSForCancelAutoRenewal
  | cannotUndoAutoRenewalCancellation
  | unknownOutputVariant (msg : String)
deriving DecidableEq

structure StabilityPoolConfigConsensus where
  consensusThreshold : ℕ
  collateralRatio : CollateralRatio
  minAllowedSeek : ℕ
  minAllowedProvide : ℕ
  maxAllowedProvideFeeRatePpb : ℕ
  minAllowedCancellationBps : ℕ

/-- BPS unit for cancellation-related calculations. -/
def BPS_UNIT : ℕ := 10000

/-- Price in cents per btc; the cast to `u64` drops the high bits. -/
def amountToCents (amount price : ℕ) : ℕ := price * amount / 100000000000 % 2 ^ 64

structure SeekMetadata where
  stagedSequence : ℕ
  initialAmount : ℕ
  initialAmountCents : ℕ
  withdrawnAmount : ℕ
  withdrawnAmountCents : ℕ
  feesPaidSoFar : ℕ
  firstLockStartTime : ℕ
  fullyWithdrawn : Bool
deriving DecidableEq

abbrev DepositTable (M : Type) := BTreeMap PublicKey (List (Deposit M))

structure Cycle where
  index : ℕ
  startTime : ℕ
  startPrice : ℕ
  feeRate : ℕ
  lockedSeeks : DepositTable Unit
  lockedProvides : DepositTable ℕ

/-- One field per key prefix.  `CycleChangeVote` is read by its first component
only, so it is a map of maps. -/
structure Db where
  idleBalance : BTreeMap PublicKey ℕ
  stagedSeeks : DepositTable Unit
  stagedProvides : DepositTable ℕ
  stagedCancellation : BTreeMap PublicKey (TransactionId × CancelRenewal)
  currentCycle : Option Cycle
  pastCycle : BTreeMap ℕ Cycle
  stagedSeekSequence : Option ℕ
  stagedProvideSequence : Option ℕ
  cycleChangeVote : BTreeMap ℕ (BTreeMap PeerId StabilityPoolConsensusItemV0)
  seekMetadata : BTreeMap (PublicKey ×ₗ TransactionId) SeekMetadata

def Db.initial : Db where
  idleBalance := .empty
  stagedSeeks := .empty
  stagedProvides := .empty
  stagedCancellation := .empty
  currentCycle := none
  pastCycle := .empty
  stagedSeekSequence := none
  stagedProvideSequence := none
  cycleChangeVote := .empty
  seekMetadata := .empty

/-- Locks of the current cycle, none before the first cycle. -/
def Db.lockedSeeks (db : Db) : DepositTable Unit :=
  match db.currentCycle with
  | none => .empty
  | some cycle => cycle.lockedSeeks

def Db.lockedProvides (db : Db) : DepositTable ℕ :=
  match db.currentCycle with
  | none => .empty
  | some cycle => cycle.lockedProvides

/-- Add to an idle balance (`get_value`, `unwrap_or(ZERO)`, `insert_entry`). -/
def creditIdleBalance (db : Db) (account : PublicKey) (msats : ℕ) : Db :=
  { db with idleBalance := db.idleBalance.insert account (db.idleBalance.getD account 0 + msats) }

/-- What `audit` reports as liabilities: idle, staged and locked msats. -/
def Db.liabilities (db : Db) : ℕ :=
  db.idleBalance.sumBy (fun _ x => x) + amountSum db.stagedSeeks.flat + amountSum db.stagedProvides.flat +
    amountSum db.lockedSeeks.flat + amountSum db.lockedProvides.flat

end StabilityPoolOld
