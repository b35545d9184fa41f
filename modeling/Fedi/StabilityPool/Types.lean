import Mathlib
import Fedi.Lib.BTreeMap

/-!
# Stability pool: data types (`common/src/lib.rs`, `common/src/config.rs`)

Amounts (msats), fiat amounts, prices, sequences and cycle indices are `u64` in
the source and `ℕ` here: sums of msats never leave `u64` because there are less
than `2^64` msats.  Where the source converts back with `try_into`, the model
checks the bound (`tryIntoU64`, `unwrapU64`); where it divides or subtracts
unsigned, the model panics as the source does (`divP`, `subP`).

A `SystemTime` is the number of nanoseconds since the epoch: times before the
epoch do not decode.

`Crypto` is the code the module calls outside the repository: consensus hashes
and Schnorr verification.
-/

namespace StabilityPool

open BTreeMaps

abbrev TransactionId := ℕ
abbrev PeerId := ℕ
abbrev PublicKey := ℕ
abbrev XOnlyPublicKey := ℕ
abbrev Signature := ℕ

/-! ## Results -/

/-- Ways a call ends a guardian's thread. -/
inductive Panic where
  | divisionByZero
  | underflow
  | unwrapOnErr
  | expectFailed (msg : String)
  | assertionFailed (msg : String)
  | indexOutOfBounds
deriving DecidableEq

inductive StabilityPoolInputError where
  | invalidWithdrawalAmount
  | insufficientBalance
  | multiSigNotAllowed
  | temporaryError
  | duplicateUnlockRequest
  | unknownInputVariant (variant : ℕ)
deriving DecidableEq

inductive StabilityPoolOutputError where
  | previousIntentionNotFullyProcessed
  | invalidAccountTypeForOperation
  | amountTooLow
  | feeRateTooHigh
  | invalidTransferRequest (msg : String)
  | unknownOutputVariant (msg : String)
  | noCycle
deriving DecidableEq

/-- A panic, an `anyhow` error, or a typed error of an input or output. -/
inductive Fault where
  | panic (p : Panic)
  | bail (msg : String)
  | input (e : StabilityPoolInputError)
  | output (e : StabilityPoolOutputError)
deriving DecidableEq

abbrev Res := Except Fault

/-- `map_err`: replaces an `anyhow` error, not a panic. -/
def mapErr {α : Type} (f : String → Fault) : Res α → Res α
  | .error (.bail msg) => .error (f msg)
  | r => r

/-- `ensure!`. -/
def ensure (c : Prop) [Decidable c] (msg : String) : Res Unit :=
  if c then .ok () else .error (.bail msg)

/-- Unsigned division. -/
def divP (a b : ℕ) : Res ℕ := if b = 0 then .error (.panic .divisionByZero) else .ok (a / b)

/-- Unsigned subtraction. -/
def subP (a b : ℕ) : Res ℕ := if a < b then .error (.panic .underflow) else .ok (a - b)

/-- `a % b` on `usize`. -/
def modP (a b : ℕ) : Res ℕ := if b = 0 then .error (.panic .divisionByZero) else .ok (a % b)

/-- `try_into::<u64>()?`. -/
def tryIntoU64 (a : ℕ) : Res ℕ :=
  if a < 2 ^ 64 then .ok a else .error (.bail "out of range integral type conversion attempted")

/-- `try_into::<u64>().unwrap()`. -/
def unwrapU64 (a : ℕ) : Res ℕ := if a < 2 ^ 64 then .ok a else .error (.panic .unwrapOnErr)

/-! ## Fiat amounts -/

def MSATS_PER_BTC : ℕ := 100000000000

namespace FiatAmount

def fromBtcAmount (btcAmount : ℕ) (pricePerBtc : ℕ) : Res ℕ :=
  tryIntoU64 (pricePerBtc * btcAmount / MSATS_PER_BTC)

def toBtcAmount (fiatAmount pricePerBtc : ℕ) : Res ℕ := do
  let msats ← divP (fiatAmount * MSATS_PER_BTC) pricePerBtc
  tryIntoU64 msats

/-- Prefers `+1` fiat unit when the increment still converts back to the exact
same amount (`saturating_add` on `u64`). -/
def fromBtcAmountRoundtripSafe (btcAmount : ℕ) (pricePerBtc : ℕ) :
    Res ℕ := do
  let fiatAmount ← fromBtcAmount btcAmount pricePerBtc
  let incrementedFiatAmount := min (fiatAmount + 1) (2 ^ 64 - 1)
  let back ← toBtcAmount incrementedFiatAmount pricePerBtc
  if back = btcAmount then .ok incrementedFiatAmount else .ok fiatAmount

end FiatAmount

/-! ## Accounts -/

inductive AccountType where
  | seeker
  | provider
  | btcDepositor
deriving DecidableEq

/-- Position in the derived order of the enum. -/
def AccountType.rank : AccountType → ℕ
  | .seeker => 0
  | .provider => 1
  | .btcDepositor => 2

theorem AccountType.rank_injective : Function.Injective AccountType.rank := by
  intro a b h
  cases a <;> cases b <;> first | rfl | cases h

structure AccountId where
  accType : AccountType
  hash : ℕ

/-- The derived order: by type, then by hash. -/
def AccountId.key (a : AccountId) : ℕ ×ₗ ℕ := toLex (a.accType.rank, a.hash)

theorem AccountId.key_injective : Function.Injective AccountId.key := by
  intro a b h
  obtain ⟨ta, ha⟩ := a
  obtain ⟨tb, hb⟩ := b
  have h' : (ta.rank, ha) = (tb.rank, hb) := toLex.injective h
  simp only [Prod.mk.injEq] at h'
  rw [AccountType.rank_injective h'.1, h'.2]

instance : LinearOrder AccountId := LinearOrder.lift' AccountId.key AccountId.key_injective

/-- A multi-sig of keys and a threshold.  The key set of the source is ordered;
decoding refuses a threshold of zero or above the number of keys. -/
structure Account where
  accType : AccountType
  pubKeys : List PublicKey
  threshold : ℕ
  sorted : pubKeys.Pairwise (· < ·)
  threshold_pos : 0 < threshold
  threshold_le : threshold ≤ pubKeys.length
deriving DecidableEq

namespace Account

def single (key : PublicKey) (accType : AccountType) : Account where
  accType := accType
  pubKeys := [key]
  threshold := 1
  sorted := List.pairwise_singleton _ _
  threshold_pos := Nat.one_pos
  threshold_le := Nat.le_refl _

def asSingle (a : Account) : Option PublicKey :=
  if a.pubKeys.length = 1 ∧ a.threshold = 1 then a.pubKeys.head? else none

end Account

/-! ## Deposits, inputs and outputs -/

/-- Fee rate in PPB. -/
structure FeeRate where
  ppb : ℕ
deriving DecidableEq

/-- A position; `metadata` (the source's `meta`) differentiates the kinds. -/
structure Deposit (M : Type) where
  txid : TransactionId
  sequence : ℕ
  amount : ℕ
  metadata : M
deriving DecidableEq

abbrev Seek := Deposit Unit
abbrev Provide := Deposit FeeRate

inductive FiatOrAll where
  | fiat (amount : ℕ)
  | all
deriving DecidableEq

structure UnlockForWithdrawalInput where
  account : Account
  amount : FiatOrAll

structure WithdrawalInput where
  account : Account
  amount : ℕ

inductive StabilityPoolInputV0 where
  | unlockForWithdrawal (input : UnlockForWithdrawalInput)
  | withdrawal (input : WithdrawalInput)

def StabilityPoolInputV0.account : StabilityPoolInputV0 → Account
  | .unlockForWithdrawal input => input.account
  | .withdrawal input => input.account

inductive StabilityPoolInput where
  | v0 (input : StabilityPoolInputV0)
  | default (variant : ℕ)

/-- `sender` and `recipient` are the source's `from` and `to`. -/
structure TransferRequest where
  nonce : ℕ
  sender : Account
  transferAmount : ℕ
  recipient : AccountId
  metadata : List UInt8
  validUntilCycle : ℕ
  newFeeRate : Option FeeRate

/-- Signatures are keyed by the index of the key in the `from` account. -/
structure SignedTransferRequest where
  signatures : BTreeMap ℕ Signature
  transferRequest : TransferRequest

structure DepositToSeekOutput where
  accountId : AccountId
  seekRequest : ℕ

structure ProvideRequest where
  amount : ℕ
  minFeeRate : FeeRate

structure DepositToProvideOutput where
  accountId : AccountId
  provideRequest : ProvideRequest

structure DepositToBtcBalanceOutput where
  accountId : AccountId
  seekRequest : ℕ
  metadata : List UInt8

structure TransferOutput where
  signedRequest : SignedTransferRequest

inductive StabilityPoolOutputV0 where
  | depositToSeek (o : DepositToSeekOutput)
  | depositToProvide (o : DepositToProvideOutput)
  | transfer (o : TransferOutput)

inductive StabilityPoolOutputV1 where
  | depositToSeek (o : DepositToSeekOutput)
  | depositToProvide (o : DepositToProvideOutput)
  | transfer (o : TransferOutput)
  | depositToBtcBalance (o : DepositToBtcBalanceOutput)

inductive StabilityPoolOutput where
  | v0 (o : StabilityPoolOutputV0)
  | v1 (o : StabilityPoolOutputV1)
  | default (variant : ℕ)

/-! ## Code outside the repository -/

/-- Consensus hashes, the x-only part of a key, and Schnorr verification of a
message under an x-only key. -/
structure Crypto where
  accountHash : Account → ℕ
  requestHash : TransferRequest → ℕ
  xOnlyPublicKey : PublicKey → XOnlyPublicKey
  verify : ℕ → Signature → XOnlyPublicKey → Bool

def Account.id (C : Crypto) (a : Account) : AccountId := ⟨a.accType, C.accountHash a⟩

/-- `TransferRequestId::from`, also the signed message. -/
def TransferRequest.id (C : Crypto) (r : TransferRequest) : ℕ := C.requestHash r

/-- One signature: the indexed key exists and verifies it. -/
def SignedTransferRequest.checkSignature (C : Crypto) (r : TransferRequest) (e : ℕ × Signature) :
    Res Unit :=
  match r.sender.pubKeys[e.1]? with
  | none => .error (.bail "Invalid pubkey index")
  | some pubkey =>
    ensure (C.verify (r.id C) e.2 (C.xOnlyPublicKey pubkey) = true) "signature failed verification"

def SignedTransferRequest.validateSignatures (C : Crypto) (s : SignedTransferRequest) : Res Unit := do
  ensure (s.transferRequest.sender.threshold ≤ s.signatures.entries.length) "Signature threshold not met"
  s.signatures.entries.forM (checkSignature C s.transferRequest)

/-! ## Consensus items -/

structure ModuleConsensusVersion where
  major : ℕ
  minor : ℕ

/-- Versions compare by major, then by minor. -/
def ModuleConsensusVersion.key (v : ModuleConsensusVersion) : ℕ ×ₗ ℕ := toLex (v.major, v.minor)

theorem ModuleConsensusVersion.key_injective : Function.Injective ModuleConsensusVersion.key := by
  rintro ⟨a, b⟩ ⟨c, d⟩ h
  have h' : (a, b) = (c, d) := toLex.injective h
  simp only [Prod.mk.injEq] at h'
  rw [h'.1, h'.2]

instance : LinearOrder ModuleConsensusVersion :=
  LinearOrder.lift' ModuleConsensusVersion.key ModuleConsensusVersion.key_injective

def CONSENSUS_VERSION : ModuleConsensusVersion := ⟨2, 1⟩
def INITIAL_MODULE_CONSENSUS_VERSION : ModuleConsensusVersion := ⟨2, 0⟩
def BTC_BALANCE_DEPOSIT_CONSENSUS_VERSION : ModuleConsensusVersion := ⟨2, 1⟩

structure StabilityPoolConsensusItemV0 where
  nextCycleIndex : ℕ
  time : ℕ
  price : ℕ
deriving DecidableEq

inductive StabilityPoolConsensusItem where
  | v0 (vote : StabilityPoolConsensusItemV0)
  | v1 (version : ModuleConsensusVersion)
  | default (variant : ℕ)

/-! ## Unlock requests, cycles and account history -/

structure UnlockRequest where
  txid : TransactionId
  totalFiatRequested : ℕ
  unlockAmount : FiatOrAll
deriving DecidableEq

structure CycleInfo where
  idx : ℕ
  startPrice : ℕ
  startTime : ℕ
deriving DecidableEq

inductive AccountHistoryItemKind where
  | depositToStaged
  | stagedToLocked
  | lockedToStaged
  | stagedToIdle
  | lockedToIdle
  | stagedTransferIn (sender : AccountId) (metadata : List UInt8)
  | lockedTransferIn (sender : AccountId) (metadata : List UInt8)
  | stagedTransferOut (recipient : AccountId) (metadata : List UInt8)
  | lockedTransferOut (recipient : AccountId) (metadata : List UInt8)
  | depositToBtcBalance (metadata : List UInt8)
deriving DecidableEq

structure AccountHistoryItem where
  cycle : CycleInfo
  txid : TransactionId
  depositSequence : ℕ
  amount : ℕ
  kind : AccountHistoryItemKind
deriving DecidableEq

/-! ## Configuration -/

structure CollateralRatio where
  provider : ℕ
  seeker : ℕ

structure StabilityPoolConfigConsensus where
  consensusThreshold : ℕ
  collateralRatio : CollateralRatio
  minAllowedSeek : ℕ
  minAllowedProvide : ℕ
  maxAllowedProvideFeeRatePpb : ℕ

end StabilityPool
