import Fedi.StabilityPoolOld.Db

/-!
# Old stability pool: inputs and outputs (`process_input` and `process_output`)

A withdrawal drains idle balance, then staged seeks from newest to oldest, then
staged provides from newest to oldest.  An output stages a seek or a provide, or
stages or removes a cancellation.

Both return the database they would commit; on an error Fedimint drops the whole
database transaction.
-/

namespace StabilityPoolOld

open BTreeMaps StabilityPool

/-! ## Inputs -/

def StabilityPoolInput.parts : StabilityPoolInput → Except StabilityPoolInputError (PublicKey × ℕ)
  | .v0 account amount => .ok (account, amount)
  | .default variant => .error (.unknownInputVariant s!"Unsupported variant {variant}")

/-- The `filter_map` over reversed staged deposits: what stays (still reversed),
and what is left to satisfy. -/
def withdrawLoop {M : Type} : List (Deposit M) → ℕ → List (Deposit M) × ℕ
  | [], amountToSatisfy => ([], amountToSatisfy)
  | d :: ds, amountToSatisfy =>
    if amountToSatisfy = 0 then
      let r := withdrawLoop ds 0
      (d :: r.1, r.2)
    else
      let minExtractable := min d.amount amountToSatisfy
      let r := withdrawLoop ds (amountToSatisfy - minExtractable)
      if minExtractable = d.amount then r
      else ({ d with amount := d.amount - minExtractable } :: r.1, r.2)

/-- Withdraw from an account's staged list: the table, written only if needed, and
what is left to satisfy. -/
def withdrawStaged {M : Type} (staged : DepositTable M) (account : PublicKey)
    (amountToSatisfy : ℕ) : DepositTable M × ℕ :=
  let userStaged := staged.getD account []
  if amountToSatisfy ≠ 0 ∧ userStaged ≠ [] then
    let r := withdrawLoop userStaged.reverse amountToSatisfy
    (staged.insert account r.1.reverse, r.2)
  else (staged, amountToSatisfy)

/-- Withdraw from an account's idle balance. -/
def withdrawIdle (idle : BTreeMap PublicKey ℕ) (account : PublicKey) (amount : ℕ) :
    BTreeMap PublicKey ℕ × ℕ :=
  let userIdleBalance := idle.getD account 0
  if userIdleBalance ≠ 0 then
    let minExtractable := min userIdleBalance amount
    (idle.insert account (userIdleBalance - minExtractable), amount - minExtractable)
  else (idle, amount)

/-- The database and the amount paid into the transaction; the account is the key
that must sign it. -/
def processInput (db : Db) (input : StabilityPoolInput) : Except StabilityPoolInputError (Db × ℕ) := do
  let (account, amount) ← input.parts
  if amount = 0 then Except.error .invalidWithdrawalAmount
  else
    let totalUserBalance := db.idleBalance.getD account 0 +
      amountSum (db.stagedSeeks.getD account []) + amountSum (db.stagedProvides.getD account [])
    if totalUserBalance < amount then Except.error .insufficientBalance
    else
      let idle := withdrawIdle db.idleBalance account amount
      let seeks := withdrawStaged db.stagedSeeks account idle.2
      let provides := withdrawStaged db.stagedProvides account seeks.2
      if provides.2 ≠ 0 then Except.error .insufficientBalance
      else
        return ({ db with
          idleBalance := idle.1, stagedSeeks := seeks.1, stagedProvides := provides.1 }, amount)

/-! ## Outputs -/

def StabilityPoolOutput.parts :
    StabilityPoolOutput → Except StabilityPoolOutputError (PublicKey × IntendedAction)
  | .v0 account intendedAction => .ok (account, intendedAction)
  | .default variant => .error (.unknownOutputVariant s!"Unsupported variant {variant}")

/-- The checks before any database read; no action is charged a fee. -/
def checkAction (cfg : StabilityPoolConfigConsensus) :
    IntendedAction → Except StabilityPoolOutputError Unit
  | .seek amount => if amount < cfg.minAllowedSeek then .error .amountTooLow else .ok ()
  | .provide amount minFeeRate =>
    if amount < cfg.minAllowedProvide then .error .amountTooLow
    else if cfg.maxAllowedProvideFeeRatePpb < minFeeRate then .error .feeRateTooHigh
    else .ok ()
  | .cancelRenewal cancel =>
    if cancel.bps < cfg.minAllowedCancellationBps ∨ 10000 < cancel.bps then
      .error .invalidBPSForCancelAutoRenewal
    else .ok ()
  | .undoCancelRenewal => .ok ()

/-- The match on the action: the database and the amount deposited. -/
def stageAction (db : Db) (txid : TransactionId) (account : PublicKey) :
    IntendedAction → Except StabilityPoolOutputError (Db × ℕ)
  | .seek amount =>
    -- must NOT have staged provides, locked provides, or staged cancellation
    if db.stagedProvides.getD account [] = [] ∧ db.lockedProvides.getD account [] = [] ∧
        db.stagedCancellation.get? account = none then
      let sequence := db.stagedSeekSequence.getD 0
      .ok ({ db with
        stagedSeekSequence := some (sequence + 1)
        stagedSeeks := db.stagedSeeks.insert account
          (db.stagedSeeks.getD account [] ++ [⟨txid, sequence, amount, ()⟩]) }, amount)
    else .error .cannotSeek
  | .provide amount minFeeRate =>
    -- must NOT have staged seeks, locked seeks, or staged cancellation
    if db.stagedSeeks.getD account [] = [] ∧ db.lockedSeeks.getD account [] = [] ∧
        db.stagedCancellation.get? account = none then
      let sequence := db.stagedProvideSequence.getD 0
      .ok ({ db with
        stagedProvideSequence := some (sequence + 1)
        stagedProvides := db.stagedProvides.insert account
          (db.stagedProvides.getD account [] ++ [⟨txid, sequence, amount, minFeeRate⟩]) }, amount)
    else .error .cannotProvide
  | .cancelRenewal cancel =>
    -- nothing staged, and locked seeks or locked provides but not both
    if db.stagedSeeks.getD account [] = [] ∧ db.stagedProvides.getD account [] = [] ∧
        db.stagedCancellation.get? account = none ∧
        (!(db.lockedSeeks.getD account []).isEmpty ^^ !(db.lockedProvides.getD account []).isEmpty) then
      .ok ({ db with stagedCancellation := db.stagedCancellation.insert account (txid, cancel) }, 0)
    else .error .cannotCancelAutoRenewal
  | .undoCancelRenewal =>
    if db.stagedCancellation.get? account ≠ none then
      .ok ({ db with stagedCancellation := db.stagedCancellation.erase account }, 0)
    else .error .cannotUndoAutoRenewalCancellation

def processOutput (cfg : StabilityPoolConfigConsensus) (db : Db) (txid : TransactionId)
    (output : StabilityPoolOutput) : Except StabilityPoolOutputError (Db × ℕ) := do
  let (account, intendedAction) ← output.parts
  checkAction cfg intendedAction
  stageAction db txid account intendedAction

end StabilityPoolOld
