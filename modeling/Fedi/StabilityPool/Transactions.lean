import Fedi.StabilityPool.Turnover

/-!
# Stability pool: inputs and outputs (`server/src/lib.rs`, `process_input` and `process_output`)

A fallible function returns the database it would commit; on an error Fedimint
drops the whole database transaction, so the error carries no database.
-/

namespace StabilityPool

open BTreeMaps

/-- Amount an input pays into the transaction, and the key that must sign it. -/
structure InputMeta where
  amount : ℕ
  pubKey : PublicKey

/-! ## Inputs -/

/-- The single key of an input's account. -/
def singleKey (account : Account) : Res PublicKey :=
  match account.asSingle with
  | some key => .ok key
  | none => .error (.input .multiSigNotAllowed)

def temporaryError (_ : String) : Fault := .input .temporaryError

/-- `FiatOrAll::Fiat`: drain what is staged and register a request for the rest. -/
def unlockFiat (s : Side) (db : Db) (txid : TransactionId) (accountId : AccountId)
    (fiatAmount : ℕ) (lockedDepositsSum : ℕ) (btcPrice : ℕ) :
    Res (Db × List (Deposit s.Meta)) := do
  let stagedDeposits := (db.staged s).getD accountId []
  let amount ← mapErr temporaryError (FiatAmount.toBtcAmount fiatAmount btcPrice)
  if amountSum stagedDeposits + lockedDepositsSum < amount then
    Except.error (.input .insufficientBalance)
  else
    let r := if stagedDeposits.isEmpty then (stagedDeposits, [])
      else drainInReverse stagedDeposits amount
    let amountNeeded ← subP amount (amountSum r.2)
    let db := if stagedDeposits.isEmpty then db
      else db.setStaged s ((db.staged s).insert accountId r.1)
    if amountNeeded ≠ 0 then
      let leftoverFiat ← mapErr temporaryError (FiatAmount.fromBtcAmount amountNeeded btcPrice)
      return ({ db with
        unlockRequests := db.unlockRequests.insert accountId
          { txid := txid, unlockAmount := .fiat leftoverFiat, totalFiatRequested := fiatAmount } }, r.2)
    else return (db, r.2)

/-- `FiatOrAll::All`: clear what is staged and register a request for the locks. -/
def unlockAll (s : Side) (db : Db) (txid : TransactionId) (accountId : AccountId)
    (lockedDepositsSum : ℕ) (btcPrice : ℕ) : Res (Db × List (Deposit s.Meta)) := do
  let stagedDeposits := (db.staged s).getD accountId []
  if stagedDeposits.isEmpty ∧ lockedDepositsSum = 0 then
    Except.error (.input .insufficientBalance)
  else
    let totalDepositsSum := amountSum stagedDeposits + lockedDepositsSum
    let db := if stagedDeposits.isEmpty then db
      else db.setStaged s ((db.staged s).erase accountId)
    if lockedDepositsSum ≠ 0 then
      let totalFiatRequested ←
        mapErr temporaryError (FiatAmount.fromBtcAmount totalDepositsSum btcPrice)
      return ({ db with
        unlockRequests := db.unlockRequests.insert accountId
          { txid := txid, unlockAmount := .all, totalFiatRequested := totalFiatRequested } },
        stagedDeposits)
    else return (db, stagedDeposits)

/-- The match on the amount of an unlock. -/
def unlockStaged (s : Side) (db : Db) (txid : TransactionId) (accountId : AccountId)
    (lockedDepositsSum : ℕ) (btcPrice : ℕ) : FiatOrAll → Res (Db × List (Deposit s.Meta))
  | .fiat fiatAmount => unlockFiat s db txid accountId fiatAmount lockedDepositsSum btcPrice
  | .all => unlockAll s db txid accountId lockedDepositsSum btcPrice

def processUnlockInputInner (C : Crypto) (s : Side) (db : Db) (txid : TransactionId)
    (input : UnlockForWithdrawalInput) (lockedDeposits : List (Deposit s.Meta))
    (currentCycle : Cycle) : Res (Db × InputMeta) := do
  let accountId := input.account.id C
  let btcPrice := currentCycle.startPrice
  if (db.unlockRequests.get? accountId).isSome then
    Except.error (.input .duplicateUnlockRequest)
  else
    let r ← unlockStaged s db txid accountId (amountSum lockedDeposits) btcPrice input.amount
    let idleBalanceCredit := amountSum r.2
    let db := if idleBalanceCredit ≠ 0 then creditIdleBalance r.1 accountId idleBalanceCredit else r.1
    let db := addAccountHistoryItems db accountId (r.2.map fun d =>
      { cycle := currentCycle.info, kind := .stagedToIdle, txid := txid,
        depositSequence := d.sequence, amount := d.amount })
    let pubKey ← singleKey input.account
    return (db, ⟨0, pubKey⟩)

/-- The side an account type's deposits are kept on. -/
def AccountType.side : AccountType → Side
  | .seeker | .btcDepositor => .seek
  | .provider => .provide

def processUnlockInput (C : Crypto) (db : Db) (txid : TransactionId)
    (input : UnlockForWithdrawalInput) : Res (Db × InputMeta) :=
  match db.currentCycle with
  | none => .error (.input .temporaryError)
  | some currentCycle =>
    let s := input.account.accType.side
    processUnlockInputInner C s db txid input
      ((currentCycle.locked s).getD (input.account.id C) []) currentCycle

def processWithdrawalInput (C : Crypto) (db : Db) (input : WithdrawalInput) :
    Res (Db × InputMeta) := do
  let accountId := input.account.id C
  if input.amount = 0 then Except.error (.input .invalidWithdrawalAmount)
  else
    let idleBalance := db.idleBalance.getD accountId 0
    if idleBalance < input.amount then Except.error (.input .insufficientBalance)
    else
      let pubKey ← singleKey input.account
      return ({ db with
        idleBalance := db.idleBalance.insert accountId (idleBalance - input.amount) },
        ⟨input.amount, pubKey⟩)

def processInput (C : Crypto) (db : Db) (txid : TransactionId) (input : StabilityPoolInput) :
    Res (Db × InputMeta) :=
  match input with
  | .default variant => .error (.input (.unknownInputVariant variant))
  | .v0 v0 =>
    if v0.account.asSingle = none then .error (.input .multiSigNotAllowed)
    else
      match v0 with
      | .unlockForWithdrawal unlock => processUnlockInput C db txid unlock
      | .withdrawal withdrawal => processWithdrawalInput C db withdrawal

/-! ## Deposits -/

/-- Append a deposit to an account's staged list, with its history item. -/
def stageDeposit (s : Side) (db : Db) (cycle : Cycle) (txid : TransactionId) (accountId : AccountId)
    (amount : ℕ) (metadata : s.Meta) (historyKind : AccountHistoryItemKind) : Db :=
  let userStaged := (db.staged s).getD accountId []
  let sequence := (nextDepositSequence db).1
  let db := (nextDepositSequence db).2
  let db := db.setStaged s ((db.staged s).insert accountId
    (userStaged ++ [{ sequence := sequence, amount := amount, metadata := metadata, txid := txid }]))
  addAccountHistoryItems db accountId
    [{ cycle := cycle.info, kind := historyKind, txid := txid, depositSequence := sequence,
       amount := amount }]

def addStagedSeekDeposit (cfg : StabilityPoolConfigConsensus) (db : Db) (txid : TransactionId)
    (accountId : AccountId) (amount : ℕ) (historyKind : AccountHistoryItemKind) : Res Db :=
  if amount < cfg.minAllowedSeek then .error (.output .amountTooLow)
  else
    match db.currentCycle with
    | none => .error (.output .noCycle)
    | some currentCycle =>
      .ok (stageDeposit .seek db currentCycle txid accountId amount () historyKind)

/-- Amount an output takes out of the transaction. -/
abbrev OutputResult := Db × ℕ

def processDepositToSeekOutput (cfg : StabilityPoolConfigConsensus) (db : Db) (txid : TransactionId)
    (output : DepositToSeekOutput) : Res OutputResult := do
  let db ← addStagedSeekDeposit cfg db txid output.accountId output.seekRequest .depositToStaged
  return (db, output.seekRequest)

def processDepositToBtcBalanceOutput (cfg : StabilityPoolConfigConsensus) (db : Db)
    (txid : TransactionId) (output : DepositToBtcBalanceOutput) : Res OutputResult := do
  let db ← addStagedSeekDeposit cfg db txid output.accountId output.seekRequest
    (.depositToBtcBalance output.metadata)
  return (db, output.seekRequest)

def processDepositToProvideOutput (cfg : StabilityPoolConfigConsensus) (db : Db)
    (txid : TransactionId) (output : DepositToProvideOutput) : Res OutputResult :=
  if output.provideRequest.amount < cfg.minAllowedProvide then .error (.output .amountTooLow)
  else if cfg.maxAllowedProvideFeeRatePpb < output.provideRequest.minFeeRate.ppb then
    .error (.output .feeRateTooHigh)
  else
    match db.currentCycle with
    | none => .error (.output .noCycle)
    | some currentCycle =>
      .ok (stageDeposit .provide db currentCycle txid output.accountId output.provideRequest.amount
        output.provideRequest.minFeeRate .depositToStaged, output.provideRequest.amount)

/-! ## Transfers -/

def invalidTransferRequest (msg : String) : Fault := .output (.invalidTransferRequest msg)

/-- The staged part of a transfer: drained from the sender, one new deposit for
the recipient, and their history items. -/
def transferStaged (C : Crypto) (s : Side) (db : Db) (txid : TransactionId) (r : TransferRequest)
    (cycleInfo : CycleInfo) (nextSequence : ℕ) (metadata : s.Meta)
    (fromStaged drained : List (Deposit s.Meta)) :
    Db × List AccountHistoryItem × List AccountHistoryItem :=
  let db := db.setStaged s ((db.staged s).insert (r.sender.id C) fromStaged)
  let toStaged := (db.staged s).getD r.recipient []
  let amount := amountSum drained
  let db := db.setStaged s ((db.staged s).insert r.recipient
    (toStaged ++ [{ sequence := nextSequence, amount := amount, metadata := metadata, txid := txid }]))
  (db,
    drained.map fun d =>
      { cycle := cycleInfo, kind := .stagedTransferOut r.recipient r.metadata, txid := txid,
        depositSequence := d.sequence, amount := d.amount },
    [{ cycle := cycleInfo, kind := .stagedTransferIn (r.sender.id C) r.metadata, txid := txid,
       depositSequence := nextSequence, amount := amount }])

/-- The locked part of a transfer. -/
def transferLocked {M : Type} (C : Crypto) (lockedDepositsMap : DepositTable M)
    (txid : TransactionId) (r : TransferRequest) (cycleInfo : CycleInfo) (nextSequence : ℕ)
    (metadata : M) (leftToTransfer : ℕ) :
    DepositTable M × List AccountHistoryItem × List AccountHistoryItem :=
  let drain := drainInReverse (lockedDepositsMap.getD (r.sender.id C) []) leftToTransfer
  let locked := match lockedDepositsMap.get? (r.sender.id C) with
    | some _ => lockedDepositsMap.insert (r.sender.id C) drain.1
    | none => lockedDepositsMap
  let amount := amountSum drain.2
  let locked := locked.insert r.recipient (locked.getD r.recipient [] ++
    [{ sequence := nextSequence, amount := amount, metadata := metadata, txid := txid }])
  (locked,
    drain.2.map fun d =>
      { cycle := cycleInfo, kind := .lockedTransferOut r.recipient r.metadata, txid := txid,
        depositSequence := d.sequence, amount := d.amount },
    [{ cycle := cycleInfo, kind := .lockedTransferIn (r.sender.id C) r.metadata, txid := txid,
       depositSequence := nextSequence, amount := amount }])

/-- The transfer of `totalToTransfer` msats, staged deposits first. -/
def moveTransfer (C : Crypto) (s : Side) (db : Db) (txid : TransactionId) (r : TransferRequest)
    (cycleInfo : CycleInfo) (lockedDepositsMap : DepositTable s.Meta) (newDepositMeta : s.Meta)
    (totalToTransfer : ℕ) : Res (Db × DepositTable s.Meta) := do
  let senderId := r.sender.id C
  let fromStagedDeposits := (db.staged s).getD senderId []
  let nextSequence := (nextDepositSequence db).1
  let db := (nextDepositSequence db).2
  let drain := drainInReverse fromStagedDeposits totalToTransfer
  let leftToTransfer ← subP totalToTransfer (amountSum drain.2)
  let staged := if drain.2.isEmpty then (db, [], [])
    else transferStaged C s db txid r cycleInfo nextSequence newDepositMeta drain.1 drain.2
  let locked := if leftToTransfer = 0 then (lockedDepositsMap, [], [])
    else transferLocked C lockedDepositsMap txid r cycleInfo nextSequence newDepositMeta leftToTransfer
  let db := addAccountHistoryItems staged.1 senderId (staged.2.1 ++ locked.2.1)
  let db := addAccountHistoryItems db r.recipient (staged.2.2 ++ locked.2.2)
  return (db, locked.1)

def processTransferOutputInner (C : Crypto) (s : Side) (db : Db) (txid : TransactionId)
    (signedRequest : SignedTransferRequest) (cycleInfo : CycleInfo)
    (lockedDepositsMap : DepositTable s.Meta) (newDepositMeta : s.Meta) :
    Res (Db × DepositTable s.Meta) := do
  let r := signedRequest.transferRequest
  let senderId := r.sender.id C
  mapErr invalidTransferRequest (signedRequest.validateSignatures C)
  let db ← mapErr invalidTransferRequest (ensureUniqueTransferRequestAndLog db (r.id C))
  let fromStagedDeposits := (db.staged s).getD senderId []
  let fromLockedDepositsSum := amountSum (lockedDepositsMap.getD senderId [])
  let totalToTransfer ←
    mapErr invalidTransferRequest (FiatAmount.toBtcAmount r.transferAmount cycleInfo.startPrice)
  if amountSum fromStagedDeposits + fromLockedDepositsSum < totalToTransfer then
    Except.error (invalidTransferRequest "Insufficient from account balance")
  else moveTransfer C s db txid r cycleInfo lockedDepositsMap newDepositMeta totalToTransfer

/-- Run the transfer on one side and write the updated current cycle. -/
def transferOnSide (C : Crypto) (s : Side) (db : Db) (txid : TransactionId)
    (signedRequest : SignedTransferRequest) (currentCycle : Cycle) (newDepositMeta : s.Meta) :
    Res OutputResult := do
  let r ← processTransferOutputInner C s db txid signedRequest currentCycle.info
    (currentCycle.locked s) newDepositMeta
  return ({ r.1 with currentCycle := some (currentCycle.setLocked s r.2) }, 0)

def processTransferOutput (C : Crypto) (cfg : StabilityPoolConfigConsensus) (db : Db)
    (txid : TransactionId) (output : TransferOutput) : Res OutputResult :=
  let r := output.signedRequest.transferRequest
  if r.sender.accType ≠ r.recipient.accType then
    .error (invalidTransferRequest "Cannot cross-transfer between seeker and provider")
  else
    match db.currentCycle with
    | none => .error (invalidTransferRequest "Try again later")
    | some currentCycle =>
      if r.validUntilCycle < currentCycle.index then
        .error (invalidTransferRequest "Transfer request has expired")
      else
        match r.sender.accType with
        | .seeker | .btcDepositor =>
          transferOnSide C .seek db txid output.signedRequest currentCycle ()
        | .provider =>
          match r.newFeeRate with
          | some feeRate =>
            if cfg.maxAllowedProvideFeeRatePpb < feeRate.ppb then .error (.output .feeRateTooHigh)
            else transferOnSide C .provide db txid output.signedRequest currentCycle feeRate
          | none =>
            .error (invalidTransferRequest "Missing fee rate for provider-to-provider transfer")

/-! ## Outputs -/

/-- The account whose pending unlock request blocks an output. -/
def outputAccountId (C : Crypto) : StabilityPoolOutput → Res AccountId
  | .v0 (.depositToSeek s) | .v1 (.depositToSeek s) => .ok s.accountId
  | .v0 (.depositToProvide p) | .v1 (.depositToProvide p) => .ok p.accountId
  | .v0 (.transfer t) | .v1 (.transfer t) => .ok (t.signedRequest.transferRequest.sender.id C)
  | .v1 (.depositToBtcBalance s) => .ok s.accountId
  | .default variant =>
    .error (.output (.unknownOutputVariant s!"Unknown StabilityPoolOutput variant {variant}"))

/-- `DepositToBtcBalance` needs the upgraded module consensus version. -/
def processBtcBalanceOutput (cfg : StabilityPoolConfigConsensus) (db : Db) (txid : TransactionId)
    (output : DepositToBtcBalanceOutput) : Res OutputResult := do
  let version ← consensusModuleConsensusVersion cfg db
  if version < BTC_BALANCE_DEPOSIT_CONSENSUS_VERSION then
    Except.error (.output (.unknownOutputVariant
      "DepositToBtcBalance requires module consensus version 2.1"))
  else processDepositToBtcBalanceOutput cfg db txid output

/-- The match of `process_output`, for the account `accountId`. -/
def dispatchOutput (C : Crypto) (cfg : StabilityPoolConfigConsensus) (db : Db) (txid : TransactionId)
    (accountId : AccountId) : StabilityPoolOutput → Res OutputResult
  | .v0 (.depositToSeek o) | .v1 (.depositToSeek o) =>
    if accountId.accType = .seeker then processDepositToSeekOutput cfg db txid o
    else .error (.output .invalidAccountTypeForOperation)
  | .v1 (.depositToBtcBalance o) =>
    if accountId.accType = .btcDepositor then processBtcBalanceOutput cfg db txid o
    else .error (.output .invalidAccountTypeForOperation)
  | .v0 (.depositToProvide o) | .v1 (.depositToProvide o) =>
    if accountId.accType = .provider then processDepositToProvideOutput cfg db txid o
    else .error (.output .invalidAccountTypeForOperation)
  | .v0 (.transfer o) | .v1 (.transfer o) => processTransferOutput C cfg db txid o
  | .default variant =>
    .error (.output (.unknownOutputVariant s!"Unknown StabilityPoolOutput variant {variant}"))

def processOutput (C : Crypto) (cfg : StabilityPoolConfigConsensus) (db : Db) (txid : TransactionId)
    (output : StabilityPoolOutput) : Res OutputResult := do
  let accountId ← outputAccountId C output
  if (db.unlockRequests.get? accountId).isSome then
    Except.error (.output .previousIntentionNotFullyProcessed)
  else dispatchOutput C cfg db txid accountId output

end StabilityPool
