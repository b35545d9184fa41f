import Fedi.StabilityPool.Server
import Fedi.StabilityPool.Sync

/-!
# The sweeper of staged deposits

The service follows the sync responses of the seeker account.  Two cycles after the last
deposit it withdraws what the response says is staged, as a fiat amount at the response's price,
and stores the operation id once the withdrawal is submitted; while an id is stored it waits
for that withdrawal first.

`Event` is one step of the federation, of the sync service, of the sweeper's task, of the
withdrawal's state machine, or a stop of the process.
-/

namespace Spv2Sweeper

open BTreeMaps StabilityPool

abbrev OperationId := ℕ

/-! ## Withdrawals -/

/-- A submitted transaction, with what consensus made of it. -/
structure Transaction where
  txid : TransactionId
  accepted : Option Bool

/-- The withdrawal's state machine, followed by the outcome of its second transaction. -/
inductive WithdrawalState
  | created
  | accepted
  | rejected
  | processed (withdrawal : Transaction) (amount : ℕ)
  | withdrawn (amount : ℕ)
  | withdrawalRejected
  | outputError
  | success (amount : ℕ)

/-- `subscribe_withdraw` returns on these. -/
def WithdrawalState.resolved : WithdrawalState → Bool
  | .rejected | .withdrawalRejected | .outputError | .success _ => true
  | _ => false

/-- One withdrawal with `SPv2WithdrawMetadata::Sweeper`. -/
structure Sweep where
  operationId : OperationId
  fiatAmount : ℕ
  unlock : Transaction
  state : WithdrawalState

/-- The transactions of a sweep. -/
def Sweep.txids (sweep : Sweep) : List TransactionId :=
  sweep.unlock.txid ::
    match sweep.state with
    | .processed withdrawal _ => [withdrawal.txid]
    | _ => []

/-! ## State -/

/-- Where the sweeper's task stands. -/
inductive Phase
  | waiting
  | withdrawing (fiatAmount : ℕ)
  | recording (operationId : OperationId)
  | subscribing (operationId : OperationId)
  | clearing
deriving DecidableEq

/-- The server's ledger and the transactions it was given; the client's tables; the sync response in flight and
the one in the watch channel, which is also in the database; the sweeps submitted so far; the task. -/
structure System where
  ledger : Ledger
  transactions : List TransactionId
  lastDepositCycle : Option ℕ
  lastSweeperWithdrawal : Option OperationId
  fetched : Option SyncResponse
  cached : Option SyncResponse
  unseen : Bool
  sweeps : List Sweep
  phase : Phase

def System.initial : System where
  ledger := .initial
  transactions := []
  lastDepositCycle := none
  lastSweeperWithdrawal := none
  fetched := none
  cached := none
  unseen := false
  sweeps := []
  phase := .waiting

def eventTxid : StabilityPool.Event → Option TransactionId
  | .consensusItem _ _ => none
  | .input txid _ => some txid
  | .output txid _ => some txid

/-- The transaction is none of the sweeper's. -/
def System.foreign (s : System) (txid : TransactionId) : Bool :=
  s.sweeps.all fun sweep => decide (txid ∉ sweep.txids)

/-- A transaction id, a hash, that was not drawn before. -/
def System.unused (s : System) (txid : TransactionId) : Bool :=
  decide (txid ∉ s.transactions) && s.foreign txid

section

variable (C : Crypto) (cfg : StabilityPoolConfigConsensus) (seeker : PublicKey)

/-- `our_account(AccountType::Seeker)`. -/
def ourAccount : Account := .single seeker .seeker

/-! ## The federation -/

/-- Consensus takes one step; what fails is dropped. -/
def System.serve (s : System) (e : StabilityPool.Event) : System × Bool :=
  match applyEvent C cfg s.ledger e with
  | .ok ledger => ({ s with ledger := ledger, transactions := (eventTxid e).toList ++ s.transactions }, true)
  | .error _ => (s, false)

/-- The input of the sweep's unlock transaction. -/
def unlockInput (sweep : Sweep) : StabilityPoolInput :=
  .v0 (.unlockForWithdrawal ⟨ourAccount seeker, .fiat sweep.fiatAmount⟩)

def withdrawalInput (amount : ℕ) : StabilityPoolInput := .v0 (.withdrawal ⟨ourAccount seeker, amount⟩)

def System.setSweep (s : System) (i : ℕ) (sweep : Sweep) : System := { s with sweeps := s.sweeps.set i sweep }

/-- Consensus takes the transaction that a sweep waits for, or it was refused on submission. -/
def System.settle (s : System) (i : ℕ) (refused : Bool) : System :=
  match s.sweeps[i]? with
  | none => s
  | some sweep =>
    match sweep.unlock.accepted, sweep.state with
    | none, _ =>
      let r := if refused then (s, false) else s.serve C cfg (.input sweep.unlock.txid (unlockInput seeker sweep))
      r.1.setSweep i { sweep with unlock := { sweep.unlock with accepted := some r.2 } }
    | some _, .processed withdrawal amount =>
      match withdrawal.accepted with
      | none =>
        let r := if refused then (s, false)
          else s.serve C cfg (.input withdrawal.txid (withdrawalInput seeker amount))
        r.1.setSweep i { sweep with state := .processed { withdrawal with accepted := some r.2 } amount }
      | some _ => s
    | some _, _ => s

/-! ## The withdrawal's state machine -/

/-- The next state of a withdrawal; `txid` is the transaction that claims the idle balance, `issued` whether the
notes of the claim are issued. -/
def System.nextState (s : System) (sweep : Sweep) (txid : TransactionId) (issued : Bool) : WithdrawalState :=
  match sweep.state with
  | .created =>
    match sweep.unlock.accepted with
    | none => .created
    | some true => .accepted
    | some false => .rejected
  | .accepted =>
    match unlockRequestStatus s.ledger.db ((ourAccount seeker).id C) with
    | none => .accepted
    | some idleBalance => if s.unused txid then .processed ⟨txid, none⟩ idleBalance else .accepted
  | .processed withdrawal amount =>
    match withdrawal.accepted with
    | none => .processed withdrawal amount
    | some true => .withdrawn amount
    | some false => .withdrawalRejected
  | .withdrawn amount => if issued then .success amount else .outputError
  | state => state

def System.advance (s : System) (i : ℕ) (txid : TransactionId) (issued : Bool) : System :=
  match s.sweeps[i]? with
  | none => s
  | some sweep => s.setSweep i { sweep with state := s.nextState C seeker sweep txid issued }

/-! ## The sync service -/

/-- `account_sync`, one request at a time. -/
def System.fetch (s : System) : System :=
  match s.fetched, sync s.ledger.db ((ourAccount seeker).id C) with
  | none, .ok response => { s with fetched := some response }
  | _, _ => s

/-- The response is stored and sent to the watchers. -/
def System.publish (s : System) : System :=
  match s.fetched with
  | none => s
  | some response => { s with fetched := none, cached := some response, unseen := true }

/-- A deposit notes the cycle of the cached response. -/
def System.noteDeposit (s : System) : System :=
  match s.cached with
  | none => s
  | some response => { s with lastDepositCycle := some response.currentCycle.idx }

/-! ## The sweeper -/

/-- `sweep_spv2_inner` up to its first await on a withdrawal. -/
def sweepSpv2Inner (s : System) (syncResponse : SyncResponse) : Phase :=
  match s.lastDepositCycle with
  | none => .waiting
  | some lastDepositCycleIndex =>
    if syncResponse.currentCycle.idx - lastDepositCycleIndex ≤ 2 ∨ syncResponse.stagedBalance = 0 then .waiting
    else
      match s.lastSweeperWithdrawal with
      | some operationId => .subscribing operationId
      | none =>
        match FiatAmount.fromBtcAmountRoundtripSafe syncResponse.stagedBalance
            syncResponse.currentCycle.startPrice with
        | .ok fiatAmount => .withdrawing fiatAmount
        | .error _ => .waiting

/-- `withdraw` refuses an amount of zero, and submits the rest under ids that were not drawn before. -/
def System.withdraw (s : System) (fiatAmount : ℕ) (operationId : OperationId) (txid : TransactionId) : System :=
  if fiatAmount = 0 then { s with phase := .waiting }
  else if s.unused txid ∧ ∀ sweep ∈ s.sweeps, sweep.operationId ≠ operationId then
    { s with
      sweeps := s.sweeps ++ [⟨operationId, fiatAmount, ⟨txid, none⟩, .created⟩]
      phase := .recording operationId }
  else s

/-- `subscribe_withdraw` returns once the operation is resolved, at once if there is none. -/
def System.subscribed (s : System) (operationId : OperationId) : Bool :=
  s.sweeps.all fun sweep => decide (sweep.operationId = operationId → sweep.state.resolved = true)

/-- The next step of the task; `withdraw` draws an operation id and a transaction id, or fails. -/
def System.sweep (s : System) (operationId : OperationId) (txid : TransactionId) (fails : Bool) : System :=
  match s.phase with
  | .waiting =>
    match s.cached, s.unseen with
    | some response, true => { s with unseen := false, phase := sweepSpv2Inner s response }
    | _, _ => s
  | .withdrawing fiatAmount =>
    if fails then { s with phase := .waiting } else s.withdraw fiatAmount operationId txid
  | .recording operationId =>
    { s with lastSweeperWithdrawal := some operationId, phase := .subscribing operationId }
  | .subscribing operationId => if s.subscribed operationId then { s with phase := .clearing } else s
  | .clearing => { s with lastSweeperWithdrawal := none, phase := .waiting }

/-- The process stops and starts again: the tables stay, and the cached response is the first update. -/
def System.crash (s : System) : System :=
  { s with fetched := none, unseen := s.cached.isSome, phase := .waiting }

/-! ## Steps -/

inductive Event
  | federation (e : StabilityPool.Event)
  | settle (i : ℕ) (refused : Bool)
  | advance (i : ℕ) (txid : TransactionId) (issued : Bool)
  | fetch
  | publish
  | noteDeposit
  | sweep (operationId : OperationId) (txid : TransactionId) (fails : Bool)
  | crash

def step (s : System) : Event → System
  | .federation e => if (eventTxid e).all s.foreign then (s.serve C cfg e).1 else s
  | .settle i refused => s.settle C cfg seeker i refused
  | .advance i txid issued => s.advance C seeker i txid issued
  | .fetch => s.fetch C seeker
  | .publish => s.publish
  | .noteDeposit => s.noteDeposit
  | .sweep operationId txid fails => s.sweep operationId txid fails
  | .crash => s.crash

/-- The system after a run. -/
def sweeper (es : List Event) : System := es.foldl (step C cfg seeker) System.initial

end

end Spv2Sweeper
