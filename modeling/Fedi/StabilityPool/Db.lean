import Fedi.StabilityPool.Types

/-!
# Stability pool: the server database (`server/src/db.rs`)

One field per key prefix the modelled functions touch.  Two prefixes have
composite keys: `CycleChangeVote` (cycle index, peer) and `AccountHistory`
(account, serial).  Both are read by their first component only, so they are maps
of maps.

`Side` is what the source's generic functions are generic in: the deposit
metadata `M` together with the staged table `K` and the lock map that hold
deposits of that kind.
-/

namespace StabilityPool

open BTreeMaps

abbrev DepositTable (M : Type) := BTreeMap AccountId (List (Deposit M))

structure Cycle where
  index : ℕ
  startTime : ℕ
  startPrice : ℕ
  feeRate : FeeRate
  lockedSeeks : DepositTable Unit
  lockedProvides : DepositTable FeeRate

/-- `CycleInfo::from`. -/
def Cycle.info (c : Cycle) : CycleInfo := ⟨c.index, c.startPrice, c.startTime⟩

structure Db where
  idleBalance : BTreeMap AccountId ℕ
  stagedSeeks : DepositTable Unit
  stagedProvides : DepositTable FeeRate
  unlockRequests : BTreeMap AccountId UnlockRequest
  currentCycle : Option Cycle
  pastCycle : BTreeMap ℕ Cycle
  depositSequence : Option ℕ
  seekLifetimeFee : BTreeMap TransactionId ℕ
  cycleChangeVote : BTreeMap ℕ (BTreeMap PeerId StabilityPoolConsensusItemV0)
  accountHistory : BTreeMap AccountId (BTreeMap ℕ AccountHistoryItem)
  transferRequests : BTreeMap ℕ Unit
  consensusVersionVote : BTreeMap PeerId ModuleConsensusVersion

/-- A fresh database. -/
def Db.initial : Db where
  idleBalance := .empty
  stagedSeeks := .empty
  stagedProvides := .empty
  unlockRequests := .empty
  currentCycle := none
  pastCycle := .empty
  depositSequence := none
  seekLifetimeFee := .empty
  cycleChangeVote := .empty
  accountHistory := .empty
  transferRequests := .empty
  consensusVersionVote := .empty

/-! ## The two kinds of deposits -/

/-- Seeks or provides. -/
inductive Side where
  | seek
  | provide
deriving DecidableEq

/-- Deposit metadata of a side. -/
abbrev Side.Meta : Side → Type
  | .seek => Unit
  | .provide => FeeRate

/-- The staged table of a side. -/
def Db.staged (db : Db) : (s : Side) → DepositTable s.Meta
  | .seek => db.stagedSeeks
  | .provide => db.stagedProvides

def Db.setStaged (db : Db) : (s : Side) → DepositTable s.Meta → Db
  | .seek, t => { db with stagedSeeks := t }
  | .provide, t => { db with stagedProvides := t }

/-- The lock map of a side. -/
def Cycle.locked (c : Cycle) : (s : Side) → DepositTable s.Meta
  | .seek => c.lockedSeeks
  | .provide => c.lockedProvides

def Cycle.setLocked (c : Cycle) : (s : Side) → DepositTable s.Meta → Cycle
  | .seek, t => { c with lockedSeeks := t }
  | .provide, t => { c with lockedProvides := t }

/-- Locks of the current cycle, none before the first cycle. -/
def Db.locked (db : Db) (s : Side) : DepositTable s.Meta :=
  match db.currentCycle with
  | none => .empty
  | some c => c.locked s

/-- Sum of a deposit list. -/
def amountSum {M : Type} (ds : List (Deposit M)) : ℕ := (ds.map (·.amount)).sum

/-! ## Table helpers -/

/-- `account_history_count`: one more than the greatest serial. -/
def accountHistoryCount (db : Db) (accountId : AccountId) : ℕ :=
  match (db.accountHistory.getD accountId .empty).entries.getLast? with
  | none => 0
  | some (idx, _) => idx + 1

/-- Insert one item under `(accountId, idx)`. -/
def insertAccountHistoryItem (db : Db) (accountId : AccountId) (idx : ℕ)
    (item : AccountHistoryItem) : Db :=
  { db with
    accountHistory := db.accountHistory.insert accountId
      ((db.accountHistory.getD accountId .empty).insert idx item) }

/-- The loop of `add_account_history_items` from serial `nextIdx` on. -/
def addAccountHistoryItemsFrom (db : Db) (accountId : AccountId) :
    ℕ → List AccountHistoryItem → Db
  | _, [] => db
  | nextIdx, item :: items =>
    addAccountHistoryItemsFrom (insertAccountHistoryItem db accountId nextIdx item) accountId
      (nextIdx + 1) items

def addAccountHistoryItems (db : Db) (accountId : AccountId) (items : List AccountHistoryItem) : Db :=
  addAccountHistoryItemsFrom db accountId (accountHistoryCount db accountId) items

/-- `get_account_history_items` over all serials. -/
def accountHistoryItems (db : Db) (accountId : AccountId) : List AccountHistoryItem :=
  (db.accountHistory.getD accountId .empty).values

def ensureUniqueTransferRequestAndLog (db : Db) (id : ℕ) : Res Db := do
  ensure (db.transferRequests.get? id = none) "Transfer request re-used!"
  return { db with transferRequests := db.transferRequests.insert id () }

/-- The next deposit sequence, and the database with the counter moved on. -/
def nextDepositSequence (db : Db) : ℕ × Db :=
  let sequence := db.depositSequence.getD 0
  (sequence, { db with depositSequence := some (sequence + 1) })

/-- Add to an idle balance (`get_value`, `unwrap_or(ZERO)`, `insert_entry`). -/
def creditIdleBalance (db : Db) (accountId : AccountId) (amount : ℕ) : Db :=
  { db with
    idleBalance := db.idleBalance.insert accountId (db.idleBalance.getD accountId 0 + amount) }

/-! ## Frame lemmas -/

section
variable (db : Db) (s : Side) (t : DepositTable s.Meta) (c : Cycle)

@[simp] theorem staged_setStaged : (db.setStaged s t).staged s = t := by cases s <;> rfl

theorem staged_setStaged_ne {s' : Side} (h : s' ≠ s) :
    (db.setStaged s t).staged s' = db.staged s' := by
  cases s <;> cases s' <;> first | rfl | exact absurd rfl h

@[simp] theorem locked_setLocked : (c.setLocked s t).locked s = t := by cases s <;> rfl

theorem locked_setLocked_ne {s' : Side} (h : s' ≠ s) :
    (c.setLocked s t).locked s' = c.locked s' := by
  cases s <;> cases s' <;> first | rfl | exact absurd rfl h

@[simp] theorem setStaged_idleBalance : (db.setStaged s t).idleBalance = db.idleBalance := by
  cases s <;> rfl

@[simp] theorem setStaged_unlockRequests :
    (db.setStaged s t).unlockRequests = db.unlockRequests := by cases s <;> rfl

@[simp] theorem setStaged_currentCycle : (db.setStaged s t).currentCycle = db.currentCycle := by
  cases s <;> rfl

@[simp] theorem setStaged_locked (s' : Side) : (db.setStaged s t).locked s' = db.locked s' := by
  cases s <;> rfl

@[simp] theorem setStaged_pastCycle : (db.setStaged s t).pastCycle = db.pastCycle := by
  cases s <;> rfl

@[simp] theorem setStaged_depositSequence :
    (db.setStaged s t).depositSequence = db.depositSequence := by cases s <;> rfl

@[simp] theorem setStaged_seekLifetimeFee :
    (db.setStaged s t).seekLifetimeFee = db.seekLifetimeFee := by cases s <;> rfl

@[simp] theorem setStaged_cycleChangeVote :
    (db.setStaged s t).cycleChangeVote = db.cycleChangeVote := by cases s <;> rfl

@[simp] theorem setStaged_accountHistory :
    (db.setStaged s t).accountHistory = db.accountHistory := by cases s <;> rfl

@[simp] theorem setStaged_transferRequests :
    (db.setStaged s t).transferRequests = db.transferRequests := by cases s <;> rfl

@[simp] theorem setStaged_consensusVersionVote :
    (db.setStaged s t).consensusVersionVote = db.consensusVersionVote := by cases s <;> rfl

@[simp] theorem setLocked_index : (c.setLocked s t).index = c.index := by cases s <;> rfl

@[simp] theorem setLocked_startTime : (c.setLocked s t).startTime = c.startTime := by cases s <;> rfl

@[simp] theorem setLocked_startPrice : (c.setLocked s t).startPrice = c.startPrice := by
  cases s <;> rfl

end

end StabilityPool
