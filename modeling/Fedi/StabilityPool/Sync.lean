import Fedi.StabilityPool.Transactions

/-!
# Stability pool: the `sync` endpoint (`server/src/api.rs`)

What the server answers about one account.
-/

namespace StabilityPool

open BTreeMaps

structure SyncResponse where
  currentCycle : CycleInfo
  stagedBalance : ℕ
  lockedBalance : ℕ
  idleBalance : ℕ
  unlockRequest : Option UnlockRequest
  accountHistoryCount : ℕ
  lockedSeeksLifetimeFee : Option (BTreeMap TransactionId ℕ)

/-- The sum of a side's locks of an account. -/
def lockedBalance (s : Side) (cycle : Cycle) (account : AccountId) : ℕ :=
  match (cycle.locked s).get? account with
  | some locked => amountSum locked
  | none => 0

/-- The lifetime fees of an account's locked seeks, by transaction. -/
def lockedSeeksLifetimeFee (db : Db) (cycle : Cycle) (account : AccountId) : BTreeMap TransactionId ℕ :=
  (cycle.lockedSeeks.getD account []).foldl
    (fun feeMap seek => feeMap.insert seek.txid (db.seekLifetimeFee.getD seek.txid 0)) .empty

/-- The `sync` endpoint. -/
def sync (db : Db) (account : AccountId) : Res SyncResponse :=
  match db.currentCycle with
  | none => .error (.bail "disallowed before first cycle")
  | some currentCycle =>
    let response := fun s locked fees =>
      { currentCycle := currentCycle.info
        stagedBalance := amountSum ((db.staged s).getD account [])
        lockedBalance := locked
        idleBalance := db.idleBalance.getD account 0
        unlockRequest := db.unlockRequests.get? account
        accountHistoryCount := accountHistoryCount db account
        lockedSeeksLifetimeFee := fees }
    match account.accType with
    | .seeker => .ok (response .seek (lockedBalance .seek currentCycle account)
        (some (lockedSeeksLifetimeFee db currentCycle account)))
    | .provider => .ok (response .provide (lockedBalance .provide currentCycle account) none)
    | .btcDepositor => .ok (response .seek 0 none)

/-- `UnlockRequestStatus::NoActiveRequest` with the idle balance, none for `Pending`. -/
def unlockRequestStatus (db : Db) (account : AccountId) : Option ℕ :=
  match db.unlockRequests.get? account with
  | some _ => none
  | none => some (db.idleBalance.getD account 0)

end StabilityPool
