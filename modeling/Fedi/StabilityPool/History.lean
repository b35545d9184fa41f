import Fedi.Lib.KeyedLog
import Fedi.StabilityPool.Deposits

/-!
# Account history as a log of postings

`add_account_history_items` appends to one account's numbered history; a call
that writes history for several accounts writes a list of postings
(`KeyedLogs.postAll`).  Amounts of postings are summed under the same weights of
account and sequence as deposits.

The kinds that bring amounts into the staged table and the kinds that take
amounts out of it are `stagedCredit` and `stagedDebit`.
-/

namespace StabilityPool

open BTreeMaps KeyedLogs Runs

abbrev Posting := AccountId × AccountHistoryItem

theorem accountHistoryCount_eq (db : Db) (a : AccountId) :
    accountHistoryCount db a = nextSerial (db.accountHistory.getD a .empty) := by
  unfold accountHistoryCount nextSerial
  cases (db.accountHistory.getD a .empty).entries.getLast? <;> rfl

theorem insertAccountHistoryItem_count (db : Db) (a : AccountId) (item : AccountHistoryItem) :
    insertAccountHistoryItem db a (accountHistoryCount db a) item =
      { db with accountHistory := post db.accountHistory (a, item) } := by
  rw [insertAccountHistoryItem, accountHistoryCount_eq]
  rfl

theorem addAccountHistoryItemsFrom_eq (a : AccountId) :
    ∀ (items : List AccountHistoryItem) (db : Db) (n : ℕ), n = accountHistoryCount db a →
      addAccountHistoryItemsFrom db a n items =
        { db with accountHistory := postAll db.accountHistory (items.map (a, ·)) }
  | [], _, _, _ => rfl
  | item :: items, db, n, h => by
    have hcount : n + 1 = accountHistoryCount (insertAccountHistoryItem db a n item) a := by
      rw [accountHistoryCount_eq, insertAccountHistoryItem, BTreeMap.getD_insert_self, h,
        accountHistoryCount_eq, nextSerial_insert]
    rw [addAccountHistoryItemsFrom, addAccountHistoryItemsFrom_eq a items _ _ hcount, h,
      insertAccountHistoryItem_count]
    rfl

theorem addAccountHistoryItems_eq (db : Db) (a : AccountId) (items : List AccountHistoryItem) :
    addAccountHistoryItems db a items =
      { db with accountHistory := postAll db.accountHistory (items.map (a, ·)) } :=
  addAccountHistoryItemsFrom_eq a items db _ rfl

/-- Every field but the history is as before. -/
@[simp] theorem addAccountHistoryItems_staged (db : Db) (a : AccountId) (items : List AccountHistoryItem)
    (s : Side) : (addAccountHistoryItems db a items).staged s = db.staged s := by
  rw [addAccountHistoryItems_eq]
  cases s <;> rfl

/-! ## Weights of postings -/

/-- Kinds that add to what is staged under their sequence. -/
def AccountHistoryItemKind.stagedCredit : AccountHistoryItemKind → Bool
  | .depositToStaged | .depositToBtcBalance _ | .stagedTransferIn _ _ | .lockedToStaged => true
  | _ => false

/-- Kinds that take from what is staged under their sequence. -/
def AccountHistoryItemKind.stagedDebit : AccountHistoryItemKind → Bool
  | .stagedToLocked | .stagedToIdle | .stagedTransferOut _ _ => true
  | _ => false

/-- Sum of the amounts of the postings of some kinds, each times the weight of
its account and sequence. -/
def postedWeight (p : AccountHistoryItemKind → Bool) (w : AccountId → ℕ → ℕ) (log : List Posting) : ℕ :=
  (log.map fun e => if p e.2.kind then w e.1 e.2.depositSequence * e.2.amount else 0).sum

section
variable (p : AccountHistoryItemKind → Bool) (w : AccountId → ℕ → ℕ)

@[simp] theorem postedWeight_nil : postedWeight p w [] = 0 := rfl

@[simp] theorem postedWeight_cons (e : Posting) (log : List Posting) :
    postedWeight p w (e :: log) =
      (if p e.2.kind then w e.1 e.2.depositSequence * e.2.amount else 0) + postedWeight p w log := by
  simp [postedWeight]

@[simp] theorem postedWeight_append (log log' : List Posting) :
    postedWeight p w (log ++ log') = postedWeight p w log + postedWeight p w log' := by
  simp [postedWeight]

/-- One posting per deposit, all of one kind that counts. -/
theorem postedWeight_deposits {M : Type} {a : AccountId} {item : Deposit M → AccountHistoryItem}
    (hp : ∀ d, p (item d).kind = true) (hq : ∀ d, (item d).depositSequence = d.sequence)
    (ha : ∀ d, (item d).amount = d.amount) (ds : List (Deposit M)) :
    postedWeight p w ((ds.map item).map (a, ·)) = weigh (w a) ds := by
  induction ds with
  | nil => rfl
  | cons d ds ih =>
    simp only [List.map_cons, postedWeight_cons, weigh_cons, ih, hp, hq, ha, if_true]

/-- Postings of a kind that does not count weigh nothing. -/
theorem postedWeight_eq_zero {log : List Posting} (h : ∀ e ∈ log, p e.2.kind = false) :
    postedWeight p w log = 0 := by
  induction log with
  | nil => rfl
  | cons e log ih =>
    rw [postedWeight_cons, h e List.mem_cons_self, ih fun e he => h e (List.mem_cons_of_mem _ he)]
    simp

end

/-- At one account and sequence, only the account's own items count. -/
theorem postedWeight_atDeposit (p : AccountHistoryItemKind → Bool) (a : AccountId) (q : ℕ) :
    ∀ log : List Posting, postedWeight p (atDeposit a q) log =
      (((itemsOf a log).filter fun i => p i.kind && decide (i.depositSequence = q)).map (·.amount)).sum
  | [] => rfl
  | e :: log => by
    have ih := postedWeight_atDeposit p a q log
    rw [postedWeight_cons, ih, itemsOf_cons]
    by_cases ha : e.1 = a <;> cases hp : p e.2.kind <;> by_cases hq : e.2.depositSequence = q <;>
      simp [atDeposit, atSequence, ha, hp, hq]

end StabilityPool
