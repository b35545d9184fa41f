import Fedi.Lib.InsertionMap
import Fedi.TransactionHistory.OperationLog

/-!
# The list of transactions (`redux/transactions.ts`)

The list is kept by id, newest first.  Loading more asks for what is older than the last entry, by
its time in seconds; without one, or with time zero, the first page is asked for again.
-/

namespace TransactionHistory

open InsertionMaps FiFunding

/-! ## The list -/

/-- Recurring receives are shown once they are claimed. -/
def TransactionKind.isShown : TransactionKind → Bool
  | .lnRecurringdReceive state => decide (state = some "claimed")
  | _ => true

def shownEntry : ListEntry → Option TransactionListEntry
  | .ok e => if e.kind.isShown then some e else none
  | .error _ => none

/-- The list with new transactions, the newest first. -/
def updateTransactions (newTransactions oldTransactions : List TransactionListEntry) : List TransactionListEntry :=
  let transactionMap := newTransactions.foldl (set TransactionListEntry.id) []
  let transactionMap := oldTransactions.foldl (setIfAbsent TransactionListEntry.id) transactionMap
  transactionMap.insertionSort fun a b => b.createdAt ≤ a.createdAt

/-- `createdAt || undefined` of the last entry. -/
def paginationTimestamp (cachedTransactions : List TransactionListEntry) : Option ℕ :=
  match cachedTransactions.getLast? with
  | none => none
  | some e => if e.createdAt = 0 then none else some e.createdAt

/-! ## Loading -/

/-- The bridge's rows of deposits, and the list. -/
structure System where
  deposits : Deposits
  transactions : List TransactionListEntry

section

variable (log : OperationLog) (reservations : List Reservation) (limit : ℕ)

/-- `listTransactions` of the bridge; the start time is a `u32`, the operation id is random. -/
def rpcListTransactions (deposits : Deposits) (startTime : Option ℕ) (newRandom : ℕ) :
    Option (Deposits × List ListEntry) :=
  if ∃ t ∈ startTime, 2 ^ 32 ≤ t then none
  else some (listTransactions log reservations limit deposits (startTime.map fun t => ⟨t * 10 ^ 9, newRandom⟩))

def fetchTransactions (more refresh : Bool) (s : System) (newRandom : ℕ) : System :=
  let startTime := if more then paginationTimestamp s.transactions else none
  match rpcListTransactions log reservations limit s.deposits startTime newRandom with
  | none => s
  | some r => ⟨r.1, updateTransactions (r.2.filterMap shownEntry) (if refresh then [] else s.transactions)⟩

/-- The first page, and then more, again and again. -/
def loads (deposits : Deposits) (random : ℕ → ℕ) : ℕ → System
  | 0 => fetchTransactions log reservations limit false true ⟨deposits, []⟩ (random 0)
  | n + 1 => fetchTransactions log reservations limit true false (loads deposits random n) (random (n + 1))

end

/-! ### What an update leaves -/

variable {newTransactions oldTransactions : List TransactionListEntry} {e : TransactionListEntry}

theorem mem_updateTransactions_iff : e ∈ updateTransactions newTransactions oldTransactions ↔
    e ∈ oldTransactions.foldl (setIfAbsent TransactionListEntry.id)
      (newTransactions.foldl (set TransactionListEntry.id) []) := by
  unfold updateTransactions
  exact List.mem_insertionSort _

theorem updateTransactions_nodup : ((updateTransactions newTransactions oldTransactions).map TransactionListEntry.id).Nodup := by
  unfold updateTransactions
  rw [((List.perm_insertionSort _ _).map TransactionListEntry.id).nodup_iff]
  exact nodup_foldl_setIfAbsent (nodup_foldl_set List.nodup_nil)

theorem updateTransactions_ids {id : TransactionId} :
    id ∈ (updateTransactions newTransactions oldTransactions).map TransactionListEntry.id ↔
      id ∈ newTransactions.map TransactionListEntry.id ∨ id ∈ oldTransactions.map TransactionListEntry.id := by
  unfold updateTransactions
  rw [((List.perm_insertionSort _ _).map TransactionListEntry.id).mem_iff, keys_foldl_setIfAbsent, keys_foldl_set]
  simp

instance : Std.Total fun a b : TransactionListEntry => b.createdAt ≤ a.createdAt := ⟨fun _ _ => Nat.le_total _ _⟩

instance : IsTrans TransactionListEntry fun a b => b.createdAt ≤ a.createdAt := ⟨fun _ _ _ hab hbc => hbc.trans hab⟩

theorem updateTransactions_sorted :
    (updateTransactions newTransactions oldTransactions).Pairwise fun a b => b.createdAt ≤ a.createdAt :=
  List.pairwise_insertionSort _ _

theorem of_mem_updateTransactions (h : e ∈ updateTransactions newTransactions oldTransactions) :
    e ∈ newTransactions ∨ e ∈ oldTransactions ∧ e.id ∉ newTransactions.map TransactionListEntry.id := by
  rcases of_mem_foldl_setIfAbsent (mem_updateTransactions_iff.mp h) with hnew | ⟨hold, hid⟩
  · exact .inl ((of_mem_foldl_set hnew).resolve_right (by simp))
  · refine .inr ⟨hold, fun hmem => hid ?_⟩
    rw [keys_foldl_set]
    exact .inr hmem

theorem mem_updateTransactions_of_new (h : e ∈ newTransactions)
    (honly : ∀ x ∈ newTransactions, x.id = e.id → x = e) : e ∈ updateTransactions newTransactions oldTransactions :=
  mem_updateTransactions_iff.mpr (mem_foldl_setIfAbsent_of_mem (mem_foldl_set h honly))

theorem mem_updateTransactions_of_old (hnodup : (oldTransactions.map TransactionListEntry.id).Nodup)
    (h : e ∈ oldTransactions) (hid : e.id ∉ newTransactions.map TransactionListEntry.id) :
    e ∈ updateTransactions newTransactions oldTransactions := by
  refine mem_updateTransactions_iff.mpr (mem_foldl_setIfAbsent hnodup h fun hmem => ?_)
  rw [keys_foldl_set] at hmem
  exact hmem.elim (by simp) hid

end TransactionHistory
