import Fedi.Lib.Runs
import Fedi.StabilityPool.Types

/-!
# Fedi fees: data types (`fedi_fee/db.rs`, `rpc-types/src/lib.rs`)

Fees of two streams accrue when an operation succeeds.  Amounts are millisatoshis below
`2 ^ 64`; identifiers of operations and modules are `ℕ`, of which only equality and
order are used.  A missing row of an amount counts as zero, as it does for every reader.
-/

namespace FediFee

open BTreeMaps StabilityPool Runs

abbrev OperationId := ℕ
abbrev ModuleKind := ℕ

inductive FediFeeStream where
  | app
  | guardian
deriving DecidableEq

inductive RpcTransactionDirection where
  | receive
  | send
deriving DecidableEq

def RpcTransactionDirection.rank : RpcTransactionDirection → ℕ
  | .receive => 0
  | .send => 1

/-- What fees are broken down by: `(module, direction)`. -/
structure TxType where
  module : ModuleKind
  txDirection : RpcTransactionDirection
deriving DecidableEq

namespace TxType

def key (t : TxType) : ℕ ×ₗ ℕ := toLex (t.module, t.txDirection.rank)

theorem key_injective : Function.Injective key := by
  rintro ⟨a, b⟩ ⟨c, d⟩ h
  have h' : (a, b.rank) = (c, d.rank) := toLex.injective h
  simp only [Prod.mk.injEq] at h'
  have hd : b = d := by
    cases b <;> cases d <;> first | rfl | exact absurd h'.2 (by decide)
  rw [h'.1, hd]

instance : LinearOrder TxType := LinearOrder.lift' key key_injective

end TxType

inductive OperationFediFeeStatus where
  | pendingSend (fediFee : ℕ)
  | pendingReceive (fediFeePpm : ℕ)
  | success (fediFee : ℕ)
  | failedSend (fediFee : ℕ)
  | failedReceive (fediFeePpm : ℕ)
deriving DecidableEq

/-- The rows of one stream. -/
structure StreamLedger where
  operationStatus : BTreeMap OperationId OperationFediFeeStatus
  outstanding : ℕ
  outstandingPerTxType : BTreeMap TxType ℕ
  pending : ℕ
  pendingPerTxType : BTreeMap TxType ℕ
  totalAccrued : ℕ
  nextRemittanceDueAt : Option ℕ

def StreamLedger.empty : StreamLedger := ⟨.empty, 0, .empty, 0, .empty, 0, none⟩

structure FediFeeDb where
  app : StreamLedger
  guardian : StreamLedger
  currentGuardianFeeRemittanceOperation : Option OperationId

namespace FediFeeDb

def empty : FediFeeDb := ⟨.empty, .empty, none⟩

def stream (db : FediFeeDb) : FediFeeStream → StreamLedger
  | .app => db.app
  | .guardian => db.guardian

def setStream (db : FediFeeDb) (stream : FediFeeStream) (l : StreamLedger) : FediFeeDb :=
  match stream with
  | .app => { db with app := l }
  | .guardian => { db with guardian := l }

@[simp] theorem current_setStream (db : FediFeeDb) (stream : FediFeeStream) (l : StreamLedger) :
    (db.setStream stream l).currentGuardianFeeRemittanceOperation = db.currentGuardianFeeRemittanceOperation := by
  cases stream <;> rfl

end FediFeeDb

/-! ## Remittances -/

structure FediGuardianFeeRecipient where
  account : Account
  weight : ℕ

structure GuardianFeeRemittanceBreakdownItem where
  txType : TxType
  amount : ℕ
deriving DecidableEq

/-- `GuardianFeeRemittanceSnapshot`. -/
abbrev Snapshot := List GuardianFeeRemittanceBreakdownItem

structure GuardianFeeRecipientRemittance where
  account : Account
  amount : ℕ
  snapshot : Snapshot

structure GuardianFeeRemittancePlan where
  amount : ℕ
  snapshot : Snapshot
  recipients : List GuardianFeeRecipientRemittance

/-! ## Arithmetic -/

/-- An `anyhow` error, or the panic of an arithmetic operation. -/
inductive FeeError where
  | bail (msg : String)
  | overflow
deriving DecidableEq

abbrev Res := Except FeeError

def ensure (c : Prop) [Decidable c] (msg : String) : Res Unit := if c then .ok () else .error (.bail msg)

/-- The result of a `u64` operator: where it overflows, a build with overflow checks panics and one
without them wraps around. -/
def u64 (overflowChecks : Bool) (n : ℕ) : Res ℕ :=
  if n < 2 ^ 64 then .ok n else if overflowChecks then .error .overflow else .ok (n % 2 ^ 64)

/-- `checked_add`, `checked_mul`. -/
def checked (n : ℕ) (msg : String) : Res ℕ := if n < 2 ^ 64 then .ok n else .error (.bail msg)

def checkedAmountAdd (left right : ℕ) : Res ℕ := checked (left + right) "guardian fee amount overflow"

/-- `checked_amount_sum`, from a partial sum. -/
def checkedAmountSum : ℕ → List ℕ → Res ℕ
  | total, [] => .ok total
  | total, amount :: amounts => checkedAmountAdd total amount >>= fun total => checkedAmountSum total amounts

@[simp] theorem ensure_eq_ok {c : Prop} [Decidable c] {msg : String} {u : Unit} : ensure c msg = .ok u ↔ c := by
  unfold ensure
  split
  next h => simp [h]
  next h => simp [h]

theorem checked_eq_ok {n m : ℕ} {msg : String} : checked n msg = .ok m ↔ n < 2 ^ 64 ∧ m = n := by
  unfold checked
  split
  next h =>
    rw [Except.ok.injEq]
    exact ⟨fun hm => ⟨h, hm.symm⟩, fun hm => hm.2.symm⟩
  next h =>
    constructor
    · intro hm
      cases hm
    · exact fun hm => absurd hm.1 h

theorem checkedAmountSum_eq {amounts : List ℕ} {total sum : ℕ} (h : checkedAmountSum total amounts = .ok sum) :
    sum = total + amounts.sum := by
  induction amounts generalizing total with
  | nil =>
    cases h
    rfl
  | cons amount amounts ih =>
    obtain ⟨total', h1, h2⟩ := bind_eq_ok.mp h
    rw [ih h2, (checked_eq_ok.mp h1).2, List.sum_cons, Nat.add_assoc]

/-- A sum that fits, or that a build checks, is exact. -/
theorem u64_eq_ok {overflowChecks : Bool} {n m : ℕ} (hfits : overflowChecks = false → n < 2 ^ 64)
    (h : u64 overflowChecks n = .ok m) : m = n := by
  unfold u64 at h
  split at h
  · cases h
    rfl
  · cases overflowChecks with
    | true => cases h
    | false => exact absurd (hfits rfl) ‹_›

theorem u64_lt {overflowChecks : Bool} {n m : ℕ} (h : u64 overflowChecks n = .ok m) : m < 2 ^ 64 := by
  unfold u64 at h
  split at h
  next hlt =>
    cases h
    exact hlt
  · cases overflowChecks with
    | true => cases h
    | false =>
      cases h
      exact Nat.mod_lt _ (by decide)

theorem u64_le {overflowChecks : Bool} {n m : ℕ} (h : u64 overflowChecks n = .ok m) : m ≤ n := by
  unfold u64 at h
  split at h
  next =>
    cases h
    exact le_refl n
  · cases overflowChecks with
    | true => cases h
    | false =>
      cases h
      exact Nat.mod_le _ _

theorem u64_of_lt {overflowChecks : Bool} {n : ℕ} (h : n < 2 ^ 64) : u64 overflowChecks n = .ok n := if_pos h

end FediFee
