import Fedi.FediFee.Accrual

/-!
# The status ledger of fees (`federation_v2/mod.rs`)

Subscribers write the fees of operations in any order, and any number of times.  If every pending
write is for an operation without a status, then in every state of every run, for each stream

    pending = Σ pending rows = Σ fees in status pendingSend
    total accrued = Σ fees in status success            (app)

no subtraction saturates, and an operation leaves its pending status once (`statuses_of_run`).  Nothing
checks the premise: a second pending write counts the fee of the operation twice
(`pendingWrittenTwice_disagrees`).
-/

namespace FediFee

open BTreeMaps Runs

/-! ## Runs -/

/-- What a caller writes for an operation.  Before guardian fees existed it wrote the app fee only. -/
structure FeesByStream where
  app : ℕ
  guardian : Option ℕ

def FeesByStream.toList (fees : FeesByStream) : List (FediFeeStream × ℕ) :=
  (.app, fees.app) :: fees.guardian.toList.map fun fee => (.guardian, fee)

structure StatusState where
  fees : FediFeeDb
  operationLog : BTreeMap OperationId ModuleKind

def StatusState.start : StatusState := ⟨.empty, .empty⟩

inductive FeeWrite where
  | logOperation (operationId : OperationId) (module : ModuleKind)
  | pendingSend (operationId : OperationId) (fees : FeesByStream)
  | successSend (operationId : OperationId)
  | failedSend (operationId : OperationId)
  | pendingReceive (operationId : OperationId) (feePpms : FeesByStream)
  | successReceive (operationId : OperationId) (amount : ℕ)
  | failedReceive (operationId : OperationId)

/-- A write and whether its transaction commits. -/
structure WriteEvent where
  write : FeeWrite
  commits : Bool

/-- `operation_module_kind` of the operation's log entry. -/
def operationModuleKind (operationLog : BTreeMap OperationId ModuleKind) (operationId : OperationId) :
    Res ModuleKind :=
  match operationLog.get? operationId with
  | some module => .ok module
  | none => .error (.bail "operation not found!")

/-- The log keeps the entry of an operation that it has. -/
def logOperation (operationLog : BTreeMap OperationId ModuleKind) (operationId : OperationId)
    (module : ModuleKind) : BTreeMap OperationId ModuleKind :=
  match operationLog.get? operationId with
  | some _ => operationLog
  | none => operationLog.insert operationId module

def writeFees (overflowChecks : Bool) (s : StatusState) : FeeWrite → Res StatusState
  | .logOperation operationId module =>
    .ok { s with operationLog := logOperation s.operationLog operationId module }
  | .pendingSend operationId fees => do
    let module ← operationModuleKind s.operationLog operationId
    let fees ← writePendingSendFediFees overflowChecks operationId module s.fees fees.toList
    .ok { s with fees := fees }
  | .successSend operationId => do
    let module ← operationModuleKind s.operationLog operationId
    let r ← writeSuccessSendFediFees overflowChecks s.fees operationId module
    .ok { s with fees := r.1 }
  | .failedSend operationId => do
    let module ← operationModuleKind s.operationLog operationId
    let r ← writeFailedSendFediFees s.fees operationId module
    .ok { s with fees := r.1 }
  | .pendingReceive operationId feePpms =>
    .ok { s with fees := writePendingReceiveFediFeePpms operationId s.fees feePpms.toList }
  | .successReceive operationId amount => do
    let module ← operationModuleKind s.operationLog operationId
    let r ← writeSuccessReceiveFediFees overflowChecks s.fees operationId module amount
    .ok { s with fees := r.1 }
  | .failedReceive operationId => do
    let r ← writeFailedReceiveFediFees s.fees operationId
    .ok { s with fees := r.1 }

/-- A transaction that fails, or is not committed, leaves no trace. -/
def writeStep (overflowChecks : Bool) (s : StatusState) (e : WriteEvent) : StatusState :=
  match writeFees overflowChecks s e.write with
  | .ok s' => if e.commits then s' else s
  | .error _ => s

def feeWrites (overflowChecks : Bool) (es : List WriteEvent) : StatusState :=
  es.foldl (writeStep overflowChecks) .start

/-! ## What agrees -/

/-- The fee that an operation keeps pending. -/
def OperationFediFeeStatus.pendingFee : OperationFediFeeStatus → ℕ
  | .pendingSend fediFee => fediFee
  | _ => 0

/-- A status without its fee. -/
inductive Phase where
  | pendingSend
  | pendingReceive
  | success
  | failedSend
  | failedReceive
deriving DecidableEq

def Phase.isPending : Phase → Bool
  | .pendingSend => true
  | .pendingReceive => true
  | _ => false

def OperationFediFeeStatus.phase : OperationFediFeeStatus → Phase
  | .pendingSend _ => .pendingSend
  | .pendingReceive _ => .pendingReceive
  | .success _ => .success
  | .failedSend _ => .failedSend
  | .failedReceive _ => .failedReceive

def StreamLedger.pendingFees (l : StreamLedger) : ℕ := l.operationStatus.sumBy fun _ status => status.pendingFee

/-- Total of the pending rows by module and direction. -/
def StreamLedger.pendingBreakdown (l : StreamLedger) : ℕ := l.pendingPerTxType.sumBy fun _ amount => amount

/-- The pending row of the sends of a module. -/
def StreamLedger.pendingRow (l : StreamLedger) (module : ModuleKind) : ℕ :=
  l.pendingPerTxType.getD ⟨module, .send⟩ 0

structure StreamAgrees (operationLog : BTreeMap OperationId ModuleKind) (stream : FediFeeStream)
    (l : StreamLedger) : Prop where
  breakdown : l.pending = l.pendingBreakdown
  pending : l.pending = l.pendingFees
  accrued : stream = .app → l.totalAccrued = l.successFees
  /-- What a transition subtracts is there. -/
  covered : ∀ operationId fee, l.operationStatus.get? operationId = some (.pendingSend fee) →
    ∃ module, operationLog.get? operationId = some module ∧ fee ≤ l.pendingRow module ∧ fee ≤ l.pending

structure StatusesAgree (s : StatusState) : Prop where
  streams : ∀ stream, StreamAgrees s.operationLog stream (s.fees.stream stream)
  direction : ∀ operationId app guardian, s.fees.app.operationStatus.get? operationId = some app →
    s.fees.guardian.operationStatus.get? operationId = some guardian → app.phase = guardian.phase

/-- The status of an operation in one stream. -/
def StatusState.status (s : StatusState) (stream : FediFeeStream) (operationId : OperationId) :
    Option OperationFediFeeStatus :=
  (s.fees.stream stream).operationStatus.get? operationId

/-- An event takes an operation out of its pending status. -/
def LeavesPending (overflowChecks : Bool) (stream : FediFeeStream) (operationId : OperationId)
    (before : List WriteEvent) (e : WriteEvent) : Prop :=
  (∃ status, (feeWrites overflowChecks before).status stream operationId = some status ∧ status.phase.isPending = true) ∧
    ∃ status, (feeWrites overflowChecks (before ++ [e])).status stream operationId = some status ∧
      status.phase.isPending = false

/-- No operation leaves its pending status at two moments. -/
def LeavesOnce (overflowChecks : Bool) (es : List WriteEvent) : Prop :=
  ∀ stream operationId before e after before' e' after', es = before ++ e :: after → es = before' ++ e' :: after' →
    LeavesPending overflowChecks stream operationId before e →
    LeavesPending overflowChecks stream operationId before' e' → before = before'

/-! ## When the ledger agrees -/

/-- The operation of a pending write has no status. -/
def FeeWrite.IsNew (s : StatusState) : FeeWrite → Prop
  | .pendingSend operationId _ => ∀ stream, s.status stream operationId = none
  | .pendingReceive operationId _ => ∀ stream, s.status stream operationId = none
  | _ => True

/-- The totals that a write adds to stay amounts. -/
def FeeWrite.Fits (overflowChecks : Bool) (s : StatusState) : FeeWrite → Prop
  | .pendingSend _ fees => ∀ stream fee, (stream, fee) ∈ fees.toList →
    fee + (s.fees.stream stream).pending < 2 ^ 64
  | .successSend operationId => ∀ fee, s.status .app operationId = some (.pendingSend fee) →
    fee + s.fees.app.totalAccrued < 2 ^ 64
  | .successReceive operationId amount => ∀ ppm fee, s.status .app operationId = some (.pendingReceive ppm) →
    receiveFee overflowChecks amount ppm = .ok fee → fee + s.fees.app.totalAccrued < 2 ^ 64
  | _ => True

/-- Pending writes that take effect are for operations without a status. -/
def NewStatuses (overflowChecks : Bool) (es : List WriteEvent) : Prop :=
  ∀ before e after, es = before ++ e :: after → e.commits = true →
    succeeds (writeFees overflowChecks (feeWrites overflowChecks before) e.write) = true →
    e.write.IsNew (feeWrites overflowChecks before)

def TotalsFit (overflowChecks : Bool) (es : List WriteEvent) : Prop :=
  ∀ before e after, es = before ++ e :: after → e.commits = true →
    e.write.Fits overflowChecks (feeWrites overflowChecks before)

/-! ## Replacing a status -/

/-- What a status counts in the pending row of a module. -/
def pendingAt (operationLog : BTreeMap OperationId ModuleKind) (module : ModuleKind) (operationId : OperationId)
    (status : OperationFediFeeStatus) : ℕ :=
  if operationLog.get? operationId = some module then status.pendingFee else 0

theorem pendingAt_of_quiet {operationLog : BTreeMap OperationId ModuleKind} {module : ModuleKind}
    {operationId : OperationId} {status : OperationFediFeeStatus} (h : status.pendingFee = 0) :
    pendingAt operationLog module operationId status = 0 := by
  unfold pendingAt
  rw [h, ite_self]

theorem pendingFee_of_not_send {status : Option OperationFediFeeStatus}
    (h : ∀ fee, status ≠ some (.pendingSend fee)) : status.elim 0 (·.pendingFee) = 0 := by
  cases status with
  | none => rfl
  | some status =>
    cases status with
    | pendingSend fee => exact absurd rfl (h fee)
    | _ => rfl

/-- The rows of a stream count the statuses. -/
structure Counts (operationLog : BTreeMap OperationId ModuleKind) (stream : FediFeeStream)
    (l : StreamLedger) : Prop where
  rows : ∀ module, l.pendingRow module = l.operationStatus.sumBy (pendingAt operationLog module)
  breakdown : l.pending = l.pendingBreakdown
  pending : l.pending = l.pendingFees
  accrued : stream = .app → l.totalAccrued = l.successFees
  logged : ∀ operationId fee, l.operationStatus.get? operationId = some (.pendingSend fee) →
    operationId ∈ operationLog.keys

/-- An operation gets the status `new`, and the rows follow. -/
structure Replaces (operationLog : BTreeMap OperationId ModuleKind) (stream : FediFeeStream)
    (operationId : OperationId) (l l' : StreamLedger) (new : OperationFediFeeStatus) : Prop where
  status : l'.operationStatus = l.operationStatus.insert operationId new
  rows : ∀ module, l'.pendingRow module +
    (l.operationStatus.get? operationId).elim 0 (pendingAt operationLog module operationId) =
      l.pendingRow module + pendingAt operationLog module operationId new
  breakdown : l'.pendingBreakdown + (l.operationStatus.get? operationId).elim 0 (·.pendingFee) =
    l.pendingBreakdown + new.pendingFee
  pending : l'.pending + (l.operationStatus.get? operationId).elim 0 (·.pendingFee) = l.pending + new.pendingFee
  accrued : stream = .app →
    l'.totalAccrued + (l.operationStatus.get? operationId).elim 0 (·.successFee) = l.totalAccrued + new.successFee
  logged : ∀ fee, new = .pendingSend fee → operationId ∈ operationLog.keys

section

variable {operationLog : BTreeMap OperationId ModuleKind} {stream : FediFeeStream} {operationId : OperationId}
  {l l' : StreamLedger} {new : OperationFediFeeStatus}

theorem Counts.replace (h : Counts operationLog stream l)
    (hreplaces : Replaces operationLog stream operationId l l' new) : Counts operationLog stream l' where
  rows := by
    intro module
    have hrow := h.rows module
    have hnew := hreplaces.rows module
    have hsum := BTreeMap.sumBy_insert (pendingAt operationLog module) l.operationStatus operationId new
    rw [hreplaces.status]
    omega
  breakdown := by
    have hbreakdown := hreplaces.breakdown
    have hpending := hreplaces.pending
    have hold := h.breakdown
    omega
  pending := by
    have hpending := hreplaces.pending
    have hold := h.pending
    have hsum := BTreeMap.sumBy_insert (fun _ status => OperationFediFeeStatus.pendingFee status)
      l.operationStatus operationId new
    unfold StreamLedger.pendingFees at hold ⊢
    rw [hreplaces.status]
    omega
  accrued := by
    intro happ
    have haccrued := hreplaces.accrued happ
    have hold := h.accrued happ
    have hsum := BTreeMap.sumBy_insert (fun _ status => OperationFediFeeStatus.successFee status)
      l.operationStatus operationId new
    unfold StreamLedger.successFees at hold ⊢
    rw [hreplaces.status]
    omega
  logged := by
    intro op fee hget
    rw [hreplaces.status, BTreeMap.get?_insert] at hget
    split at hget
    next heq =>
      subst heq
      exact hreplaces.logged fee (Option.some.inj hget)
    next => exact h.logged op fee hget

/-- What is pending is there to be subtracted. -/
theorem Counts.covered (h : Counts operationLog stream l) {fee : ℕ} {module : ModuleKind}
    (hget : l.operationStatus.get? operationId = some (.pendingSend fee))
    (hmodule : operationLog.get? operationId = some module) : fee ≤ l.pendingRow module ∧ fee ≤ l.pending := by
  constructor
  · rw [h.rows module]
    have hle := BTreeMap.le_sumBy (f := pendingAt operationLog module) hget
    rw [pendingAt, if_pos hmodule] at hle
    exact hle
  · rw [h.pending]
    exact BTreeMap.le_sumBy (f := fun _ status => OperationFediFeeStatus.pendingFee status) hget

theorem pendingRow_le_breakdown (l : StreamLedger) (module : ModuleKind) : l.pendingRow module ≤ l.pendingBreakdown := by
  unfold StreamLedger.pendingRow
  cases hget : l.pendingPerTxType.get? ⟨module, .send⟩ with
  | none =>
    rw [BTreeMap.getD_of_none hget]
    exact Nat.zero_le _
  | some amount =>
    rw [BTreeMap.getD_of_get? hget]
    exact BTreeMap.le_sumBy (f := fun _ (amount : ℕ) => amount) hget

/-- The row of another module is another row. -/
theorem pendingRow_insert (l : StreamLedger) (module module' : ModuleKind) (amount : ℕ) :
    (l.pendingPerTxType.insert ⟨module, .send⟩ amount).getD ⟨module', .send⟩ 0 =
      if module' = module then amount else l.pendingRow module' := by
  rw [BTreeMap.getD_insert]
  simp only [TxType.mk.injEq, and_true]
  rfl

theorem sumBy_rows_insert (l : StreamLedger) (module : ModuleKind) (amount : ℕ) :
    (l.pendingPerTxType.insert ⟨module, .send⟩ amount).sumBy (fun _ amount => amount) + l.pendingRow module =
      l.pendingBreakdown + amount :=
  BTreeMap.sumBy_insert_getD (f := fun _ (amount : ℕ) => amount) l.pendingPerTxType ⟨module, .send⟩ amount rfl

/-! ## One spec per function -/

variable {overflowChecks : Bool} {module : ModuleKind} {changed : Bool}

theorem insertPendingSend_replaces (h : Counts operationLog stream l) {fediFee : ℕ}
    (hmodule : operationLog.get? operationId = some module) (hnone : l.operationStatus.get? operationId = none)
    (hfits : overflowChecks = false → fediFee + l.pending < 2 ^ 64)
    (hinsert : insertPendingSendFediFeeInDb overflowChecks l operationId module fediFee = .ok l') :
    Replaces operationLog stream operationId l l' (.pendingSend fediFee) := by
  obtain ⟨pendingTxTypeFees, h1, hinsert⟩ := bind_eq_ok.mp hinsert
  obtain ⟨pendingFees, h2, hinsert⟩ := bind_eq_ok.mp hinsert
  cases hinsert
  have hle : l.pendingRow module ≤ l.pending := h.breakdown ▸ pendingRow_le_breakdown l module
  have hrow : pendingTxTypeFees = fediFee + l.pendingRow module := by
    refine u64_eq_ok (fun hchecks => ?_) h1
    have := hfits hchecks
    omega
  have htotal : pendingFees = fediFee + l.pending := u64_eq_ok hfits h2
  refine ⟨rfl, fun module' => ?_, ?_, ?_, fun _ => ?_, fun _ _ => BTreeMap.mem_keys.mpr ⟨module, hmodule⟩⟩
  · show (l.pendingPerTxType.insert _ _).getD _ 0 + _ = _
    rw [hnone, pendingRow_insert, pendingAt, hmodule]
    by_cases heq : module' = module
    · subst heq
      simp only [if_true, Option.elim_none, OperationFediFeeStatus.pendingFee]
      omega
    · rw [if_neg heq, if_neg fun hsome => heq (Option.some.inj hsome).symm]
      rfl
  · have hsum := sumBy_rows_insert l module pendingTxTypeFees
    rw [hnone]
    show (l.pendingPerTxType.insert _ _).sumBy _ + 0 = l.pendingBreakdown + fediFee
    omega
  · rw [hnone]
    show pendingFees + 0 = l.pending + fediFee
    omega
  · rw [hnone]
    rfl

/-- What a pending send that ended leaves of the pending rows. -/
theorem unpend_spec (h : Counts operationLog stream l) {fediFee : ℕ}
    (hmodule : operationLog.get? operationId = some module)
    (hget : l.operationStatus.get? operationId = some (.pendingSend fediFee)) :
    (∀ module', (l.unpend module fediFee).pendingRow module' +
        pendingAt operationLog module' operationId (.pendingSend fediFee) = l.pendingRow module') ∧
      (l.unpend module fediFee).pendingBreakdown + fediFee = l.pendingBreakdown ∧
      (l.unpend module fediFee).pending + fediFee = l.pending := by
  obtain ⟨hrow, hpending⟩ := h.covered hget hmodule
  refine ⟨fun module' => ?_, ?_, ?_⟩
  · show (l.pendingPerTxType.insert _ _).getD _ 0 + _ = _
    rw [pendingRow_insert, pendingAt, hmodule]
    by_cases heq : module' = module
    · subst heq
      simp only [if_true, OperationFediFeeStatus.pendingFee]
      exact Nat.sub_add_cancel hrow
    · rw [if_neg heq, if_neg fun hsome => heq (Option.some.inj hsome).symm]
      rfl
  · have hsum := sumBy_rows_insert l module (l.pendingRow module - fediFee)
    show (l.pendingPerTxType.insert _ (l.pendingRow module - fediFee)).sumBy _ + fediFee = l.pendingBreakdown
    omega
  · exact Nat.sub_add_cancel hpending

theorem addToTotalAccrued_spec {totalAccrued total fediFee : ℕ}
    (h : addToTotalAccrued overflowChecks stream totalAccrued fediFee = .ok total)
    (hfits : overflowChecks = false → stream = .app → fediFee + totalAccrued < 2 ^ 64) (happ : stream = .app) :
    total = totalAccrued + fediFee := by
  unfold addToTotalAccrued at h
  rw [if_pos happ] at h
  rw [u64_eq_ok (fun hchecks => hfits hchecks happ) h, Nat.add_comm]

/-- What an accrual leaves of the rows that are not outstanding. -/
theorem accrue_spec {txType : TxType} {fediFee : ℕ}
    (h : l.accrue overflowChecks stream operationId txType fediFee = .ok l')
    (hfits : overflowChecks = false → stream = .app → fediFee + l.totalAccrued < 2 ^ 64) :
    l'.operationStatus = l.operationStatus.insert operationId (.success fediFee) ∧
      l'.pendingPerTxType = l.pendingPerTxType ∧ l'.pending = l.pending ∧
      (stream = .app → l'.totalAccrued = l.totalAccrued + fediFee) := by
  obtain ⟨_, -, h⟩ := bind_eq_ok.mp h
  obtain ⟨_, -, h⟩ := bind_eq_ok.mp h
  obtain ⟨_, htotal, h⟩ := bind_eq_ok.mp h
  cases h
  exact ⟨rfl, rfl, rfl, addToTotalAccrued_spec htotal hfits⟩

/-- A write for an operation: its phase is `after` already, or was `before`. -/
def Moved (operationLog : BTreeMap OperationId ModuleKind) (stream : FediFeeStream) (operationId : OperationId)
    (before : Option Phase) (after : Phase) (l l' : StreamLedger) : Prop :=
  (l' = l ∧ ∀ status, l.operationStatus.get? operationId = some status → status.phase = after) ∨
    ∃ new, (l.operationStatus.get? operationId).map (·.phase) = before ∧ new.phase = after ∧
      Replaces operationLog stream operationId l l' new

/-- A transition that finds the status it would write, or none, changes nothing. -/
theorem moved_of_ended {before : Option Phase} {after : Phase}
    (hended : ∀ status, l.operationStatus.get? operationId = some status → status.phase = after) :
    Moved operationLog stream operationId before after l l := .inl ⟨rfl, hended⟩

theorem transitionSuccessSend_moved (h : Counts operationLog stream l)
    (hmodule : operationLog.get? operationId = some module)
    (hfits : ∀ fee, l.operationStatus.get? operationId = some (.pendingSend fee) → overflowChecks = false →
      stream = .app → fee + l.totalAccrued < 2 ^ 64)
    (htransition : transitionSuccessSendFediFeeInDb overflowChecks stream l operationId module = .ok (l', changed)) :
    Moved operationLog stream operationId (some .pendingSend) .success l l' := by
  rcases transitionSuccessSend_cases htransition with ⟨rfl, hended⟩ | ⟨fediFee, hget, haccrue⟩
  · refine moved_of_ended fun status hstatus => ?_
    obtain ⟨fee, rfl⟩ := hended status hstatus
    rfl
  · obtain ⟨hstatus, hrows, hpending, haccrued⟩ := accrue_spec haccrue (hfits fediFee hget)
    obtain ⟨hrow, hbreakdown, htotal⟩ := unpend_spec h hmodule hget
    refine .inr ⟨.success fediFee, by rw [hget]; rfl, rfl, hstatus, fun module' => ?_, ?_, ?_, fun happ => ?_,
      fun _ hne => by cases hne⟩
    · have hnew : pendingAt operationLog module' operationId (.success fediFee) = 0 := pendingAt_of_quiet rfl
      rw [hget, Option.elim_some, hnew, StreamLedger.pendingRow, hrows]
      exact hrow module'
    · rw [hget, Option.elim_some, StreamLedger.pendingBreakdown, hrows]
      exact hbreakdown
    · rw [hget, Option.elim_some, hpending]
      exact htotal
    · rw [hget, Option.elim_some]
      exact haccrued happ

theorem transitionFailedSend_moved (h : Counts operationLog stream l)
    (hmodule : operationLog.get? operationId = some module)
    (htransition : transitionFailedSendFediFeeInDb stream l operationId module = .ok (l', changed)) :
    Moved operationLog stream operationId (some .pendingSend) .failedSend l l' := by
  rcases transitionFailedSend_cases htransition with ⟨rfl, hended⟩ | ⟨fediFee, hget, rfl⟩
  · refine moved_of_ended fun status hstatus => ?_
    obtain ⟨fee, rfl⟩ := hended status hstatus
    rfl
  · obtain ⟨hrow, hbreakdown, htotal⟩ := unpend_spec h hmodule hget
    refine .inr ⟨.failedSend fediFee, by rw [hget]; rfl, rfl, rfl, fun module' => ?_, ?_, ?_, fun _ => ?_,
      fun _ hne => by cases hne⟩
    · have hnew : pendingAt operationLog module' operationId (.failedSend fediFee) = 0 := pendingAt_of_quiet rfl
      rw [hget, Option.elim_some, hnew]
      exact hrow module'
    · rw [hget, Option.elim_some]
      exact hbreakdown
    · rw [hget, Option.elim_some]
      exact htotal
    · rw [hget]
      rfl

/-- A status that is not of a pending send, in place of another such one, leaves the pending rows alone. -/
theorem replaces_of_quiet (hstatus : l'.operationStatus = l.operationStatus.insert operationId new)
    (hrows : l'.pendingPerTxType = l.pendingPerTxType) (hpending : l'.pending = l.pending)
    (hold : ∀ fee, l.operationStatus.get? operationId ≠ some (.pendingSend fee)) (hnew : new.pendingFee = 0)
    (hsend : ∀ fee, new ≠ .pendingSend fee)
    (haccrued : stream = .app →
      l'.totalAccrued + (l.operationStatus.get? operationId).elim 0 (·.successFee) =
        l.totalAccrued + new.successFee) :
    Replaces operationLog stream operationId l l' new where
  status := hstatus
  rows := by
    intro module'
    have hzero : (l.operationStatus.get? operationId).elim 0 (pendingAt operationLog module' operationId) = 0 := by
      cases hget : l.operationStatus.get? operationId with
      | none => rfl
      | some old =>
        have hquiet := pendingFee_of_not_send hold
        rw [hget, Option.elim_some] at hquiet
        exact pendingAt_of_quiet hquiet
    rw [hzero, pendingAt_of_quiet hnew, StreamLedger.pendingRow, hrows]
    rfl
  breakdown := by
    rw [pendingFee_of_not_send hold, hnew, StreamLedger.pendingBreakdown, hrows]
    rfl
  pending := by rw [pendingFee_of_not_send hold, hnew, hpending]
  accrued := haccrued
  logged := fun fee heq => absurd heq (hsend fee)

theorem insertPendingReceive_replaces {fediFeePpm : ℕ} (hnone : l.operationStatus.get? operationId = none) :
    Replaces operationLog stream operationId l (insertPendingReceiveFediFeePpmInDb l operationId fediFeePpm)
      (.pendingReceive fediFeePpm) := by
  refine replaces_of_quiet rfl rfl rfl (fun fee hget => ?_) rfl (fun fee heq => ?_) fun _ => ?_
  · rw [hnone] at hget
    cases hget
  · cases heq
  · rw [hnone]
    rfl

theorem transitionSuccessReceive_moved {amount : ℕ}
    (hfits : ∀ ppm fee, l.operationStatus.get? operationId = some (.pendingReceive ppm) →
      receiveFee overflowChecks amount ppm = .ok fee → overflowChecks = false → stream = .app →
        fee + l.totalAccrued < 2 ^ 64)
    (htransition :
      transitionSuccessReceiveFediFeeInDb overflowChecks stream l operationId module amount = .ok (l', changed)) :
    Moved operationLog stream operationId (some .pendingReceive) .success l l' := by
  rcases transitionSuccessReceive_cases htransition with ⟨rfl, hended⟩ | ⟨ppm, fediFee, hget, hfee, haccrue⟩
  · refine moved_of_ended fun status hstatus => ?_
    obtain ⟨fee, rfl⟩ := hended status hstatus
    rfl
  · obtain ⟨hstatus, hrows, hpending, haccrued⟩ := accrue_spec haccrue (hfits ppm fediFee hget hfee)
    refine .inr ⟨.success fediFee, by rw [hget]; rfl, rfl, ?_⟩
    refine replaces_of_quiet hstatus hrows hpending (fun fee hsend => ?_) rfl (fun fee heq => ?_) fun happ => ?_
    · rw [hget] at hsend
      cases hsend
    · cases heq
    · rw [hget]
      exact haccrued happ

theorem transitionFailedReceive_moved
    (htransition : transitionFailedReceiveFediFeeInDb stream l operationId = .ok (l', changed)) :
    Moved operationLog stream operationId (some .pendingReceive) .failedReceive l l' := by
  rcases transitionFailedReceive_cases htransition with ⟨rfl, hended⟩ | ⟨ppm, hget, rfl⟩
  · refine moved_of_ended fun status hstatus => ?_
    obtain ⟨fee, rfl⟩ := hended status hstatus
    rfl
  · refine .inr ⟨.failedReceive ppm, by rw [hget]; rfl, rfl, ?_⟩
    refine replaces_of_quiet rfl rfl rfl (fun fee hsend => ?_) rfl (fun fee heq => ?_) fun _ => ?_
    · rw [hget] at hsend
      cases hsend
    · cases heq
    · rw [hget]
      rfl

/-! ## One step -/

/-- A write for an operation that was pending, or new, leaves a status that is not pending. -/
theorem Moved.keeps {before : Option Phase} {after : Phase}
    (h : Moved operationLog stream operationId before after l l')
    (hbefore : ∀ phase, before = some phase → phase.isPending = true) {op : OperationId}
    {status : OperationFediFeeStatus} (hget : l.operationStatus.get? op = some status)
    (hended : status.phase.isPending = false) : l'.operationStatus.get? op = some status := by
  rcases h with ⟨rfl, -⟩ | ⟨new, hold, -, hreplaces⟩
  · exact hget
  · by_cases heq : op = operationId
    · subst heq
      rw [hget] at hold
      rw [hbefore status.phase hold.symm] at hended
      cases hended
    · rw [hreplaces.status, BTreeMap.get?_insert_ne _ _ heq]
      exact hget

theorem Moved.counts {before : Option Phase} {after : Phase}
    (h : Moved operationLog stream operationId before after l l') (hcounts : Counts operationLog stream l) :
    Counts operationLog stream l' := by
  rcases h with ⟨rfl, -⟩ | ⟨new, -, -, hreplaces⟩
  · exact hcounts
  · exact hcounts.replace hreplaces

theorem Moved.phase {before : Option Phase} {after : Phase}
    (h : Moved operationLog stream operationId before after l l') {status' : OperationFediFeeStatus}
    (hget : l'.operationStatus.get? operationId = some status') : status'.phase = after := by
  rcases h with ⟨rfl, hafter⟩ | ⟨new, -, hnew, hreplaces⟩
  · exact hafter status' hget
  · rw [hreplaces.status, BTreeMap.get?_insert_self] at hget
    cases hget
    exact hnew

theorem Moved.other {before : Option Phase} {after : Phase}
    (h : Moved operationLog stream operationId before after l l') {op : OperationId} (hne : op ≠ operationId) :
    l'.operationStatus.get? op = l.operationStatus.get? op := by
  rcases h with ⟨rfl, -⟩ | ⟨new, -, -, hreplaces⟩
  · rfl
  · rw [hreplaces.status, BTreeMap.get?_insert_ne _ _ hne]

end

/-- The rows count the statuses of both streams, which are in the same phase. -/
structure WriteInv (s : StatusState) : Prop where
  counts : ∀ stream, Counts s.operationLog stream (s.fees.stream stream)
  direction : ∀ operationId app guardian, s.status .app operationId = some app →
    s.status .guardian operationId = some guardian → app.phase = guardian.phase

theorem writeInv_start : WriteInv .start where
  counts := fun stream => by
    cases stream <;> exact ⟨fun _ => rfl, rfl, rfl, fun _ => rfl, fun _ _ h => by cases h⟩
  direction := fun _ _ _ h => by cases h

/-- Statuses that are not pending stay what they are. -/
def KeepsEnded (s s' : StatusState) : Prop :=
  ∀ stream operationId status, s.status stream operationId = some status → status.phase.isPending = false →
    s'.status stream operationId = some status

section

variable {s : StatusState} {operationId : OperationId} {before : Option Phase} {after : Phase}

/-- A write moves one operation, in both streams alike. -/
theorem WriteInv.moved (h : WriteInv s) {fees : FediFeeDb}
    (hmoved : ∀ stream, Moved s.operationLog stream operationId before after (s.fees.stream stream)
      (fees.stream stream))
    (hbefore : ∀ phase, before = some phase → phase.isPending = true) :
    WriteInv { s with fees := fees } ∧ KeepsEnded s { s with fees := fees } := by
  refine ⟨⟨fun stream => (hmoved stream).counts (h.counts stream), fun op app guardian happ hguardian => ?_⟩,
    fun stream op status hget hended => (hmoved stream).keeps hbefore hget hended⟩
  by_cases heq : op = operationId
  · subst heq
    rw [(hmoved .app).phase happ, (hmoved .guardian).phase hguardian]
  · have happ' := (hmoved .app).other heq
    have hguardian' := (hmoved .guardian).other heq
    exact h.direction op app guardian (happ'.symm.trans happ) (hguardian'.symm.trans hguardian)

theorem onBothStreams_moved {operationLog : BTreeMap OperationId ModuleKind} {dbtx : FediFeeDb}
    {transition : FediFeeStream → StreamLedger → Res (StreamLedger × Bool)} {r : FediFeeDb × Bool}
    (hmoved : ∀ stream l' changed, transition stream (dbtx.stream stream) = .ok (l', changed) →
      Moved operationLog stream operationId before after (dbtx.stream stream) l')
    (h : onBothStreams dbtx transition = .ok r) (stream : FediFeeStream) :
    Moved operationLog stream operationId before after (dbtx.stream stream) (r.1.stream stream) := by
  obtain ⟨app, happ, h⟩ := bind_eq_ok.mp h
  obtain ⟨guardian, hguardian, h⟩ := bind_eq_ok.mp h
  cases h
  cases stream with
  | app => exact hmoved .app _ _ happ
  | guardian => exact hmoved .guardian _ _ hguardian

/-- A stream that is not written keeps an operation without a status. -/
theorem moved_of_none {operationLog : BTreeMap OperationId ModuleKind} {stream : FediFeeStream} {l : StreamLedger}
    (hnone : l.operationStatus.get? operationId = none) :
    Moved operationLog stream operationId before after l l :=
  .inl ⟨rfl, fun status hget => by rw [hnone] at hget; cases hget⟩

theorem writePendingSend_moved {overflowChecks : Bool} {module : ModuleKind} {fees : FeesByStream}
    {dbtx' : FediFeeDb} (h : WriteInv s) (hmodule : s.operationLog.get? operationId = some module)
    (hnew : ∀ stream, s.status stream operationId = none)
    (hfits : overflowChecks = false → ∀ stream fee, (stream, fee) ∈ fees.toList →
      fee + (s.fees.stream stream).pending < 2 ^ 64)
    (hwrite : writePendingSendFediFees overflowChecks operationId module s.fees fees.toList = .ok dbtx')
    (stream : FediFeeStream) : Moved s.operationLog stream operationId none .pendingSend (s.fees.stream stream)
      (dbtx'.stream stream) := by
  have hopens {stream : FediFeeStream} {fee : ℕ} {l : StreamLedger} (hmem : (stream, fee) ∈ fees.toList)
      (hinsert : insertPendingSendFediFeeInDb overflowChecks (s.fees.stream stream) operationId module fee = .ok l) :
      Moved s.operationLog stream operationId none .pendingSend (s.fees.stream stream) l :=
    .inr ⟨_, by rw [show (s.fees.stream stream).operationStatus.get? operationId = none from hnew stream]; rfl, rfl,
      insertPendingSend_replaces (h.counts stream) hmodule (hnew stream) (fun hchecks => hfits hchecks _ _ hmem)
        hinsert⟩
  obtain ⟨app, guardian⟩ := fees
  obtain ⟨l, happ, hwrite⟩ := bind_eq_ok.mp hwrite
  have hmoved := hopens List.mem_cons_self happ
  cases guardian with
  | none =>
    cases hwrite
    cases stream with
    | app => exact hmoved
    | guardian => exact moved_of_none (hnew .guardian)
  | some guardian =>
    obtain ⟨l', hguardian, hwrite⟩ := bind_eq_ok.mp hwrite
    cases hwrite
    cases stream with
    | app => exact hmoved
    | guardian => exact hopens (by simp [FeesByStream.toList]) hguardian

theorem writePendingReceive_moved {feePpms : FeesByStream} (hnew : ∀ stream, s.status stream operationId = none)
    (stream : FediFeeStream) : Moved s.operationLog stream operationId none .pendingReceive (s.fees.stream stream)
      ((writePendingReceiveFediFeePpms operationId s.fees feePpms.toList).stream stream) := by
  have hopens (stream : FediFeeStream) (feePpm : ℕ) :
      Moved s.operationLog stream operationId none .pendingReceive (s.fees.stream stream)
        (insertPendingReceiveFediFeePpmInDb (s.fees.stream stream) operationId feePpm) :=
    .inr ⟨_, by rw [show (s.fees.stream stream).operationStatus.get? operationId = none from hnew stream]; rfl, rfl,
      insertPendingReceive_replaces (hnew stream)⟩
  obtain ⟨app, guardian⟩ := feePpms
  cases guardian with
  | none =>
    cases stream with
    | app => exact hopens .app app
    | guardian => exact moved_of_none (hnew .guardian)
  | some guardian =>
    cases stream with
    | app => exact hopens .app app
    | guardian => exact hopens .guardian guardian

theorem operationModuleKind_spec {operationLog : BTreeMap OperationId ModuleKind} {module : ModuleKind}
    (h : operationModuleKind operationLog operationId = .ok module) : operationLog.get? operationId = some module := by
  unfold operationModuleKind at h
  split at h
  next module' hget =>
    cases h
    exact hget
  next => cases h

theorem get?_logOperation {operationLog : BTreeMap OperationId ModuleKind} {module module' : ModuleKind}
    {op : OperationId} (h : operationLog.get? op = some module') :
    (logOperation operationLog operationId module).get? op = some module' := by
  unfold logOperation
  split
  · exact h
  next hnone =>
    rw [BTreeMap.get?_insert_ne _ _ fun heq => by rw [heq, hnone] at h; cases h]
    exact h

/-- A new log entry is of an operation that has nothing pending. -/
theorem Counts.logged_more {operationLog operationLog' : BTreeMap OperationId ModuleKind} {stream : FediFeeStream}
    {l : StreamLedger} (h : Counts operationLog stream l)
    (hlog : ∀ op module, operationLog.get? op = some module → operationLog'.get? op = some module) :
    Counts operationLog' stream l where
  rows := by
    intro module
    rw [h.rows module]
    refine BTreeMap.sumBy_congr fun op status hget => ?_
    cases status with
    | pendingSend fee =>
      obtain ⟨module', hmodule'⟩ := BTreeMap.mem_keys.mp (h.logged op fee hget)
      simp only [pendingAt, hmodule', hlog op module' hmodule']
    | _ => rw [pendingAt_of_quiet rfl, pendingAt_of_quiet rfl]
  breakdown := h.breakdown
  pending := h.pending
  accrued := h.accrued
  logged := by
    intro op fee hget
    obtain ⟨module', hmodule'⟩ := BTreeMap.mem_keys.mp (h.logged op fee hget)
    exact BTreeMap.mem_keys.mpr ⟨module', hlog op module' hmodule'⟩

/-- Each transaction keeps the counts and the statuses that are not pending. -/
theorem writeFees_spec {overflowChecks : Bool} {s' : StatusState} {write : FeeWrite} (h : WriteInv s)
    (hnew : write.IsNew s) (hfits : overflowChecks = false → write.Fits overflowChecks s)
    (hwrite : writeFees overflowChecks s write = .ok s') : WriteInv s' ∧ KeepsEnded s s' := by
  have hsend (phase : Phase) (heq : some Phase.pendingSend = some phase) : phase.isPending = true := by
    cases heq
    rfl
  have hreceive (phase : Phase) (heq : some Phase.pendingReceive = some phase) : phase.isPending = true := by
    cases heq
    rfl
  cases write with
  | logOperation operationId module =>
    cases hwrite
    exact ⟨⟨fun stream => (h.counts stream).logged_more fun _ _ => get?_logOperation, h.direction⟩,
      fun stream op status hget _ => hget⟩
  | pendingSend operationId fees =>
    obtain ⟨module, hmodule, hwrite⟩ := bind_eq_ok.mp hwrite
    obtain ⟨fees', hfees, hwrite⟩ := bind_eq_ok.mp hwrite
    cases hwrite
    exact h.moved (writePendingSend_moved h (operationModuleKind_spec hmodule) hnew hfits hfees)
      fun phase heq => by cases heq
  | successSend operationId =>
    obtain ⟨module, hmodule, hwrite⟩ := bind_eq_ok.mp hwrite
    obtain ⟨r, hr, hwrite⟩ := bind_eq_ok.mp hwrite
    cases hwrite
    have hmoved (stream : FediFeeStream) : Moved s.operationLog stream operationId (some .pendingSend) .success
        (s.fees.stream stream) (r.1.stream stream) := by
      refine onBothStreams_moved (fun stream l' changed htransition => ?_) hr stream
      refine transitionSuccessSend_moved (h.counts stream) (operationModuleKind_spec hmodule)
        (fun fee hget hchecks happ => ?_) htransition
      subst happ
      exact hfits hchecks fee hget
    exact h.moved hmoved hsend
  | failedSend operationId =>
    obtain ⟨module, hmodule, hwrite⟩ := bind_eq_ok.mp hwrite
    obtain ⟨r, hr, hwrite⟩ := bind_eq_ok.mp hwrite
    cases hwrite
    exact h.moved (onBothStreams_moved (fun stream l' changed htransition =>
      transitionFailedSend_moved (h.counts stream) (operationModuleKind_spec hmodule) htransition) hr) hsend
  | pendingReceive operationId feePpms =>
    cases hwrite
    exact h.moved (writePendingReceive_moved hnew) fun phase heq => by cases heq
  | successReceive operationId amount =>
    obtain ⟨module, hmodule, hwrite⟩ := bind_eq_ok.mp hwrite
    obtain ⟨r, hr, hwrite⟩ := bind_eq_ok.mp hwrite
    cases hwrite
    have hmoved (stream : FediFeeStream) : Moved s.operationLog stream operationId (some .pendingReceive) .success
        (s.fees.stream stream) (r.1.stream stream) := by
      refine onBothStreams_moved (fun stream l' changed htransition => ?_) hr stream
      refine transitionSuccessReceive_moved (fun ppm fee hget hfee hchecks happ => ?_) htransition
      subst happ
      exact hfits hchecks ppm fee hget hfee
    exact h.moved hmoved hreceive
  | failedReceive operationId =>
    obtain ⟨r, hr, hwrite⟩ := bind_eq_ok.mp hwrite
    cases hwrite
    exact h.moved (onBothStreams_moved (fun stream l' changed htransition =>
      transitionFailedReceive_moved htransition) hr) hreceive

theorem writeStep_spec {overflowChecks : Bool} {e : WriteEvent} (h : WriteInv s)
    (hnew : e.commits = true → succeeds (writeFees overflowChecks s e.write) = true → e.write.IsNew s)
    (hfits : overflowChecks = false → e.commits = true → e.write.Fits overflowChecks s) :
    WriteInv (writeStep overflowChecks s e) ∧ KeepsEnded s (writeStep overflowChecks s e) := by
  unfold writeStep
  split
  next s' hwrite =>
    split
    next hcommits =>
      have hok : succeeds (writeFees overflowChecks s e.write) = true := by
        rw [hwrite]
        rfl
      exact writeFees_spec h (hnew hcommits hok) (fun hchecks => hfits hchecks hcommits) hwrite
    next => exact ⟨h, fun _ _ _ hget _ => hget⟩
  next => exact ⟨h, fun _ _ _ hget _ => hget⟩

end

/-! ## Every run -/

section

variable {overflowChecks : Bool}

theorem feeWrites_append (es es' : List WriteEvent) :
    feeWrites overflowChecks (es ++ es') = es'.foldl (writeStep overflowChecks) (feeWrites overflowChecks es) :=
  List.foldl_append

theorem NewStatuses.of_append {es es' : List WriteEvent} (h : NewStatuses overflowChecks (es ++ es')) :
    NewStatuses overflowChecks es := by
  intro before e after hes
  exact h before e (after ++ es') (by rw [hes, List.append_assoc, List.cons_append])

theorem TotalsFit.of_append {es es' : List WriteEvent} (h : TotalsFit overflowChecks (es ++ es')) :
    TotalsFit overflowChecks es := by
  intro before e after hes
  exact h before e (after ++ es') (by rw [hes, List.append_assoc, List.cons_append])

theorem feeWrites_inv {es : List WriteEvent} (hnew : NewStatuses overflowChecks es)
    (hfits : overflowChecks = false → TotalsFit overflowChecks es) : WriteInv (feeWrites overflowChecks es) := by
  induction es using List.reverseRecOn with
  | nil => exact writeInv_start
  | append_singleton es e ih =>
    have hinv := ih hnew.of_append fun hchecks => (hfits hchecks).of_append
    rw [feeWrites_append]
    exact (writeStep_spec hinv (hnew es e [] rfl) fun hchecks => hfits hchecks es e [] rfl).1

/-- A status that is not pending is final. -/
theorem feeWrites_keepsEnded {es es' : List WriteEvent} (hnew : NewStatuses overflowChecks (es ++ es'))
    (hfits : overflowChecks = false → TotalsFit overflowChecks (es ++ es')) :
    KeepsEnded (feeWrites overflowChecks es) (feeWrites overflowChecks (es ++ es')) := by
  induction es' using List.reverseRecOn with
  | nil =>
    rw [List.append_nil]
    exact fun _ _ _ hget _ => hget
  | append_singleton es' e ih =>
    rw [← List.append_assoc] at hnew hfits ⊢
    have hkeeps := ih hnew.of_append fun hchecks => (hfits hchecks).of_append
    have hinv := feeWrites_inv hnew.of_append fun hchecks => (hfits hchecks).of_append
    have hstep := (writeStep_spec hinv (hnew _ e [] rfl) fun hchecks => hfits hchecks _ e [] rfl).2
    rw [feeWrites_append _ [e]]
    intro stream operationId status hget hended
    exact hstep stream operationId status (hkeeps stream operationId status hget hended) hended

/-- An operation that left its pending status is not pending at a later moment. -/
theorem not_pending_of_left {stream : FediFeeStream} {operationId : OperationId} {before mid : List WriteEvent}
    {e : WriteEvent} (hnew : NewStatuses overflowChecks (before ++ e :: mid))
    (hfits : overflowChecks = false → TotalsFit overflowChecks (before ++ e :: mid))
    (hleft : LeavesPending overflowChecks stream operationId before e) {status : OperationFediFeeStatus}
    (hlater : (feeWrites overflowChecks (before ++ e :: mid)).status stream operationId = some status) :
    status.phase.isPending = false := by
  rw [List.append_cons] at hnew hfits hlater
  obtain ⟨status', hget, hended⟩ := hleft.2
  cases (feeWrites_keepsEnded hnew hfits stream operationId status' hget hended).symm.trans hlater
  exact hended

/-- The earlier of two moments at which an operation leaves its pending status is the later one. -/
theorem leavesPending_unique {stream : FediFeeStream} {operationId : OperationId} {before mid : List WriteEvent}
    {e e' : WriteEvent} {after after' : List WriteEvent} (hsplit : e :: after = mid ++ e' :: after')
    (hnew : NewStatuses overflowChecks (before ++ e :: after))
    (hfits : overflowChecks = false → TotalsFit overflowChecks (before ++ e :: after))
    (hleft : LeavesPending overflowChecks stream operationId before e)
    (hleft' : LeavesPending overflowChecks stream operationId (before ++ mid) e') : mid = [] := by
  rw [hsplit, ← List.append_assoc] at hnew hfits
  cases mid with
  | nil => rfl
  | cons a mid =>
    obtain ⟨rfl, -⟩ := List.cons.inj hsplit
    obtain ⟨status, hget, hpending⟩ := hleft'.1
    have hnot := not_pending_of_left hnew.of_append (fun hchecks => (hfits hchecks).of_append) hleft hget
    rw [hpending] at hnot
    cases hnot

end

/-- In every state of every run whose pending writes are for new operations, the totals agree, no
subtraction saturates, and an operation leaves its pending status once, in both streams alike. -/
theorem statuses_of_run (overflowChecks : Bool) (es : List WriteEvent) (hnew : NewStatuses overflowChecks es)
    (hfits : overflowChecks = false → TotalsFit overflowChecks es) :
    StatusesAgree (feeWrites overflowChecks es) ∧ LeavesOnce overflowChecks es := by
  have hinv := feeWrites_inv hnew hfits
  refine ⟨⟨fun stream => ⟨(hinv.counts stream).breakdown, (hinv.counts stream).pending, (hinv.counts stream).accrued,
    fun operationId fee hget => ?_⟩, hinv.direction⟩, ?_⟩
  · obtain ⟨module, hmodule⟩ := BTreeMap.mem_keys.mp ((hinv.counts stream).logged operationId fee hget)
    exact ⟨module, hmodule, (hinv.counts stream).covered hget hmodule⟩
  · intro stream operationId before e after before' e' after' hes hes' hleft hleft'
    rcases List.append_eq_append_iff.mp (hes.symm.trans hes') with ⟨mid, rfl, hsplit⟩ | ⟨mid, rfl, hsplit⟩
    · rw [hes] at hnew hfits
      rw [leavesPending_unique hsplit hnew hfits hleft hleft', List.append_nil]
    · rw [hes'] at hnew hfits
      rw [leavesPending_unique hsplit hnew hfits hleft' hleft, List.append_nil]

/-- A send whose success is written twice, and a receive that is older than guardian fees. -/
def demoWrites : List WriteEvent :=
  [⟨.logOperation 1 7, true⟩, ⟨.pendingSend 1 ⟨50, some 1000⟩, true⟩, ⟨.pendingReceive 2 ⟨2000, none⟩, true⟩,
    ⟨.logOperation 2 7, true⟩, ⟨.successSend 1, true⟩, ⟨.successSend 1, true⟩, ⟨.successReceive 2 1000, true⟩]

theorem demoWrites_new : NewStatuses false demoWrites := by
  refine forall_splits_cons ?_ (forall_splits_cons ?_ (forall_splits_cons ?_ (forall_splits_cons ?_
    (forall_splits_cons ?_ (forall_splits_cons ?_ (forall_splits_cons ?_ forall_splits_nil))))))
  all_goals
    intro _ _
    first
    | trivial
    | exact fun stream => by cases stream <;> decide +kernel

theorem demoWrites_fit : TotalsFit false demoWrites := by
  refine forall_splits_cons ?_ (forall_splits_cons ?_ (forall_splits_cons ?_ (forall_splits_cons ?_
    (forall_splits_cons ?_ (forall_splits_cons ?_ (forall_splits_cons ?_ forall_splits_nil))))))
  · exact fun _ => trivial
  · intro _ stream fee hmem
    fin_cases hmem <;> decide +kernel
  · exact fun _ => trivial
  · exact fun _ => trivial
  · intro _ fee hget
    have hpending : (feeWrites false (demoWrites.take 4)).status .app 1 = some (.pendingSend 50) := by decide +kernel
    cases hpending.symm.trans hget
    decide +kernel
  · intro _ fee hget
    have hsuccess : (feeWrites false (demoWrites.take 5)).status .app 1 = some (.success 50) := by decide +kernel
    cases hsuccess.symm.trans hget
  · intro _ ppm fee hget hfee
    have hpending : (feeWrites false (demoWrites.take 6)).status .app 2 = some (.pendingReceive 2000) := by
      decide +kernel
    cases hpending.symm.trans hget
    cases hfee
    decide +kernel

theorem statuses_of_run_demo : StatusesAgree (feeWrites false demoWrites) ∧ LeavesOnce false demoWrites ∧
    (feeWrites false demoWrites).fees.app.totalAccrued = 52 :=
  have h := statuses_of_run false demoWrites demoWrites_new fun _ => demoWrites_fit
  ⟨h.1, h.2, by decide +kernel⟩

/-- A paid invoice is paid again: the operation is the same, and its fee pends once more. -/
def pendingWrittenTwice : List WriteEvent :=
  [⟨.logOperation 1 7, true⟩, ⟨.pendingSend 1 ⟨50, some 1000⟩, true⟩, ⟨.pendingSend 1 ⟨50, some 1000⟩, true⟩]

theorem pendingWrittenTwice_disagrees : ¬ StatusesAgree (feeWrites false pendingWrittenTwice) ∧
    ¬ StatusesAgree (feeWrites true pendingWrittenTwice) := by
  constructor
  · intro h
    have hpending := (h.streams .app).pending
    exact absurd hpending (by decide +kernel)
  · intro h
    have hpending := (h.streams .app).pending
    exact absurd hpending (by decide +kernel)

end FediFee
