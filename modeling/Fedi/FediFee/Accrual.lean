import Fedi.FediFee.Types

/-!
# Accrual of fees (`federation_v2/mod.rs`)

An operation has one fee status per stream: pending when it starts, then `success`, which adds
the fee to the outstanding rows of the stream, or a failure.  What any of the six functions does to
the rows of a stream is

    Moves l l' fee : outstanding, its breakdown and the successful fees all grow by `fee`

with `fee = 0` for all but a transition to `success`.
-/

namespace FediFee

open BTreeMaps Runs

/-! ## Statuses -/

/-- `MILLION`, the denominator of a fee in parts per million. -/
def million : ℕ := 1000000

/-- `(amount.msats * fedi_fee_ppm).div_ceil(MILLION)`. -/
def receiveFee (overflowChecks : Bool) (amount fediFeePpm : ℕ) : Res ℕ :=
  u64 overflowChecks (amount * fediFeePpm) >>= fun product => .ok ((product + (million - 1)) / million)

def insertPendingSendFediFeeInDb (overflowChecks : Bool) (l : StreamLedger) (operationId : OperationId)
    (module : ModuleKind) (fediFee : ℕ) : Res StreamLedger := do
  let pendingTxTypeFees ← u64 overflowChecks (fediFee + l.pendingPerTxType.getD ⟨module, .send⟩ 0)
  let pendingFees ← u64 overflowChecks (fediFee + l.pending)
  .ok { l with
    operationStatus := l.operationStatus.insert operationId (.pendingSend fediFee)
    pendingPerTxType := l.pendingPerTxType.insert ⟨module, .send⟩ pendingTxTypeFees
    pending := pendingFees }

/-- The pending rows of a send operation that ended. -/
def StreamLedger.unpend (l : StreamLedger) (module : ModuleKind) (fediFee : ℕ) : StreamLedger :=
  { l with
    pendingPerTxType :=
      l.pendingPerTxType.insert ⟨module, .send⟩ (l.pendingPerTxType.getD ⟨module, .send⟩ 0 - fediFee)
    pending := l.pending - fediFee }

/-- Only app fees have an accrued total. -/
def addToTotalAccrued (overflowChecks : Bool) (stream : FediFeeStream) (totalAccrued fediFee : ℕ) : Res ℕ :=
  if stream = .app then u64 overflowChecks (fediFee + totalAccrued) else .ok totalAccrued

/-- The rows of a fee that a successful operation owes. -/
def StreamLedger.accrue (overflowChecks : Bool) (stream : FediFeeStream) (l : StreamLedger)
    (operationId : OperationId) (txType : TxType) (fediFee : ℕ) : Res StreamLedger := do
  let outstandingTxTypeFees ← u64 overflowChecks (fediFee + l.outstandingPerTxType.getD txType 0)
  let outstandingFees ← u64 overflowChecks (fediFee + l.outstanding)
  let totalAccruedFees ← addToTotalAccrued overflowChecks stream l.totalAccrued fediFee
  .ok { l with
    operationStatus := l.operationStatus.insert operationId (.success fediFee)
    outstandingPerTxType := l.outstandingPerTxType.insert txType outstandingTxTypeFees
    outstanding := outstandingFees
    totalAccrued := totalAccruedFees }

/-- An operation without a status: it is older than guardian fees, or an error. -/
def missingStatus (stream : FediFeeStream) (l : StreamLedger) : Res (StreamLedger × Bool) :=
  if stream = .guardian then .ok (l, false) else .error (.bail "No operation fedi fee status found!")

def transitionSuccessSendFediFeeInDb (overflowChecks : Bool) (stream : FediFeeStream) (l : StreamLedger)
    (operationId : OperationId) (module : ModuleKind) : Res (StreamLedger × Bool) :=
  match l.operationStatus.get? operationId with
  | some (.pendingSend fediFee) => do
    let l ← (l.unpend module fediFee).accrue overflowChecks stream operationId ⟨module, .send⟩ fediFee
    .ok (l, true)
  | some (.success _) => .ok (l, false)
  | some _ => .error (.bail "Invalid operation fedi fee status found!")
  | none => missingStatus stream l

def transitionFailedSendFediFeeInDb (stream : FediFeeStream) (l : StreamLedger) (operationId : OperationId)
    (module : ModuleKind) : Res (StreamLedger × Bool) :=
  match l.operationStatus.get? operationId with
  | some (.pendingSend fediFee) =>
    let l := l.unpend module fediFee
    .ok ({ l with operationStatus := l.operationStatus.insert operationId (.failedSend fediFee) }, true)
  | some (.failedSend _) => .ok (l, false)
  | some _ => .error (.bail "Invalid operation fedi fee status found!")
  | none => missingStatus stream l

def insertPendingReceiveFediFeePpmInDb (l : StreamLedger) (operationId : OperationId) (fediFeePpm : ℕ) :
    StreamLedger :=
  { l with operationStatus := l.operationStatus.insert operationId (.pendingReceive fediFeePpm) }

def transitionSuccessReceiveFediFeeInDb (overflowChecks : Bool) (stream : FediFeeStream) (l : StreamLedger)
    (operationId : OperationId) (module : ModuleKind) (amount : ℕ) : Res (StreamLedger × Bool) :=
  match l.operationStatus.get? operationId with
  | some (.pendingReceive fediFeePpm) => do
    let fediFee ← receiveFee overflowChecks amount fediFeePpm
    let l ← l.accrue overflowChecks stream operationId ⟨module, .receive⟩ fediFee
    .ok (l, true)
  | some (.success _) => .ok (l, false)
  | some _ => .error (.bail "Invalid operation fedi fee status found!")
  | none => missingStatus stream l

def transitionFailedReceiveFediFeeInDb (stream : FediFeeStream) (l : StreamLedger) (operationId : OperationId) :
    Res (StreamLedger × Bool) :=
  match l.operationStatus.get? operationId with
  | some (.pendingReceive fediFeePpm) =>
    .ok ({ l with operationStatus := l.operationStatus.insert operationId (.failedReceive fediFeePpm) }, true)
  | some (.failedReceive _) => .ok (l, false)
  | some _ => .error (.bail "Invalid operation fedi fee status found!")
  | none => missingStatus stream l

/-! ## Transactions -/

def writePendingSendFediFees (overflowChecks : Bool) (operationId : OperationId) (module : ModuleKind) :
    FediFeeDb → List (FediFeeStream × ℕ) → Res FediFeeDb
  | dbtx, [] => .ok dbtx
  | dbtx, (stream, fediFee) :: feesByStream => do
    let l ← insertPendingSendFediFeeInDb overflowChecks (dbtx.stream stream) operationId module fediFee
    writePendingSendFediFees overflowChecks operationId module (dbtx.setStream stream l) feesByStream

def writePendingReceiveFediFeePpms (operationId : OperationId) :
    FediFeeDb → List (FediFeeStream × ℕ) → FediFeeDb
  | dbtx, [] => dbtx
  | dbtx, (stream, fediFeePpm) :: feePpms =>
    let l := insertPendingReceiveFediFeePpmInDb (dbtx.stream stream) operationId fediFeePpm
    writePendingReceiveFediFeePpms operationId (dbtx.setStream stream l) feePpms

/-- A transition on the rows of the app stream, then on those of the guardian stream. -/
def onBothStreams (dbtx : FediFeeDb)
    (transition : FediFeeStream → StreamLedger → Res (StreamLedger × Bool)) : Res (FediFeeDb × Bool) := do
  let (app, appChanged) ← transition .app dbtx.app
  let (guardian, _) ← transition .guardian dbtx.guardian
  .ok ({ dbtx with app := app, guardian := guardian }, appChanged)

def writeSuccessSendFediFees (overflowChecks : Bool) (dbtx : FediFeeDb) (operationId : OperationId)
    (module : ModuleKind) : Res (FediFeeDb × Bool) :=
  onBothStreams dbtx fun stream l => transitionSuccessSendFediFeeInDb overflowChecks stream l operationId module

def writeFailedSendFediFees (dbtx : FediFeeDb) (operationId : OperationId) (module : ModuleKind) :
    Res (FediFeeDb × Bool) :=
  onBothStreams dbtx fun stream l => transitionFailedSendFediFeeInDb stream l operationId module

def writeSuccessReceiveFediFees (overflowChecks : Bool) (dbtx : FediFeeDb) (operationId : OperationId)
    (module : ModuleKind) (amount : ℕ) : Res (FediFeeDb × Bool) :=
  onBothStreams dbtx fun stream l =>
    transitionSuccessReceiveFediFeeInDb overflowChecks stream l operationId module amount

def writeFailedReceiveFediFees (dbtx : FediFeeDb) (operationId : OperationId) : Res (FediFeeDb × Bool) :=
  onBothStreams dbtx fun stream l => transitionFailedReceiveFediFeeInDb stream l operationId

/-! ## What moves -/

/-- The fee of an operation that succeeded. -/
def OperationFediFeeStatus.successFee : OperationFediFeeStatus → ℕ
  | .success fediFee => fediFee
  | _ => 0

/-- Total of the fees in status `success`. -/
def StreamLedger.successFees (l : StreamLedger) : ℕ := l.operationStatus.sumBy fun _ status => status.successFee

/-- Total of the outstanding rows by module and direction. -/
def StreamLedger.breakdownTotal (l : StreamLedger) : ℕ := l.outstandingPerTxType.sumBy fun _ amount => amount

/-- Outstanding fees, their breakdown and the successful fees grow by the same fee. -/
structure Moves (l l' : StreamLedger) (fee : ℕ) : Prop where
  outstanding : l'.outstanding = l.outstanding + fee
  breakdown : l'.breakdownTotal = l.breakdownTotal + fee
  success : l'.successFees = l.successFees + fee

theorem Moves.refl (l : StreamLedger) : Moves l l 0 := ⟨rfl, rfl, rfl⟩

theorem Moves.trans {l l' l'' : StreamLedger} {fee fee' : ℕ} (h : Moves l l' fee) (h' : Moves l' l'' fee') :
    Moves l l'' (fee + fee') where
  outstanding := by rw [h'.outstanding, h.outstanding, Nat.add_assoc]
  breakdown := by rw [h'.breakdown, h.breakdown, Nat.add_assoc]
  success := by rw [h'.success, h.success, Nat.add_assoc]

/-- The fee that an operation adds when it gets a status in place of the one it had. -/
theorem successFees_insert (statuses : BTreeMap OperationId OperationFediFeeStatus) (operationId : OperationId)
    (status : OperationFediFeeStatus)
    (hold : ∀ fee, statuses.get? operationId = some (.success fee) → fee = 0) :
    (statuses.insert operationId status).sumBy (fun _ s => s.successFee) =
      statuses.sumBy (fun _ s => s.successFee) + status.successFee := by
  have hsum := BTreeMap.sumBy_insert (fun _ s => OperationFediFeeStatus.successFee s) statuses operationId status
  cases hget : statuses.get? operationId with
  | none =>
    rw [hget, Option.elim_none, Nat.add_zero] at hsum
    exact hsum
  | some old =>
    rw [hget, Option.elim_some] at hsum
    have hzero : old.successFee = 0 := by
      cases old with
      | success fee => exact hold fee hget
      | _ => rfl
    rw [hzero, Nat.add_zero] at hsum
    exact hsum

/-- A new status that is no success, of an operation that had none, moves nothing. -/
theorem moves_of_status {l l' : StreamLedger} {operationId : OperationId} {status : OperationFediFeeStatus}
    (hstatus : l'.operationStatus = l.operationStatus.insert operationId status)
    (hquiet : status.successFee = 0)
    (hold : ∀ fee, l.operationStatus.get? operationId = some (.success fee) → fee = 0)
    (houtstanding : l'.outstanding = l.outstanding)
    (hbreakdown : l'.outstandingPerTxType = l.outstandingPerTxType) : Moves l l' 0 where
  outstanding := houtstanding
  breakdown := by
    unfold StreamLedger.breakdownTotal
    rw [hbreakdown]
    rfl
  success := by
    unfold StreamLedger.successFees
    rw [hstatus, successFees_insert _ _ _ hold, hquiet]

theorem accrue_moves {overflowChecks : Bool} {stream : FediFeeStream} {l l' : StreamLedger}
    {operationId : OperationId} {txType : TxType} {fediFee : ℕ}
    (h : l.accrue overflowChecks stream operationId txType fediFee = .ok l')
    (htotal : l.outstanding = l.breakdownTotal)
    (hfits : overflowChecks = false → fediFee + l.outstanding < 2 ^ 64)
    (hold : ∀ fee, l.operationStatus.get? operationId = some (.success fee) → fee = 0) : Moves l l' fediFee := by
  obtain ⟨rowFees, h1, h⟩ := bind_eq_ok.mp h
  obtain ⟨outstandingFees, h2, h⟩ := bind_eq_ok.mp h
  obtain ⟨totalAccruedFees, -, h⟩ := bind_eq_ok.mp h
  cases h
  have hsum := BTreeMap.sumBy_insert_getD (f := fun _ (amount : ℕ) => amount) l.outstandingPerTxType txType rowFees rfl
  have hrow : l.outstandingPerTxType.getD txType 0 ≤ l.breakdownTotal := by
    cases hget : l.outstandingPerTxType.get? txType with
    | none =>
      rw [BTreeMap.getD_of_none hget]
      exact Nat.zero_le _
    | some amount =>
      rw [BTreeMap.getD_of_get? hget]
      exact BTreeMap.le_sumBy (f := fun _ (amount : ℕ) => amount) hget
  have hexact := u64_eq_ok (fun hchecks => by have := hfits hchecks; omega) h1
  refine ⟨?_, ?_, ?_⟩
  · rw [u64_eq_ok hfits h2, Nat.add_comm]
  · unfold StreamLedger.breakdownTotal
    dsimp only at hsum ⊢
    omega
  · unfold StreamLedger.successFees
    exact successFees_insert _ _ _ hold

/-! ## One spec per function -/

section

variable {overflowChecks : Bool} {stream : FediFeeStream} {l l' : StreamLedger} {operationId : OperationId}
  {module : ModuleKind} {changed : Bool}

theorem insertPendingSend_moves {fediFee : ℕ}
    (h : insertPendingSendFediFeeInDb overflowChecks l operationId module fediFee = .ok l')
    (hold : ∀ fee, l.operationStatus.get? operationId = some (.success fee) → fee = 0) : Moves l l' 0 := by
  obtain ⟨pendingTxTypeFees, -, h⟩ := bind_eq_ok.mp h
  obtain ⟨pendingFees, -, h⟩ := bind_eq_ok.mp h
  cases h
  exact moves_of_status rfl rfl hold rfl rfl

theorem insertPendingReceive_moves {fediFeePpm : ℕ}
    (hold : ∀ fee, l.operationStatus.get? operationId = some (.success fee) → fee = 0) :
    Moves l (insertPendingReceiveFediFeePpmInDb l operationId fediFeePpm) 0 :=
  moves_of_status rfl rfl hold rfl rfl

theorem missingStatus_eq (h : missingStatus stream l = .ok (l', changed)) : l' = l := by
  unfold missingStatus at h
  split at h
  · cases h
    rfl
  · cases h

/-- A successful send finds the status it would write, or none, or a pending send. -/
theorem transitionSuccessSend_cases
    (h : transitionSuccessSendFediFeeInDb overflowChecks stream l operationId module = .ok (l', changed)) :
    (l' = l ∧ ∀ status, l.operationStatus.get? operationId = some status → ∃ fee, status = .success fee) ∨
      ∃ fee, l.operationStatus.get? operationId = some (.pendingSend fee) ∧
        (l.unpend module fee).accrue overflowChecks stream operationId ⟨module, .send⟩ fee = .ok l' := by
  unfold transitionSuccessSendFediFeeInDb at h
  cases hget : l.operationStatus.get? operationId with
  | none =>
    rw [hget] at h
    exact .inl ⟨missingStatus_eq h, fun status hstatus => by cases hstatus⟩
  | some status =>
    rw [hget] at h
    cases status with
    | pendingSend fediFee =>
      obtain ⟨l1, h1, h2⟩ := bind_eq_ok.mp h
      cases h2
      exact .inr ⟨fediFee, rfl, h1⟩
    | success fediFee =>
      cases h
      exact .inl ⟨rfl, fun status hstatus => ⟨fediFee, (Option.some.inj hstatus).symm⟩⟩
    | pendingReceive fediFeePpm => cases h
    | failedSend fediFee => cases h
    | failedReceive fediFeePpm => cases h

theorem transitionFailedSend_cases
    (h : transitionFailedSendFediFeeInDb stream l operationId module = .ok (l', changed)) :
    (l' = l ∧ ∀ status, l.operationStatus.get? operationId = some status → ∃ fee, status = .failedSend fee) ∨
      ∃ fee, l.operationStatus.get? operationId = some (.pendingSend fee) ∧
        l' = { l.unpend module fee with
          operationStatus := l.operationStatus.insert operationId (.failedSend fee) } := by
  unfold transitionFailedSendFediFeeInDb at h
  cases hget : l.operationStatus.get? operationId with
  | none =>
    rw [hget] at h
    exact .inl ⟨missingStatus_eq h, fun status hstatus => by cases hstatus⟩
  | some status =>
    rw [hget] at h
    cases status with
    | pendingSend fediFee =>
      cases h
      exact .inr ⟨fediFee, rfl, rfl⟩
    | failedSend fediFee =>
      cases h
      exact .inl ⟨rfl, fun status hstatus => ⟨fediFee, (Option.some.inj hstatus).symm⟩⟩
    | success fediFee => cases h
    | pendingReceive fediFeePpm => cases h
    | failedReceive fediFeePpm => cases h

theorem transitionSuccessReceive_cases {amount : ℕ}
    (h : transitionSuccessReceiveFediFeeInDb overflowChecks stream l operationId module amount = .ok (l', changed)) :
    (l' = l ∧ ∀ status, l.operationStatus.get? operationId = some status → ∃ fee, status = .success fee) ∨
      ∃ ppm fee, l.operationStatus.get? operationId = some (.pendingReceive ppm) ∧
        receiveFee overflowChecks amount ppm = .ok fee ∧
        l.accrue overflowChecks stream operationId ⟨module, .receive⟩ fee = .ok l' := by
  unfold transitionSuccessReceiveFediFeeInDb at h
  cases hget : l.operationStatus.get? operationId with
  | none =>
    rw [hget] at h
    exact .inl ⟨missingStatus_eq h, fun status hstatus => by cases hstatus⟩
  | some status =>
    rw [hget] at h
    cases status with
    | pendingReceive fediFeePpm =>
      obtain ⟨fediFee, hfee, h⟩ := bind_eq_ok.mp h
      obtain ⟨l1, h1, h2⟩ := bind_eq_ok.mp h
      cases h2
      exact .inr ⟨fediFeePpm, fediFee, rfl, hfee, h1⟩
    | success fediFee =>
      cases h
      exact .inl ⟨rfl, fun status hstatus => ⟨fediFee, (Option.some.inj hstatus).symm⟩⟩
    | pendingSend fediFee => cases h
    | failedSend fediFee => cases h
    | failedReceive fediFeePpm => cases h

theorem transitionFailedReceive_cases
    (h : transitionFailedReceiveFediFeeInDb stream l operationId = .ok (l', changed)) :
    (l' = l ∧ ∀ status, l.operationStatus.get? operationId = some status → ∃ ppm, status = .failedReceive ppm) ∨
      ∃ ppm, l.operationStatus.get? operationId = some (.pendingReceive ppm) ∧
        l' = { l with operationStatus := l.operationStatus.insert operationId (.failedReceive ppm) } := by
  unfold transitionFailedReceiveFediFeeInDb at h
  cases hget : l.operationStatus.get? operationId with
  | none =>
    rw [hget] at h
    exact .inl ⟨missingStatus_eq h, fun status hstatus => by cases hstatus⟩
  | some status =>
    rw [hget] at h
    cases status with
    | pendingReceive fediFeePpm =>
      cases h
      exact .inr ⟨fediFeePpm, rfl, rfl⟩
    | failedReceive fediFeePpm =>
      cases h
      exact .inl ⟨rfl, fun status hstatus => ⟨fediFeePpm, (Option.some.inj hstatus).symm⟩⟩
    | success fediFee => cases h
    | pendingSend fediFee => cases h
    | failedSend fediFee => cases h

/-! ### What each moves -/

theorem not_success_of_pending {status : OperationFediFeeStatus}
    (hget : l.operationStatus.get? operationId = some status) (hquiet : ∀ fee, status ≠ .success fee) (fee : ℕ)
    (hsuccess : l.operationStatus.get? operationId = some (.success fee)) : fee = 0 :=
  absurd (Option.some.inj (hget.symm.trans hsuccess)) (hquiet fee)

/-- A successful send adds the fee that was pending. -/
theorem transitionSuccessSend_moves
    (h : transitionSuccessSendFediFeeInDb overflowChecks stream l operationId module = .ok (l', changed))
    (htotal : l.outstanding = l.breakdownTotal)
    (hfits : ∀ fee, l.operationStatus.get? operationId = some (.pendingSend fee) → overflowChecks = false →
      fee + l.outstanding < 2 ^ 64) : ∃ fee, Moves l l' fee := by
  rcases transitionSuccessSend_cases h with ⟨rfl, -⟩ | ⟨fee, hget, haccrue⟩
  · exact ⟨0, .refl _⟩
  · have hmoves := accrue_moves haccrue htotal (hfits fee hget) (not_success_of_pending hget fun _ => by simp)
    exact ⟨fee, hmoves.outstanding, hmoves.breakdown, hmoves.success⟩

theorem transitionFailedSend_moves
    (h : transitionFailedSendFediFeeInDb stream l operationId module = .ok (l', changed)) : Moves l l' 0 := by
  rcases transitionFailedSend_cases h with ⟨rfl, -⟩ | ⟨fee, hget, rfl⟩
  · exact .refl _
  · exact moves_of_status rfl rfl (not_success_of_pending hget fun _ => by simp) rfl rfl

/-- A successful receive adds the fee that its rate gives. -/
theorem transitionSuccessReceive_moves {amount : ℕ}
    (h : transitionSuccessReceiveFediFeeInDb overflowChecks stream l operationId module amount = .ok (l', changed))
    (htotal : l.outstanding = l.breakdownTotal)
    (hfits : ∀ ppm fee, l.operationStatus.get? operationId = some (.pendingReceive ppm) →
      receiveFee overflowChecks amount ppm = .ok fee → overflowChecks = false → fee + l.outstanding < 2 ^ 64) :
    ∃ fee, Moves l l' fee := by
  rcases transitionSuccessReceive_cases h with ⟨rfl, -⟩ | ⟨ppm, fee, hget, hfee, haccrue⟩
  · exact ⟨0, .refl _⟩
  · exact ⟨fee, accrue_moves haccrue htotal (hfits ppm fee hget hfee) (not_success_of_pending hget fun _ => by simp)⟩

theorem transitionFailedReceive_moves
    (h : transitionFailedReceiveFediFeeInDb stream l operationId = .ok (l', changed)) : Moves l l' 0 := by
  rcases transitionFailedReceive_cases h with ⟨rfl, -⟩ | ⟨ppm, hget, rfl⟩
  · exact .refl _
  · exact moves_of_status rfl rfl (not_success_of_pending hget fun _ => by simp) rfl rfl

end

end FediFee
