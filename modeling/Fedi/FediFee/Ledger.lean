import Fedi.FediFee.Remittance

/-!
# Conservation of the guardian fee ledger

Accruals, submissions and callbacks run in transactions of their own, in any order; one that fails
leaves no trace, and a restart keeps the database.  In every state of every run

    outstanding = Σ breakdown
    outstanding + in flight + Σ settled = Σ fees in status success        (conserved_of_run)

and each remittance is in flight, settled once, or restored once, as long as no pending fee is
written over a success.  Nothing checks that: the fee of an operation that is paid for
twice is then counted twice (`reopenedOperation_disagrees`).
-/

namespace FediFee

open BTreeMaps StabilityPool Runs

/-! ## Runs -/

/-- The client database, and the remittances whose callbacks took effect. -/
structure LedgerState where
  client : ClientDb
  settled : List OperationId
  restored : List OperationId

def LedgerState.start : LedgerState := ⟨⟨.empty, .empty⟩, [], []⟩

inductive LedgerCall where
  | pendingSend (operationId : OperationId) (module : ModuleKind) (feesByStream : List (FediFeeStream × ℕ))
  | successSend (operationId : OperationId) (module : ModuleKind)
  | failedSend (operationId : OperationId) (module : ModuleKind)
  | pendingReceive (operationId : OperationId) (feePpms : List (FediFeeStream × ℕ))
  | successReceive (operationId : OperationId) (module : ModuleKind) (amount : ℕ)
  | failedReceive (operationId : OperationId)
  | schedule (x : Submission)
  | remittanceSuccess (operationId : OperationId) (nextDueAt : ℕ)
  | remittanceFailure (operationId : OperationId)

/-- A call and whether its transaction commits. -/
structure LedgerEvent where
  call : LedgerCall
  commits : Bool

def LedgerState.setFees (s : LedgerState) (fees : FediFeeDb) : LedgerState :=
  { s with client := { s.client with fees := fees } }

/-- The transaction of a call. -/
def transact (C : Crypto) (overflowChecks : Bool) (s : LedgerState) : LedgerCall → Res LedgerState
  | .pendingSend operationId module feesByStream =>
    writePendingSendFediFees overflowChecks operationId module s.client.fees feesByStream >>= fun fees =>
      .ok (s.setFees fees)
  | .successSend operationId module =>
    writeSuccessSendFediFees overflowChecks s.client.fees operationId module >>= fun r => .ok (s.setFees r.1)
  | .failedSend operationId module =>
    writeFailedSendFediFees s.client.fees operationId module >>= fun r => .ok (s.setFees r.1)
  | .pendingReceive operationId feePpms =>
    .ok (s.setFees (writePendingReceiveFediFeePpms operationId s.client.fees feePpms))
  | .successReceive operationId module amount =>
    writeSuccessReceiveFediFees overflowChecks s.client.fees operationId module amount >>= fun r =>
      .ok (s.setFees r.1)
  | .failedReceive operationId =>
    writeFailedReceiveFediFees s.client.fees operationId >>= fun r => .ok (s.setFees r.1)
  | .schedule x =>
    maybeScheduleGuardianFeeRemittance C s.client x >>= fun r => .ok { s with client := r.1 }
  | .remittanceSuccess operationId nextDueAt =>
    let r := handleGuardianFeeRemittanceSuccess s.client operationId nextDueAt
    .ok { s with client := r.1, settled := if r.2 then operationId :: s.settled else s.settled }
  | .remittanceFailure operationId =>
    handleGuardianFeeRemittanceFailure s.client operationId >>= fun r =>
      .ok { s with client := r.1, restored := if r.2 then operationId :: s.restored else s.restored }

/-- A transaction that fails, or is not committed, leaves no trace. -/
def ledgerStep (C : Crypto) (overflowChecks : Bool) (s : LedgerState) (e : LedgerEvent) : LedgerState :=
  match transact C overflowChecks s e.call with
  | .ok s' => if e.commits then s' else s
  | .error _ => s

def ledger (C : Crypto) (overflowChecks : Bool) (es : List LedgerEvent) : LedgerState :=
  es.foldl (ledgerStep C overflowChecks) .start

/-! ## What is conserved -/

/-- The amount in the metadata of a remittance. -/
def ClientDb.remitted (client : ClientDb) (operationId : OperationId) : ℕ :=
  (client.operationLog.getD operationId (0, [])).1

/-- The slice that the operation in flight reserves. -/
def ClientDb.inFlight (client : ClientDb) : ℕ :=
  match client.fees.currentGuardianFeeRemittanceOperation with
  | some operationId => client.remitted operationId
  | none => 0

structure Conserved (s : LedgerState) : Prop where
  total : s.client.fees.guardian.outstanding = s.client.fees.guardian.breakdownTotal
  fees : s.client.fees.guardian.outstanding + s.client.inFlight + (s.settled.map s.client.remitted).sum =
    s.client.fees.guardian.successFees
  /-- A remittance that is neither settled nor restored is the one in flight, and that one is neither. -/
  oneInFlight : ∀ operationId, s.client.fees.currentGuardianFeeRemittanceOperation = some operationId ↔
    operationId ∈ s.client.operationLog.keys ∧ operationId ∉ s.settled ∧ operationId ∉ s.restored
  settledOnce : s.settled.Nodup
  restoredOnce : s.restored.Nodup
  neverBoth : ∀ operationId ∈ s.settled, operationId ∉ s.restored

/-! ## Conditions -/

/-- The operation that a call opens. -/
def LedgerCall.opens : LedgerCall → Option OperationId
  | .pendingSend operationId _ _ => some operationId
  | .pendingReceive operationId _ => some operationId
  | _ => none

/-- The guardian fee that a call adds to the outstanding fees. -/
def LedgerCall.accruesFee (overflowChecks : Bool) (l : StreamLedger) : LedgerCall → Option ℕ
  | .successSend operationId _ =>
    match l.operationStatus.get? operationId with
    | some (.pendingSend fediFee) => some fediFee
    | _ => none
  | .successReceive operationId _ amount =>
    match l.operationStatus.get? operationId with
    | some (.pendingReceive fediFeePpm) => (receiveFee overflowChecks amount fediFeePpm).toOption
    | _ => none
  | _ => none

/-- Operations are new when their pending fees are written and committed: none has succeeded yet. -/
def NewOperations (C : Crypto) (overflowChecks : Bool) (es : List LedgerEvent) : Prop :=
  ∀ before e after, es = before ++ e :: after → e.commits = true → ∀ operationId, e.call.opens = some operationId → ∀ fee,
    (ledger C overflowChecks before).client.fees.guardian.operationStatus.get? operationId ≠ some (.success fee)

/-- What accrues and what is outstanding is an amount of msats. -/
def FitsAmount (C : Crypto) (overflowChecks : Bool) (es : List LedgerEvent) : Prop :=
  ∀ before e after, es = before ++ e :: after → e.commits = true → ∀ fee,
    e.call.accruesFee overflowChecks (ledger C overflowChecks before).client.fees.guardian = some fee →
      fee + (ledger C overflowChecks before).client.fees.guardian.outstanding < 2 ^ 64

/-! ## Invariant -/

structure Inv (s : LedgerState) : Prop where
  conserved : Conserved s
  /-- The metadata of a remittance adds up, with one item a row. -/
  slices : ∀ operationId amount snapshot, s.client.operationLog.get? operationId = some (amount, snapshot) →
    amount = total snapshot ∧ (snapshot.map fun item => item.txType).Nodup
  known : ∀ operationId, operationId ∈ s.settled ∨ operationId ∈ s.restored →
    operationId ∈ s.client.operationLog.keys

theorem inv_start : Inv .start where
  conserved := by
    refine ⟨rfl, rfl, fun operationId => ⟨fun h => (by cases h), fun h => ?_⟩, List.nodup_nil, List.nodup_nil,
      fun _ h => (by cases h)⟩
    exact absurd h.1 List.not_mem_nil
  slices := fun _ _ _ h => (by cases h)
  known := fun _ h => (by simp [LedgerState.start] at h)

/-! ### Accruals -/

section

variable {s : LedgerState}

/-- A transaction that moves a fee, and leaves the marker alone, conserves. -/
theorem Inv.moves (h : Inv s) {fees : FediFeeDb} {fee : ℕ} (hmoves : Moves s.client.fees.guardian fees.guardian fee)
    (hcurrent : fees.currentGuardianFeeRemittanceOperation =
      s.client.fees.currentGuardianFeeRemittanceOperation) : Inv (s.setFees fees) where
  conserved := by
    have hslice : (s.setFees fees).client.inFlight = s.client.inFlight := by
      unfold ClientDb.inFlight
      rw [show (s.setFees fees).client.fees = fees from rfl, hcurrent]
      rfl
    refine ⟨?_, ?_, ?_, h.conserved.settledOnce, h.conserved.restoredOnce, h.conserved.neverBoth⟩
    · show fees.guardian.outstanding = fees.guardian.breakdownTotal
      rw [hmoves.outstanding, hmoves.breakdown, h.conserved.total]
    · have hfees := h.conserved.fees
      rw [hslice]
      show fees.guardian.outstanding + s.client.inFlight + (s.settled.map s.client.remitted).sum =
        fees.guardian.successFees
      rw [hmoves.outstanding, hmoves.success, ← hfees]
      omega
    · intro operationId
      show fees.currentGuardianFeeRemittanceOperation = some operationId ↔ _
      rw [hcurrent]
      exact h.conserved.oneInFlight operationId
  slices := h.slices
  known := h.known

theorem writePendingSend_spec {overflowChecks : Bool} {operationId : OperationId} {module : ModuleKind}
    {feesByStream : List (FediFeeStream × ℕ)} {dbtx dbtx' : FediFeeDb}
    (h : writePendingSendFediFees overflowChecks operationId module dbtx feesByStream = .ok dbtx')
    (hold : ∀ fee, dbtx.guardian.operationStatus.get? operationId = some (.success fee) → fee = 0) :
    Moves dbtx.guardian dbtx'.guardian 0 ∧
      dbtx'.currentGuardianFeeRemittanceOperation = dbtx.currentGuardianFeeRemittanceOperation := by
  induction feesByStream generalizing dbtx with
  | nil =>
    cases h
    exact ⟨.refl _, rfl⟩
  | cons a feesByStream ih =>
    obtain ⟨stream, fediFee⟩ := a
    obtain ⟨l, hl, h⟩ := bind_eq_ok.mp h
    cases stream with
    | app => exact @ih (dbtx.setStream .app l) h hold
    | guardian =>
      have hmoves := insertPendingSend_moves hl hold
      have hpending : ∀ fee, l.operationStatus.get? operationId = some (.success fee) → fee = 0 := by
        obtain ⟨_, -, hl⟩ := bind_eq_ok.mp hl
        obtain ⟨_, -, hl⟩ := bind_eq_ok.mp hl
        cases hl
        intro fee hsuccess
        rw [BTreeMap.get?_insert_self] at hsuccess
        cases hsuccess
      obtain ⟨hrest, hcurrent⟩ := ih h hpending
      exact ⟨hmoves.trans hrest, hcurrent⟩

theorem writePendingReceive_spec {operationId : OperationId} {feePpms : List (FediFeeStream × ℕ)}
    {dbtx : FediFeeDb}
    (hold : ∀ fee, dbtx.guardian.operationStatus.get? operationId = some (.success fee) → fee = 0) :
    Moves dbtx.guardian (writePendingReceiveFediFeePpms operationId dbtx feePpms).guardian 0 ∧
      (writePendingReceiveFediFeePpms operationId dbtx feePpms).currentGuardianFeeRemittanceOperation =
        dbtx.currentGuardianFeeRemittanceOperation := by
  induction feePpms generalizing dbtx with
  | nil => exact ⟨.refl _, rfl⟩
  | cons a feePpms ih =>
    obtain ⟨stream, fediFeePpm⟩ := a
    cases stream with
    | app =>
      exact @ih (dbtx.setStream .app (insertPendingReceiveFediFeePpmInDb dbtx.app operationId fediFeePpm)) hold
    | guardian =>
      have hmoves : Moves dbtx.guardian (insertPendingReceiveFediFeePpmInDb dbtx.guardian operationId fediFeePpm) 0 :=
        insertPendingReceive_moves hold
      have hpending : ∀ fee, (insertPendingReceiveFediFeePpmInDb dbtx.guardian operationId
          fediFeePpm).operationStatus.get? operationId = some (.success fee) → fee = 0 := by
        intro fee hsuccess
        unfold insertPendingReceiveFediFeePpmInDb at hsuccess
        rw [BTreeMap.get?_insert_self] at hsuccess
        cases hsuccess
      obtain ⟨hrest, hcurrent⟩ := @ih (dbtx.setStream .guardian
        (insertPendingReceiveFediFeePpmInDb dbtx.guardian operationId fediFeePpm)) hpending
      exact ⟨hmoves.trans hrest, hcurrent⟩

/-- What a transition of both streams does to the guardian stream. -/
theorem onBothStreams_guardian {transition : FediFeeStream → StreamLedger → Res (StreamLedger × Bool)}
    {dbtx : FediFeeDb} {r : FediFeeDb × Bool} (h : onBothStreams dbtx transition = .ok r) :
    (∃ changed, transition .guardian dbtx.guardian = .ok (r.1.guardian, changed)) ∧
      r.1.currentGuardianFeeRemittanceOperation = dbtx.currentGuardianFeeRemittanceOperation := by
  obtain ⟨app, -, h⟩ := bind_eq_ok.mp h
  obtain ⟨guardian, hguardian, h⟩ := bind_eq_ok.mp h
  cases h
  exact ⟨⟨guardian.2, hguardian⟩, rfl⟩

/-! ### Remittances -/

/-- A submission leaves the fees alone, or reserves a slice for a new operation. -/
theorem schedule_spec {C : Crypto} {client client' : ClientDb} {x : Submission} {result : SubmissionResult}
    (h : maybeScheduleGuardianFeeRemittance C client x = .ok (client', result)) :
    (client'.operationLog = client.operationLog ∧ Moves client.fees.guardian client'.fees.guardian 0 ∧
        client'.fees.currentGuardianFeeRemittanceOperation = client.fees.currentGuardianFeeRemittanceOperation) ∨
      ∃ amount snapshot, client.fees.currentGuardianFeeRemittanceOperation = none ∧
        client.operationLog.get? x.operationId = none ∧
        client'.operationLog = client.operationLog.insert x.operationId (amount, snapshot) ∧
        amount = total snapshot ∧ (snapshot.map fun item => item.txType).Nodup ∧
        Reserves client.fees.guardian client'.fees.guardian amount ∧
        client'.fees.currentGuardianFeeRemittanceOperation = some x.operationId := by
  unfold maybeScheduleGuardianFeeRemittance at h
  split at h
  · cases h
    exact .inl ⟨rfl, .refl _, rfl⟩
  next hcurrent =>
    split at h
    · cases h
      exact .inl ⟨rfl, .refl _, rfl⟩
    · split at h
      · cases h
        exact .inl ⟨rfl, ⟨rfl, rfl, rfl⟩, rfl⟩
      · split at h
        · cases h
          exact .inl ⟨rfl, .refl _, rfl⟩
        · obtain ⟨breakdownTotal, -, h⟩ := bind_eq_ok.mp h
          obtain ⟨_, -, h⟩ := bind_eq_ok.mp h
          obtain ⟨plan, hplan, h⟩ := bind_eq_ok.mp h
          cases plan with
          | none =>
            cases h
            exact .inl ⟨rfl, .refl _, rfl⟩
          | some plan =>
            obtain ⟨operationLog, hdeposit, h⟩ := bind_eq_ok.mp h
            obtain ⟨fees, hreserve, h⟩ := bind_eq_ok.mp h
            cases h
            obtain ⟨_, -, hdeposit⟩ := bind_eq_ok.mp hdeposit
            obtain ⟨_, -, hdeposit⟩ := bind_eq_ok.mp hdeposit
            obtain ⟨_, -, hdeposit⟩ := bind_eq_ok.mp hdeposit
            obtain ⟨amount, hamount, hdeposit⟩ := bind_eq_ok.mp hdeposit
            obtain ⟨_, hnew, hdeposit⟩ := bind_eq_ok.mp hdeposit
            cases hdeposit
            have hfits := planGuardianFeeRemittance_fits hplan
            have hkeys := List.Nodup.sublist hfits.keys (outstandingBreakdown_keys client.fees.guardian)
            have heq : amount = plan.amount := by
              rw [checkedAmountSum_eq hamount, Nat.zero_add, hfits.recipients]
            obtain ⟨hreserves, hmarker⟩ := reserve_spec hreserve hfits.amount hkeys
            rw [← heq] at hreserves
            exact .inr ⟨amount, plan.snapshot, by simpa using hcurrent, (ensure_eq_ok.mp hnew).1, rfl,
              heq.trans hfits.amount, hkeys, hreserves, hmarker⟩

theorem remitted_of_get? {client : ClientDb} {operationId : OperationId} {amount : ℕ} {snapshot : Snapshot}
    (h : client.operationLog.get? operationId = some (amount, snapshot)) : client.remitted operationId = amount := by
  unfold ClientDb.remitted
  rw [BTreeMap.getD_of_get? h]

/-- A new operation takes its slice into flight. -/
theorem Inv.reserve (h : Inv s) {fees : FediFeeDb} {operationId : OperationId} {amount : ℕ} {snapshot : Snapshot}
    (hcurrent : s.client.fees.currentGuardianFeeRemittanceOperation = none)
    (hnew : s.client.operationLog.get? operationId = none) (hamount : amount = total snapshot)
    (hkeys : (snapshot.map fun item => item.txType).Nodup)
    (hreserves : Reserves s.client.fees.guardian fees.guardian amount)
    (hmarker : fees.currentGuardianFeeRemittanceOperation = some operationId) :
    Inv { s with client := ⟨fees, s.client.operationLog.insert operationId (amount, snapshot)⟩ } where
  conserved := by
    have hfresh : operationId ∉ s.client.operationLog.keys := BTreeMap.get?_eq_none.mp hnew
    have hslice : s.client.inFlight = 0 := by
      unfold ClientDb.inFlight
      rw [hcurrent]
    have hnewSlice : ClientDb.inFlight ⟨fees, s.client.operationLog.insert operationId (amount, snapshot)⟩ =
        amount := by
      unfold ClientDb.inFlight
      rw [hmarker]
      exact remitted_of_get? (BTreeMap.get?_insert_self _ _ _)
    have hsettled : (s.settled.map
        (ClientDb.remitted ⟨fees, s.client.operationLog.insert operationId (amount, snapshot)⟩)) =
          s.settled.map s.client.remitted := by
      refine List.map_congr_left fun op hop => ?_
      unfold ClientDb.remitted
      rw [BTreeMap.getD_insert_ne _ _ _ fun (heq : op = operationId) => hfresh (heq ▸ h.known op (.inl hop))]
    refine ⟨?_, ?_, ?_, h.conserved.settledOnce, h.conserved.restoredOnce, h.conserved.neverBoth⟩
    · have htotal := h.conserved.total
      have houtstanding := hreserves.outstanding
      have hbreakdown := hreserves.breakdown
      show fees.guardian.outstanding = fees.guardian.breakdownTotal
      omega
    · have hfees := h.conserved.fees
      have houtstanding := hreserves.outstanding
      dsimp only
      rw [hnewSlice, hsettled, hreserves.success]
      omega
    · intro op
      show fees.currentGuardianFeeRemittanceOperation = some op ↔
        op ∈ (s.client.operationLog.insert operationId (amount, snapshot)).keys ∧ op ∉ s.settled ∧ op ∉ s.restored
      rw [hmarker, Option.some.injEq, BTreeMap.mem_keys_insert]
      constructor
      · rintro rfl
        exact ⟨.inl rfl, fun hop => hfresh (h.known _ (.inl hop)), fun hop => hfresh (h.known _ (.inr hop))⟩
      · rintro ⟨rfl | hop, hsettledOp, hrestoredOp⟩
        · rfl
        · have hold := (h.conserved.oneInFlight op).mpr ⟨hop, hsettledOp, hrestoredOp⟩
          rw [hcurrent] at hold
          cases hold
  slices := by
    intro op amount' snapshot' hget
    dsimp only at hget
    rw [BTreeMap.get?_insert] at hget
    split at hget
    · cases hget
      exact ⟨hamount, hkeys⟩
    · exact h.slices op amount' snapshot' hget
  known := by
    intro op hop
    exact BTreeMap.mem_keys_insert.mpr (.inr (h.known op hop))

/-- The operation in flight is in the log, and no callback of it took effect. -/
theorem Inv.inFlight (h : Inv s) {operationId : OperationId}
    (hcurrent : s.client.fees.currentGuardianFeeRemittanceOperation = some operationId) :
    s.client.inFlight = s.client.remitted operationId ∧ operationId ∈ s.client.operationLog.keys ∧
      operationId ∉ s.settled ∧ operationId ∉ s.restored := by
  refine ⟨?_, (h.conserved.oneInFlight operationId).mp hcurrent⟩
  unfold ClientDb.inFlight
  rw [hcurrent]

/-- A marker that is cleared leaves nothing in flight. -/
theorem oneInFlight_cleared (h : Inv s) {operationId : OperationId}
    (hcurrent : s.client.fees.currentGuardianFeeRemittanceOperation = some operationId)
    {fees : FediFeeDb} (hmarker : fees.currentGuardianFeeRemittanceOperation = none) (op : OperationId) :
    fees.currentGuardianFeeRemittanceOperation = some op ↔
      op ∈ s.client.operationLog.keys ∧ (op ∉ s.settled ∧ op ∉ s.restored) ∧ op ≠ operationId := by
  rw [hmarker]
  constructor
  · intro hop
    cases hop
  · rintro ⟨hkeys, ⟨hsettled, hrestored⟩, hne⟩
    have hold := (h.conserved.oneInFlight op).mpr ⟨hkeys, hsettled, hrestored⟩
    rw [hcurrent] at hold
    exact absurd (Option.some.inj hold).symm hne

/-- An accepted operation is settled once. -/
theorem Inv.settle (h : Inv s) {fees : FediFeeDb} {operationId : OperationId}
    (hcurrent : s.client.fees.currentGuardianFeeRemittanceOperation = some operationId)
    (hreserves : Reserves fees.guardian s.client.fees.guardian 0)
    (hmarker : fees.currentGuardianFeeRemittanceOperation = none) :
    Inv { s with client := { s.client with fees := fees }, settled := operationId :: s.settled } where
  conserved := by
    obtain ⟨hslice, hkeys, hsettled, hrestored⟩ := h.inFlight hcurrent
    refine ⟨?_, ?_, ?_, List.nodup_cons.mpr ⟨hsettled, h.conserved.settledOnce⟩, h.conserved.restoredOnce, ?_⟩
    · have htotal := h.conserved.total
      have houtstanding := hreserves.outstanding
      have hbreakdown := hreserves.breakdown
      show fees.guardian.outstanding = fees.guardian.breakdownTotal
      omega
    · have hfees := h.conserved.fees
      have houtstanding := hreserves.outstanding
      have hnone : ClientDb.inFlight { s.client with fees := fees } = 0 := by
        unfold ClientDb.inFlight
        rw [hmarker]
      show fees.guardian.outstanding + ClientDb.inFlight { s.client with fees := fees } +
        (s.client.remitted operationId + (s.settled.map s.client.remitted).sum) = fees.guardian.successFees
      rw [hnone, ← hreserves.success]
      omega
    · intro op
      show fees.currentGuardianFeeRemittanceOperation = some op ↔
        op ∈ s.client.operationLog.keys ∧ op ∉ operationId :: s.settled ∧ op ∉ s.restored
      rw [oneInFlight_cleared h hcurrent hmarker, List.mem_cons, not_or]
      tauto
    · intro op hop
      rcases List.mem_cons.mp hop with rfl | hop
      · exact hrestored
      · exact h.conserved.neverBoth op hop
  slices := h.slices
  known := by
    intro op hop
    rcases hop with hop | hop
    · rcases List.mem_cons.mp hop with rfl | hop
      · exact (h.inFlight hcurrent).2.1
      · exact h.known op (.inl hop)
    · exact h.known op (.inr hop)

/-- A rejected operation gives its slice back, once. -/
theorem Inv.restore (h : Inv s) {fees : FediFeeDb} {operationId : OperationId}
    (hcurrent : s.client.fees.currentGuardianFeeRemittanceOperation = some operationId)
    (hreserves : Reserves fees.guardian s.client.fees.guardian (s.client.remitted operationId))
    (hmarker : fees.currentGuardianFeeRemittanceOperation = none) :
    Inv { s with client := { s.client with fees := fees }, restored := operationId :: s.restored } where
  conserved := by
    obtain ⟨hslice, hkeys, hsettled, hrestored⟩ := h.inFlight hcurrent
    refine ⟨?_, ?_, ?_, h.conserved.settledOnce, List.nodup_cons.mpr ⟨hrestored, h.conserved.restoredOnce⟩, ?_⟩
    · have htotal := h.conserved.total
      have houtstanding := hreserves.outstanding
      have hbreakdown := hreserves.breakdown
      show fees.guardian.outstanding = fees.guardian.breakdownTotal
      omega
    · have hfees := h.conserved.fees
      have houtstanding := hreserves.outstanding
      have hnone : ClientDb.inFlight { s.client with fees := fees } = 0 := by
        unfold ClientDb.inFlight
        rw [hmarker]
      show fees.guardian.outstanding + ClientDb.inFlight { s.client with fees := fees } +
        (s.settled.map s.client.remitted).sum = fees.guardian.successFees
      rw [hnone, ← hreserves.success]
      omega
    · intro op
      show fees.currentGuardianFeeRemittanceOperation = some op ↔
        op ∈ s.client.operationLog.keys ∧ op ∉ s.settled ∧ op ∉ operationId :: s.restored
      rw [oneInFlight_cleared h hcurrent hmarker, List.mem_cons, not_or]
      tauto
    · intro op hop hboth
      rcases List.mem_cons.mp hboth with rfl | hboth
      · exact hsettled hop
      · exact h.conserved.neverBoth op hop hboth
  slices := h.slices
  known := by
    intro op hop
    rcases hop with hop | hop
    · exact h.known op (.inl hop)
    · rcases List.mem_cons.mp hop with rfl | hop
      · exact (h.inFlight hcurrent).2.1
      · exact h.known op (.inr hop)

/-! ### Runs -/

/-- The conditions on one event. -/
structure Provided (overflowChecks : Bool) (l : StreamLedger) (call : LedgerCall) : Prop where
  opens : ∀ operationId, call.opens = some operationId → ∀ fee,
    l.operationStatus.get? operationId ≠ some (.success fee)
  fits : overflowChecks = false → ∀ fee, call.accruesFee overflowChecks l = some fee → fee + l.outstanding < 2 ^ 64

/-- Each transaction keeps the invariant. -/
theorem transact_inv {C : Crypto} {overflowChecks : Bool} {call : LedgerCall} {s' : LedgerState} (h : Inv s)
    (hprovided : Provided overflowChecks s.client.fees.guardian call)
    (hstep : transact C overflowChecks s call = .ok s') : Inv s' := by
  cases call with
  | pendingSend operationId module feesByStream =>
    obtain ⟨fees, hfees, hstep⟩ := bind_eq_ok.mp hstep
    cases hstep
    obtain ⟨hmoves, hcurrent⟩ := writePendingSend_spec hfees fun fee hsuccess =>
      absurd hsuccess (hprovided.opens operationId rfl fee)
    exact h.moves hmoves hcurrent
  | successSend operationId module =>
    obtain ⟨r, hr, hstep⟩ := bind_eq_ok.mp hstep
    cases hstep
    obtain ⟨⟨changed, hguardian⟩, hcurrent⟩ := onBothStreams_guardian hr
    obtain ⟨fee, hmoves⟩ := transitionSuccessSend_moves hguardian h.conserved.total fun fee hpending hchecks =>
      hprovided.fits hchecks fee (by simp [LedgerCall.accruesFee, hpending])
    exact h.moves hmoves hcurrent
  | failedSend operationId module =>
    obtain ⟨r, hr, hstep⟩ := bind_eq_ok.mp hstep
    cases hstep
    obtain ⟨⟨changed, hguardian⟩, hcurrent⟩ := onBothStreams_guardian hr
    exact h.moves (transitionFailedSend_moves hguardian) hcurrent
  | pendingReceive operationId feePpms =>
    cases hstep
    obtain ⟨hmoves, hcurrent⟩ := @writePendingReceive_spec operationId feePpms s.client.fees
      fun fee hsuccess => absurd hsuccess (hprovided.opens operationId rfl fee)
    exact h.moves hmoves hcurrent
  | successReceive operationId module amount =>
    obtain ⟨r, hr, hstep⟩ := bind_eq_ok.mp hstep
    cases hstep
    obtain ⟨⟨changed, hguardian⟩, hcurrent⟩ := onBothStreams_guardian hr
    obtain ⟨fee, hmoves⟩ := transitionSuccessReceive_moves hguardian h.conserved.total
      fun ppm fee hpending hfee hchecks =>
        hprovided.fits hchecks fee (by simp [LedgerCall.accruesFee, hpending, hfee, Except.toOption])
    exact h.moves hmoves hcurrent
  | failedReceive operationId =>
    obtain ⟨r, hr, hstep⟩ := bind_eq_ok.mp hstep
    cases hstep
    obtain ⟨⟨changed, hguardian⟩, hcurrent⟩ := onBothStreams_guardian hr
    exact h.moves (transitionFailedReceive_moves hguardian) hcurrent
  | schedule x =>
    obtain ⟨⟨client, result⟩, hr, hstep⟩ := bind_eq_ok.mp hstep
    cases hstep
    obtain ⟨fees, operationLog⟩ := client
    rcases schedule_spec hr with ⟨hlog, hmoves, hcurrent⟩ |
      ⟨amount, snapshot, hnone, hnew, hlog, hamount, hkeys, hreserves, hmarker⟩
    · have hlog : operationLog = s.client.operationLog := hlog
      subst hlog
      exact h.moves hmoves hcurrent
    · have hlog : operationLog = s.client.operationLog.insert x.operationId (amount, snapshot) := hlog
      subst hlog
      exact h.reserve hnone hnew hamount hkeys hreserves hmarker
  | remittanceSuccess operationId nextDueAt =>
    cases hr : settleGuardianFeeRemittanceDbtx s.client.fees operationId nextDueAt with
    | mk fees settled =>
      simp only [transact, handleGuardianFeeRemittanceSuccess, hr] at hstep
      cases hstep
      rcases settle_spec hr with ⟨rfl, rfl⟩ | ⟨rfl, hcurrent, hreserves, hmarker⟩
      · exact h
      · exact h.settle hcurrent hreserves hmarker
  | remittanceFailure operationId =>
    obtain ⟨⟨client, restored⟩, hr, hstep⟩ := bind_eq_ok.mp hstep
    cases hstep
    unfold handleGuardianFeeRemittanceFailure at hr
    cases hget : s.client.operationLog.get? operationId with
    | none =>
      rw [hget] at hr
      cases hr
      exact h
    | some reserved =>
      obtain ⟨amount, snapshot⟩ := reserved
      rw [hget] at hr
      obtain ⟨⟨fees, restored'⟩, hrestore, hr⟩ := bind_eq_ok.mp hr
      cases hr
      rcases restore_spec hrestore fun _ => h.slices operationId amount snapshot hget with
        ⟨rfl, rfl⟩ | ⟨rfl, hcurrent, hreserves, hmarker⟩
      · exact h
      · rw [← remitted_of_get? hget] at hreserves
        exact h.restore hcurrent hreserves hmarker

theorem ledgerStep_inv {C : Crypto} {overflowChecks : Bool} {e : LedgerEvent} (h : Inv s)
    (hprovided : e.commits = true → Provided overflowChecks s.client.fees.guardian e.call) :
    Inv (ledgerStep C overflowChecks s e) := by
  unfold ledgerStep
  split
  next s' hs' =>
    split
    next hcommits => exact transact_inv h (hprovided hcommits) hs'
    next => exact h
  next => exact h

end

/-- The guardian fee ledger is conserved in every state of every run. -/
theorem conserved_of_run (C : Crypto) (overflowChecks : Bool) (es : List LedgerEvent)
    (hnew : NewOperations C overflowChecks es) (hfits : overflowChecks = false → FitsAmount C overflowChecks es) :
    Conserved (ledger C overflowChecks es) := by
  have hinv : Inv (ledger C overflowChecks es) := by
    induction es using List.reverseRecOn with
    | nil => exact inv_start
    | append_singleton es e ih =>
      have hsplit (before : List LedgerEvent) (e' : LedgerEvent) (after : List LedgerEvent)
          (hes : es = before ++ e' :: after) : es ++ [e] = before ++ e' :: (after ++ [e]) := by
        rw [hes, List.append_assoc, List.cons_append]
      have hbefore := ih (fun before e' after hes => hnew before e' _ (hsplit before e' after hes))
        fun hchecks before e' after hes => hfits hchecks before e' _ (hsplit before e' after hes)
      unfold ledger at hbefore ⊢
      rw [List.foldl_append]
      exact ledgerStep_inv hbefore fun hcommits =>
        ⟨hnew es e [] rfl hcommits, fun hchecks => hfits hchecks es e [] rfl hcommits⟩
  exact hinv.conserved

/-! ## One remittance -/

def demoHashes : Crypto where
  accountHash := fun account => account.pubKeys.sum
  requestHash := fun request => request.nonce
  xOnlyPublicKey := id
  verify := fun _ _ _ => true

def demoSubmission (operationId : OperationId) (now : ℕ) : Submission where
  operationId := operationId
  now := now
  nextDueAt := 10
  recipients := [⟨.single 5 .btcDepositor, 2⟩, ⟨.single 6 .btcDepositor, 1⟩]
  minAllowedSeek := 100
  funded := true

/-- Operation 1 pays a fee of 1000, of which 999 are remitted to two recipients; a late callback
says that the remittance was rejected. -/
def demoLedger : List LedgerEvent :=
  [⟨.pendingSend 1 7 [(.app, 50), (.guardian, 1000)], true⟩, ⟨.successSend 1 7, true⟩,
    ⟨.schedule (demoSubmission 100 0), true⟩, ⟨.schedule (demoSubmission 101 20), false⟩,
    ⟨.schedule (demoSubmission 102 30), true⟩, ⟨.remittanceSuccess 102 40, true⟩,
    ⟨.remittanceFailure 102, true⟩]

theorem demoLedger_newOperations : NewOperations demoHashes false demoLedger := by
  refine forall_splits_cons ?_ (forall_splits_cons ?_ (forall_splits_cons ?_ (forall_splits_cons ?_
    (forall_splits_cons ?_ (forall_splits_cons ?_ (forall_splits_cons ?_ forall_splits_nil))))))
  · intro _ operationId hopens fee hsuccess
    cases hsuccess
  all_goals
    intro _ operationId hopens
    cases hopens

theorem demoLedger_fitsAmount : FitsAmount demoHashes false demoLedger := by
  refine forall_splits_cons ?_ (forall_splits_cons ?_ (forall_splits_cons ?_ (forall_splits_cons ?_
    (forall_splits_cons ?_ (forall_splits_cons ?_ (forall_splits_cons ?_ forall_splits_nil))))))
  rotate_left
  · have hfee : (LedgerCall.successSend 1 7).accruesFee false
        (ledger demoHashes false (demoLedger.take 1)).client.fees.guardian = some 1000 := by decide +kernel
    intro _ fee haccrues
    cases hfee.symm.trans haccrues
    decide +kernel
  all_goals
    intro _ fee haccrues
    cases haccrues

theorem conserved_of_run_demo : Conserved (ledger demoHashes false demoLedger) ∧
    (ledger demoHashes false demoLedger).client.fees.guardian.outstanding = 1 ∧
    (ledger demoHashes false demoLedger).settled = [102] :=
  ⟨conserved_of_run demoHashes false demoLedger demoLedger_newOperations fun _ => demoLedger_fitsAmount,
    by decide +kernel, by decide +kernel⟩

/-- Operation 1 is opened again after its success. -/
def demoReopened : List LedgerEvent :=
  [⟨.pendingSend 1 7 [(.app, 50), (.guardian, 1000)], true⟩, ⟨.successSend 1 7, true⟩,
    ⟨.pendingSend 1 7 [(.app, 50), (.guardian, 1000)], true⟩, ⟨.successSend 1 7, true⟩]

/-- The fee of an operation that succeeds twice is outstanding twice. -/
theorem reopenedOperation_disagrees :
    (ledger demoHashes false demoReopened).client.fees.guardian.outstanding = 2000 ∧
      (ledger demoHashes false demoReopened).client.fees.guardian.successFees = 1000 ∧
      ¬ Conserved (ledger demoHashes false demoReopened) ∧ ¬ Conserved (ledger demoHashes true demoReopened) := by
  refine ⟨by decide +kernel, by decide +kernel, ?_, ?_⟩
  · intro h
    have hfees := h.fees
    exact absurd hfees (by decide +kernel)
  · intro h
    have hfees := h.fees
    exact absurd hfees (by decide +kernel)

end FediFee
