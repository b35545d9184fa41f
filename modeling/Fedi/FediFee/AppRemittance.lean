import Fedi.FediFee.Remittance
import Fedi.FediFee.StatusLedger

/-!
# Remittance of app fees (`fedi_fee/app.rs`)

One task at a time takes a snapshot of the outstanding breakdown, and pays an invoice for it:

    check → report → decrement → payment → restore, if the payment is refused
              ↑ retried, five times at most, with the same snapshot

Fees accrue at any moment in between, and the process may stop.  Outstanding fees, fees in flight and
fees paid add up to the successful fees (`remitted_of_run`) as long as it does not stop between the
decrement and the outcome of the payment (`stoppedBeforePayment_drops`), and the invoice and the
gateway's fee for it use up what was decremented (`splits_announced_iff`, `roundedInvoice_drops`).
-/

namespace FediFee

open BTreeMaps Runs

/-! ## Breakdown -/

/-- The total of a breakdown, as a sum of amounts. -/
def sumAmounts (overflowChecks : Bool) : ℕ → List ℕ → Res ℕ
  | sum, [] => .ok sum
  | sum, amount :: amounts => u64 overflowChecks (sum + amount) >>= fun sum => sumAmounts overflowChecks sum amounts

def currentAppFeeBreakdown (overflowChecks : Bool) (l : StreamLedger) : Res (ℕ × Snapshot) := do
  let breakdown := outstandingBreakdown l
  let breakdownTotal ← sumAmounts overflowChecks 0 (breakdown.map fun item => item.amount)
  ensure (breakdownTotal = l.outstanding)
    s!"app fee outstanding breakdown mismatch: {breakdownTotal} != {l.outstanding}"
  .ok (l.outstanding, breakdown)

/-- A total or row less a snapshot, or with it. -/
def shiftAmount (overflowChecks subtract : Bool) (current amount : ℕ) : Res ℕ :=
  if subtract then .ok (current - amount) else u64 overflowChecks (current + amount)

def shiftRows (overflowChecks subtract : Bool) : BTreeMap TxType ℕ → Snapshot → Res (BTreeMap TxType ℕ)
  | rows, [] => .ok rows
  | rows, item :: breakdown => do
    let newValue ← shiftAmount overflowChecks subtract (rows.getD item.txType 0) item.amount
    shiftRows overflowChecks subtract (rows.insert item.txType newValue) breakdown

def applyAppBreakdownToOutstanding (overflowChecks : Bool) (l : StreamLedger) (breakdown : Snapshot) (total : ℕ)
    (subtract : Bool) : Res StreamLedger := do
  let newTotal ← shiftAmount overflowChecks subtract l.outstanding total
  let rows ← shiftRows overflowChecks subtract l.outstandingPerTxType breakdown
  .ok { l with outstanding := newTotal, outstandingPerTxType := rows }

/-! ## Attempts -/

structure GatewayFees where
  base : ℕ
  ppm : ℕ

/-- What an invoice may ask for, such that the gateway's fees are paid from the rest. -/
def feeRemittanceInvoiceAmount (overflowChecks : Bool) (outstandingFeesTotal : ℕ) (fees : GatewayFees) : Res ℕ :=
  if fees.base ≤ outstandingFeesTotal then do
    let numerator ← u64 overflowChecks (million * (outstandingFeesTotal - fees.base))
    .ok (numerator / (million + fees.ppm))
  else .error (.bail "Accrued fee < base gateway fees!")

/-- An invoice amount, and the gateway that it was computed for. -/
structure FeeRemittance where
  invoiceAmount : ℕ
  gateway : GatewayFees

def prepareFeeRemittance (overflowChecks : Bool) (outstandingFeesTotal : ℕ) : Option GatewayFees → Res FeeRemittance
  | some fees =>
    feeRemittanceInvoiceAmount overflowChecks outstandingFeesTotal fees >>= fun invoiceAmount =>
      .ok ⟨invoiceAmount, fees⟩
  | none => .error (.bail "No gateway available")

/-- `UNREASONABLE_FEDI_FEE_AMOUNT`, a tenth of a bitcoin. -/
def unreasonableFediFeeAmount : ℕ := 10000000000

/-- What `remit_fedi_fee` is called with, and how many retries are left. -/
structure Attempt where
  outstandingFeesTotal : ℕ
  breakdown : Snapshot
  accruedFeeExceedsThreshold : Bool
  retries : ℕ

/-- The task that holds the remittance lock, between the steps that touch the database. -/
inductive RemittanceTask where
  | idle
  | attempting (a : Attempt)
  | reported (a : Attempt) (r : FeeRemittance)
  | paying (a : Attempt) (r : FeeRemittance)
  | refused (a : Attempt)

structure AppState where
  statuses : StatusState
  lastRemittedTotalAccrued : ℕ
  lastSpv2Balance : ℕ
  task : RemittanceTask
  /-- What payments that went through have cost: the invoice and the gateway's fee. -/
  paid : ℕ

/-- A stream that was initialised is due at some time. -/
def AppState.start (firstDueAt : ℕ) : AppState where
  statuses := { StatusState.start with
    fees := { FediFeeDb.empty with app := { StreamLedger.empty with nextRemittanceDueAt := some firstDueAt } } }
  lastRemittedTotalAccrued := 0
  lastSpv2Balance := 0
  task := .idle
  paid := 0

def AppState.app (s : AppState) : StreamLedger := s.statuses.fees.app

def AppState.setApp (s : AppState) (l : StreamLedger) : AppState :=
  { s with statuses := { s.statuses with fees := { s.statuses.fees with app := l } } }

/-- The request of an invoice. -/
structure InvoiceRequest where
  amount : ℕ
  accruedFeeDelta : ℕ
  spv2BalanceDeltaCents : Option ℤ
  breakdown : Snapshot

/-- What an attempt meets until it has an invoice: the gateway, the stable balance, the server's
reply, the due time to write, and whether that commits. -/
structure Report where
  gateway : Option GatewayFees
  spv2Balance : Option ℕ
  reply : InvoiceRequest → Option ℕ
  nextDueAt : ℕ
  commits : Bool

/-- `i64::try_from` of the change of the stable balance. -/
def spv2BalanceDeltaCents (current prev : ℕ) : Option ℤ :=
  let delta : ℤ := current - prev
  if -2 ^ 63 ≤ delta ∧ delta < 2 ^ 63 then some delta else none

/-- The remittance to prepare: none below the threshold. -/
def feeRemittance (overflowChecks : Bool) (a : Attempt) (gateway : Option GatewayFees) : Res (Option FeeRemittance) :=
  if a.accruedFeeExceedsThreshold = true then
    prepareFeeRemittance overflowChecks a.outstandingFeesTotal gateway >>= fun r => .ok (some r)
  else .ok none

def invoiceRequest (s : AppState) (a : Attempt) (x : Report) (amount : ℕ) : InvoiceRequest where
  amount := amount
  accruedFeeDelta := s.app.totalAccrued - s.lastRemittedTotalAccrued
  spv2BalanceDeltaCents := x.spv2Balance.bind fun current => spv2BalanceDeltaCents current s.lastSpv2Balance
  breakdown := a.breakdown

/-- The reporting checkpoints, written before the payment. -/
def AppState.checkpoint (s : AppState) (x : Report) : AppState :=
  { s.setApp { s.app with nextRemittanceDueAt := some x.nextDueAt } with
    lastRemittedTotalAccrued := s.app.totalAccrued
    lastSpv2Balance := x.spv2Balance.getD s.lastSpv2Balance }

def checkInvoice (a : Attempt) (invoiceAmt amtToRequest : ℕ) (remittance : Option FeeRemittance) :
    Res FeeRemittance := do
  ensure (a.accruedFeeExceedsThreshold = true) "Fedi fee less gateway fee would be effectively 0"
  ensure (invoiceAmt ≤ unreasonableFediFeeAmount)
    s!"likely bug: Fedi fee amount({invoiceAmt}) is too high, we refuse to pay"
  ensure (invoiceAmt = amtToRequest) "invoice amount must be match requested amount"
  match remittance with
  | some r => .ok r
  | none => .error (.bail "fee remittance missing after threshold was exceeded")

/-- `remit_fedi_fee` up to the decrement. -/
def remitFediFee (overflowChecks : Bool) (s : AppState) (a : Attempt) (x : Report) : AppState × Res FeeRemittance :=
  match feeRemittance overflowChecks a x.gateway with
  | .error e => (s, .error e)
  | .ok remittance =>
    let amtToRequest := remittance.elim 0 fun r => r.invoiceAmount
    match x.reply (invoiceRequest s a x amtToRequest) with
    | none => (s, .error (.bail "no invoice"))
    | some invoiceAmt =>
      if x.commits then (s.checkpoint x, checkInvoice a invoiceAmt amtToRequest remittance)
      else (s, .error (.bail "commit failed"))

/-- A failed attempt is retried with the same snapshot; a panic ends the task. -/
def retryAfter (e : FeeError) (a : Attempt) : RemittanceTask :=
  match e with
  | .overflow => .idle
  | .bail _ => if a.retries = 0 then .idle else .attempting { a with retries := a.retries - 1 }

/-- `remit_fedi_fee_if_threshold_met`: the task that it spawns, if the lock is free. -/
def remitFediFeeIfThresholdMet (overflowChecks : Bool) (s : AppState) (remittanceThreshold now : ℕ) : AppState :=
  match s.task with
  | .idle =>
    match currentAppFeeBreakdown overflowChecks s.app, s.app.nextRemittanceDueAt with
    | .ok (total, breakdown), some nextDueAt =>
      if remittanceThreshold ≤ total then { s with task := .attempting ⟨total, breakdown, true, 5⟩ }
      else if nextDueAt ≤ now then { s with task := .attempting ⟨total, breakdown, false, 5⟩ }
      else s
    | _, _ => s
  | _ => s

/-! ## Runs -/

/-- What `pay_fee_remittance` returns.  A payment that goes through costs a fee of the gateway besides
the invoice; one that reports an error may have gone through. -/
inductive PaymentOutcome where
  | ok (gatewayFee : ℕ)
  | error (settled : Option ℕ)

inductive AppEvent where
  | write (e : WriteEvent)
  | check (remittanceThreshold now : ℕ)
  | report (x : Report)
  | decrement (commits : Bool)
  | payment (outcome : PaymentOutcome)
  | restore (commits : Bool)
  /-- The process stops; a payment that is under way goes through, for a fee of the gateway, or does not. -/
  | stop (settled : Option ℕ)

/-- The decrement, once the invoice is checked. -/
def decrementOutstanding (overflowChecks : Bool) (s : AppState) (a : Attempt) (r : FeeRemittance) (commits : Bool) :
    AppState :=
  match applyAppBreakdownToOutstanding overflowChecks s.app a.breakdown a.outstandingFeesTotal true with
  | .error e => { s with task := retryAfter e a }
  | .ok l =>
    if commits then { s.setApp l with task := .paying a r }
    else { s with task := retryAfter (.bail "commit failed") a }

/-- The restore, once the payment reported an error. -/
def restoreOutstanding (overflowChecks : Bool) (s : AppState) (a : Attempt) (commits : Bool) : AppState :=
  match applyAppBreakdownToOutstanding overflowChecks s.app a.breakdown a.outstandingFeesTotal false with
  | .error e => { s with task := retryAfter e a }
  | .ok l =>
    if commits then { s.setApp l with task := retryAfter (.bail "Lightning payment failed") a }
    else { s with task := retryAfter (.bail "commit failed") a }

/-- The cost of a remittance that went through. -/
def FeeRemittance.cost (r : FeeRemittance) : Option ℕ → ℕ
  | some gatewayFee => r.invoiceAmount + gatewayFee
  | none => 0

def appStep (overflowChecks : Bool) (s : AppState) : AppEvent → AppState
  | .write e => { s with statuses := writeStep overflowChecks s.statuses e }
  | .check remittanceThreshold now => remitFediFeeIfThresholdMet overflowChecks s remittanceThreshold now
  | .report x =>
    match s.task with
    | .attempting a =>
      match remitFediFee overflowChecks s a x with
      | (s, .ok r) => { s with task := .reported a r }
      | (s, .error e) => { s with task := retryAfter e a }
    | _ => s
  | .decrement commits =>
    match s.task with
    | .reported a r => decrementOutstanding overflowChecks s a r commits
    | _ => s
  | .payment outcome =>
    match s.task, outcome with
    | .paying _ r, .ok gatewayFee => { s with task := .idle, paid := s.paid + r.cost (some gatewayFee) }
    | .paying a r, .error settled => { s with task := .refused a, paid := s.paid + r.cost settled }
    | _, _ => s
  | .restore commits =>
    match s.task with
    | .refused a => restoreOutstanding overflowChecks s a commits
    | _ => s
  | .stop settled =>
    match s.task with
    | .paying _ r => { s with task := .idle, paid := s.paid + r.cost settled }
    | _ => { s with task := .idle }

def appRun (overflowChecks : Bool) (firstDueAt : ℕ) (es : List AppEvent) : AppState :=
  es.foldl (appStep overflowChecks) (.start firstDueAt)

/-! ## What is conserved -/

/-- The fees that a decrement took, until the outcome of the payment is booked. -/
def AppState.inFlight (s : AppState) : ℕ :=
  match s.task with
  | .paying a _ => a.outstandingFeesTotal
  | .refused a => a.outstandingFeesTotal
  | _ => 0

/-- No fee is dropped, and none is remitted twice. -/
structure Remitted (s : AppState) : Prop where
  total : s.app.outstanding = s.app.breakdownTotal
  fees : s.app.outstanding + s.inFlight + s.paid = s.app.successFees

/-! ## When it is -/

/-- The operation of a pending write. -/
def FeeWrite.opens : FeeWrite → Option OperationId
  | .pendingSend operationId _ => some operationId
  | .pendingReceive operationId _ => some operationId
  | _ => none

/-- The app fee that a write makes outstanding. -/
def FeeWrite.accrues (overflowChecks : Bool) (s : StatusState) : FeeWrite → Option ℕ
  | .successSend operationId =>
    match s.status .app operationId with
    | some (.pendingSend fee) => some fee
    | _ => none
  | .successReceive operationId amount =>
    match s.status .app operationId with
    | some (.pendingReceive ppm) => (receiveFee overflowChecks amount ppm).toOption
    | _ => none
  | _ => none

/-- The largest invoice that leaves a gateway its announced fees, and the fee that it takes, add up to
the total; the product that divides is a u64. -/
structure GatewayFees.Splits (overflowChecks : Bool) (fees : GatewayFees) (total gatewayFee : ℕ) : Prop where
  sum : million * (total - fees.base) / (million + fees.ppm) + gatewayFee = total
  fits : overflowChecks = false → million * (total - fees.base) < 2 ^ 64

/-- A step of a run that loses track of no fee: an operation does not start again after its success, a
payment that goes through uses up the total of the snapshot, one that reports an error did not go
through, the restore commits, and the process does not stop after the decrement unless
the payment goes through; sums of fees stay amounts. -/
def AppEvent.Tracked (overflowChecks : Bool) (s : AppState) : AppEvent → Prop
  | .write e => e.commits = true → succeeds (writeFees overflowChecks s.statuses e.write) = true →
    (∀ operationId, e.write.opens = some operationId → ∀ fee,
      s.statuses.status .app operationId ≠ some (.success fee)) ∧
    (overflowChecks = false → ∀ fee, e.write.accrues overflowChecks s.statuses = some fee →
      fee + s.app.totalAccrued < 2 ^ 64)
  | .payment (.ok gatewayFee) => ∀ a r, s.task = .paying a r →
    r.gateway.Splits overflowChecks a.outstandingFeesTotal gatewayFee
  | .payment (.error settled) => (∃ a r, s.task = .paying a r) → settled = none
  | .restore commits => (∃ a, s.task = .refused a) → commits = true
  | .stop settled => (∀ a r, s.task = .paying a r → ∃ gatewayFee, settled = some gatewayFee ∧
      r.gateway.Splits overflowChecks a.outstandingFeesTotal gatewayFee) ∧ ∀ a, s.task ≠ .refused a
  | _ => True

def Tracked (overflowChecks : Bool) (firstDueAt : ℕ) (es : List AppEvent) : Prop :=
  ∀ before e after, es = before ++ e :: after → e.Tracked overflowChecks (appRun overflowChecks firstDueAt before)

/-! ## Fees that accrue -/

/-- An app fee accrues: no row of the breakdown shrinks, and the total ever accrued follows. -/
structure Accrues (l l' : StreamLedger) (fee : ℕ) : Prop where
  moves : Moves l l' fee
  rows : ∀ txType, l.outstandingPerTxType.getD txType 0 ≤ l'.outstandingPerTxType.getD txType 0
  accrued : l'.totalAccrued = l.totalAccrued + fee
  fits : l.totalAccrued < 2 ^ 64 → l'.totalAccrued < 2 ^ 64

theorem Accrues.refl (l : StreamLedger) : Accrues l l 0 := ⟨.refl l, fun _ => le_refl _, rfl, id⟩

/-- The invoice and the gateway's fees for it are paid from the outstanding fees. -/
theorem feeRemittanceInvoiceAmount_within {overflowChecks : Bool} {outstandingFeesTotal amount : ℕ}
    {fees : GatewayFees} (h : feeRemittanceInvoiceAmount overflowChecks outstandingFeesTotal fees = .ok amount) :
    amount + fees.base + (amount * fees.ppm + (million - 1)) / million ≤ outstandingFeesTotal := by
  unfold feeRemittanceInvoiceAmount at h
  split at h
  next hbase =>
    obtain ⟨numerator, hnumerator, h⟩ := bind_eq_ok.mp h
    cases h
    have hle := u64_le hnumerator
    have hdiv := Nat.div_mul_le_self numerator (million + fees.ppm)
    generalize numerator / (million + fees.ppm) = amount at hdiv ⊢
    obtain ⟨rest, hrest⟩ := Nat.exists_eq_add_of_le hbase
    rw [hrest, Nat.add_sub_cancel_left] at hle
    rw [Nat.mul_add] at hdiv
    have hamount : amount ≤ rest := by
      unfold million at hdiv hle
      omega
    obtain ⟨left, hleft⟩ := Nat.exists_eq_add_of_le hamount
    have hfees : (amount * fees.ppm + (million - 1)) / million ≤ left := by
      unfold million at hdiv hle ⊢
      omega
    omega
  next => cases h

/-- The invoice is the largest that leaves the announced fees. -/
theorem feeRemittanceInvoiceAmount_eq {overflowChecks : Bool} {outstandingFeesTotal amount : ℕ} {fees : GatewayFees}
    (hfits : overflowChecks = false → million * (outstandingFeesTotal - fees.base) < 2 ^ 64)
    (h : feeRemittanceInvoiceAmount overflowChecks outstandingFeesTotal fees = .ok amount) :
    amount = million * (outstandingFeesTotal - fees.base) / (million + fees.ppm) := by
  unfold feeRemittanceInvoiceAmount at h
  split at h
  next =>
    obtain ⟨numerator, hnumerator, h⟩ := bind_eq_ok.mp h
    cases h
    rw [u64_eq_ok hfits hnumerator]
  next => cases h

/-- A gateway that charges what it announces leaves nothing of the total exactly when its rate divides it. -/
theorem splits_announced_iff {overflowChecks : Bool} {fees : GatewayFees} {total : ℕ} (hbase : fees.base ≤ total)
    (hfits : overflowChecks = false → million * (total - fees.base) < 2 ^ 64) :
    fees.Splits overflowChecks total
        (fees.base + million * (total - fees.base) / (million + fees.ppm) * fees.ppm / million) ↔
      million + fees.ppm ∣ million * (total - fees.base) := by
  obtain ⟨rest, rfl⟩ := Nat.exists_eq_add_of_le hbase
  have hsum : million * rest / (million + fees.ppm) +
      million * rest / (million + fees.ppm) * fees.ppm / million =
        million * rest / (million + fees.ppm) * (million + fees.ppm) / million := by
    rw [Nat.mul_add, Nat.mul_comm _ million, Nat.mul_add_div (by decide)]
  have hle := Nat.div_mul_le_self (million * rest) (million + fees.ppm)
  rw [Nat.add_sub_cancel_left] at hfits ⊢
  constructor
  · intro h
    have hsplits := h.sum
    rw [Nat.add_sub_cancel_left] at hsplits
    have hrest : million * rest / (million + fees.ppm) * (million + fees.ppm) / million = rest := by omega
    have hge := Nat.div_mul_le_self (million * rest / (million + fees.ppm) * (million + fees.ppm)) million
    rw [hrest, Nat.mul_comm rest] at hge
    exact ⟨_, (le_antisymm hge hle).trans (Nat.mul_comm _ _)⟩
  · intro hdvd
    rw [Nat.div_mul_cancel hdvd, Nat.mul_div_cancel_left rest (by decide)] at hsum
    refine ⟨?_, by rwa [Nat.add_sub_cancel_left]⟩
    rw [Nat.add_sub_cancel_left]
    omega

section

variable {overflowChecks : Bool} {l l' : StreamLedger} {operationId : OperationId}

theorem row_le_breakdownTotal (l : StreamLedger) (txType : TxType) :
    l.outstandingPerTxType.getD txType 0 ≤ l.breakdownTotal := by
  cases hget : l.outstandingPerTxType.get? txType with
  | none =>
    rw [BTreeMap.getD_of_none hget]
    exact Nat.zero_le _
  | some amount =>
    rw [BTreeMap.getD_of_get? hget]
    exact BTreeMap.le_sumBy (f := fun _ (amount : ℕ) => amount) hget

theorem accrue_accrues {txType : TxType} {fediFee : ℕ}
    (h : l.accrue overflowChecks .app operationId txType fediFee = .ok l')
    (htotal : l.outstanding = l.breakdownTotal) (hle : l.outstanding ≤ l.totalAccrued)
    (hfits : overflowChecks = false → fediFee + l.totalAccrued < 2 ^ 64)
    (hold : ∀ fee, l.operationStatus.get? operationId = some (.success fee) → fee = 0) : Accrues l l' fediFee := by
  have hmoves := accrue_moves h htotal (fun hchecks => by have := hfits hchecks; omega) hold
  obtain ⟨rowFees, h1, h⟩ := bind_eq_ok.mp h
  obtain ⟨outstandingFees, -, h⟩ := bind_eq_ok.mp h
  obtain ⟨totalAccruedFees, h3, h⟩ := bind_eq_ok.mp h
  cases h
  refine ⟨hmoves, fun txType' => ?_, addToTotalAccrued_spec h3 (fun hchecks _ => hfits hchecks) rfl, fun _ => u64_lt h3⟩
  have hrow := row_le_breakdownTotal l txType
  have hexact : rowFees = fediFee + l.outstandingPerTxType.getD txType 0 := by
    refine u64_eq_ok (fun hchecks => ?_) h1
    have := hfits hchecks
    omega
  dsimp only
  rw [BTreeMap.getD_insert]
  split
  next heq =>
    subst heq
    omega
  next => exact le_refl _

/-- A write that is no success leaves what is outstanding alone. -/
theorem accrues_of_status {status : OperationFediFeeStatus}
    (hstatus : l'.operationStatus = l.operationStatus.insert operationId status) (hquiet : status.successFee = 0)
    (hold : ∀ fee, l.operationStatus.get? operationId = some (.success fee) → fee = 0)
    (houtstanding : l'.outstanding = l.outstanding) (hbreakdown : l'.outstandingPerTxType = l.outstandingPerTxType)
    (haccrued : l'.totalAccrued = l.totalAccrued) : Accrues l l' 0 where
  moves := moves_of_status hstatus hquiet hold houtstanding hbreakdown
  rows := fun txType => by rw [hbreakdown]
  accrued := haccrued
  fits := fun h => haccrued.symm ▸ h

end

/-- What the app stream keeps besides the task. -/
structure AppBooks (l : StreamLedger) : Prop where
  total : l.outstanding = l.breakdownTotal
  accrued : l.totalAccrued = l.successFees
  fits : l.totalAccrued < 2 ^ 64
  le : l.outstanding ≤ l.totalAccrued

theorem onBothStreams_app {transition : FediFeeStream → StreamLedger → Res (StreamLedger × Bool)}
    {dbtx : FediFeeDb} {r : FediFeeDb × Bool} (h : onBothStreams dbtx transition = .ok r) :
    ∃ changed, transition .app dbtx.app = .ok (r.1.app, changed) := by
  obtain ⟨app, happ, h⟩ := bind_eq_ok.mp h
  obtain ⟨guardian, -, h⟩ := bind_eq_ok.mp h
  cases h
  exact ⟨app.2, happ⟩

/-- Every write for an operation that has not succeeded accrues a fee, or none. -/
theorem writeFees_accrues {overflowChecks : Bool} {s s' : StatusState} {write : FeeWrite}
    (h : AppBooks s.fees.app) (hwrite : writeFees overflowChecks s write = .ok s')
    (hopens : ∀ operationId, write.opens = some operationId → ∀ fee, s.status .app operationId ≠ some (.success fee))
    (hfits : overflowChecks = false → ∀ fee, write.accrues overflowChecks s = some fee →
      fee + s.fees.app.totalAccrued < 2 ^ 64) : ∃ fee, Accrues s.fees.app s'.fees.app fee := by
  cases write with
  | logOperation operationId module =>
    cases hwrite
    exact ⟨0, .refl _⟩
  | pendingSend operationId fees =>
    obtain ⟨module, -, hwrite⟩ := bind_eq_ok.mp hwrite
    obtain ⟨fees', hfees, hwrite⟩ := bind_eq_ok.mp hwrite
    cases hwrite
    obtain ⟨app, guardian⟩ := fees
    obtain ⟨l, happ, hfees⟩ := bind_eq_ok.mp hfees
    have happ' : fees'.app = l := by
      cases guardian with
      | none =>
        cases hfees
        rfl
      | some guardian =>
        obtain ⟨l', -, hfees⟩ := bind_eq_ok.mp hfees
        cases hfees
        rfl
    obtain ⟨_, -, happ⟩ := bind_eq_ok.mp happ
    obtain ⟨_, -, happ⟩ := bind_eq_ok.mp happ
    cases happ
    rw [show ({ s with fees := fees' } : StatusState).fees.app = fees'.app from rfl, happ']
    exact ⟨0, accrues_of_status rfl rfl (fun fee hsuccess => absurd hsuccess (hopens operationId rfl fee)) rfl rfl rfl⟩
  | successSend operationId =>
    obtain ⟨module, -, hwrite⟩ := bind_eq_ok.mp hwrite
    obtain ⟨r, hr, hwrite⟩ := bind_eq_ok.mp hwrite
    cases hwrite
    obtain ⟨changed, happ⟩ := onBothStreams_app hr
    rcases transitionSuccessSend_cases happ with ⟨heq, -⟩ | ⟨fee, hget, haccrue⟩
    · exact ⟨0, heq ▸ .refl _⟩
    · have hfee (hchecks : overflowChecks = false) := hfits hchecks fee (by
        have hstatus : s.status .app operationId = some (.pendingSend fee) := hget
        simp [FeeWrite.accrues, hstatus])
      have haccrues := accrue_accrues haccrue h.total h.le hfee (not_success_of_pending hget fun _ => by simp)
      exact ⟨fee, ⟨haccrues.moves.outstanding, haccrues.moves.breakdown, haccrues.moves.success⟩, haccrues.rows,
        haccrues.accrued, haccrues.fits⟩
  | failedSend operationId =>
    obtain ⟨module, -, hwrite⟩ := bind_eq_ok.mp hwrite
    obtain ⟨r, hr, hwrite⟩ := bind_eq_ok.mp hwrite
    cases hwrite
    obtain ⟨changed, happ⟩ := onBothStreams_app hr
    rcases transitionFailedSend_cases happ with ⟨heq, -⟩ | ⟨fee, hget, heq⟩
    · exact ⟨0, heq ▸ .refl _⟩
    · exact ⟨0, heq ▸ accrues_of_status rfl rfl (not_success_of_pending hget fun _ => by simp) rfl rfl rfl⟩
  | pendingReceive operationId feePpms =>
    cases hwrite
    obtain ⟨app, guardian⟩ := feePpms
    have hnew (fee : ℕ) (hsuccess : s.fees.app.operationStatus.get? operationId = some (.success fee)) : fee = 0 :=
      absurd hsuccess (hopens operationId rfl fee)
    cases guardian with
    | none => exact ⟨0, accrues_of_status rfl rfl hnew rfl rfl rfl⟩
    | some guardian => exact ⟨0, accrues_of_status rfl rfl hnew rfl rfl rfl⟩
  | successReceive operationId amount =>
    obtain ⟨module, -, hwrite⟩ := bind_eq_ok.mp hwrite
    obtain ⟨r, hr, hwrite⟩ := bind_eq_ok.mp hwrite
    cases hwrite
    obtain ⟨changed, happ⟩ := onBothStreams_app hr
    rcases transitionSuccessReceive_cases happ with ⟨heq, -⟩ | ⟨ppm, fee, hget, hfee, haccrue⟩
    · exact ⟨0, heq ▸ .refl _⟩
    · have hsum (hchecks : overflowChecks = false) := hfits hchecks fee (by
        have hstatus : s.status .app operationId = some (.pendingReceive ppm) := hget
        simp [FeeWrite.accrues, hstatus, hfee, Except.toOption])
      exact ⟨fee, accrue_accrues haccrue h.total h.le hsum (not_success_of_pending hget fun _ => by simp)⟩
  | failedReceive operationId =>
    obtain ⟨r, hr, hwrite⟩ := bind_eq_ok.mp hwrite
    cases hwrite
    obtain ⟨changed, happ⟩ := onBothStreams_app hr
    rcases transitionFailedReceive_cases happ with ⟨heq, -⟩ | ⟨ppm, hget, heq⟩
    · exact ⟨0, heq ▸ .refl _⟩
    · exact ⟨0, heq ▸ accrues_of_status rfl rfl (not_success_of_pending hget fun _ => by simp) rfl rfl rfl⟩

theorem AppBooks.accrues {l l' : StreamLedger} {fee : ℕ} (h : AppBooks l) (haccrues : Accrues l l' fee) :
    AppBooks l' where
  total := by rw [haccrues.moves.outstanding, haccrues.moves.breakdown, h.total]
  accrued := by rw [haccrues.accrued, haccrues.moves.success, h.accrued]
  fits := haccrues.fits h.fits
  le := by
    rw [haccrues.accrued, haccrues.moves.outstanding]
    exact Nat.add_le_add_right h.le fee

/-! ## Snapshots -/

/-- A snapshot has one item a row, and its total is their sum. -/
structure Attempt.Adds (a : Attempt) : Prop where
  total : a.outstandingFeesTotal = FediFee.total a.breakdown
  keys : (a.breakdown.map fun item => item.txType).Nodup

/-- The rows still hold what a snapshot took down. -/
def Covers (rows : BTreeMap TxType ℕ) (breakdown : Snapshot) : Prop :=
  ∀ item ∈ breakdown, item.amount ≤ rows.getD item.txType 0

theorem Covers.insert {rows : BTreeMap TxType ℕ} {item : GuardianFeeRemittanceBreakdownItem} {breakdown : Snapshot}
    (h : Covers rows breakdown) (hkeys : item.txType ∉ breakdown.map fun item => item.txType) (amount : ℕ) :
    Covers (rows.insert item.txType amount) breakdown := by
  intro item' hitem'
  have hne : item'.txType ≠ item.txType := by
    intro heq
    rw [← heq] at hkeys
    exact hkeys (List.mem_map_of_mem hitem')
  rw [BTreeMap.getD_insert_ne _ _ _ hne]
  exact h item' hitem'

/-- Rows that cover a snapshot lose its total. -/
theorem shiftRows_subtract (overflowChecks : Bool) {rows : BTreeMap TxType ℕ} {breakdown : Snapshot}
    (hkeys : (breakdown.map fun item => item.txType).Nodup) (hcovers : Covers rows breakdown) :
    ∃ rows', shiftRows overflowChecks true rows breakdown = .ok rows' ∧
      rows'.sumBy (fun _ amount => amount) + total breakdown = rows.sumBy fun _ amount => amount := by
  induction breakdown generalizing rows with
  | nil => exact ⟨rows, rfl, rfl⟩
  | cons item breakdown ih =>
    rw [List.map_cons, List.nodup_cons] at hkeys
    have hrow := hcovers item List.mem_cons_self
    have hrest : Covers rows breakdown := fun item' hitem' => hcovers item' (List.mem_cons_of_mem _ hitem')
    obtain ⟨rows', hrows', hsum⟩ :=
      ih hkeys.2 (hrest.insert hkeys.1 (rows.getD item.txType 0 - item.amount))
    have hinsert := BTreeMap.sumBy_insert_getD (f := fun _ (amount : ℕ) => amount) rows item.txType
      (rows.getD item.txType 0 - item.amount) rfl
    refine ⟨rows', hrows', ?_⟩
    rw [total_cons]
    omega

theorem shiftRows_other {overflowChecks subtract : Bool} {rows rows' : BTreeMap TxType ℕ} {breakdown : Snapshot}
    {txType : TxType} (h : shiftRows overflowChecks subtract rows breakdown = .ok rows')
    (hother : txType ∉ breakdown.map fun item => item.txType) : rows'.getD txType 0 = rows.getD txType 0 := by
  induction breakdown generalizing rows with
  | nil =>
    cases h
    rfl
  | cons item breakdown ih =>
    rw [List.map_cons, List.mem_cons, not_or] at hother
    obtain ⟨newValue, -, h⟩ := bind_eq_ok.mp h
    rw [ih h hother.2, BTreeMap.getD_insert_ne _ _ _ hother.1]

/-- Rows get the total of a snapshot, and cover it. -/
theorem shiftRows_add (overflowChecks : Bool) {rows : BTreeMap TxType ℕ} {breakdown : Snapshot}
    (hkeys : (breakdown.map fun item => item.txType).Nodup)
    (hfits : rows.sumBy (fun _ amount => amount) + total breakdown < 2 ^ 64) :
    ∃ rows', shiftRows overflowChecks false rows breakdown = .ok rows' ∧
      rows'.sumBy (fun _ amount => amount) = rows.sumBy (fun _ amount => amount) + total breakdown ∧
      Covers rows' breakdown := by
  induction breakdown generalizing rows with
  | nil => exact ⟨rows, rfl, rfl, fun _ h => by cases h⟩
  | cons item breakdown ih =>
    rw [List.map_cons, List.nodup_cons] at hkeys
    rw [total_cons] at hfits ⊢
    have hinsert := BTreeMap.sumBy_insert_getD (f := fun _ (amount : ℕ) => amount) rows item.txType
      (rows.getD item.txType 0 + item.amount) rfl
    have hrow : rows.getD item.txType 0 ≤ rows.sumBy fun _ amount => amount := by
      have hle := row_le_breakdownTotal { StreamLedger.empty with outstandingPerTxType := rows } item.txType
      exact hle
    obtain ⟨rows', hrows', hsum, hcovers⟩ :=
      @ih (rows.insert item.txType (rows.getD item.txType 0 + item.amount)) hkeys.2 (by omega)
    refine ⟨rows', ?_, by omega, fun item' hitem' => ?_⟩
    · unfold shiftRows shiftAmount
      rw [if_neg Bool.false_ne_true, u64_of_lt (by omega)]
      exact hrows'
    · rcases List.mem_cons.mp hitem' with rfl | hitem'
      · rw [shiftRows_other hrows' hkeys.1, BTreeMap.getD_insert_self]
        exact Nat.le_add_left _ _
      · exact hcovers item' hitem'

/-- A decrement that the ledger covers takes the snapshot off. -/
theorem apply_subtract (overflowChecks : Bool) {l : StreamLedger} {a : Attempt} (ha : a.Adds)
    (htotal : l.outstanding = l.breakdownTotal) (hcovers : Covers l.outstandingPerTxType a.breakdown) :
    ∃ l', applyAppBreakdownToOutstanding overflowChecks l a.breakdown a.outstandingFeesTotal true = .ok l' ∧
      Reserves l l' a.outstandingFeesTotal ∧ l'.totalAccrued = l.totalAccrued := by
  obtain ⟨rows, hrows, hsum⟩ := shiftRows_subtract overflowChecks ha.keys hcovers
  have hbreakdown : l.breakdownTotal = l.outstandingPerTxType.sumBy fun _ amount => amount := rfl
  have hadds := ha.total
  refine ⟨{ l with outstanding := l.outstanding - a.outstandingFeesTotal, outstandingPerTxType := rows }, ?_,
    ⟨?_, ?_, rfl⟩, rfl⟩
  · unfold applyAppBreakdownToOutstanding
    rw [hrows]
    rfl
  · show l.outstanding - a.outstandingFeesTotal + a.outstandingFeesTotal = l.outstanding
    omega
  · show rows.sumBy (fun _ amount => amount) + a.outstandingFeesTotal = l.breakdownTotal
    omega

/-- A restore puts the snapshot back. -/
theorem apply_add (overflowChecks : Bool) {l : StreamLedger} {a : Attempt} (ha : a.Adds)
    (htotal : l.outstanding = l.breakdownTotal) (hfits : l.outstanding + a.outstandingFeesTotal < 2 ^ 64) :
    ∃ l', applyAppBreakdownToOutstanding overflowChecks l a.breakdown a.outstandingFeesTotal false = .ok l' ∧
      Reserves l' l a.outstandingFeesTotal ∧ l'.totalAccrued = l.totalAccrued ∧
      Covers l'.outstandingPerTxType a.breakdown := by
  have hbreakdown : l.breakdownTotal = l.outstandingPerTxType.sumBy fun _ amount => amount := rfl
  have hadds := ha.total
  obtain ⟨rows, hrows, hsum, hcovers⟩ := @shiftRows_add overflowChecks l.outstandingPerTxType a.breakdown ha.keys
    (by omega)
  refine ⟨{ l with outstanding := l.outstanding + a.outstandingFeesTotal, outstandingPerTxType := rows }, ?_,
    ⟨rfl, ?_, rfl⟩, rfl, hcovers⟩
  · unfold applyAppBreakdownToOutstanding shiftAmount
    rw [if_neg Bool.false_ne_true, u64_of_lt hfits, ok_bind, hrows]
    rfl
  · show l.breakdownTotal + a.outstandingFeesTotal = rows.sumBy fun _ amount => amount
    omega

/-- The invoice is for the total of the snapshot. -/
def Attempt.Prepared (overflowChecks : Bool) (a : Attempt) (r : FeeRemittance) : Prop :=
  feeRemittanceInvoiceAmount overflowChecks a.outstandingFeesTotal r.gateway = .ok r.invoiceAmount

/-- What a task needs of the ledger. -/
def RemittanceTask.Holds (overflowChecks : Bool) (l : StreamLedger) : RemittanceTask → Prop
  | .idle => True
  | .attempting a => a.Adds ∧ Covers l.outstandingPerTxType a.breakdown
  | .reported a r => (a.Adds ∧ Covers l.outstandingPerTxType a.breakdown) ∧ a.Prepared overflowChecks r
  | .paying a r => a.Adds ∧ a.Prepared overflowChecks r
  | .refused a => a.Adds

theorem RemittanceTask.Holds.mono {overflowChecks : Bool} {l l' : StreamLedger} {task : RemittanceTask}
    (h : task.Holds overflowChecks l)
    (hrows : ∀ txType, l.outstandingPerTxType.getD txType 0 ≤ l'.outstandingPerTxType.getD txType 0) :
    task.Holds overflowChecks l' := by
  have hcovers {breakdown : Snapshot} (hc : Covers l.outstandingPerTxType breakdown) :
      Covers l'.outstandingPerTxType breakdown :=
    fun item hitem => le_trans (hc item hitem) (hrows item.txType)
  cases task with
  | idle => trivial
  | attempting a => exact ⟨h.1, hcovers h.2⟩
  | reported a r => exact ⟨⟨h.1.1, hcovers h.1.2⟩, h.2⟩
  | paying a r => exact h
  | refused a => exact h

structure RemitInv (overflowChecks : Bool) (s : AppState) : Prop where
  remitted : Remitted s
  accrued : s.app.totalAccrued = s.app.successFees
  fits : s.app.totalAccrued < 2 ^ 64
  task : s.task.Holds overflowChecks s.app

section

variable {overflowChecks : Bool} {s : AppState}

/-! ## One step -/

theorem RemitInv.books (h : RemitInv overflowChecks s) : AppBooks s.app where
  total := h.remitted.total
  accrued := h.accrued
  fits := h.fits
  le := by
    have hfees := h.remitted.fees
    have haccrued := h.accrued
    omega

/-- A write moves the books, and keeps what the task needs. -/
theorem RemitInv.write (h : RemitInv overflowChecks s) {statuses : StatusState} {fee : ℕ}
    (haccrues : Accrues s.app statuses.fees.app fee) : RemitInv overflowChecks { s with statuses := statuses } where
  remitted := by
    have hbooks := h.books.accrues haccrues
    have hfees := h.remitted.fees
    have houtstanding := haccrues.moves.outstanding
    have hsuccess := haccrues.moves.success
    refine ⟨hbooks.total, ?_⟩
    show statuses.fees.app.outstanding + s.inFlight + s.paid = statuses.fees.app.successFees
    omega
  accrued := (h.books.accrues haccrues).accrued
  fits := (h.books.accrues haccrues).fits
  task := h.task.mono haccrues.rows

/-- A task that has nothing in flight can be replaced by another one. -/
theorem RemitInv.setTask (h : RemitInv overflowChecks s) {task : RemittanceTask}
    (hinFlight : AppState.inFlight { s with task := task } = s.inFlight) (htask : task.Holds overflowChecks s.app) :
    RemitInv overflowChecks { s with task := task } where
  remitted := ⟨h.remitted.total, by rw [hinFlight]; exact h.remitted.fees⟩
  accrued := h.accrued
  fits := h.fits
  task := htask

/-- What is in flight depends on the task. -/
theorem inFlight_of_task {task : RemittanceTask} (hs : s.task = task) :
    s.inFlight = AppState.inFlight { s with task := task } := by
  unfold AppState.inFlight
  rw [hs]

/-- A retry has nothing in flight. -/
theorem inFlight_retryAfter (e : FeeError) (a : Attempt) :
    AppState.inFlight { s with task := retryAfter e a } = 0 := by
  cases e with
  | overflow => rfl
  | bail msg =>
    unfold retryAfter
    dsimp only
    split
    · rfl
    · rfl

theorem holds_retryAfter {l : StreamLedger} (e : FeeError) {a : Attempt} (ha : a.Adds)
    (hcovers : Covers l.outstandingPerTxType a.breakdown) : (retryAfter e a).Holds overflowChecks l := by
  cases e with
  | overflow => trivial
  | bail msg =>
    unfold retryAfter
    dsimp only
    split
    · trivial
    · exact ⟨⟨ha.total, ha.keys⟩, hcovers⟩

/-- The snapshot of a check adds up, and is what the rows hold. -/
theorem currentAppFeeBreakdown_spec {l : StreamLedger} {outstanding : ℕ} {breakdown : Snapshot}
    (htotal : l.outstanding = l.breakdownTotal)
    (h : currentAppFeeBreakdown overflowChecks l = .ok (outstanding, breakdown)) (exceeds : Bool) (retries : ℕ) :
    (Attempt.mk outstanding breakdown exceeds retries).Adds ∧ Covers l.outstandingPerTxType breakdown := by
  obtain ⟨sum, -, h⟩ := bind_eq_ok.mp h
  obtain ⟨_, -, h⟩ := bind_eq_ok.mp h
  cases h
  refine ⟨⟨?_, outstandingBreakdown_keys l⟩, fun item hitem => ?_⟩
  · show l.outstanding = total (outstandingBreakdown l)
    rw [htotal, total_outstandingBreakdown]
  · unfold outstandingBreakdown at hitem
    obtain ⟨e, he, rfl⟩ := List.mem_map.mp (List.mem_of_mem_filter hitem)
    have hget : l.outstandingPerTxType.get? e.1 = some e.2 := BTreeMap.mem_entries.mp he
    rw [BTreeMap.getD_of_get? hget]

theorem check_inv (h : RemitInv overflowChecks s) (remittanceThreshold now : ℕ) :
    RemitInv overflowChecks (remitFediFeeIfThresholdMet overflowChecks s remittanceThreshold now) := by
  unfold remitFediFeeIfThresholdMet
  split
  next hidle =>
    have hnone : s.inFlight = 0 := inFlight_of_task hidle
    split
    next outstanding breakdown nextDueAt hsnapshot _ =>
      have hspec := currentAppFeeBreakdown_spec h.remitted.total hsnapshot
      split
      · exact h.setTask hnone.symm (hspec true 5)
      · split
        · exact h.setTask hnone.symm (hspec false 5)
        · exact h
    next => exact h
  next => exact h

/-- The report writes checkpoints only. -/
theorem RemitInv.checkpoint (h : RemitInv overflowChecks s) (x : Report) : RemitInv overflowChecks (s.checkpoint x) where
  remitted := ⟨h.remitted.total, h.remitted.fees⟩
  accrued := h.accrued
  fits := h.fits
  task := h.task.mono fun _ => le_refl _

/-- The invoice that passed the checks was prepared for the snapshot. -/
theorem checkInvoice_prepared {a : Attempt} {gateway : Option GatewayFees} {invoiceAmt amtToRequest : ℕ}
    {remittance : Option FeeRemittance} {r : FeeRemittance}
    (hremittance : feeRemittance overflowChecks a gateway = .ok remittance)
    (h : checkInvoice a invoiceAmt amtToRequest remittance = .ok r) : a.Prepared overflowChecks r := by
  obtain ⟨_, -, h⟩ := bind_eq_ok.mp h
  obtain ⟨_, -, h⟩ := bind_eq_ok.mp h
  obtain ⟨_, -, h⟩ := bind_eq_ok.mp h
  unfold feeRemittance at hremittance
  split at hremittance
  · obtain ⟨prepared, hprepared, hremittance⟩ := bind_eq_ok.mp hremittance
    cases hremittance
    cases h
    cases gateway with
    | some fees =>
      obtain ⟨invoiceAmount, hamount, hprepared⟩ := bind_eq_ok.mp hprepared
      cases hprepared
      exact hamount
    | none => cases hprepared
  · cases hremittance
    cases h

theorem remitFediFee_inv (h : RemitInv overflowChecks s) (a : Attempt) (x : Report) :
    RemitInv overflowChecks (remitFediFee overflowChecks s a x).1 ∧
      (remitFediFee overflowChecks s a x).1.task = s.task ∧
      ∀ r, (remitFediFee overflowChecks s a x).2 = .ok r → a.Prepared overflowChecks r := by
  unfold remitFediFee
  split
  · exact ⟨h, rfl, fun _ hr => by cases hr⟩
  next remittance hremittance =>
    dsimp only
    split
    · exact ⟨h, rfl, fun _ hr => by cases hr⟩
    · split
      · exact ⟨h.checkpoint x, rfl, fun _ hr => checkInvoice_prepared hremittance hr⟩
      · exact ⟨h, rfl, fun _ hr => by cases hr⟩

theorem report_inv (h : RemitInv overflowChecks s) (x : Report) :
    RemitInv overflowChecks (appStep overflowChecks s (.report x)) := by
  unfold appStep
  dsimp only
  split
  next a hs =>
    obtain ⟨hinv, htask, hprepared⟩ := remitFediFee_inv h a x
    rw [hs] at htask
    have hnone : (remitFediFee overflowChecks s a x).1.inFlight = 0 := inFlight_of_task htask
    have hholds := hinv.task
    rw [htask] at hholds
    split
    next s' r heq =>
      rw [heq] at hinv hnone hholds hprepared
      exact hinv.setTask hnone.symm ⟨hholds, hprepared r rfl⟩
    next s' e heq =>
      rw [heq] at hinv hnone hholds
      exact hinv.setTask ((inFlight_retryAfter e a).trans hnone.symm) (holds_retryAfter e hholds.1 hholds.2)
  next => exact h

/-- A decrement takes the snapshot into flight. -/
theorem decrement_inv (h : RemitInv overflowChecks s) {a : Attempt} {r : FeeRemittance}
    (hs : s.task = .reported a r) (commits : Bool) :
    RemitInv overflowChecks (decrementOutstanding overflowChecks s a r commits) := by
  have htask := h.task
  rw [hs] at htask
  obtain ⟨⟨ha, hcovers⟩, hprepared⟩ := htask
  have hnone : s.inFlight = 0 := inFlight_of_task hs
  obtain ⟨l, hl, hreserves, haccrued⟩ := apply_subtract overflowChecks ha h.remitted.total hcovers
  unfold decrementOutstanding
  rw [hl]
  dsimp only
  split
  · have htotal := h.remitted.total
    have hfees := h.remitted.fees
    have houtstanding := hreserves.outstanding
    have hbreakdown := hreserves.breakdown
    have hsuccess := hreserves.success
    refine ⟨⟨?_, ?_⟩, ?_, ?_, ha, hprepared⟩
    · show l.outstanding = l.breakdownTotal
      omega
    · show l.outstanding + a.outstandingFeesTotal + s.paid = l.successFees
      omega
    · show l.totalAccrued = l.successFees
      rw [haccrued, hsuccess, h.accrued]
    · show l.totalAccrued < 2 ^ 64
      rw [haccrued]
      exact h.fits
  · exact h.setTask ((inFlight_retryAfter _ a).trans hnone.symm) (holds_retryAfter _ ha hcovers)

/-- A restore that commits takes it back. -/
theorem restore_inv (h : RemitInv overflowChecks s) {a : Attempt} (hs : s.task = .refused a) :
    RemitInv overflowChecks (restoreOutstanding overflowChecks s a true) := by
  have ha := h.task
  rw [hs] at ha
  have hflight : s.inFlight = a.outstandingFeesTotal := inFlight_of_task hs
  have htotal := h.remitted.total
  have hfees := h.remitted.fees
  have hbooks := h.books
  have hfits := h.fits
  have haccruedFees := h.accrued
  obtain ⟨l, hl, hreserves, haccrued, hcovers⟩ := apply_add overflowChecks ha htotal (by omega)
  have houtstanding := hreserves.outstanding
  have hbreakdown := hreserves.breakdown
  have hsuccess := hreserves.success
  unfold restoreOutstanding
  rw [hl]
  dsimp only
  rw [if_pos rfl]
  refine ⟨⟨?_, ?_⟩, ?_, ?_, ?_⟩
  · show l.outstanding = l.breakdownTotal
    omega
  · rw [inFlight_retryAfter]
    show l.outstanding + 0 + s.paid = l.successFees
    omega
  · show l.totalAccrued = l.successFees
    omega
  · show l.totalAccrued < 2 ^ 64
    omega
  · show (retryAfter (.bail "Lightning payment failed") a).Holds overflowChecks l
    exact holds_retryAfter _ ha hcovers

/-- A payment that went through, and used up the total of the snapshot, is booked. -/
theorem RemitInv.settle (h : RemitInv overflowChecks s) {a : Attempt} {r : FeeRemittance} (hs : s.task = .paying a r)
    {gatewayFee : ℕ} (hsplits : r.gateway.Splits overflowChecks a.outstandingFeesTotal gatewayFee) :
    RemitInv overflowChecks { s with task := .idle, paid := s.paid + r.cost (some gatewayFee) } where
  remitted := by
    have hflight : s.inFlight = a.outstandingFeesTotal := inFlight_of_task hs
    have htask := h.task
    rw [hs] at htask
    have hcost : r.cost (some gatewayFee) = a.outstandingFeesTotal := by
      rw [← hsplits.sum, ← feeRemittanceInvoiceAmount_eq hsplits.fits htask.2]
      rfl
    have hfees := h.remitted.fees
    refine ⟨h.remitted.total, ?_⟩
    show s.app.outstanding + 0 + (s.paid + r.cost (some gatewayFee)) = s.app.successFees
    omega
  accrued := h.accrued
  fits := h.fits
  task := trivial

theorem payment_inv (h : RemitInv overflowChecks s) {outcome : PaymentOutcome}
    (htracked : AppEvent.Tracked overflowChecks s (.payment outcome)) :
    RemitInv overflowChecks (appStep overflowChecks s (.payment outcome)) := by
  unfold appStep
  dsimp only
  split
  next a r gatewayFee hs => exact h.settle hs (htracked a r hs)
  next a r settled hs =>
    have hsettled : settled = none := htracked ⟨a, r, hs⟩
    have htask := h.task
    rw [hs] at htask
    subst hsettled
    exact h.setTask (inFlight_of_task hs).symm htask.1
  next => exact h

theorem stop_inv (h : RemitInv overflowChecks s) {settled : Option ℕ}
    (htracked : AppEvent.Tracked overflowChecks s (.stop settled)) :
    RemitInv overflowChecks (appStep overflowChecks s (.stop settled)) := by
  unfold appStep
  dsimp only
  split
  next a r hs =>
    obtain ⟨gatewayFee, rfl, hsplits⟩ := htracked.1 a r hs
    exact h.settle hs hsplits
  next hpaying =>
    refine h.setTask ?_ trivial
    unfold AppState.inFlight
    cases hs : s.task with
    | paying a r => exact absurd hs (hpaying a r)
    | refused a => exact absurd hs (htracked.2 a)
    | _ => rfl

theorem write_inv (h : RemitInv overflowChecks s) {e : WriteEvent}
    (htracked : AppEvent.Tracked overflowChecks s (.write e)) :
    RemitInv overflowChecks (appStep overflowChecks s (.write e)) := by
  show RemitInv overflowChecks { s with statuses := writeStep overflowChecks s.statuses e }
  unfold writeStep
  split
  next statuses hwrite =>
    split
    next hcommits =>
      have hok : succeeds (writeFees overflowChecks s.statuses e.write) = true := by
        rw [hwrite]
        rfl
      obtain ⟨hopens, hfits⟩ := htracked hcommits hok
      obtain ⟨fee, haccrues⟩ := writeFees_accrues h.books hwrite hopens hfits
      exact h.write haccrues
    next => exact h
  next => exact h

theorem appStep_inv (h : RemitInv overflowChecks s) {e : AppEvent} (htracked : e.Tracked overflowChecks s) :
    RemitInv overflowChecks (appStep overflowChecks s e) := by
  cases e with
  | write e => exact write_inv h htracked
  | check remittanceThreshold now => exact check_inv h remittanceThreshold now
  | report x => exact report_inv h x
  | decrement commits =>
    unfold appStep
    dsimp only
    split
    next a r hs => exact decrement_inv h hs commits
    next => exact h
  | payment outcome => exact payment_inv h htracked
  | restore commits =>
    unfold appStep
    dsimp only
    split
    next a hs =>
      rw [show commits = true from htracked ⟨a, hs⟩]
      exact restore_inv h hs
    next => exact h
  | stop settled => exact stop_inv h htracked

end

theorem remitInv_start (overflowChecks : Bool) (firstDueAt : ℕ) : RemitInv overflowChecks (.start firstDueAt) where
  remitted := ⟨rfl, rfl⟩
  accrued := rfl
  fits := Nat.two_pow_pos 64
  task := trivial

/-- In every state of every run that loses track of no fee, nothing is dropped or remitted twice. -/
theorem remitted_of_run (overflowChecks : Bool) (firstDueAt : ℕ) (es : List AppEvent)
    (htracked : Tracked overflowChecks firstDueAt es) : Remitted (appRun overflowChecks firstDueAt es) := by
  have hinv : RemitInv overflowChecks (appRun overflowChecks firstDueAt es) := by
    induction es using List.reverseRecOn with
    | nil => exact remitInv_start overflowChecks firstDueAt
    | append_singleton es e ih =>
      have hbefore := ih fun before e' after hes =>
        htracked before e' (after ++ [e]) (by rw [hes, List.append_assoc, List.cons_append])
      unfold appRun at hbefore ⊢
      rw [List.foldl_append]
      exact appStep_inv hbefore (htracked es e [] rfl)
  exact hinv.remitted

/-! ## Three runs -/

/-- A gateway's invoice for what is asked. -/
def demoReport (gateway : GatewayFees) : Report where
  gateway := some gateway
  spv2Balance := none
  reply := fun request => some request.amount
  nextDueAt := 100
  commits := true

/-- A fee of 1000 is outstanding and its remittance is due. -/
def demoDue (gateway : GatewayFees) : List AppEvent :=
  [.write ⟨.logOperation 1 7, true⟩, .write ⟨.pendingSend 1 ⟨1000, some 50⟩, true⟩, .write ⟨.successSend 1, true⟩,
    .check 500 0, .report (demoReport gateway), .decrement true]

/-- The first payment is refused; the second goes through, for an invoice of 900 and a fee of 10 and a tenth. -/
def demoRetried : List AppEvent :=
  demoDue ⟨10, 100000⟩ ++ [.payment (.error none), .restore true, .report (demoReport ⟨10, 100000⟩), .decrement true,
    .payment (.ok 100)]

theorem demoRetried_tracked : Tracked false 0 demoRetried := by
  refine forall_splits_cons ?_ (forall_splits_cons ?_ (forall_splits_cons ?_ (forall_splits_cons ?_
    (forall_splits_cons ?_ (forall_splits_cons ?_ (forall_splits_cons ?_ (forall_splits_cons ?_
      (forall_splits_cons ?_ (forall_splits_cons ?_ (forall_splits_cons ?_ forall_splits_nil))))))))))
  · exact fun _ _ => ⟨fun _ hopens => (by cases hopens), fun _ fee haccrues => (by cases haccrues)⟩
  · refine fun _ _ => ⟨fun operationId hopens fee hsuccess => ?_, fun _ fee haccrues => (by cases haccrues)⟩
    cases hopens
    cases hsuccess
  · refine fun _ _ => ⟨fun _ hopens => (by cases hopens), fun _ fee haccrues => ?_⟩
    have hfee : (FeeWrite.successSend 1).accrues false (appRun false 0 (demoRetried.take 2)).statuses = some 1000 := by
      decide +kernel
    cases hfee.symm.trans haccrues
    decide +kernel
  · trivial
  · trivial
  · trivial
  · exact fun _ => rfl
  · exact fun _ => rfl
  · trivial
  · trivial
  · intro a r hpaying
    cases hpaying
    exact ⟨by decide, fun _ => by decide⟩

theorem remitted_of_run_demo : Remitted (appRun false 0 demoRetried) ∧ (appRun false 0 demoRetried).paid = 1000 :=
  ⟨remitted_of_run false 0 demoRetried demoRetried_tracked, by decide +kernel⟩

/-- The process stops after the decrement, and the payment was never made. -/
theorem stoppedBeforePayment_drops : ¬ Remitted (appRun false 0 (demoDue ⟨0, 0⟩ ++ [.stop none])) ∧
    ¬ Remitted (appRun true 0 (demoDue ⟨0, 0⟩ ++ [.stop none])) := by
  constructor
  · intro h
    have hfees := h.fees
    exact absurd hfees (by decide +kernel)
  · intro h
    have hfees := h.fees
    exact absurd hfees (by decide +kernel)

/-- A millionth of the 1000 is no msat: the invoice is for 999, and one is decremented but not paid. -/
theorem roundedInvoice_drops : ¬ Remitted (appRun false 0 (demoDue ⟨0, 1⟩ ++ [.payment (.ok 0)])) := by
  intro h
  have hfees := h.fees
  exact absurd hfees (by decide +kernel)

end FediFee
