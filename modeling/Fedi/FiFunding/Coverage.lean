import Fedi.FediFee.AppRemittance
import Fedi.FiFunding.Holds

/-!
# What the wallet may spend (`federation_v2/mod.rs`, `mint_ops/v2.rs`, `ln_ops/v2.rs`)

The notes of the mint module back the fees that are owed and the holds of formation payments; the
rest is the balance that each spend is checked against:

    get_balance = raw - (outstanding + pending, both streams) - held

A check counts the amount, the fees and the gateway's fee, but not the notes that the mint takes
for them.  As long as these exceed what was checked by no more than the check left over, raw covers fees
and holds in every state of every run (`covered_of_run`); one msat of mint fee breaks it
(`noteFee_uncovers`).
-/

namespace FiFunding

open BTreeMaps Runs FediFee

/-! ## Balances -/

/-- The client: the notes that it can spend, the fee rows with the operation log, and the holds. -/
structure WalletState where
  raw : ℕ
  recovering : Bool
  statuses : StatusState
  funding : FundingDb

def WalletState.start (recovering : Bool) : WalletState := ⟨0, recovering, .start, .empty⟩

end FiFunding

namespace FediFee

/-- Outstanding and pending fees of a stream. -/
def StreamLedger.owed (l : StreamLedger) : ℕ := l.outstanding + l.pending

/-- The sum over both streams. -/
def StatusState.owed (s : StatusState) : ℕ := s.fees.app.owed + s.fees.guardian.owed

end FediFee

namespace FiFunding

open BTreeMaps Runs FediFee

def balanceAfterMintFees (s : WalletState) (rawFedimintBalance : ℕ) : ℕ :=
  if s.recovering then 0 else rawFedimintBalance - s.statuses.owed

def fiFundingReservedTotal (s : WalletState) : ℕ := s.funding.reservedTotal.getD 0

def getBalance (s : WalletState) : ℕ :=
  if s.recovering then 0 else balanceAfterMintFees s s.raw - fiFundingReservedTotal s

/-- `get_balance_including_fi_reservation`. -/
def getBalanceIncludingFiReservation (s : WalletState) (token : Token) : Except FundingError ℕ :=
  balanceIncludingReservation (getBalance s) token s.funding

/-! ## Operations -/

structure FeePpms where
  app : ℕ
  guardian : ℕ

/-- `get_fee_amounts_by_stream`. -/
def getFeeAmountsByStream (overflowChecks : Bool) (feePpms : FeePpms) (amount : ℕ) : Res FeesByStream := do
  let app ← receiveFee overflowChecks amount feePpms.app
  let guardian ← receiveFee overflowChecks amount feePpms.guardian
  .ok ⟨app, some guardian⟩

def totalFediFeeAmount (fees : FeesByStream) : ℕ := fees.app + fees.guardian.getD 0

/-- The sum that a spend is checked with: the amount, the fees on it, and the network's fee. -/
def requiredBalance (overflowChecks : Bool) (feePpms : FeePpms) (amount networkFee : ℕ) : Res ℕ := do
  let fees ← getFeeAmountsByStream overflowChecks feePpms amount
  let fediFee ← u64 overflowChecks (totalFediFeeAmount fees)
  let total ← u64 overflowChecks (amount + fediFee)
  u64 overflowChecks (total + networkFee)

/-- A module of the client starts an operation: its id is new, and it takes notes that exist. -/
def startOperation (s : WalletState) (operationId : OperationId) (module : ModuleKind) (taken : ℕ) :
    Option WalletState :=
  if s.statuses.operationLog.get? operationId = none ∧ s.statuses.status .app operationId = none ∧
      s.statuses.status .guardian operationId = none ∧ taken ≤ s.raw then
    some { s with
      raw := s.raw - taken
      statuses := { s.statuses with operationLog := logOperation s.statuses.operationLog operationId module } }
  else none

def WalletState.write (overflowChecks : Bool) (s : WalletState) (e : WriteEvent) : WalletState :=
  { s with statuses := writeStep overflowChecks s.statuses e }

/-- An ecash send, and what the mint does: the ecash that it makes, and the notes that it takes for it. -/
structure EcashSend where
  amount : ℕ
  feePpms : FeePpms
  operationId : OperationId
  mintModule : ModuleKind
  send : Option (ℕ × ℕ)
  pendingCommits : Bool
  successCommits : Bool

def generateEcash (overflowChecks : Bool) (s : WalletState) (x : EcashSend) : WalletState :=
  match requiredBalance overflowChecks x.feePpms x.amount 0, x.send with
  | .ok required, some (sentAmount, taken) =>
    if getBalance s < required then s
    else
      match startOperation s x.operationId x.mintModule taken with
      | none => s
      | some s =>
        match getFeeAmountsByStream overflowChecks x.feePpms sentAmount with
        | .error _ => s
        | .ok settledFeesByStream =>
          let s := s.write overflowChecks ⟨.pendingSend x.operationId settledFeesByStream, x.pendingCommits⟩
          s.write overflowChecks ⟨.successSend x.operationId, x.successCommits⟩
  | _, _ => s

/-- A lightning send, and the notes that the contract takes. -/
structure LightningSend where
  amount : ℕ
  feePpms : FeePpms
  gatewayFee : ℕ
  operationId : OperationId
  lnModule : ModuleKind
  send : Option ℕ
  pendingCommits : Bool

def payInvoice (overflowChecks : Bool) (s : WalletState) (x : LightningSend) : WalletState :=
  match requiredBalance overflowChecks x.feePpms x.amount x.gatewayFee, x.send with
  | .ok required, some taken =>
    if getBalance s < required then s
    else
      match startOperation s x.operationId x.lnModule taken with
      | none => s
      | some s =>
        match getFeeAmountsByStream overflowChecks x.feePpms x.amount with
        | .error _ => s
        | .ok feesByStream =>
          s.write overflowChecks ⟨.pendingSend x.operationId feesByStream, x.pendingCommits⟩
  | _, _ => s

/-- A receive of a module: its fee pends as a rate. -/
def receive (overflowChecks : Bool) (s : WalletState) (operationId : OperationId) (module : ModuleKind)
    (feePpms : FeePpms) (commits : Bool) : WalletState :=
  match startOperation s operationId module 0 with
  | none => s
  | some s => s.write overflowChecks ⟨.pendingReceive operationId ⟨feePpms.app, some feePpms.guardian⟩, commits⟩

/-- What subscribers write when an operation ends. -/
inductive FeeTransition where
  | successSend (operationId : OperationId)
  | failedSend (operationId : OperationId)
  | successReceive (operationId : OperationId) (amount : ℕ)
  | failedReceive (operationId : OperationId)

def FeeTransition.toWrite : FeeTransition → FeeWrite
  | .successSend operationId => .successSend operationId
  | .failedSend operationId => .failedSend operationId
  | .successReceive operationId amount => .successReceive operationId amount
  | .failedReceive operationId => .failedReceive operationId

/-- The hold operations besides payment; a reservation is checked against the balance. -/
inductive HoldCall where
  | reserve (token : Token) (fingerprint : Fingerprint) (createdAtSecs : ℕ) (seats : List (QuoteId × ℕ))
  | releaseMember (token : Token) (quoteId : QuoteId)
  | releaseAggregate (token : Token)
  | recordRefund (token : Token) (quoteId : QuoteId) (refundedMsats : ℕ)

def HoldCall.toCall (availableBalance : ℕ) : HoldCall → FundingCall
  | .reserve token fingerprint createdAtSecs seats => .reserve availableBalance token fingerprint createdAtSecs seats
  | .releaseMember token quoteId => .releaseMember token quoteId
  | .releaseAggregate token => .releaseAggregate token
  | .recordRefund token quoteId refundedMsats => .recordRefund token quoteId refundedMsats

/-- A seat payment: the quoted outputs, the notes that its transaction takes, and its change. -/
structure SeatPayment where
  token : Token
  quoteId : QuoteId
  operationId : OperationId
  mintModule : ModuleKind
  quotedMsats : ℕ
  taken : ℕ
  change : ℕ
  commits : Bool

/-- `submit_seat_payment`, as far as it moves money. -/
def submitSeatPayment (s : WalletState) (x : SeatPayment) : WalletState :=
  match getBalanceIncludingFiReservation s x.token with
  | .error _ => s
  | .ok virtualBalance =>
    if virtualBalance < x.quotedMsats then s
    else
      match startOperation s x.operationId x.mintModule x.taken with
      | none => s
      | some s' =>
        -- The exact debit is what the transaction takes and does not give back.
        if x.taken < x.change ∨ virtualBalance < x.taken - x.change then s
        else
          match consumeMemberDbtx x.token x.quoteId (x.taken - x.change) s.funding with
          | (.error _, _) => s
          | (.ok _, funding) => if x.commits then { s' with funding := funding } else s

/-! ## Runs -/

inductive WalletEvent where
  | generateEcash (x : EcashSend)
  | payInvoice (x : LightningSend)
  | receive (operationId : OperationId) (module : ModuleKind) (feePpms : FeePpms) (commits : Bool)
  /-- Notes that the mint issues: a claim, a refund, or change. -/
  | credit (amount : ℕ)
  | recovered
  | transition (t : FeeTransition) (commits : Bool)
  | hold (call : HoldCall) (commits : Bool)
  | seatPayment (x : SeatPayment)

def walletStep (overflowChecks : Bool) (s : WalletState) : WalletEvent → WalletState
  | .generateEcash x => generateEcash overflowChecks s x
  | .payInvoice x => payInvoice overflowChecks s x
  | .receive operationId module feePpms commits => receive overflowChecks s operationId module feePpms commits
  | .credit amount => { s with raw := s.raw + amount }
  | .recovered => { s with recovering := false }
  | .transition t commits => s.write overflowChecks ⟨t.toWrite, commits⟩
  | .hold call commits =>
    { s with funding := fundingStep s.funding ⟨[call.toCall (getBalance s)], commits⟩ }
  | .seatPayment x => submitSeatPayment s x

def wallet (overflowChecks recovering : Bool) (es : List WalletEvent) : WalletState :=
  es.foldl (walletStep overflowChecks) (.start recovering)

/-! ## What is covered -/

/-- The holds of the other reservations. -/
def FundingDb.heldByOthers (db : FundingDb) (token : Token) : ℕ :=
  (db.reservations.erase token).sumBy fun _ r => r.heldMsats

structure Covered (s : WalletState) : Prop where
  raw : s.statuses.owed + s.funding.heldMsats ≤ s.raw
  /-- Neither subtraction of `get_balance` saturates. -/
  balance : s.recovering = false → getBalance s + s.funding.heldMsats + s.statuses.owed = s.raw
  including : ∀ token balance, getBalanceIncludingFiReservation s token = .ok balance →
    balance + s.funding.heldByOthers token + s.statuses.owed ≤ s.raw

/-! ## When it is -/

/-- What is left after fees and holds. -/
def WalletState.free (s : WalletState) : ℕ := s.raw - s.statuses.owed - s.funding.heldMsats

/-- The fees that are written for an amount that was sent. -/
def settledFee (overflowChecks : Bool) (feePpms : FeePpms) (amount : ℕ) : ℕ :=
  match getFeeAmountsByStream overflowChecks feePpms amount with
  | .ok fees => totalFediFeeAmount fees
  | .error _ => 0

/-- The fee that the success of a receive makes outstanding in a stream. -/
def receiveAccrues (overflowChecks : Bool) (s : StatusState) (operationId : OperationId) (amount : ℕ)
    (stream : FediFeeStream) : ℕ :=
  match s.status stream operationId with
  | some (.pendingReceive ppm) => (receiveFee overflowChecks amount ppm).toOption.getD 0
  | _ => 0

/-- A spend costs more than the sum that was checked by no more than the check leaves of the limit. -/
def WithinSlack (limit checked cost : ℕ) : Prop := cost - checked ≤ limit - checked

instance (limit checked cost : ℕ) : Decidable (WithinSlack limit checked cost) :=
  inferInstanceAs (Decidable (_ ≤ _))

/-- The notes that the mint takes for a spend, and the fees that are written for it, against the sum
that the balance was checked with; the notes of a seat payment, whose change comes back later, against
the debit that its hold was checked with (the operation of a seat is named by its quote, so that a seat
is not paid twice).  The fee of a receive is checked against nothing. -/
def WalletEvent.Funded (overflowChecks : Bool) (s : WalletState) : WalletEvent → Prop
  | .generateEcash x => ∀ required, requiredBalance overflowChecks x.feePpms x.amount 0 = .ok required →
    ∀ sentAmount taken, x.send = some (sentAmount, taken) →
      WithinSlack s.free required (taken + settledFee overflowChecks x.feePpms sentAmount)
  | .payInvoice x => ∀ required, requiredBalance overflowChecks x.feePpms x.amount x.gatewayFee = .ok required →
    ∀ taken, x.send = some taken →
      WithinSlack s.free required (taken + settledFee overflowChecks x.feePpms x.amount)
  | .transition (.successReceive operationId amount) _ =>
    receiveAccrues overflowChecks s.statuses operationId amount .app +
      receiveAccrues overflowChecks s.statuses operationId amount .guardian ≤ s.free
  | .seatPayment x => ∀ m, s.funding.member x.token x.quoteId = some m →
    (∀ debitMsats, m.state = .consumed debitMsats → s.statuses.operationLog.get? x.operationId ≠ none) ∧
      WithinSlack (s.free + m.heldMsats) (x.taken - x.change) x.taken
  | _ => True

/-- In a build that does not check, notes and accrued fees stay amounts. -/
def WalletState.Fits (s : WalletState) : Prop := s.raw + s.statuses.fees.app.totalAccrued < 2 ^ 64

instance (s : WalletState) : Decidable s.Fits :=
  inferInstanceAs (Decidable (s.raw + s.statuses.fees.app.totalAccrued < 2 ^ 64))

def Funded (overflowChecks recovering : Bool) (es : List WalletEvent) : Prop :=
  ∀ before e after, es = before ++ e :: after →
    e.Funded overflowChecks (wallet overflowChecks recovering before) ∧
      (overflowChecks = false → (wallet overflowChecks recovering before).Fits)

end FiFunding

namespace FediFee

open BTreeMaps Runs FiFunding

/-! ## What a fee write adds to what is owed -/

section

variable {overflowChecks : Bool} {stream : FediFeeStream} {l l' : StreamLedger} {operationId : OperationId}
  {module : ModuleKind} {changed : Bool} {operationLog : BTreeMap OperationId ModuleKind}

theorem accrue_owed {txType : TxType} {fediFee : ℕ}
    (h : l.accrue overflowChecks stream operationId txType fediFee = .ok l') : l'.owed ≤ l.owed + fediFee := by
  obtain ⟨_, -, h⟩ := bind_eq_ok.mp h
  obtain ⟨outstandingFees, houtstanding, h⟩ := bind_eq_ok.mp h
  obtain ⟨_, -, h⟩ := bind_eq_ok.mp h
  cases h
  have hle := u64_le houtstanding
  unfold StreamLedger.owed
  dsimp only
  omega

theorem insertPendingSend_owed {fediFee : ℕ}
    (h : insertPendingSendFediFeeInDb overflowChecks l operationId module fediFee = .ok l') :
    l'.owed ≤ l.owed + fediFee := by
  obtain ⟨_, -, h⟩ := bind_eq_ok.mp h
  obtain ⟨pendingFees, hpending, h⟩ := bind_eq_ok.mp h
  cases h
  have hle := u64_le hpending
  unfold StreamLedger.owed
  dsimp only
  omega

/-- A send that succeeds owes what was pending. -/
theorem transitionSuccessSend_owed (hcounts : Counts operationLog stream l)
    (hmodule : operationLog.get? operationId = some module)
    (h : transitionSuccessSendFediFeeInDb overflowChecks stream l operationId module = .ok (l', changed)) :
    l'.owed ≤ l.owed := by
  rcases transitionSuccessSend_cases h with ⟨rfl, -⟩ | ⟨fee, hget, haccrue⟩
  · exact le_refl _
  · have hpending := (unpend_spec hcounts hmodule hget).2.2
    have hle := accrue_owed haccrue
    have houtstanding : (l.unpend module fee).outstanding = l.outstanding := rfl
    unfold StreamLedger.owed at hle ⊢
    omega

theorem transitionFailedSend_owed
    (h : transitionFailedSendFediFeeInDb stream l operationId module = .ok (l', changed)) : l'.owed ≤ l.owed := by
  rcases transitionFailedSend_cases h with ⟨rfl, -⟩ | ⟨fee, -, rfl⟩
  · exact le_refl _
  · exact Nat.add_le_add_left (Nat.sub_le _ _) _

theorem transitionFailedReceive_owed
    (h : transitionFailedReceiveFediFeeInDb stream l operationId = .ok (l', changed)) : l'.owed = l.owed := by
  rcases transitionFailedReceive_cases h with ⟨rfl, -⟩ | ⟨ppm, -, rfl⟩
  · rfl
  · rfl

end

theorem transitionSuccessReceive_owed {overflowChecks : Bool} {s : StatusState} {stream : FediFeeStream}
    {l' : StreamLedger} {operationId : OperationId} {module : ModuleKind} {amount : ℕ} {changed : Bool}
    (h : transitionSuccessReceiveFediFeeInDb overflowChecks stream (s.fees.stream stream) operationId module amount =
      .ok (l', changed)) :
    l'.owed ≤ (s.fees.stream stream).owed + receiveAccrues overflowChecks s operationId amount stream := by
  rcases transitionSuccessReceive_cases h with ⟨rfl, -⟩ | ⟨ppm, fee, hget, hfee, haccrue⟩
  · exact Nat.le_add_right _ _
  · have hstatus : s.status stream operationId = some (.pendingReceive ppm) := hget
    have hadds : receiveAccrues overflowChecks s operationId amount stream = fee := by
      unfold receiveAccrues
      rw [hstatus]
      dsimp only
      rw [hfee]
      rfl
    rw [hadds]
    exact accrue_owed haccrue

/-- What a write may add to what is owed. -/
def FeeWrite.adds (overflowChecks : Bool) (s : StatusState) : FeeWrite → ℕ
  | .pendingSend _ fees => FiFunding.totalFediFeeAmount fees
  | .successReceive operationId amount =>
    receiveAccrues overflowChecks s operationId amount .app + receiveAccrues overflowChecks s operationId amount .guardian
  | _ => 0

theorem onBothStreams_owed {dbtx : FediFeeDb} {r : FediFeeDb × Bool} {app guardian : ℕ}
    {transition : FediFeeStream → StreamLedger → Res (StreamLedger × Bool)}
    (happ : ∀ l' changed, transition .app dbtx.app = .ok (l', changed) → l'.owed ≤ dbtx.app.owed + app)
    (hguardian : ∀ l' changed, transition .guardian dbtx.guardian = .ok (l', changed) →
      l'.owed ≤ dbtx.guardian.owed + guardian)
    (h : onBothStreams dbtx transition = .ok r) :
    r.1.app.owed + r.1.guardian.owed ≤ dbtx.app.owed + dbtx.guardian.owed + (app + guardian) := by
  obtain ⟨a, ha, h⟩ := bind_eq_ok.mp h
  obtain ⟨g, hg, h⟩ := bind_eq_ok.mp h
  cases h
  have hleApp := happ _ _ ha
  have hleGuardian := hguardian _ _ hg
  dsimp only
  omega

theorem writeFees_owed {overflowChecks : Bool} {s s' : StatusState} {write : FeeWrite} (h : WriteInv s)
    (hwrite : writeFees overflowChecks s write = .ok s') : s'.owed ≤ s.owed + write.adds overflowChecks s := by
  cases write with
  | logOperation operationId module =>
    cases hwrite
    exact le_refl _
  | pendingSend operationId fees =>
    obtain ⟨module, -, hwrite⟩ := bind_eq_ok.mp hwrite
    obtain ⟨fees', hfees, hwrite⟩ := bind_eq_ok.mp hwrite
    cases hwrite
    obtain ⟨app, guardian⟩ := fees
    obtain ⟨l, happ, hfees⟩ := bind_eq_ok.mp hfees
    have hleApp := insertPendingSend_owed happ
    cases guardian with
    | none =>
      cases hfees
      show l.owed + s.fees.guardian.owed ≤ s.fees.app.owed + s.fees.guardian.owed + (app + 0)
      have : l.owed ≤ s.fees.app.owed + app := hleApp
      omega
    | some guardian =>
      obtain ⟨l', hguardian, hfees⟩ := bind_eq_ok.mp hfees
      cases hfees
      have hleGuardian := insertPendingSend_owed hguardian
      show l.owed + l'.owed ≤ s.fees.app.owed + s.fees.guardian.owed + (app + guardian)
      have : l.owed ≤ s.fees.app.owed + app := hleApp
      have : l'.owed ≤ s.fees.guardian.owed + guardian := hleGuardian
      omega
  | successSend operationId =>
    obtain ⟨module, hmodule, hwrite⟩ := bind_eq_ok.mp hwrite
    obtain ⟨r, hr, hwrite⟩ := bind_eq_ok.mp hwrite
    cases hwrite
    have hget := operationModuleKind_spec hmodule
    exact @onBothStreams_owed _ _ 0 0 _
      (fun _ _ htransition => transitionSuccessSend_owed (h.counts .app) hget htransition)
      (fun _ _ htransition => transitionSuccessSend_owed (h.counts .guardian) hget htransition) hr
  | failedSend operationId =>
    obtain ⟨module, -, hwrite⟩ := bind_eq_ok.mp hwrite
    obtain ⟨r, hr, hwrite⟩ := bind_eq_ok.mp hwrite
    cases hwrite
    exact @onBothStreams_owed _ _ 0 0 _ (fun _ _ htransition => transitionFailedSend_owed htransition)
      (fun _ _ htransition => transitionFailedSend_owed htransition) hr
  | pendingReceive operationId feePpms =>
    cases hwrite
    obtain ⟨app, guardian⟩ := feePpms
    cases guardian with
    | none => exact le_refl _
    | some guardian => exact le_refl _
  | successReceive operationId amount =>
    obtain ⟨module, -, hwrite⟩ := bind_eq_ok.mp hwrite
    obtain ⟨r, hr, hwrite⟩ := bind_eq_ok.mp hwrite
    cases hwrite
    exact onBothStreams_owed
      (fun _ _ htransition => @transitionSuccessReceive_owed overflowChecks s .app _ _ _ _ _ htransition)
      (fun _ _ htransition => @transitionSuccessReceive_owed overflowChecks s .guardian _ _ _ _ _ htransition) hr
  | failedReceive operationId =>
    obtain ⟨r, hr, hwrite⟩ := bind_eq_ok.mp hwrite
    cases hwrite
    exact @onBothStreams_owed _ _ 0 0 _
      (fun _ _ htransition => (transitionFailedReceive_owed htransition).le)
      (fun _ _ htransition => (transitionFailedReceive_owed htransition).le) hr

end FediFee

namespace FiFunding

open BTreeMaps Runs FediFee

/-! ## One step -/

structure WalletInv (s : WalletState) : Prop where
  writes : WriteInv s.statuses
  holds : HoldsAgree s.funding
  covers : s.statuses.owed + s.funding.heldMsats ≤ s.raw

/-- A spend that passed its check costs no more than the limit. -/
theorem WithinSlack.le {limit checked cost : ℕ} (h : WithinSlack limit checked cost) (hchecked : checked ≤ limit) :
    cost ≤ limit := by
  unfold WithinSlack at h
  omega

section

variable {overflowChecks : Bool} {s s' : WalletState}

theorem getBalance_le_free (h : WalletInv s) : getBalance s ≤ s.free := by
  have htotal := h.holds.total
  unfold getBalance balanceAfterMintFees fiFundingReservedTotal WalletState.free
  split
  · exact Nat.zero_le _
  · omega

theorem writeStep_owed {statuses : StatusState} (h : WriteInv statuses) (e : WriteEvent) :
    (writeStep overflowChecks statuses e).owed ≤ statuses.owed + e.write.adds overflowChecks statuses := by
  unfold writeStep
  split
  next statuses' hwrite =>
    split
    · exact writeFees_owed h hwrite
    · exact Nat.le_add_right _ _
  next => exact Nat.le_add_right _ _

theorem WalletInv.write (h : WalletInv s) {e : WriteEvent} (hnew : e.write.IsNew s.statuses)
    (hfits : overflowChecks = false → e.write.Fits overflowChecks s.statuses)
    (hadds : e.write.adds overflowChecks s.statuses ≤ s.free) : WalletInv (s.write overflowChecks e) where
  writes := (writeStep_spec h.writes (fun _ _ => hnew) fun hchecks _ => hfits hchecks).1
  holds := h.holds
  covers := by
    have howed := @writeStep_owed overflowChecks _ h.writes e
    have hcovers := h.covers
    unfold WalletState.free at hadds
    show (writeStep overflowChecks s.statuses e).owed + s.funding.heldMsats ≤ s.raw
    omega

/-- What an operation that starts leaves. -/
structure Starts (s s' : WalletState) (operationId : OperationId) (taken : ℕ) : Prop where
  raw : s'.raw + taken = s.raw
  recovering : s'.recovering = s.recovering
  funding : s'.funding = s.funding
  fees : s'.statuses.fees = s.statuses.fees
  fresh : s.statuses.operationLog.get? operationId = none
  isNew : ∀ stream, s'.statuses.status stream operationId = none
  writes : WriteInv s.statuses → WriteInv s'.statuses

theorem startOperation_spec {operationId : OperationId} {module : ModuleKind} {taken : ℕ}
    (h : startOperation s operationId module taken = some s') : Starts s s' operationId taken := by
  unfold startOperation at h
  split at h
  next hnew =>
    cases h
    refine ⟨Nat.sub_add_cancel hnew.2.2.2, rfl, rfl, rfl, hnew.1, fun stream => ?_, fun hwrites => ?_⟩
    · cases stream with
      | app => exact hnew.2.1
      | guardian => exact hnew.2.2.1
    · exact ⟨fun stream => (hwrites.counts stream).logged_more fun _ _ => get?_logOperation, hwrites.direction⟩
  next => cases h

theorem Starts.owed {operationId : OperationId} {taken : ℕ} (h : Starts s s' operationId taken) :
    s'.statuses.owed = s.statuses.owed := by
  unfold StatusState.owed
  rw [h.fees]

/-- An operation that takes no more than what is left, with the fee that follows. -/
theorem WalletInv.start (h : WalletInv s) {operationId : OperationId} {taken fee : ℕ}
    (hstarts : Starts s s' operationId taken) (hfunded : taken + fee ≤ s.free) : WalletInv s' ∧ fee ≤ s'.free := by
  have hraw := hstarts.raw
  have howed := hstarts.owed
  have hfunding := hstarts.funding
  have hcovers := h.covers
  unfold WalletState.free at hfunded ⊢
  refine ⟨⟨hstarts.writes h.writes, hfunding ▸ h.holds, ?_⟩, ?_⟩
  · rw [howed, hfunding]
    omega
  · rw [howed, hfunding]
    omega

theorem pending_le_owed (statuses : StatusState) (stream : FediFeeStream) :
    (statuses.fees.stream stream).pending ≤ statuses.owed := by
  unfold StatusState.owed StreamLedger.owed
  cases stream with
  | app =>
    show statuses.fees.app.pending ≤ _
    omega
  | guardian =>
    show statuses.fees.guardian.pending ≤ _
    omega

theorem le_totalFediFeeAmount {fees : FeesByStream} {stream : FediFeeStream} {fee : ℕ}
    (h : (stream, fee) ∈ fees.toList) : fee ≤ totalFediFeeAmount fees := by
  obtain ⟨app, guardian⟩ := fees
  unfold FeesByStream.toList at h
  unfold totalFediFeeAmount
  rcases List.mem_cons.mp h with heq | hmem
  · cases heq
    exact Nat.le_add_right _ _
  · cases guardian with
    | none => cases hmem
    | some guardian =>
      cases List.mem_singleton.mp hmem
      exact Nat.le_add_left _ _

/-- A pending write of a new operation whose fee is funded. -/
theorem WalletInv.writePending (h : WalletInv s) {operationId : OperationId} {fees : FeesByStream} (commits : Bool)
    (hnew : ∀ stream, s.statuses.status stream operationId = none) (hfunded : totalFediFeeAmount fees ≤ s.free)
    (hraw : overflowChecks = false → s.raw < 2 ^ 64) :
    WalletInv (s.write overflowChecks ⟨.pendingSend operationId fees, commits⟩) := by
  refine h.write hnew (fun hchecks stream fee hmem => ?_) hfunded
  have hfee := le_totalFediFeeAmount hmem
  have hpending := pending_le_owed s.statuses stream
  have hlt := hraw hchecks
  have hcovers := h.covers
  unfold WalletState.free at hfunded
  omega

/-- A pending write accrues nothing yet. -/
theorem totalAccrued_writePending (statuses : StatusState) (operationId : OperationId) (fees : FeesByStream)
    (commits : Bool) : (writeStep overflowChecks statuses ⟨.pendingSend operationId fees, commits⟩).fees.app.totalAccrued =
      statuses.fees.app.totalAccrued := by
  unfold writeStep
  split
  next statuses' hwrite =>
    split
    · obtain ⟨module, -, hwrite⟩ := bind_eq_ok.mp hwrite
      obtain ⟨fees', hfees, hwrite⟩ := bind_eq_ok.mp hwrite
      cases hwrite
      obtain ⟨app, guardian⟩ := fees
      obtain ⟨l, happ, hfees⟩ := bind_eq_ok.mp hfees
      obtain ⟨_, -, happ⟩ := bind_eq_ok.mp happ
      obtain ⟨_, -, happ⟩ := bind_eq_ok.mp happ
      cases happ
      cases guardian with
      | none =>
        cases hfees
        rfl
      | some guardian =>
        obtain ⟨l', -, hfees⟩ := bind_eq_ok.mp hfees
        cases hfees
        rfl
    · rfl
  next => rfl

/-- A send that succeeds accrues a fee that was pending, which the notes cover. -/
theorem WalletInv.writeSuccessSend (h : WalletInv s) (operationId : OperationId) (commits : Bool)
    (hfits : overflowChecks = false → s.Fits) :
    WalletInv (s.write overflowChecks ⟨.successSend operationId, commits⟩) := by
  refine h.write trivial (fun hchecks fee hpending => ?_) (Nat.zero_le _)
  obtain ⟨module, hmodule⟩ := BTreeMap.mem_keys.mp ((h.writes.counts .app).logged operationId fee hpending)
  have hle := ((h.writes.counts .app).covered hpending hmodule).2
  have hpend := pending_le_owed s.statuses .app
  have hlt := hfits hchecks
  have hcovers := h.covers
  unfold WalletState.Fits at hlt
  have happ : (s.statuses.fees.stream .app).pending = s.statuses.fees.app.pending := rfl
  omega

theorem settledFee_eq {feePpms : FeePpms} {amount : ℕ} {fees : FeesByStream}
    (h : getFeeAmountsByStream overflowChecks feePpms amount = .ok fees) :
    settledFee overflowChecks feePpms amount = totalFediFeeAmount fees := by
  unfold settledFee
  rw [h]

theorem generateEcash_inv (h : WalletInv s) {x : EcashSend}
    (hfunded : WalletEvent.Funded overflowChecks s (.generateEcash x)) (hfits : overflowChecks = false → s.Fits) :
    WalletInv (generateEcash overflowChecks s x) := by
  unfold generateEcash
  split
  next required sentAmount taken hrequired hsend =>
    split
    · exact h
    next hchecked =>
      split
      · exact h
      next s1 hstart =>
        have hstarts := startOperation_spec hstart
        have hwithin := (hfunded required hrequired sentAmount taken hsend).le
          ((Nat.le_of_not_lt hchecked).trans (getBalance_le_free h))
        obtain ⟨hinv, hfee⟩ := h.start hstarts hwithin
        have hraw := hstarts.raw
        split
        · exact hinv
        next settled hsettled =>
          rw [settledFee_eq hsettled] at hfee
          have hinv' := hinv.writePending x.pendingCommits hstarts.isNew hfee fun hchecks => by
            have hlt := hfits hchecks
            unfold WalletState.Fits at hlt
            omega
          refine hinv'.writeSuccessSend x.operationId x.successCommits fun hchecks => ?_
          have hlt := hfits hchecks
          have haccrued := @totalAccrued_writePending overflowChecks s1.statuses x.operationId settled
            x.pendingCommits
          unfold WalletState.Fits at hlt ⊢
          show s1.raw + (writeStep overflowChecks s1.statuses _).fees.app.totalAccrued < 2 ^ 64
          rw [haccrued, hstarts.fees]
          omega
  next => exact h

theorem payInvoice_inv (h : WalletInv s) {x : LightningSend}
    (hfunded : WalletEvent.Funded overflowChecks s (.payInvoice x)) (hfits : overflowChecks = false → s.Fits) :
    WalletInv (payInvoice overflowChecks s x) := by
  unfold payInvoice
  split
  next required taken hrequired hsend =>
    split
    · exact h
    next hchecked =>
      split
      · exact h
      next s1 hstart =>
        have hstarts := startOperation_spec hstart
        have hwithin := (hfunded required hrequired taken hsend).le
          ((Nat.le_of_not_lt hchecked).trans (getBalance_le_free h))
        obtain ⟨hinv, hfee⟩ := h.start hstarts hwithin
        have hraw := hstarts.raw
        split
        · exact hinv
        next fees hfees =>
          rw [settledFee_eq hfees] at hfee
          refine hinv.writePending x.pendingCommits hstarts.isNew hfee fun hchecks => ?_
          have hlt := hfits hchecks
          unfold WalletState.Fits at hlt
          omega
  next => exact h

theorem receive_inv (h : WalletInv s) (operationId : OperationId) (module : ModuleKind) (feePpms : FeePpms)
    (commits : Bool) : WalletInv (receive overflowChecks s operationId module feePpms commits) := by
  unfold receive
  split
  · exact h
  next s1 hstart =>
    have hstarts := startOperation_spec hstart
    obtain ⟨hinv, -⟩ := @WalletInv.start s s1 h operationId 0 0 hstarts (Nat.zero_le _)
    exact hinv.write hstarts.isNew (fun _ => trivial) (Nat.zero_le _)

theorem transition_inv (h : WalletInv s) {t : FeeTransition} {commits : Bool}
    (hfunded : WalletEvent.Funded overflowChecks s (.transition t commits)) (hfits : overflowChecks = false → s.Fits) :
    WalletInv (s.write overflowChecks ⟨t.toWrite, commits⟩) := by
  cases t with
  | successSend operationId => exact h.writeSuccessSend operationId commits hfits
  | failedSend operationId => exact h.write trivial (fun _ => trivial) (Nat.zero_le _)
  | successReceive operationId amount =>
    refine h.write trivial (fun hchecks ppm fee hpending hfee => ?_) hfunded
    have hadds : receiveAccrues overflowChecks s.statuses operationId amount .app = fee := by
      unfold receiveAccrues
      rw [hpending]
      dsimp only
      rw [hfee]
      rfl
    have hle : receiveAccrues overflowChecks s.statuses operationId amount .app +
      receiveAccrues overflowChecks s.statuses operationId amount .guardian ≤ s.free := hfunded
    have hlt := hfits hchecks
    unfold WalletState.Fits at hlt
    unfold WalletState.free at hle
    omega
  | failedReceive operationId => exact h.write trivial (fun _ => trivial) (Nat.zero_le _)

/-! ### Holds -/

/-- A release, or a refund, holds no more than before. -/
theorem decrement_total_le {amountMsats : ℕ} {db db' : FundingDb} {r : Except FundingError Unit}
    (h : decrementActiveTotal amountMsats db = (r, db')) : db'.reservedTotal.getD 0 ≤ db.reservedTotal.getD 0 := by
  unfold decrementActiveTotal at h
  split at h
  · cases h
    exact le_refl _
  next total htotal =>
    split at h
    · cases h
      rw [htotal]
      exact Nat.sub_le _ _
    · cases h
      exact le_refl _

theorem leaveHeld_total_le {token : Token} {r : Reservation} {quoteId : QuoteId} {m : Member}
    {hquote : m.quoteId = quoteId} {state : MemberState} {db : FundingDb} :
    (leaveHeld token r quoteId m hquote state db).2.reservedTotal.getD 0 ≤ db.reservedTotal.getD 0 := by
  unfold leaveHeld
  split
  next e db' hdec => exact decrement_total_le hdec
  next db' hdec =>
    have hle := decrement_total_le hdec
    exact hle

theorem releaseMember_total_le (token : Token) (quoteId : QuoteId) (db : FundingDb) :
    (releaseUnstartedMemberDbtx token quoteId db).2.reservedTotal.getD 0 ≤ db.reservedTotal.getD 0 := by
  unfold releaseUnstartedMemberDbtx
  split
  · exact le_refl _
  · split
    · exact le_refl _
    · split
      · exact leaveHeld_total_le
      · exact le_refl _
      · exact le_refl _

theorem releaseAggregate_total_le (token : Token) (db : FundingDb) :
    (releaseUnstartedAggregateDbtx token db).2.reservedTotal.getD 0 ≤ db.reservedTotal.getD 0 := by
  unfold releaseUnstartedAggregateDbtx
  split
  · exact le_refl _
  · split
    · split
      · exact le_refl _
      · split
        · exact le_refl _
        · split
          next e db' hdec => exact decrement_total_le hdec
          next db' hdec =>
            have hle := decrement_total_le hdec
            exact hle
    · exact le_refl _

theorem recordRefund_total (token : Token) (quoteId : QuoteId) (refundedMsats : ℕ) (db : FundingDb) :
    (recordMemberRefundDbtx token quoteId refundedMsats db).2.reservedTotal = db.reservedTotal := by
  unfold recordMemberRefundDbtx
  split
  · rfl
  · split
    · rfl
    · split
      · rfl
      · rfl

/-- A reservation adds what the balance covers. -/
theorem reserve_total_le (availableBalance : ℕ) (token : Token) (fingerprint : Fingerprint) (createdAtSecs : ℕ)
    (members : List Member) (db : FundingDb) :
    (reserve availableBalance token fingerprint createdAtSecs members db).2.reservedTotal.getD 0 ≤
      db.reservedTotal.getD 0 + availableBalance := by
  unfold reserve
  split
  · exact Nat.le_add_right _ _
  next r _ =>
    split
    · exact Nat.le_add_right _ _
    next amountMsats hheld =>
      split
      · split
        · exact Nat.le_add_right _ _
        · exact Nat.le_add_right _ _
      next hnone =>
        split
        next hle =>
          have htotal : (insertReservationDbtx token r db).2.reservedTotal.getD 0 ≤
              db.reservedTotal.getD 0 + amountMsats := by
            unfold insertReservationDbtx
            rw [hnone, hheld]
            dsimp only
            split
            · split
              · exact le_refl _
              · exact Nat.le_add_right _ _
            · exact Nat.le_add_right _ _
          split
          next e db' hinsert =>
            rw [hinsert] at htotal
            exact htotal.trans (Nat.add_le_add_left hle _)
          next a db' hinsert =>
            rw [hinsert] at htotal
            exact htotal.trans (Nat.add_le_add_left hle _)
        · exact Nat.le_add_right _ _

theorem discard_snd {α : Type} (r : Outcome α) : r.discard.2 = r.2 := by
  obtain ⟨result, db⟩ := r
  cases result <;> rfl

theorem holdCall_total_le (availableBalance : ℕ) (call : HoldCall) (db : FundingDb) :
    ((call.toCall availableBalance).run db).2.reservedTotal.getD 0 ≤ db.reservedTotal.getD 0 + availableBalance := by
  cases call with
  | reserve token fingerprint createdAtSecs seats =>
    unfold HoldCall.toCall FundingCall.run
    dsimp only
    split
    · exact Nat.le_add_right _ _
    · exact reserve_total_le _ _ _ _ _ _
  | releaseMember token quoteId =>
    show ((releaseUnstartedMemberDbtx token quoteId db).discard).2.reservedTotal.getD 0 ≤ _
    rw [discard_snd]
    exact (releaseMember_total_le token quoteId db).trans (Nat.le_add_right _ _)
  | releaseAggregate token =>
    show ((releaseUnstartedAggregateDbtx token db).discard).2.reservedTotal.getD 0 ≤ _
    rw [discard_snd]
    exact (releaseAggregate_total_le token db).trans (Nat.le_add_right _ _)
  | recordRefund token quoteId refundedMsats =>
    show (recordMemberRefundDbtx token quoteId refundedMsats db).2.reservedTotal.getD 0 ≤ _
    rw [recordRefund_total]
    exact Nat.le_add_right _ _

theorem hold_inv (h : WalletInv s) (call : HoldCall) (commits : Bool) :
    WalletInv { s with funding := fundingStep s.funding ⟨[call.toCall (getBalance s)], commits⟩ } := by
  unfold fundingStep
  cases commits with
  | false => exact h
  | true =>
    have hagree := ((call_good h.holds (call.toCall (getBalance s))).state h.holds).1
    have htotal := holdCall_total_le (getBalance s) call s.funding
    refine ⟨h.writes, hagree, ?_⟩
    have hbalance := getBalance_le_free h
    have hold := h.holds.total
    have hnew := hagree.total
    have hcovers := h.covers
    unfold WalletState.free at hbalance
    show s.statuses.owed + ((call.toCall (getBalance s)).run s.funding).2.heldMsats ≤ s.raw
    omega

/-- A seat that is paid gives up its own hold, which its debit stays within unless the seat was paid before. -/
theorem consume_spec {db db' : FundingDb} (h : HoldsAgree db) {token : Token} {quoteId : QuoteId} {exactDebit : ℕ}
    {a : Bool} (hconsume : consumeMemberDbtx token quoteId exactDebit db = (.ok a, db')) :
    ∃ m, db.member token quoteId = some m ∧
      db'.reservedTotal.getD 0 + m.heldMsats = db.reservedTotal.getD 0 ∧
      ((∃ debitMsats, m.state = .consumed debitMsats) ∨ exactDebit ≤ m.heldMsats) := by
  unfold consumeMemberDbtx at hconsume
  split at hconsume
  · split at hconsume
    · cases hconsume
    next r hget =>
      split at hconsume
      · cases hconsume
      next m hm =>
        have hmember : db.member token quoteId = some m := by
          unfold FundingDb.member
          rw [hget]
          exact hm
        split at hconsume
        next hdebit =>
          split at hconsume
          · cases hconsume
          next debitMsats hstate =>
            split at hconsume
            · cases hconsume
              refine ⟨m, hmember, ?_, .inl ⟨debitMsats, hstate⟩⟩
              rw [show m.heldMsats = 0 from if_neg (by rw [hstate]; simp)]
              rfl
            · cases hconsume
          next hheld =>
            have hmsats : m.heldMsats = m.reservedMsats := if_pos hheld
            have hle := heldMsats_le (mem_of_find hm)
            have hcovers := h.heldMsats_le hget
            rw [hmsats] at hle
            unfold leaveHeld at hconsume
            rw [decrement_ok h hget hle] at hconsume
            cases hconsume
            refine ⟨m, hmember, ?_, .inr (hmsats ▸ hdebit)⟩
            rw [hmsats]
            exact Nat.sub_add_cancel (hle.trans hcovers)
        · cases hconsume
  · cases hconsume

theorem seatPayment_inv (h : WalletInv s) {x : SeatPayment}
    (hfunded : WalletEvent.Funded overflowChecks s (.seatPayment x)) : WalletInv (submitSeatPayment s x) := by
  unfold submitSeatPayment
  split
  · exact h
  · split
    · exact h
    · split
      · exact h
      next s1 hstart =>
        split
        · exact h
        · split
          · exact h
          next a funding hconsume =>
            split
            · have hstarts := startOperation_spec hstart
              obtain ⟨m, hm, htotal, hdebit⟩ := consume_spec h.holds hconsume
              obtain ⟨hpaid, hwithin⟩ := hfunded m hm
              have hchecked : x.taken - x.change ≤ m.heldMsats := by
                rcases hdebit with ⟨debitMsats, hstate⟩ | hdebit
                · exact absurd hstarts.fresh (hpaid debitMsats hstate)
                · exact hdebit
              have hle := hwithin.le (hchecked.trans (Nat.le_add_left _ _))
              have hraw := hstarts.raw
              have howed := hstarts.owed
              have hagree : HoldsAgree funding := by
                have hstate := ((consumeMember_good h.holds x.token x.quoteId (x.taken - x.change)).state h.holds).1
                rw [hconsume] at hstate
                exact hstate
              have hold := h.holds.total
              have hnew := hagree.total
              have hcovers := h.covers
              unfold WalletState.free at hle
              refine ⟨hstarts.writes h.writes, hagree, ?_⟩
              show s1.statuses.owed + funding.heldMsats ≤ s1.raw
              omega
            · exact h

theorem walletStep_inv (h : WalletInv s) {e : WalletEvent} (hfunded : e.Funded overflowChecks s)
    (hfits : overflowChecks = false → s.Fits) : WalletInv (walletStep overflowChecks s e) := by
  cases e with
  | generateEcash x => exact generateEcash_inv h hfunded hfits
  | payInvoice x => exact payInvoice_inv h hfunded hfits
  | receive operationId module feePpms commits => exact receive_inv h operationId module feePpms commits
  | credit amount => exact ⟨h.writes, h.holds, h.covers.trans (Nat.le_add_right _ _)⟩
  | recovered => exact ⟨h.writes, h.holds, h.covers⟩
  | transition t commits => exact transition_inv h hfunded hfits
  | hold call commits => exact hold_inv h call commits
  | seatPayment x => exact seatPayment_inv h hfunded

/-! ## Every run -/

theorem walletInv_start (recovering : Bool) : WalletInv (.start recovering) where
  writes := writeInv_start
  holds := holdsAgree_empty
  covers := le_refl 0

/-- The owner of a reservation counts its own hold, and no other. -/
theorem WalletInv.covered (h : WalletInv s) : Covered s where
  raw := h.covers
  balance := by
    intro hrecovering
    have htotal := h.holds.total
    have hcovers := h.covers
    unfold getBalance balanceAfterMintFees fiFundingReservedTotal
    rw [hrecovering]
    simp only [Bool.false_eq_true, if_false]
    omega
  including := by
    intro token balance hbalance
    have hfree := getBalance_le_free h
    have hcovers := h.covers
    unfold WalletState.free at hfree
    unfold getBalanceIncludingFiReservation balanceIncludingReservation at hbalance
    split at hbalance
    · cases hbalance
    next r hget =>
      split at hbalance
      · cases hbalance
      next held hheld =>
        split at hbalance
        · cases hbalance
          have herase := BTreeMap.sumBy_erase_add (fun _ (r : Reservation) => r.heldMsats) s.funding.reservations token
          rw [hget, Option.elim_some, ← heldAmount_eq hheld] at herase
          unfold FundingDb.heldByOthers
          unfold FundingDb.heldMsats at hfree hcovers
          omega
        · cases hbalance

end

/-- In every run whose spends are funded, the notes cover fees and holds in every state. -/
theorem covered_of_run (overflowChecks recovering : Bool) (es : List WalletEvent)
    (hfunded : Funded overflowChecks recovering es) : Covered (wallet overflowChecks recovering es) := by
  have hinv : WalletInv (wallet overflowChecks recovering es) := by
    induction es using List.reverseRecOn with
    | nil => exact walletInv_start recovering
    | append_singleton es e ih =>
      have hbefore := ih fun before e' after hes =>
        hfunded before e' (after ++ [e]) (by rw [hes, List.append_assoc, List.cons_append])
      obtain ⟨hstep, hfits⟩ := hfunded es e [] rfl
      unfold wallet at hbefore ⊢
      rw [List.foldl_append]
      exact walletStep_inv hbefore hstep hfits
  exact hinv.covered

/-! ## Two runs -/

/-- An ecash send of 1000 with a fee of one percent for each stream, for which the mint takes `taken`. -/
def demoSend (taken : ℕ) : EcashSend where
  amount := 1000
  feePpms := ⟨10000, 10000⟩
  operationId := 1
  mintModule := 7
  send := some (1000, taken)
  pendingCommits := true
  successCommits := true

/-- A hold of 500, a send that its balance covers, and a payment of the seat. -/
def demoWallet : List WalletEvent :=
  [.credit 2000, .hold (.reserve 9 1 0 [(5, 500)]) true, .generateEcash (demoSend 1003),
    .seatPayment ⟨9, 5, 2, 7, 400, 450, 40, true⟩]

theorem demoWallet_funded : Funded false false demoWallet := by
  refine forall_splits_cons ?_ (forall_splits_cons ?_ (forall_splits_cons ?_ (forall_splits_cons ?_
    forall_splits_nil)))
  · exact ⟨trivial, fun _ => by decide +kernel⟩
  · exact ⟨trivial, fun _ => by decide +kernel⟩
  · refine ⟨fun required hrequired sentAmount taken hsend => ?_, fun _ => by decide +kernel⟩
    have hsum : requiredBalance false ⟨10000, 10000⟩ 1000 0 = .ok 1020 := by decide +kernel
    cases hsum.symm.trans hrequired
    cases hsend
    decide +kernel
  · refine ⟨fun m hm => ?_, fun _ => by decide +kernel⟩
    have hmember : (wallet false false (demoWallet.take 3)).funding.member 9 5 = some ⟨5, 500, none, .held⟩ := by
      decide +kernel
    cases hmember.symm.trans hm
    exact ⟨fun _ hstate => (by cases hstate), by decide +kernel⟩

theorem covered_of_run_demo : Covered (wallet false false demoWallet) ∧
    getBalance (wallet false false demoWallet) = 527 :=
  ⟨covered_of_run false false demoWallet demoWallet_funded, by decide +kernel⟩

/-- The send passes its check with nothing to spare, and the mint charges one msat for a note. -/
def noteFee : List WalletEvent := [.credit 1020, .generateEcash (demoSend 1001)]

theorem noteFee_uncovers : ¬ Covered (wallet false false noteFee) ∧ ¬ Covered (wallet true false noteFee) := by
  constructor
  · intro h
    have hraw := h.raw
    exact absurd hraw (by decide +kernel)
  · intro h
    have hraw := h.raw
    exact absurd hraw (by decide +kernel)

end FiFunding
