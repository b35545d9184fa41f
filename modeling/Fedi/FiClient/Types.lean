import Mathlib.Tactic

/-!
# Errors, statuses and results of the FI driver (`bridge/src/fi_client.rs`)

The fi-client crate is not part of the repository.  Its errors are a code with what the bridge
reads off the variant; a snapshot is the fields that the driver reads, with the rest as one
value that only a comparison of snapshots looks at.
-/

namespace FiClient

/-! ## Errors -/

/-- `FiErrorCode` of fi-client. -/
inductive FiErrorCode
  | invalidIntent | invalidOptions | storage | identity | busy | noActiveFormation | abandonUnavailable | registry
  | selection | selectionReauthorizationRequired | capabilityUnavailable | invalidFleetManagers | fleetManager
  | payment | liquidity | maintenanceWrongState | maintenanceRejected | maintenanceConsensusTooLarge
  | maintenanceConsensusInvalid | maintenanceConvergence | timeout
deriving DecidableEq

inductive RpcFiErrorCode
  | invalidIntent | invalidOptions | storage | identity | busy | noActiveFormation | abandonUnavailable | registry
  | selection | selectionReauthorizationRequired | capabilityUnavailable | invalidFleetManagers | fleetManager
  | payment | liquidity | maintenanceWrongState | maintenanceRejected | maintenanceConsensusTooLarge
  | maintenanceConsensusInvalid | maintenanceConvergence | pushNotifications | timeout
deriving DecidableEq

inductive SelectionReauthorizationReason
  | previewExpired | advertisementEstimateExceedsLimit | selectedFmanUnavailable | quoteTotalExceedsLimit
  | quoteTermsChanged | selectedPayerUnavailable | paymentFederationRequired | selectedPayerInsufficientFunds
  | verifierEnvironmentChanged
deriving DecidableEq

inductive AbandonUnavailableReason
  | paymentOutputsStarted | alreadyFormed
deriving DecidableEq

/-- What `fi_error_detail_to_rpc` reads off the variant of an error. -/
inductive FiErrorDetail
  | insufficientFmanSeats (requested selected seen eligible : ℕ)
  | selectionReauthorizationRequired (reason : SelectionReauthorizationReason)
  | abandonUnavailable (reason : AbandonUnavailableReason)
deriving DecidableEq

structure FiError where
  code : FiErrorCode
  detail : Option FiErrorDetail
deriving DecidableEq

abbrev FiResult (α : Type) := Except FiError α

structure RpcFiOperationError where
  code : RpcFiErrorCode
  message : String
  detail : Option FiErrorDetail
deriving DecidableEq

def fiErrorCodeToRpc : FiErrorCode → RpcFiErrorCode
  | .invalidIntent => .invalidIntent
  | .invalidOptions => .invalidOptions
  | .storage => .storage
  | .identity => .identity
  | .busy => .busy
  | .noActiveFormation => .noActiveFormation
  | .abandonUnavailable => .abandonUnavailable
  | .registry => .registry
  | .selection => .selection
  | .selectionReauthorizationRequired => .selectionReauthorizationRequired
  | .capabilityUnavailable => .capabilityUnavailable
  | .invalidFleetManagers => .invalidFleetManagers
  | .fleetManager => .fleetManager
  | .payment => .payment
  | .liquidity => .liquidity
  | .maintenanceWrongState => .maintenanceWrongState
  | .maintenanceRejected => .maintenanceRejected
  | .maintenanceConsensusTooLarge => .maintenanceConsensusTooLarge
  | .maintenanceConsensusInvalid => .maintenanceConsensusInvalid
  | .maintenanceConvergence => .maintenanceConvergence
  | .timeout => .timeout

def fiErrorMessage : RpcFiErrorCode → String
  | .invalidIntent => "The federation formation request is invalid"
  | .invalidOptions => "The FI operation options are invalid"
  | .storage => "FI storage is unavailable"
  | .identity => "FI identity is unavailable"
  | .busy => "An FI operation is already in progress"
  | .noActiveFormation => "There is no active FI formation"
  | .abandonUnavailable => "The formation can no longer be abandoned"
  | .registry => "The Fleet Manager registry is unavailable"
  | .selection => "A verified Fleet Manager set could not be selected"
  | .selectionReauthorizationRequired => "Fresh federation setup authorization is required"
  | .capabilityUnavailable => "A required FI capability is unavailable"
  | .invalidFleetManagers => "The Fleet Manager set is invalid"
  | .fleetManager => "A Fleet Manager operation failed"
  | .payment => "An FI payment operation failed"
  | .liquidity => "An FI liquidity operation failed"
  | .maintenanceWrongState => "Federation maintenance is unavailable in the current state"
  | .maintenanceRejected => "A guardian rejected the maintenance request"
  | .maintenanceConsensusTooLarge => "The federation metadata exceeds the allowed size"
  | .maintenanceConsensusInvalid => "The federation metadata is invalid"
  | .maintenanceConvergence => "Federation maintenance did not reach consensus in time"
  | .pushNotifications => "FI push notification setup failed"
  | .timeout => "The FI operation timed out"

/-- `u32::try_from(..).unwrap_or(u32::MAX)`. -/
def saturateU32 (n : ℕ) : ℕ := if n < 2 ^ 32 then n else 2 ^ 32 - 1

def fiErrorDetailToRpc (error : FiError) : Option FiErrorDetail :=
  match error.detail with
  | some (.insufficientFmanSeats requested selected seen eligible) =>
    some (.insufficientFmanSeats requested selected (saturateU32 seen) (saturateU32 eligible))
  | some (.selectionReauthorizationRequired reason) => some (.selectionReauthorizationRequired reason)
  | some (.abandonUnavailable reason) => some (.abandonUnavailable reason)
  | none => none

def fiErrorToRpc (error : FiError) : RpcFiOperationError :=
  let code := fiErrorCodeToRpc error.code
  ⟨code, fiErrorMessage code, fiErrorDetailToRpc error⟩

def operationError (code : RpcFiErrorCode) (message : String) : RpcFiOperationError := ⟨code, message, none⟩

def driverUnavailableError : RpcFiOperationError :=
  operationError .capabilityUnavailable "FI operation driver is unavailable"

def busyError : RpcFiOperationError := operationError .busy "An FI operation is already in progress"

/-- `FiError::SelectionReauthorizationRequired(reason)`. -/
def FiError.selectionReauthorizationRequired (reason : SelectionReauthorizationReason) : FiError :=
  ⟨.selectionReauthorizationRequired, some (.selectionReauthorizationRequired reason)⟩

/-! ## Formations -/

inductive FormationPhase
  | preparing | awaitingPaymentReadiness | acquiringSeats | preparingDkg | dkgUnderway | publishingSeatBindings | formed
deriving DecidableEq

inductive FormationFreshness
  | fresh | unsynced
deriving DecidableEq

inductive FormationActionRequired
  | authorizePayments (authorizationId : String)
  | replaceGuardians (replacementId : String)
deriving DecidableEq

structure FormationSnapshot where
  phase : FormationPhase
  freshness : FormationFreshness
  actionRequired : Option FormationActionRequired
  lastError : Option FiErrorCode
  rest : String
deriving DecidableEq

inductive FiStatus
  | idle
  | formation (formation : FormationSnapshot)
deriving DecidableEq

/-- `matches!(status, FiStatus::Formation(_))`. -/
def FiStatus.started : FiStatus → Bool
  | .idle => false
  | .formation _ => true

def shouldAutoResume : FiStatus → Bool
  | .idle => false
  | .formation formation =>
    (decide (formation.phase = .formed) && decide (formation.freshness = .unsynced)) ||
      (decide (formation.phase ≠ .formed) && formation.actionRequired.isNone &&
        decide (formation.lastError ≠ some .selectionReauthorizationRequired))

/-! ## Liquidity operations -/

inductive LiquidityOperationPhase
  | prepared | accepted | rejected
deriving DecidableEq

inductive ItemAllocationStatus
  | pending | running | actionRequired | completed | failed | cancelled
deriving DecidableEq

inductive AllocationItemTarget
  | gateway | stabilityPool
deriving DecidableEq

structure AllocationItem where
  target : AllocationItemTarget
  status : ItemAllocationStatus
deriving DecidableEq

structure LiquidityOperationSnapshot where
  operationId : String
  phase : LiquidityOperationPhase
  itemStatuses : List AllocationItem
  gatewayMinAmount : ℕ
  gatewayViewVerified : Bool
  rest : String
deriving DecidableEq

def shouldResumeLiquidityOnLaunch (snapshot : LiquidityOperationSnapshot) : Bool :=
  match snapshot.phase with
  | .prepared => true
  | .rejected => false
  | .accepted =>
    let requiresOperator := snapshot.itemStatuses.any fun item => decide (item.status = .actionRequired)
    let providerWorkIsLive := snapshot.itemStatuses.isEmpty ||
      snapshot.itemStatuses.any fun item => decide (item.status = .pending) || decide (item.status = .running)
    let gatewayRegistrationIsPending := decide (0 < snapshot.gatewayMinAmount) && !snapshot.gatewayViewVerified &&
      snapshot.itemStatuses.any fun item => decide (item.target = .gateway) && decide (item.status = .completed)
    (!requiresOperator && providerWorkIsLive) || gatewayRegistrationIsPending

/-! ## Responses -/

inductive RpcFiOperationResult
  | success
  | error (error : RpcFiOperationError)
deriving DecidableEq

inductive RpcFiLiquidityOperationResult
  | operation (operation : LiquidityOperationSnapshot)
  | error (error : RpcFiOperationError)
deriving DecidableEq

inductive FiDriverResponse
  | formation (result : RpcFiOperationResult)
  | liquidity (result : RpcFiLiquidityOperationResult)
deriving DecidableEq

def operationResult : FiResult Unit → RpcFiOperationResult
  | .ok () => .success
  | .error error => .error (fiErrorToRpc error)

def liquidityOperationResult : FiResult LiquidityOperationSnapshot → RpcFiLiquidityOperationResult
  | .ok snapshot => .operation snapshot
  | .error error => .error (fiErrorToRpc error)

def operationErrorResult (code : RpcFiErrorCode) (message : String) : RpcFiOperationResult :=
  .error (operationError code message)

def previewExpiredResult : RpcFiOperationResult :=
  .error (fiErrorToRpc (.selectionReauthorizationRequired .previewExpired))

def driverResponseIsSuccess : FiDriverResponse → Bool
  | .formation .success => true
  | .liquidity (.operation _) => true
  | _ => false

def operationResponse : Except RpcFiOperationError FiDriverResponse → RpcFiOperationResult
  | .ok (.formation result) => result
  | .ok (.liquidity _) =>
    operationErrorResult .capabilityUnavailable "FI operation driver returned an unexpected response"
  | .error error => .error error

/-- `RpcFiErrorCode::Busy`, the only error after which replacements may be tried again. -/
def mayRetryReplacements : RpcFiOperationResult → Bool
  | .success => false
  | .error error => decide (error.code = .busy)

def mayRetryPayer : RpcFiOperationResult → Bool
  | .success => false
  | .error error =>
    decide (error.code = .busy) ||
      decide (error.detail = some (.selectionReauthorizationRequired .selectedPayerUnavailable)) ||
      decide (error.detail = some (.selectionReauthorizationRequired .selectedPayerInsufficientFunds))

/-! ## Retries -/

/-- `FI_RESUME_INITIAL_BACKOFF`; durations are whole seconds. -/
def fiResumeInitialBackoff : ℕ := 1

/-- `FI_RESUME_MAX_BACKOFF`. -/
def fiResumeMaxBackoff : ℕ := 5 * 60

/-- The doubled delay overflows only past the greatest duration, where the cap stands in for it. -/
def nextRetryDelay (previous : ℕ) (progress : Bool) : ℕ :=
  if progress || decide (previous = 0) then fiResumeInitialBackoff
  else min (if previous * 2 < 2 ^ 64 then previous * 2 else fiResumeMaxBackoff) fiResumeMaxBackoff

end FiClient
