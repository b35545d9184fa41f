import Fedi.FiClient.LiquidityRecovery
import Fedi.Lib.Tasks

/-!
# The FI operation driver and its callers (`bridge/src/fi_client.rs`)

The driver is one task: it takes commands, and between them resumes the formation and recovers
liquidity operations.  Every call is a task too.  A mutation holds the one claim
(`FiDriverOperationClaim`) from its call to its end; with a command the claim goes into the
queue, to the driver, and for a paid formation back to the caller with the response.  A task can
be dropped at any await, and what it owns is dropped with it: its claim, its lock, its end of a
channel.  Dropping the driver is the shutdown of the runtime.

    preview_selection:     claim → preview_fman_selection → selection.lock → install_preview (→ revoke_hook)
    pay_and_create:        claim → selection.lock → formation_push.lock (→ create_formation_hook) → send → receive
                             → formation_push.lock (→ revoke_hook) → selection.lock
    apply_replacements:    claim → replacement.lock → send → receive → replacement.lock
    another operation:     claim → send → receive

The logs are not part of the code: they follow what happens to previews and approvals, and to the
recovery of liquidity operations.
-/

namespace FiClient

open Tasks

/-! ## What is not in the repository -/

/-- A preview is of the guardians of a formation, or of their replacements. -/
inductive Purpose
  | selection | replacement
deriving DecidableEq

/-- The fi-client crate, the push gateway and the source of preview ids. -/
structure FiApi where
  /-- `FmanSelectionPreview` and `FmanReplacementPreview`. -/
  Preview : Purpose → Type
  /-- `FmanSelectionApproval` and `FmanReplacementApproval`. -/
  Approval : Purpose → Type
  totalAdvertisedMsats : {k : Purpose} → Preview k → ℕ
  approve : {k : Purpose} → Preview k → ℕ → FiResult (Approval k)
  maxTotalMsats : {k : Purpose} → Approval k → ℕ
  /-- An approval keeps the limit that it was made with. -/
  maxTotalMsats_of_approve : ∀ {k : Purpose} (preview : Preview k) (limit : ℕ) (approval : Approval k),
    approve preview limit = .ok approval → maxTotalMsats approval = limit
  SelectionRequest : Type
  selectionRequestFromRpc : SelectionRequest → Option RpcFiOperationError
  RpcFormationIntent : Type
  FormationIntent : Type
  formationIntentFromRpc : RpcFormationIntent → Except RpcFiOperationError FormationIntent
  /-- Whether there is a push gateway. -/
  pushGateway : Bool
  Hook : Type
  /-- The n-th draw of 16 random bytes, in hex. -/
  previewId : ℕ → String
  /-- No preview id is drawn twice. -/
  previewId_injective : Function.Injective previewId

/-! ## State -/

section
variable (api : FiApi)

/-- `StoredSelection` and `StoredReplacement`. -/
structure Stored (k : Purpose) where
  previewId : String
  preview : Option (api.Preview k)
  approval : Option (api.Approval k)

structure StoredFormationPush where
  previewId : String
  hook : Option api.Hook

structure FormationLocalState where
  formationPush : Option (StoredFormationPush api)
  /-- The lock of `formation_push` is held while a hook is created. -/
  formationPushLocked : Bool
  selection : Option (Stored api .selection)
  replacement : Option (Stored api .replacement)

/-- Operations other than the two that spend an authorization. -/
inductive Request
  | abandon
  | resume
  | authorizePayments (authorizationId : String)
  | startLiquidity (formationId providerPubkey : String)
  | resumeLiquidity (operationId : String)
  | updateMetadata (update : String)
  | setGuardianFee (sendPpm : ℕ)

inductive FiDriverOperation
  | payAndCreate (intent : api.FormationIntent) (approval : api.Approval .selection) (paymentFederationId : String)
      (completionCallback : Option api.Hook)
  | applyReplacements (approval : api.Approval .replacement)
  | other (request : Request)

/-- Who waits for the response of a command, with what it sent. -/
inductive Caller
  | payAndCreate (previewId : String) (intent : api.FormationIntent) (approval : api.Approval .selection)
      (paymentFederationId : String) (completionCallback : Option api.Hook)
  | applyReplacements (previewId : String) (approval : api.Approval .replacement)
  | other (request : Request)

/-- A command owns the claim. -/
structure FiDriverCommand where
  operation : FiDriverOperation api
  /-- The channel of its response. -/
  response : ℕ
  retainClaimForHandoff : Bool

structure FiDriverCompletion where
  response : FiDriverResponse
  retainedClaim : Bool

/-- The channel of a response. -/
inductive Oneshot
  | waiting
  | sent (completion : FiDriverCompletion)
  /-- The receiver is dropped, or has the completion. -/
  | closed
  /-- The sender is dropped. -/
  | failed

inductive Entry
  /-- A preview is drawn. -/
  | previewed (k : Purpose) (previewId : String) (totalAdvertisedMsats : ℕ)
  | approved (k : Purpose) (previewId : String) (approval : api.Approval k)
  /-- The preview was consumed, and its approval failed. -/
  | refused (k : Purpose) (previewId : String)
  | unreachable (k : Purpose) (previewId : String)
  /-- A call goes on with an approval, new or stored. -/
  | authorized (k : Purpose) (previewId : String) (approval : api.Approval k)
  /-- The command with the approval is in the queue. -/
  | dispatched (k : Purpose) (previewId : String) (approval : api.Approval k)
  /-- A call has taken its result, after which the preview id may not be used again. -/
  | settled (k : Purpose) (previewId : String)
  /-- A durable abandonment has invalidated what was authorized. -/
  | invalidated

structure Bridge where
  operationActive : Bool
  /-- The driver is gone, and the receiver of commands with it. -/
  driverGone : Bool
  queue : List (FiDriverCommand api)
  channels : List Oneshot
  formationState : FormationLocalState api
  /-- How many preview ids are drawn. -/
  drawn : ℕ
  log : List (Entry api)
  liquidityLog : List LiquidityEntry

def Bridge.initial : Bridge api := ⟨false, false, [], [], ⟨none, false, none, none⟩, 0, [], []⟩

/-- What a call ends with. -/
inductive Reply
  | preview (previewId : String) (totalAdvertisedMsats : ℕ)
  | error (error : RpcFiOperationError)
  | operation (result : RpcFiOperationResult)
  | liquidity (result : RpcFiLiquidityOperationResult)

structure DriverState where
  formationRetryDelay : ℕ
  liquidityRecovery : LiquidityLaunchRecovery

def DriverState.initial : DriverState := ⟨0, .new⟩

/-- What the driver sleeps for beside commands. -/
inductive Select
  | formation | liquidity | command

/-- A call or the driver at one of its awaits; a call that is over is `done`. -/
inductive Task
  -- preview_selection
  | previewSelection (request : api.SelectionRequest)
  | previewFmanSelection
  | storeSelection (previewId : String) (preview : api.Preview .selection)
  | installPreview (previewId : String) (preview : api.Preview .selection) (formationStarted : Bool)
  | revokeReplaced (previewId : String) (preview : api.Preview .selection)
  -- preview_replacements
  | previewReplacements
  | previewFmanReplacements
  | storeReplacement (previewId : String) (preview : api.Preview .replacement)
  -- apply_replacements
  | applyReplacements (previewId : String) (maxTotalMsats : ℕ)
  | authorizeReplacement (previewId : String) (maxTotalMsats : ℕ)
  -- pay_and_create
  | payAndCreate (previewId : String) (intent : api.RpcFormationIntent) (paymentFederationId : String)
      (maxTotalMsats : ℕ)
  | authorizeSelection (previewId : String) (intent : api.FormationIntent) (paymentFederationId : String)
      (maxTotalMsats : ℕ)
  | ensureHook (previewId : String) (intent : api.FormationIntent) (approval : api.Approval .selection)
      (paymentFederationId : String)
  | createHook (previewId : String) (intent : api.FormationIntent) (approval : api.Approval .selection)
      (paymentFederationId : String)
  -- another operation
  | request (request : Request)
  -- request_claimed_inner
  | send (caller : Caller api)
  | receive (caller : Caller api) (channel : ℕ)
  -- after the response
  | settlePush (previewId : String) (result : RpcFiOperationResult) (retainedClaim formationStarted : Bool)
  | revokeSettled (previewId : String) (result : RpcFiOperationResult) (retainedClaim : Bool)
  | clearSelection (previewId : String) (result : RpcFiOperationResult)
  | clearReplacement (previewId : String) (result : RpcFiOperationResult)
  | done (reply : Reply)
  -- run_supervised_driver_loop
  | driverLoop (d : DriverState)
  | driverSelect (d : DriverState) (select : Select)
  | driverResume (d : DriverState) (before : FiStatus)
  | driverReadCurrent (d : DriverState)
  | driverResumeLiquidity (d : DriverState) (operationId : String)
  | driverExecute (d : DriverState) (command : FiDriverCommand api) (before : FiStatus)
  | invalidateSelection (d : DriverState) (command : FiDriverCommand api) (before after : FiStatus)
      (response : FiDriverResponse)
  | invalidateReplacement (d : DriverState) (command : FiDriverCommand api) (before after : FiStatus)
      (response : FiDriverResponse)
  | invalidatePush (d : DriverState) (command : FiDriverCommand api) (before after : FiStatus)
      (response : FiDriverResponse)
  | revokeAbandoned (d : DriverState) (command : FiDriverCommand api) (before after : FiStatus)
      (response : FiDriverResponse)

/-- What comes back to a task from outside; it reads what it waits for. -/
structure Input where
  /-- The task is dropped instead. -/
  dropped : Bool
  /-- `status()` of fi-client now. -/
  status : FiStatus
  selectionPreview : FiResult (api.Preview .selection)
  replacementPreview : FiResult (api.Preview .replacement)
  /-- `create_formation_hook`. -/
  hook : Option api.Hook
  /-- The sleep of the driver is over. -/
  slept : Bool
  formationResult : FiResult Unit
  liquidityResult : FiResult LiquidityOperationSnapshot
  currentOperation : FiResult (Option LiquidityOperationSnapshot)

end

variable {api : FiApi}

/-! ## Updates of the state -/

/-- What a step leaves: the bridge, and the tasks that the task continues with. -/
abbrev Step (api : FiApi) : Type := Bridge api × List (Task api)

def FormationLocalState.stored (s : FormationLocalState api) : (k : Purpose) → Option (Stored api k)
  | .selection => s.selection
  | .replacement => s.replacement

def Bridge.setStored (b : Bridge api) : (k : Purpose) → Option (Stored api k) → Bridge api
  | .selection, stored => { b with formationState := { b.formationState with selection := stored } }
  | .replacement, stored => { b with formationState := { b.formationState with replacement := stored } }

def Bridge.setFormationPush (b : Bridge api) (stored : Option (StoredFormationPush api)) : Bridge api :=
  { b with formationState := { b.formationState with formationPush := stored } }

def Bridge.setFormationPushLocked (b : Bridge api) (locked : Bool) : Bridge api :=
  { b with formationState := { b.formationState with formationPushLocked := locked } }

def Bridge.setChannel (b : Bridge api) (channel : ℕ) (state : Oneshot) : Bridge api :=
  { b with channels := b.channels.set channel state }

def Bridge.note (b : Bridge api) (entries : List (Entry api)) : Bridge api := { b with log := b.log ++ entries }

def Bridge.noteLiquidity (b : Bridge api) (entries : List LiquidityEntry) : Bridge api :=
  { b with liquidityLog := b.liquidityLog ++ entries }

/-! ## The claim -/

def Bridge.tryClaimOperation (b : Bridge api) : Option (Bridge api) :=
  if b.operationActive then none else some { b with operationActive := true }

/-- `Drop for FiDriverOperationClaim`. -/
def Bridge.dropClaim (b : Bridge api) : Bridge api := { b with operationActive := false }

def Bridge.dropClaimIf (b : Bridge api) (owned : Bool) : Bridge api := if owned then b.dropClaim else b

/-- A call that needs the claim fails at once without it. -/
def Bridge.claimOr (b : Bridge api) (busy : Reply) (next : Bridge api → Step api) : Step api :=
  match b.tryClaimOperation with
  | none => (b, [.done busy])
  | some claimed => next claimed

/-! ## Channels -/

/-- The driver answers; a completion that nobody waits for is dropped. -/
def Bridge.respond (b : Bridge api) (channel : ℕ) (completion : FiDriverCompletion) : Bridge api :=
  match b.channels[channel]? with
  | some .waiting => b.setChannel channel (.sent completion)
  | _ => b.dropClaimIf completion.retainedClaim

/-- The receiver is dropped, with a completion that it has not taken. -/
def Bridge.closeChannel (b : Bridge api) (channel : ℕ) : Bridge api :=
  match b.channels[channel]? with
  | some (.sent completion) => (b.setChannel channel .closed).dropClaimIf completion.retainedClaim
  | some .waiting => b.setChannel channel .closed
  | _ => b

/-- A command is dropped: its sender of the response, and its claim. -/
def Bridge.dropCommand (b : Bridge api) (command : FiDriverCommand api) : Bridge api :=
  match b.channels[command.response]? with
  | some .waiting => (b.setChannel command.response .failed).dropClaim
  | _ => b.dropClaim

/-! ## Authorizations -/

/-- How a call comes by an approval, if it does. -/
inductive Authorization (api : FiApi) (k : Purpose)
  | rejected (error : RpcFiOperationError)
  | stored (approval : api.Approval k)
  | approved (approval : api.Approval k)
  | refused (error : RpcFiOperationError)
  | unreachable

/-- The error of an approval that is used with another limit. -/
def limitChanged : Purpose → RpcFiOperationError
  | .selection => operationError .invalidIntent "The approved setup spending limit cannot be changed"
  | .replacement => operationError .invalidIntent "The approved replacement spending limit cannot be changed"

/-- The block of `pay_and_create` and `apply_replacements` that consumes a preview or takes its
approval, and what it leaves stored. -/
def authorize {k : Purpose} (stored : Option (Stored api k)) (previewId : String) (maxTotalMsats : ℕ) :
    Option (Stored api k) × Authorization api k :=
  match stored with
  | none => (none, .rejected (fiErrorToRpc (.selectionReauthorizationRequired .previewExpired)))
  | some s =>
    if s.previewId ≠ previewId then
      (some s, .rejected (fiErrorToRpc (.selectionReauthorizationRequired .previewExpired)))
    else
      match s.approval with
      | some approval =>
        if api.maxTotalMsats approval ≠ maxTotalMsats then (some s, .rejected (limitChanged k))
        else (some s, .stored approval)
      | none =>
        match s.preview with
        | none => (some s, .unreachable)
        | some preview =>
          if maxTotalMsats = 0 ∨ maxTotalMsats < api.totalAdvertisedMsats preview then
            (some s, .rejected (fiErrorToRpc (.selectionReauthorizationRequired .advertisementEstimateExceedsLimit)))
          else
            match api.approve preview maxTotalMsats with
            | .error error => (some { s with preview := none }, .refused (fiErrorToRpc error))
            | .ok approval => (some ⟨s.previewId, none, some approval⟩, .approved approval)

/-- What the log keeps of it. -/
def Authorization.entries {k : Purpose} (previewId : String) : Authorization api k → List (Entry api)
  | .rejected _ => []
  | .stored approval => [.authorized k previewId approval]
  | .approved approval => [.approved k previewId approval, .authorized k previewId approval]
  | .refused _ => [.refused k previewId]
  | .unreachable => [.unreachable k previewId]

def Bridge.authorize (b : Bridge api) (k : Purpose) (previewId : String) (maxTotalMsats : ℕ) :
    Bridge api × Authorization api k :=
  let r := FiClient.authorize (b.formationState.stored k) previewId maxTotalMsats
  ((b.setStored k r.1).note (r.2.entries previewId), r.2)

/-- The stored authorization is taken away if it is the one of the preview id. -/
def clearStored {k : Purpose} (stored : Option (Stored api k)) (previewId : String) : Option (Stored api k) :=
  if stored.any fun s => decide (s.previewId = previewId) then none else stored

/-! ## Commands -/

def Caller.operation : Caller api → FiDriverOperation api
  | .payAndCreate _ intent approval paymentFederationId completionCallback =>
    .payAndCreate intent approval paymentFederationId completionCallback
  | .applyReplacements _ approval => .applyReplacements approval
  | .other request => .other request

/-- `request_claimed_retaining` is for paid formations. -/
def Caller.retains : Caller api → Bool
  | .payAndCreate _ _ _ _ _ => true
  | _ => false

def Caller.entries : Caller api → List (Entry api)
  | .payAndCreate previewId _ approval _ _ => [.dispatched .selection previewId approval]
  | .applyReplacements previewId approval => [.dispatched .replacement previewId approval]
  | .other _ => []

def Request.isLiquidity : Request → Bool
  | .startLiquidity _ _ => true
  | .resumeLiquidity _ => true
  | _ => false

/-- `request` and `request_liquidity`. -/
def Request.reply (request : Request) (response : Except RpcFiOperationError FiDriverResponse) : Reply :=
  if request.isLiquidity then
    .liquidity (match response with
      | .ok (.liquidity result) => result
      | .ok (.formation _) =>
        .error (operationError .capabilityUnavailable "FI operation driver returned an unexpected response")
      | .error error => .error error)
  else .operation (operationResponse response)

/-- The call goes on with its response. -/
def afterResponse (b : Bridge api) (caller : Caller api) (response : Except RpcFiOperationError FiDriverResponse)
    (retainedClaim : Bool) (input : Input api) : Step api :=
  match caller with
  | .other request => (b.dropClaimIf retainedClaim, [.done (request.reply response)])
  | .applyReplacements previewId _ =>
    let result := operationResponse response
    (b.dropClaimIf retainedClaim,
      [if mayRetryReplacements result then .done (.operation result) else .clearReplacement previewId result])
  | .payAndCreate previewId _ _ _ _ =>
    -- a completion without the claim counts as no completion
    let result := operationResponse (if retainedClaim then response else
      match response with
      | .ok _ => .error driverUnavailableError
      | .error error => .error error)
    (b, [.settlePush previewId result retainedClaim input.status.started])

/-- The end of `dispatch_paid_formation`, and what `pay_and_create` does after it. -/
def afterSettled (b : Bridge api) (previewId : String) (result : RpcFiOperationResult) (retainedClaim : Bool)
    (input : Input api) : Step api :=
  (b.dropClaimIf retainedClaim,
    [if !mayRetryPayer result || input.status.started then .clearSelection previewId result
      else .done (.operation result)])

/-! ## The driver -/

/-- `execute` of the client: which kind of response an operation has. -/
def execute (operation : FiDriverOperation api) (input : Input api) : FiDriverResponse :=
  match operation with
  | .payAndCreate _ _ _ _ => .formation (operationResult input.formationResult)
  | .applyReplacements _ => .formation (operationResult input.formationResult)
  | .other request =>
    if request.isLiquidity then .liquidity (liquidityOperationResult input.liquidityResult)
    else .formation (operationResult input.formationResult)

def FiDriverOperation.isAbandon : FiDriverOperation api → Bool
  | .other .abandon => true
  | _ => false

def FiDriverOperation.rearmsLiquidity : FiDriverOperation api → Bool
  | .other request => request.isLiquidity
  | _ => false

/-- What is left of a command when its operation is over: the delays, the claim, the response. -/
def finishCommand (b : Bridge api) (d : DriverState) (command : FiDriverCommand api) (before after : FiStatus)
    (response : FiDriverResponse) : Step api :=
  let liquidityRecovery :=
    if command.operation.rearmsLiquidity then d.liquidityRecovery.rearmAfterMutation else d.liquidityRecovery
  let formationRetryDelay :=
    if shouldAutoResume after then
      nextRetryDelay d.formationRetryDelay (decide (before ≠ after) || driverResponseIsSuccess response)
    else 0
  let noted := b.noteLiquidity (if command.operation.rearmsLiquidity then [.rearmed] else [])
  ((noted.dropClaimIf !command.retainClaimForHandoff).respond command.response ⟨response, command.retainClaimForHandoff⟩,
    [.driverLoop ⟨formationRetryDelay, liquidityRecovery⟩])

/-- Success, or a formation that was there and is not. -/
def abandonmentIsDurable (before after : FiStatus) (response : FiDriverResponse) : Bool :=
  driverResponseIsSuccess response || (before.started && decide (after = .idle))

/-! ## Tasks that are dropped -/

/-- Where a call or the driver itself holds a claim. -/
def Task.holdsClaim : Task api → Bool
  | .previewFmanSelection => true
  | .storeSelection _ _ => true
  | .installPreview _ _ _ => true
  | .revokeReplaced _ _ => true
  | .previewFmanReplacements => true
  | .storeReplacement _ _ => true
  | .authorizeReplacement _ _ => true
  | .authorizeSelection _ _ _ _ => true
  | .ensureHook _ _ _ _ => true
  | .createHook _ _ _ _ => true
  | .send _ => true
  | .settlePush _ _ retainedClaim _ => retainedClaim
  | .revokeSettled _ _ retainedClaim => retainedClaim
  | .driverResume _ _ => true
  | .driverResumeLiquidity _ _ => true
  | .driverExecute _ _ _ => true
  | .invalidateSelection _ _ _ _ _ => true
  | .invalidateReplacement _ _ _ _ _ => true
  | .invalidatePush _ _ _ _ _ => true
  | .revokeAbandoned _ _ _ _ _ => true
  | _ => false

def Task.isDriver : Task api → Bool
  | .driverLoop _ => true
  | .driverSelect _ _ => true
  | .driverResume _ _ => true
  | .driverReadCurrent _ => true
  | .driverResumeLiquidity _ _ => true
  | .driverExecute _ _ _ => true
  | .invalidateSelection _ _ _ _ _ => true
  | .invalidateReplacement _ _ _ _ _ => true
  | .invalidatePush _ _ _ _ _ => true
  | .revokeAbandoned _ _ _ _ _ => true
  | _ => false

/-- The command that the driver works on. -/
def Task.command? : Task api → Option (FiDriverCommand api)
  | .driverExecute _ command _ => some command
  | .invalidateSelection _ command _ _ _ => some command
  | .invalidateReplacement _ command _ _ _ => some command
  | .invalidatePush _ command _ _ _ => some command
  | .revokeAbandoned _ command _ _ _ => some command
  | _ => none

/-- What a task owns is dropped with it; the driver owns the queue, and the command it works on. -/
def Bridge.dropTask (b : Bridge api) (t : Task api) : Bridge api :=
  if t.isDriver then
    (t.command?.toList ++ b.queue).foldl Bridge.dropCommand
      ({ b with driverGone := true, queue := [] }.dropClaimIf t.holdsClaim)
  else
    match t with
    | .receive _ channel => b.closeChannel channel
    | .createHook _ _ _ _ => (b.setFormationPushLocked false).dropClaim
    | t => b.dropClaimIf t.holdsClaim

/-! ## The awaits of the calls

One whose lock, channel or queue is not ready stays where it is.
-/

def previewSelection (b : Bridge api) (request : api.SelectionRequest) : Step api :=
  b.claimOr (.error busyError) fun claimed =>
    match api.selectionRequestFromRpc request with
    | some error => (claimed.dropClaim, [.done (.error error)])
    | none => (claimed, [.previewFmanSelection])

/-- A preview is there, and gets its id. -/
def Bridge.draw (b : Bridge api) {k : Purpose} (preview : api.Preview k) : Bridge api :=
  ({ b with drawn := b.drawn + 1 } : Bridge api).note
    [.previewed k (api.previewId b.drawn) (api.totalAdvertisedMsats preview)]

def previewFmanSelection (b : Bridge api) (input : Input api) : Step api :=
  match input.selectionPreview with
  | .error error => (b.dropClaim, [.done (.error (fiErrorToRpc error))])
  | .ok preview => (b.draw preview, [.storeSelection (api.previewId b.drawn) preview])

def storeSelection (b : Bridge api) (previewId : String) (preview : api.Preview .selection) (input : Input api) :
    Step api :=
  (b.setStored .selection (some ⟨previewId, some preview, none⟩),
    [.installPreview previewId preview input.status.started])

/-- Whether `discard_formation_push_if_unowned` revokes. -/
def revokes (api : FiApi) (removed : Option api.Hook) (formationStarted : Bool) : Bool :=
  !formationStarted && removed.isSome && api.pushGateway

def installPreview (b : Bridge api) (previewId : String) (preview : api.Preview .selection) (formationStarted : Bool) :
    Step api :=
  if b.formationState.formationPushLocked then (b, [.installPreview previewId preview formationStarted])
  else
    let replaced := b.formationState.formationPush.bind StoredFormationPush.hook
    let installed := b.setFormationPush (some ⟨previewId, none⟩)
    if revokes api replaced formationStarted then (installed, [.revokeReplaced previewId preview])
    else (installed.dropClaim, [.done (.preview previewId (api.totalAdvertisedMsats preview))])

def previewReplacements (b : Bridge api) : Step api :=
  b.claimOr (.error busyError) fun claimed => (claimed, [.previewFmanReplacements])

def previewFmanReplacements (b : Bridge api) (input : Input api) : Step api :=
  match input.replacementPreview with
  | .error error => (b.dropClaim, [.done (.error (fiErrorToRpc error))])
  | .ok preview => (b.draw preview, [.storeReplacement (api.previewId b.drawn) preview])

def storeReplacement (b : Bridge api) (previewId : String) (preview : api.Preview .replacement) : Step api :=
  ((b.setStored .replacement (some ⟨previewId, some preview, none⟩)).dropClaim,
    [.done (.preview previewId (api.totalAdvertisedMsats preview))])

def applyReplacements (b : Bridge api) (previewId : String) (maxTotalMsats : ℕ) : Step api :=
  b.claimOr (.operation (.error busyError)) fun claimed => (claimed, [.authorizeReplacement previewId maxTotalMsats])

/-- A call goes on with an approval, or drops the claim and ends; a panic leaves no reply. -/
def afterAuthorization {k : Purpose} (b : Bridge api) (authorization : Authorization api k)
    (next : api.Approval k → Task api) : Step api :=
  match authorization with
  | .rejected error => (b.dropClaim, [.done (.operation (.error error))])
  | .refused error => (b.dropClaim, [.done (.operation (.error error))])
  | .unreachable => (b.dropClaim, [])
  | .stored approval => (b, [next approval])
  | .approved approval => (b, [next approval])

def authorizeReplacement (b : Bridge api) (previewId : String) (maxTotalMsats : ℕ) : Step api :=
  let r := b.authorize .replacement previewId maxTotalMsats
  afterAuthorization r.1 r.2 fun approval => .send (.applyReplacements previewId approval)

def payAndCreate (b : Bridge api) (previewId : String) (intent : api.RpcFormationIntent) (paymentFederationId : String)
    (maxTotalMsats : ℕ) : Step api :=
  b.claimOr (.operation (.error busyError)) fun claimed =>
    match api.formationIntentFromRpc intent with
    | .error error => (claimed.dropClaim, [.done (.operation (.error error))])
    | .ok intent => (claimed, [.authorizeSelection previewId intent paymentFederationId maxTotalMsats])

def authorizeSelection (b : Bridge api) (previewId : String) (intent : api.FormationIntent)
    (paymentFederationId : String) (maxTotalMsats : ℕ) : Step api :=
  let r := b.authorize .selection previewId maxTotalMsats
  afterAuthorization r.1 r.2 fun approval => .ensureHook previewId intent approval paymentFederationId

/-- `dispatch_paid_formation` up to `ensure_formation_push_hook`. -/
def ensureHook (b : Bridge api) (previewId : String) (intent : api.FormationIntent)
    (approval : api.Approval .selection) (paymentFederationId : String) : Step api :=
  if b.formationState.formationPushLocked then (b, [.ensureHook previewId intent approval paymentFederationId])
  else
    match b.formationState.formationPush.filter fun stored => decide (stored.previewId = previewId) with
    | none =>
      -- the claim is dropped with the command that is not sent; the result may not be retried
      (b.dropClaim, [.clearSelection previewId (operationErrorResult .selectionReauthorizationRequired
        "The selection preview callback is no longer available")])
    | some stored =>
      if stored.hook.isNone && api.pushGateway then
        (b.setFormationPushLocked true, [.createHook previewId intent approval paymentFederationId])
      else (b, [.send (.payAndCreate previewId intent approval paymentFederationId stored.hook)])

def createHook (b : Bridge api) (previewId : String) (intent : api.FormationIntent)
    (approval : api.Approval .selection) (paymentFederationId : String) (input : Input api) : Step api :=
  let formationPush := b.formationState.formationPush.map fun stored => { stored with hook := stored.hook.or input.hook }
  ((b.setFormationPush formationPush).setFormationPushLocked false,
    [.send (.payAndCreate previewId intent approval paymentFederationId input.hook)])

def requestRaw (b : Bridge api) (request : Request) : Step api :=
  b.claimOr (request.reply (.error busyError)) fun claimed => (claimed, [.send (.other request)])

/-- The command goes into the queue, with the claim. -/
def Bridge.push (b : Bridge api) (caller : Caller api) : Bridge api :=
  ({ b with
      queue := b.queue ++ [⟨caller.operation, b.channels.length, caller.retains⟩]
      channels := b.channels ++ [.waiting] } : Bridge api).note caller.entries

def sendCommand (b : Bridge api) (caller : Caller api) (input : Input api) : Step api :=
  if b.driverGone then afterResponse b.dropClaim caller (.error driverUnavailableError) false input
  -- FI_DRIVER_QUEUE_CAPACITY
  else if 1 ≤ b.queue.length then (b, [.send caller])
  else (b.push caller, [.receive caller b.channels.length])

def receiveResponse (b : Bridge api) (caller : Caller api) (channel : ℕ) (input : Input api) : Step api :=
  match b.channels[channel]? with
  | some (.sent completion) =>
    afterResponse (b.setChannel channel .closed) caller (.ok completion.response) completion.retainedClaim input
  | some .failed => afterResponse b caller (.error driverUnavailableError) false input
  | _ => (b, [.receive caller channel])

def settlePush (b : Bridge api) (previewId : String) (result : RpcFiOperationResult)
    (retainedClaim formationStarted : Bool) (input : Input api) : Step api :=
  if b.formationState.formationPushLocked then (b, [.settlePush previewId result retainedClaim formationStarted])
  else if !mayRetryPayer result || formationStarted then
    let owned := b.formationState.formationPush.any fun stored => decide (stored.previewId = previewId)
    let removed := if owned then b.formationState.formationPush.bind StoredFormationPush.hook else none
    let cleared := (b.setFormationPush (if owned then none else b.formationState.formationPush)).note
      [.settled .selection previewId]
    if revokes api removed formationStarted then (cleared, [.revokeSettled previewId result retainedClaim])
    else afterSettled cleared previewId result retainedClaim input
  else afterSettled b previewId result retainedClaim input

def clearSelection (b : Bridge api) (previewId : String) (result : RpcFiOperationResult) : Step api :=
  (b.setStored .selection (clearStored b.formationState.selection previewId), [.done (.operation result)])

def clearReplacement (b : Bridge api) (previewId : String) (result : RpcFiOperationResult) : Step api :=
  ((b.setStored .replacement (clearStored b.formationState.replacement previewId)).note
    [.settled .replacement previewId], [.done (.operation result)])

/-! ## The awaits of the driver -/

def driverLoop (b : Bridge api) (d : DriverState) (input : Input api) : Step api :=
  (b, [.driverSelect d (if shouldAutoResume input.status then .formation
    else if d.liquidityRecovery.hasWork then .liquidity else .command)])

def startResume (b : Bridge api) (d : DriverState) (input : Input api) : Step api :=
  match b.tryClaimOperation with
  | none => (b, [.driverLoop d])
  | some claimed => (claimed, [.driverResume d input.status])

/-- `reconcile_one_liquidity_step` up to its await. -/
def startReconcile (b : Bridge api) (d : DriverState) : Step api :=
  match d.liquidityRecovery.nextStep with
  | (none, recovery) => (b, [.driverLoop { d with liquidityRecovery := recovery }])
  | (some .readCurrent, recovery) => (b, [.driverReadCurrent { d with liquidityRecovery := recovery }])
  | (some (.resume operationId), recovery) =>
    match b.tryClaimOperation with
    | none => (b.noteLiquidity [.failed], [.driverLoop { d with liquidityRecovery := recovery.recordFailure }])
    | some claimed =>
      (claimed.noteLiquidity [.resumed operationId],
        [.driverResumeLiquidity { d with liquidityRecovery := recovery } operationId])

/-- A command goes before the sleep. -/
def driverSelect (b : Bridge api) (d : DriverState) (select : Select) (input : Input api) : Step api :=
  match b.queue with
  | command :: queue => ({ b with queue := queue }, [.driverExecute d command input.status])
  | [] =>
    if input.slept then
      match select with
      | .formation => startResume b d input
      | .liquidity => startReconcile b d
      | .command => (b, [.driverSelect d select])
    else (b, [.driverSelect d select])

def driverResume (b : Bridge api) (d : DriverState) (before : FiStatus) (input : Input api) : Step api :=
  (b.dropClaim, [.driverLoop { d with
    formationRetryDelay := nextRetryDelay d.formationRetryDelay (decide (before ≠ input.status)) }])

def driverReadCurrent (b : Bridge api) (d : DriverState) (input : Input api) : Step api :=
  match input.currentOperation with
  | .ok operation =>
    (b.noteLiquidity [.read operation],
      [.driverLoop { d with liquidityRecovery := d.liquidityRecovery.recordCurrent operation }])
  | .error _ =>
    (b.noteLiquidity [.failed], [.driverLoop { d with liquidityRecovery := d.liquidityRecovery.recordFailure }])

def driverResumeLiquidity (b : Bridge api) (d : DriverState) (input : Input api) : Step api :=
  match input.liquidityResult with
  | .ok operation =>
    ((b.noteLiquidity [.returned operation]).dropClaim,
      [.driverLoop { d with liquidityRecovery := d.liquidityRecovery.recordResumeSuccess operation }])
  | .error _ =>
    ((b.noteLiquidity [.failed]).dropClaim,
      [.driverLoop { d with liquidityRecovery := d.liquidityRecovery.recordFailure }])

def driverExecute (b : Bridge api) (d : DriverState) (command : FiDriverCommand api) (before : FiStatus)
    (input : Input api) : Step api :=
  let response := execute command.operation input
  if command.operation.isAbandon && abandonmentIsDurable before input.status response then
    (b, [.invalidateSelection d command before input.status response])
  else finishCommand b d command before input.status response

def invalidatePush (b : Bridge api) (d : DriverState) (command : FiDriverCommand api) (before after : FiStatus)
    (response : FiDriverResponse) : Step api :=
  if b.formationState.formationPushLocked then (b, [.invalidatePush d command before after response])
  else
    let removed := b.formationState.formationPush.bind StoredFormationPush.hook
    let cleared := (b.setFormationPush none).note [.invalidated]
    if revokes api removed false then (cleared, [.revokeAbandoned d command before after response])
    else finishCommand cleared d command before after response

/-! ## One step of a task -/

/-- A task runs to its next await. -/
def poll (b : Bridge api) (t : Task api) (input : Input api) : Step api :=
  match t with
  | .previewSelection request => previewSelection b request
  | .previewFmanSelection => previewFmanSelection b input
  | .storeSelection previewId preview => storeSelection b previewId preview input
  | .installPreview previewId preview formationStarted => installPreview b previewId preview formationStarted
  | .revokeReplaced previewId preview =>
    (b.dropClaim, [.done (.preview previewId (api.totalAdvertisedMsats preview))])
  | .previewReplacements => previewReplacements b
  | .previewFmanReplacements => previewFmanReplacements b input
  | .storeReplacement previewId preview => storeReplacement b previewId preview
  | .applyReplacements previewId maxTotalMsats => applyReplacements b previewId maxTotalMsats
  | .authorizeReplacement previewId maxTotalMsats => authorizeReplacement b previewId maxTotalMsats
  | .payAndCreate previewId intent paymentFederationId maxTotalMsats =>
    payAndCreate b previewId intent paymentFederationId maxTotalMsats
  | .authorizeSelection previewId intent paymentFederationId maxTotalMsats =>
    authorizeSelection b previewId intent paymentFederationId maxTotalMsats
  | .ensureHook previewId intent approval paymentFederationId =>
    ensureHook b previewId intent approval paymentFederationId
  | .createHook previewId intent approval paymentFederationId =>
    createHook b previewId intent approval paymentFederationId input
  | .request request => requestRaw b request
  | .send caller => sendCommand b caller input
  | .receive caller channel => receiveResponse b caller channel input
  | .settlePush previewId result retainedClaim formationStarted =>
    settlePush b previewId result retainedClaim formationStarted input
  | .revokeSettled previewId result retainedClaim => afterSettled b previewId result retainedClaim input
  | .clearSelection previewId result => clearSelection b previewId result
  | .clearReplacement previewId result => clearReplacement b previewId result
  | .done reply => (b, [.done reply])
  | .driverLoop d => driverLoop b d input
  | .driverSelect d select => driverSelect b d select input
  | .driverResume d before => driverResume b d before input
  | .driverReadCurrent d => driverReadCurrent b d input
  | .driverResumeLiquidity d _ => driverResumeLiquidity b d input
  | .driverExecute d command before => driverExecute b d command before input
  | .invalidateSelection d command before after response =>
    (b.setStored .selection none, [.invalidateReplacement d command before after response])
  | .invalidateReplacement d command before after response =>
    (b.setStored .replacement none, [.invalidatePush d command before after response])
  | .invalidatePush d command before after response => invalidatePush b d command before after response
  | .revokeAbandoned d command before after response => finishCommand b d command before after response

def runTask (b : Bridge api) (t : Task api) (input : Input api) : Step api :=
  if input.dropped then (b.dropTask t, []) else poll b t input

/-! ## Runs -/

inductive Call (api : FiApi)
  | previewSelection (request : api.SelectionRequest)
  | previewReplacements
  | applyReplacements (previewId : String) (maxTotalMsats : ℕ)
  | payAndCreate (previewId : String) (intent : api.RpcFormationIntent) (paymentFederationId : String)
      (maxTotalMsats : ℕ)
  | request (request : Request)

def Call.start : Call api → Task api
  | .previewSelection rpcRequest => .previewSelection rpcRequest
  | .previewReplacements => .previewReplacements
  | .applyReplacements previewId maxTotalMsats => .applyReplacements previewId maxTotalMsats
  | .payAndCreate previewId intent paymentFederationId maxTotalMsats =>
    .payAndCreate previewId intent paymentFederationId maxTotalMsats
  | .request operation => .request operation

/-- `start_fi_driver`, and then any calls and steps. -/
def bridge (es : List (Event (Call api) (Input api))) : Pool (Bridge api) (Task api) :=
  pool Call.start runTask ⟨Bridge.initial api, [.driverLoop .initial]⟩ es

end FiClient
