import Fedi.FiClient.Authorizations

/-!
# The driver recovers liquidity operations

The driver is the only task that touches the recovery, and its state is the replay of what it has
seen.

    the recovery resumes an operation only right after it has read it as the current one and live
                                                                                  (resumed_live)
    where it waits without work, the last it saw was no live operation      (rests_without_live)
    an operation that stays as it is is attempted with delays that grow, up to five minutes, until
    a command starts or resumes one                                           (attempts_back_off)
-/

namespace FiClient

open Runs Tasks

variable {api : FiApi}

/-- The state of the driver at a task of it. -/
def Task.driver? : Task api → Option DriverState
  | .driverLoop d => some d
  | .driverSelect d _ => some d
  | .driverResume d _ => some d
  | .driverReadCurrent d => some d
  | .driverResumeLiquidity d _ => some d
  | .driverExecute d _ _ => some d
  | .invalidateSelection d _ _ _ _ => some d
  | .invalidateReplacement d _ _ _ _ => some d
  | .invalidatePush d _ _ _ _ => some d
  | .revokeAbandoned d _ _ _ _ => some d
  | _ => none

/-- In the middle of a step of the recovery. -/
def Task.reconciles : Task api → Bool
  | .driverReadCurrent _ => true
  | .driverResumeLiquidity _ _ => true
  | _ => false

/-- Each resumption is of what is pending. -/
def ResumesPending (log : List LiquidityEntry) : Prop :=
  ∀ before e after, log = before ++ e :: after → ∀ operationId, e = .resumed operationId →
    (replay before).pending = some operationId

/-- How the recovery of the driver stands to what it has seen. -/
inductive Stands (log : List LiquidityEntry) : Task api → Prop
  | aside {t : Task api} : t.driver? = none → Stands log t
  | idle {t : Task api} {d : DriverState} : t.reconciles = false → t.driver? = some d →
    d.liquidityRecovery = replay log → (∀ before operationId, log ≠ before ++ [.resumed operationId]) → Stands log t
  | reads {d : DriverState} : d.liquidityRecovery = { replay log with readCurrent := false } →
    Stands log (.driverReadCurrent d)
  | resumes {d : DriverState} {operationId : String} : d.liquidityRecovery = replay log →
    Stands log (.driverResumeLiquidity d operationId)

structure Recovers (b : Bridge api) (ts : List (Task api)) : Prop where
  log : ResumesPending b.liquidityLog
  stands : ∀ t ∈ ts, Stands b.liquidityLog t
  alone : ts.countP (fun t => t.driver?.isSome) ≤ 1

section
variable {log : List LiquidityEntry} {e : LiquidityEntry} {b : Bridge api} {t : Task api} {input : Input api}

theorem ResumesPending.snoc (h : ResumesPending log)
    (he : ∀ operationId, e = .resumed operationId → (replay log).pending = some operationId) :
    ResumesPending (log ++ [e]) := by
  intro before e' after hsplit operationId heq
  by_contra hbad
  have hbad' : ∃ before e' after, log ++ [e] = before ++ e' :: after ∧
      ∃ operationId, e' = .resumed operationId ∧ (replay before).pending ≠ some operationId :=
    ⟨before, e', after, hsplit, operationId, heq, hbad⟩
  rcases exists_split_snoc.mp hbad' with ⟨before', e'', after', hsplit', operationId', heq', hne⟩ | ⟨operationId', heq', hne⟩
  · exact hne (h before' e'' after' hsplit' operationId' heq')
  · exact hne (he operationId' heq')

/-! ## Steps beside the driver -/

/-- The log of the recovery is as it was, and no driver comes of it. -/
structure Aside (b : Bridge api) (r : Step api) : Prop where
  log : r.1.liquidityLog = b.liquidityLog
  tasks : ∀ x ∈ r.2, x.driver? = none

theorem aside_to {b' : Bridge api} {next : Task api} (hlog : b'.liquidityLog = b.liquidityLog)
    (hnext : next.driver? = none) : Aside b (b', [next]) where
  log := hlog
  tasks := fun x hx => by rw [List.mem_singleton.mp hx]; exact hnext

theorem liquidityLog_dropClaimIf (owned : Bool) : (b.dropClaimIf owned).liquidityLog = b.liquidityLog := by
  cases owned <;> rfl

theorem liquidityLog_closeChannel (channel : ℕ) : (b.closeChannel channel).liquidityLog = b.liquidityLog := by
  unfold Bridge.closeChannel
  cases b.channels[channel]? with
  | none => rfl
  | some state =>
    cases state with
    | sent completion => exact liquidityLog_dropClaimIf _
    | waiting => rfl
    | closed => rfl
    | failed => rfl

theorem liquidityLog_respond (channel : ℕ) (completion : FiDriverCompletion) :
    (b.respond channel completion).liquidityLog = b.liquidityLog := by
  unfold Bridge.respond
  cases b.channels[channel]? with
  | none => exact liquidityLog_dropClaimIf _
  | some state =>
    cases state with
    | waiting => rfl
    | sent c => exact liquidityLog_dropClaimIf _
    | closed => exact liquidityLog_dropClaimIf _
    | failed => exact liquidityLog_dropClaimIf _

theorem liquidityLog_dropCommands (commands : List (FiDriverCommand api)) :
    ∀ b : Bridge api, (commands.foldl Bridge.dropCommand b).liquidityLog = b.liquidityLog := by
  induction commands with
  | nil => exact fun _ => rfl
  | cons command commands ih =>
    intro b
    refine (ih (b.dropCommand command)).trans ?_
    unfold Bridge.dropCommand
    cases b.channels[command.response]? with
    | none => rfl
    | some state => cases state <;> rfl

theorem liquidityLog_dropTask (t : Task api) : (b.dropTask t).liquidityLog = b.liquidityLog := by
  unfold Bridge.dropTask
  by_cases hdriver : t.isDriver = true
  · rw [if_pos hdriver]
    exact (liquidityLog_dropCommands _ _).trans (liquidityLog_dropClaimIf _)
  · rw [if_neg hdriver]
    cases t
    case receive caller channel => exact liquidityLog_closeChannel channel
    case createHook => rfl
    all_goals exact liquidityLog_dropClaimIf _

theorem claimOr_aside {busy : Reply} {next : Bridge api → Step api}
    (hnext : Aside b (next { b with operationActive := true })) : Aside b (b.claimOr busy next) := by
  unfold Bridge.claimOr
  rcases tryClaimOperation_cases (b := b) with ⟨-, hclaim⟩ | ⟨-, hclaim⟩
  · rw [hclaim]
    exact aside_to rfl rfl
  · rw [hclaim]
    exact hnext

theorem afterResponse_aside {b' : Bridge api} (hlog : b'.liquidityLog = b.liquidityLog) (caller : Caller api)
    (response : Except RpcFiOperationError FiDriverResponse) (retainedClaim : Bool) :
    Aside b (afterResponse b' caller response retainedClaim input) := by
  cases caller with
  | other request => exact aside_to ((liquidityLog_dropClaimIf _).trans hlog) rfl
  | payAndCreate previewId intent approval paymentFederationId completionCallback => exact aside_to hlog rfl
  | applyReplacements previewId approval =>
    unfold afterResponse
    refine aside_to ((liquidityLog_dropClaimIf _).trans hlog) ?_
    split_ifs <;> rfl

theorem afterSettled_aside {b' : Bridge api} (hlog : b'.liquidityLog = b.liquidityLog) (previewId : String)
    (result : RpcFiOperationResult) (retainedClaim : Bool) :
    Aside b (afterSettled b' previewId result retainedClaim input) := by
  unfold afterSettled
  refine aside_to ((liquidityLog_dropClaimIf _).trans hlog) ?_
  split_ifs <;> rfl

theorem afterAuthorization_aside {k : Purpose} (previewId : String) (maxTotalMsats : ℕ) {next : api.Approval k → Task api}
    (hnext : ∀ approval, (next approval).driver? = none) :
    Aside b (afterAuthorization (b.authorize k previewId maxTotalMsats).1
      (b.authorize k previewId maxTotalMsats).2 next) := by
  have hlog : (b.authorize k previewId maxTotalMsats).1.liquidityLog = b.liquidityLog := by cases k <;> rfl
  cases (b.authorize k previewId maxTotalMsats).2 with
  | rejected error => exact aside_to hlog rfl
  | refused error => exact aside_to hlog rfl
  | unreachable => exact ⟨hlog, fun x hx => by cases hx⟩
  | stored approval => exact aside_to hlog (hnext approval)
  | approved approval => exact aside_to hlog (hnext approval)

theorem poll_aside (ht : t.driver? = none) : Aside b (poll b t input) := by
  cases t with
  | previewSelection request =>
    refine claimOr_aside ?_
    cases api.selectionRequestFromRpc request <;> exact aside_to rfl rfl
  | previewFmanSelection =>
    show Aside b (FiClient.previewFmanSelection b input)
    unfold FiClient.previewFmanSelection
    cases input.selectionPreview <;> exact aside_to rfl rfl
  | storeSelection previewId preview => exact aside_to rfl rfl
  | installPreview previewId preview formationStarted =>
    show Aside b (FiClient.installPreview b previewId preview formationStarted)
    unfold FiClient.installPreview
    dsimp only
    split_ifs <;> exact aside_to rfl rfl
  | revokeReplaced previewId preview => exact aside_to rfl rfl
  | previewReplacements => exact claimOr_aside (aside_to rfl rfl)
  | previewFmanReplacements =>
    show Aside b (FiClient.previewFmanReplacements b input)
    unfold FiClient.previewFmanReplacements
    cases input.replacementPreview <;> exact aside_to rfl rfl
  | storeReplacement previewId preview => exact aside_to rfl rfl
  | applyReplacements previewId maxTotalMsats => exact claimOr_aside (aside_to rfl rfl)
  | authorizeReplacement previewId maxTotalMsats =>
    exact afterAuthorization_aside previewId maxTotalMsats fun _ => rfl
  | payAndCreate previewId intent paymentFederationId maxTotalMsats =>
    refine claimOr_aside ?_
    cases api.formationIntentFromRpc intent <;> exact aside_to rfl rfl
  | authorizeSelection previewId intent paymentFederationId maxTotalMsats =>
    exact afterAuthorization_aside previewId maxTotalMsats fun _ => rfl
  | ensureHook previewId intent approval paymentFederationId =>
    show Aside b (FiClient.ensureHook b previewId intent approval paymentFederationId)
    unfold FiClient.ensureHook
    split_ifs
    · exact aside_to rfl rfl
    · cases b.formationState.formationPush.filter fun stored => decide (stored.previewId = previewId) with
      | none => exact aside_to rfl rfl
      | some stored =>
        dsimp only
        split_ifs <;> exact aside_to rfl rfl
  | createHook previewId intent approval paymentFederationId => exact aside_to rfl rfl
  | request request => exact claimOr_aside (aside_to rfl rfl)
  | send caller =>
    show Aside b (FiClient.sendCommand b caller input)
    unfold FiClient.sendCommand
    split_ifs
    · exact afterResponse_aside (show b.dropClaim.liquidityLog = b.liquidityLog from rfl) caller _ false
    · exact aside_to rfl rfl
    · exact aside_to rfl rfl
  | receive caller channel =>
    show Aside b (FiClient.receiveResponse b caller channel input)
    unfold FiClient.receiveResponse
    cases b.channels[channel]? with
    | none => exact aside_to rfl rfl
    | some state =>
      cases state with
      | waiting => exact aside_to rfl rfl
      | closed => exact aside_to rfl rfl
      | failed => exact afterResponse_aside rfl caller _ false
      | sent completion =>
        have hlog : (b.setChannel channel .closed).liquidityLog = b.liquidityLog := rfl
        exact afterResponse_aside hlog caller _ _
  | settlePush previewId result retainedClaim formationStarted =>
    show Aside b (FiClient.settlePush b previewId result retainedClaim formationStarted input)
    unfold FiClient.settlePush
    dsimp only
    generalize (if b.formationState.formationPush.any fun stored => decide (stored.previewId = previewId) then none
      else b.formationState.formationPush) = stored
    generalize (if b.formationState.formationPush.any fun stored => decide (stored.previewId = previewId) then
      b.formationState.formationPush.bind StoredFormationPush.hook else none) = removed
    split_ifs
    · exact aside_to rfl rfl
    · exact aside_to rfl rfl
    · have hlog : ((b.setFormationPush stored).note [.settled .selection previewId]).liquidityLog = b.liquidityLog := rfl
      exact afterSettled_aside hlog previewId result retainedClaim
    · exact afterSettled_aside rfl previewId result retainedClaim
  | revokeSettled previewId result retainedClaim => exact afterSettled_aside rfl previewId result retainedClaim
  | clearSelection previewId result => exact aside_to rfl rfl
  | clearReplacement previewId result => exact aside_to rfl rfl
  | done reply => exact aside_to rfl rfl
  | driverLoop d => cases ht
  | driverSelect d select => cases ht
  | driverResume d status => cases ht
  | driverReadCurrent d => cases ht
  | driverResumeLiquidity d operationId => cases ht
  | driverExecute d command status => cases ht
  | invalidateSelection d command status status' response => cases ht
  | invalidateReplacement d command status status' response => cases ht
  | invalidatePush d command status status' response => cases ht
  | revokeAbandoned d command status status' response => cases ht

/-! ## Steps of the driver -/

/-- What a step of the driver leaves. -/
structure Drives (log : List LiquidityEntry) (r : Step api) : Prop where
  log : ResumesPending log → ResumesPending r.1.liquidityLog
  stands : ∀ x ∈ r.2, Stands r.1.liquidityLog x
  alone : r.2.countP (fun t => t.driver?.isSome) ≤ 1

theorem drives_to {b' : Bridge api} {next : Task api} (hlog : ResumesPending log → ResumesPending b'.liquidityLog)
    (hnext : Stands b'.liquidityLog next) : Drives log (b', [next]) where
  log := hlog
  stands := fun x hx => by rw [List.mem_singleton.mp hx]; exact hnext
  alone := List.countP_le_length

/-- A step without a look at liquidity operations. -/
theorem drives_on {b' : Bridge api} {next : Task api} (hnext : Stands log next) (hlog : b'.liquidityLog = log) :
    Drives log (b', [next]) :=
  drives_to (fun h => hlog ▸ h) (hlog ▸ hnext)

/-- Something is seen, and the driver goes back to its loop. -/
theorem drives_seen {b' : Bridge api} {d : DriverState} {e : LiquidityEntry} (hlog : b'.liquidityLog = log ++ [e])
    (he : ∀ operationId, e ≠ .resumed operationId) (hd : d.liquidityRecovery = (replay log).see e) :
    Drives log (b', [.driverLoop d]) := by
  refine drives_to (fun h => ?_) (.idle rfl rfl ?_ fun before operationId hsplit => ?_)
  · rw [hlog]
    exact h.snoc fun operationId heq => absurd heq (he operationId)
  · rw [hlog, replay_snoc]
    exact hd
  · rw [hlog] at hsplit
    exact he operationId (List.singleton_inj.mp (List.append_inj_right' hsplit rfl))

theorem drives_finishCommand {d : DriverState} (hd : d.liquidityRecovery = replay b.liquidityLog)
    (hlast : ∀ before operationId, b.liquidityLog ≠ before ++ [.resumed operationId]) (command : FiDriverCommand api)
    (before after : FiStatus) (response : FiDriverResponse) :
    Drives b.liquidityLog (finishCommand b d command before after response) := by
  unfold finishCommand
  dsimp only
  cases command.operation.rearmsLiquidity with
  | true =>
    refine drives_seen (e := .rearmed) ?_ (fun operationId heq => by cases heq) ?_
    · rw [liquidityLog_respond, liquidityLog_dropClaimIf]
      rfl
    · rw [if_pos rfl, hd]
      rfl
  | false =>
    refine drives_on (.idle rfl rfl ?_ hlast) ?_
    · rw [if_neg Bool.false_ne_true]
      exact hd
    · rw [liquidityLog_respond, liquidityLog_dropClaimIf]
      exact List.append_nil _

theorem drives_startReconcile {d : DriverState} (hd : d.liquidityRecovery = replay b.liquidityLog)
    (hlast : ∀ before operationId, b.liquidityLog ≠ before ++ [.resumed operationId]) :
    Drives b.liquidityLog (startReconcile b d) := by
  unfold startReconcile LiquidityLaunchRecovery.nextStep
  cases hpending : d.liquidityRecovery.pending with
  | some operationId =>
    dsimp only
    rcases tryClaimOperation_cases (b := b) with ⟨-, hclaim⟩ | ⟨-, hclaim⟩
    · rw [hclaim]
      refine drives_seen (e := .failed) rfl (fun operationId heq => by cases heq) ?_
      rw [hd]
      rfl
    · rw [hclaim]
      refine drives_to (fun h => h.snoc fun operationId' heq => ?_) (.resumes ?_)
      · cases heq
        rw [← hd]
        exact hpending
      · show _ = replay (b.liquidityLog ++ [.resumed operationId])
        rw [replay_snoc, hd]
        rfl
  | none =>
    dsimp only
    by_cases hread : d.liquidityRecovery.readCurrent = true
    · rw [if_pos hread]
      refine drives_on (.reads ?_) rfl
      rw [hd] at hpending ⊢
      dsimp only
      rw [hpending]
    · rw [if_neg hread]
      exact drives_on (.idle rfl rfl hd hlast) rfl

theorem drives_driverSelect {d : DriverState} (hd : d.liquidityRecovery = replay b.liquidityLog)
    (hlast : ∀ before operationId, b.liquidityLog ≠ before ++ [.resumed operationId]) (select : Select) :
    Drives b.liquidityLog (driverSelect b d select input) := by
  unfold driverSelect
  cases b.queue with
  | cons command queue => exact drives_on (.idle rfl rfl hd hlast) rfl
  | nil =>
    dsimp only
    split_ifs
    · cases select with
      | command => exact drives_on (.idle rfl rfl hd hlast) rfl
      | liquidity => exact drives_startReconcile hd hlast
      | formation =>
        show Drives _ (startResume b d input)
        unfold startResume
        rcases tryClaimOperation_cases (b := b) with ⟨-, hclaim⟩ | ⟨-, hclaim⟩
        · rw [hclaim]
          exact drives_on (.idle rfl rfl hd hlast) rfl
        · rw [hclaim]
          exact drives_on (.idle rfl rfl hd hlast) rfl
    · exact drives_on (.idle rfl rfl hd hlast) rfl

theorem drives_idle {d : DriverState} (hidle : t.reconciles = false) (ht : t.driver? = some d)
    (hd : d.liquidityRecovery = replay b.liquidityLog)
    (hlast : ∀ before operationId, b.liquidityLog ≠ before ++ [.resumed operationId]) :
    Drives b.liquidityLog (poll b t input) := by
  cases t with
  | driverLoop d' =>
    cases ht
    exact drives_on (.idle rfl rfl hd hlast) rfl
  | driverSelect d' select =>
    cases ht
    exact drives_driverSelect hd hlast select
  | driverResume d' status =>
    cases ht
    exact drives_on (.idle rfl rfl hd hlast) rfl
  | driverExecute d' command status =>
    cases ht
    show Drives _ (FiClient.driverExecute b d command status input)
    unfold FiClient.driverExecute
    dsimp only
    split_ifs
    · exact drives_on (.idle rfl rfl hd hlast) rfl
    · exact drives_finishCommand hd hlast command status input.status _
  | invalidateSelection d' command status status' response =>
    cases ht
    exact drives_on (.idle rfl rfl hd hlast) rfl
  | invalidateReplacement d' command status status' response =>
    cases ht
    exact drives_on (.idle rfl rfl hd hlast) rfl
  | invalidatePush d' command status status' response =>
    cases ht
    show Drives _ (FiClient.invalidatePush b d command status status' response)
    unfold FiClient.invalidatePush
    dsimp only
    split_ifs
    · exact drives_on (.idle rfl rfl hd hlast) rfl
    · exact drives_on (.idle rfl rfl hd hlast) rfl
    · have hcleared : ((b.setFormationPush none).note [.invalidated]).liquidityLog = b.liquidityLog := rfl
      rw [← hcleared] at hd hlast ⊢
      exact drives_finishCommand hd hlast command status status' response
  | revokeAbandoned d' command status status' response =>
    cases ht
    exact drives_finishCommand hd hlast command status status' response
  | _ => first | (cases hidle; done) | cases ht

theorem drives_poll (h : Stands b.liquidityLog t) (ht : t.driver? ≠ none) :
    Drives b.liquidityLog (poll b t input) := by
  cases h with
  | aside hnone => exact absurd hnone ht
  | idle hidle hsome hd hlast => exact drives_idle hidle hsome hd hlast
  | @reads d hd =>
    show Drives _ (driverReadCurrent b d input)
    unfold driverReadCurrent
    cases input.currentOperation with
    | ok operation =>
      refine drives_seen (e := .read operation) rfl (fun operationId heq => by cases heq) ?_
      rw [hd]
      rfl
    | error error =>
      refine drives_seen (e := .failed) rfl (fun operationId heq => by cases heq) ?_
      rw [hd]
      rfl
  | @resumes d operationId hd =>
    show Drives _ (driverResumeLiquidity b d input)
    unfold driverResumeLiquidity
    cases input.liquidityResult with
    | ok operation =>
      refine drives_seen (e := .returned operation) rfl (fun operationId heq => by cases heq) ?_
      rw [hd]
      rfl
    | error error =>
      refine drives_seen (e := .failed) rfl (fun operationId heq => by cases heq) ?_
      rw [hd]
      rfl

end

/-! ## Runs -/

theorem recovers_run {b : Bridge api} {before after : List (Task api)} {t : Task api} (input : Input api)
    (h : Recovers b (before ++ t :: after)) :
    Recovers (runTask b t input).1 (before ++ (runTask b t input).2 ++ after) := by
  obtain ⟨hlog, hstands, halone⟩ := h
  obtain ⟨ht, hothers⟩ := forall_task_iff.mp hstands
  rw [countP_task] at halone
  have hquiet : ∀ r : Step api, Aside b r → Recovers r.1 (before ++ r.2 ++ after) := by
    intro r hr
    refine ⟨hr.log ▸ hlog, forall_next_iff.mpr ⟨fun x hx => .aside (hr.tasks x hx), hr.log ▸ hothers⟩, ?_⟩
    have hnone : r.2.countP (fun t => t.driver?.isSome) = 0 := by
      refine List.countP_eq_zero.mpr fun x hx => ?_
      rw [hr.tasks x hx]
      exact Bool.false_ne_true
    rw [countP_next, hnone]
    omega
  unfold runTask
  split_ifs
  · exact hquiet _ ⟨liquidityLog_dropTask t, fun x hx => by cases hx⟩
  · by_cases hdriver : t.driver? = none
    · exact hquiet _ (poll_aside hdriver)
    · have hstep : Drives b.liquidityLog (poll b t input) := drives_poll ht hdriver
      rw [if_pos (Option.isSome_iff_ne_none.mpr hdriver)] at halone
      have hnone : (before ++ after).countP (fun t => t.driver?.isSome) = 0 := by omega
      refine ⟨hstep.log hlog, forall_next_iff.mpr ⟨hstep.stands, fun x hx => .aside ?_⟩, ?_⟩
      · exact Option.not_isSome_iff_eq_none.mp (List.countP_eq_zero.mp hnone x hx)
      · rw [countP_next, hnone, Nat.add_zero]
        exact hstep.alone

theorem recovers_bridge (es : List (Event (Call api) (Input api))) : Recovers (bridge es).state (bridge es).tasks := by
  refine pool_invariant (I := Recovers) ⟨fun before e after hsplit => ?_, fun t ht => ?_, le_refl _⟩
    (fun b ts call h => ?_) (fun b before t after input h => recovers_run input h) es
  · exact absurd hsplit.symm (List.append_ne_nil_of_right_ne_nil before (List.cons_ne_nil e after))
  · rw [List.mem_singleton.mp ht]
    exact .idle rfl rfl rfl fun before operationId heq => List.append_ne_nil_of_right_ne_nil before (List.cons_ne_nil _ _) heq.symm
  · have hstart : call.start.driver? = none := by cases call <;> rfl
    refine ⟨h.log, fun x hx => ?_, ?_⟩
    · rcases List.mem_append.mp hx with hx | hx
      · exact h.stands x hx
      · rw [List.mem_singleton.mp hx]
        exact .aside hstart
    · rw [List.countP_append, List.countP_singleton, hstart]
      exact h.alone

/-- Along every run, a liquidity operation is resumed by the recovery only right after it was read as
the current one and live.  (A command to resume one is executed without a read.) -/
theorem resumed_live (es : List (Event (Call api) (Input api))) (before after : List LiquidityEntry)
    (operationId : String) (hlog : (bridge es).state.liquidityLog = before ++ .resumed operationId :: after) :
    ∃ earlier o, before = earlier ++ [.read (some o)] ∧ o.operationId = operationId ∧
      shouldResumeLiquidityOnLaunch o = true :=
  replay_pending ((recovers_bridge es).log before _ after hlog operationId rfl)

def demoOperation : LiquidityOperationSnapshot := ⟨"op", .prepared, [], 0, false, ""⟩

/-- The driver reads a prepared operation, resumes it, and it is as before. -/
def demoRecovery : List (Event (Call demoApi) (Input demoApi)) :=
  List.replicate 6 (.advance 0 { demoInput with
    currentOperation := .ok (some demoOperation), liquidityResult := .ok demoOperation })

/-- A driver that has read that there is no operation. -/
def demoRest : List (Event (Call demoApi) (Input demoApi)) := List.replicate 3 (.advance 0 demoInput)

theorem resumed_live_op : ∃ earlier o, [.read (some demoOperation)] = earlier ++ [LiquidityEntry.read (some o)] ∧
    o.operationId = "op" ∧ shouldResumeLiquidityOnLaunch o = true :=
  resumed_live demoRecovery [.read (some demoOperation)] [.returned demoOperation] "op" rfl

/-- Along every run, a driver that waits for commands only has last seen that there is no live
operation: neither a failure nor a busy bridge nor a command makes it give up one. -/
theorem rests_without_live (es : List (Event (Call api) (Input api))) (t : Task api) (ht : t ∈ (bridge es).tasks)
    (hidle : t.reconciles = false) (d : DriverState) (hd : t.driver? = some d)
    (hrests : d.liquidityRecovery.hasWork = false) :
    ∃ before e, (bridge es).state.liquidityLog = before ++ [e] ∧
      ((∃ operation, e = .read operation ∧ ¬ Live operation) ∨
        ∃ o, e = .returned o ∧ shouldResumeLiquidityOnLaunch o = false) := by
  cases (recovers_bridge es).stands t ht with
  | aside hnone =>
    rw [hd] at hnone
    cases hnone
  | @idle _ d' _ hd' hreplay hlast =>
    obtain rfl : d = d' := Option.some.inj (hd.symm.trans hd')
    rw [hreplay] at hrests
    obtain ⟨before, e, hlog, hread | hreturned | ⟨operationId, rfl⟩⟩ := replay_rests hrests
    · exact ⟨before, e, hlog, .inl hread⟩
    · exact ⟨before, e, hlog, .inr hreturned⟩
    · exact absurd hlog (hlast before operationId)
  | reads _ => cases hidle
  | resumes _ => cases hidle

theorem rests_without_live_none :
    ∃ before e, (bridge demoRest).state.liquidityLog = before ++ [e] ∧
      ((∃ operation, e = .read operation ∧ ¬ Live operation) ∨
        ∃ o, e = .returned o ∧ shouldResumeLiquidityOnLaunch o = false) :=
  rests_without_live demoRest (.driverLoop ⟨0, ⟨false, none, none, 0⟩⟩) List.mem_cons_self rfl _ rfl rfl

/-- Along every run, the driver waits between attempts for at most five minutes; and while a live
operation stays as it is, the n-th attempt that changes nothing makes it wait for at least
2 ^ (n - 1) seconds, up to these five minutes.  A command that starts or resumes an operation resets
the delay (`rearmed`); the attempts after it are counted anew. -/
theorem attempts_back_off (es : List (Event (Call api) (Input api))) (t : Task api) (ht : t ∈ (bridge es).tasks)
    (d : DriverState) (hd : t.driver? = some d) :
    d.liquidityRecovery.retryDelay ≤ fiResumeMaxBackoff ∧
      ∀ (before rest : List LiquidityEntry) (first : LiquidityEntry) (o : LiquidityOperationSnapshot),
        (bridge es).state.liquidityLog = before ++ first :: rest → shouldResumeLiquidityOnLaunch o = true →
        first = .read (some o) ∨ first = .returned o → (∀ e ∈ rest, e.Unchanged o) →
        backoff (rest.countP LiquidityEntry.isAttempt) ≤ d.liquidityRecovery.retryDelay := by
  have hdelay : d.liquidityRecovery.retryDelay = (replay (bridge es).state.liquidityLog).retryDelay := by
    cases (recovers_bridge es).stands t ht with
    | aside hnone =>
      rw [hd] at hnone
      cases hnone
    | @idle _ d' _ hd' hreplay _ =>
      obtain rfl : d = d' := Option.some.inj (hd.symm.trans hd')
      rw [hreplay]
    | reads hreads =>
      cases hd
      rw [hreads]
    | resumes hreplay =>
      cases hd
      rw [hreplay]
  rw [hdelay]
  refine ⟨replay_cap _, fun before rest first o hlog hlive hfirst hrest => ?_⟩
  rw [hlog]
  exact replay_delay hlive hfirst hrest

/-- The operation is resumed a second time, and is as before. -/
def demoRetry : List (Event (Call demoApi) (Input demoApi)) := demoRecovery ++ demoRecovery

/-- What follows the first read. -/
def retried : List LiquidityEntry :=
  [.resumed "op", .returned demoOperation, .read (some demoOperation), .resumed "op", .returned demoOperation]

theorem attempts_back_off_op : 2 ≤ fiResumeMaxBackoff ∧ backoff (retried.countP LiquidityEntry.isAttempt) ≤ 2 := by
  obtain ⟨hcap, hdelay⟩ := attempts_back_off demoRetry (.driverLoop ⟨0, ⟨true, none, some demoOperation, 2⟩⟩)
    List.mem_cons_self ⟨0, ⟨true, none, some demoOperation, 2⟩⟩ rfl
  refine ⟨hcap, hdelay [] retried (.read (some demoOperation)) demoOperation rfl (by decide) (.inl rfl) ?_⟩
  intro e he
  simp only [retried, List.mem_cons, List.not_mem_nil, or_false] at he
  rcases he with rfl | rfl | rfl | rfl | rfl
  · trivial
  · rfl
  · rfl
  · trivial
  · rfl

end FiClient
