import Fedi.FiClient.Driver

/-!
# One mutation at a time

A claim is at one place: with a call, with the driver, with a command in the queue, or with a
completion on its way back.

    along every run, `operation_active` is set exactly while there is a claim, and there is one
                                                                                       (exclusive)
-/

namespace FiClient

open Tasks

variable {api : FiApi}

/-! ## Where the claims are -/

def Oneshot.holdsClaim : Oneshot → Bool
  | .sent completion => completion.retainedClaim
  | _ => false

/-- The claims of commands in the queue and of completions on their way. -/
def Bridge.claims (b : Bridge api) : ℕ := b.queue.length + b.channels.countP Oneshot.holdsClaim

def claimsOf (ts : List (Task api)) : ℕ := ts.countP Task.holdsClaim

/-- The claims that are there are as many as `operation_active` says. -/
def Claimed (b : Bridge api) (ts : List (Task api)) : Prop :=
  claimsOf ts + b.claims = b.operationActive.toNat

/-- What happens to the claims: they stay, one is taken, or some are dropped. -/
inductive ClaimStep (b b' : Bridge api) (n n' : ℕ) : Prop
  | kept : b'.operationActive = b.operationActive → n' = n → ClaimStep b b' n n'
  | taken : b.operationActive = false → b'.operationActive = true → n' = n + 1 → ClaimStep b b' n n'
  | dropped : b'.operationActive = false → n' < n → ClaimStep b b' n n'

theorem ClaimStep.claimed {b b' : Bridge api} {n n' others : ℕ} (h : ClaimStep b b' n n')
    (hbefore : others + n = b.operationActive.toNat) : others + n' = b'.operationActive.toNat := by
  cases h with
  | kept hactive hn => rw [hactive, hn, hbefore]
  | taken hfree hactive hn =>
    rw [hfree, Bool.toNat_false] at hbefore
    rw [hactive, Bool.toNat_true]
    omega
  | dropped hfree hn =>
    have hle := Bool.toNat_le b.operationActive
    rw [hfree, Bool.toNat_false]
    omega

/-! ## The pieces of a step -/

section
variable {b : Bridge api} {channel : ℕ}

@[simp] theorem claims_note (entries : List (Entry api)) : (b.note entries).claims = b.claims := rfl

@[simp] theorem operationActive_note (entries : List (Entry api)) :
    (b.note entries).operationActive = b.operationActive := rfl

@[simp] theorem claims_dropClaim : b.dropClaim.claims = b.claims := rfl

@[simp] theorem operationActive_dropClaim : b.dropClaim.operationActive = false := rfl

theorem claims_dropClaimIf (owned : Bool) : (b.dropClaimIf owned).claims = b.claims := by
  cases owned <;> rfl

theorem operationActive_dropClaimIf (owned : Bool) :
    (b.dropClaimIf owned).operationActive = (!owned && b.operationActive) := by
  cases owned <;> rfl

theorem tryClaimOperation_cases :
    (b.operationActive = true ∧ b.tryClaimOperation = none) ∨
      (b.operationActive = false ∧ b.tryClaimOperation = some { b with operationActive := true }) := by
  unfold Bridge.tryClaimOperation
  cases h : b.operationActive with
  | false => exact .inr ⟨rfl, rfl⟩
  | true => exact .inl ⟨rfl, rfl⟩

theorem toNat_eq_ite (c : Bool) : (if c = true then 1 else 0) = c.toNat := by
  cases c <;> rfl

theorem countP_set_channel {old : Oneshot} (new : Oneshot) (h : b.channels[channel]? = some old) :
    (b.channels.set channel new).countP Oneshot.holdsClaim + old.holdsClaim.toNat =
      b.channels.countP Oneshot.holdsClaim + new.holdsClaim.toNat := by
  obtain ⟨hlt, hold⟩ := List.getElem?_eq_some_iff.mp h
  rw [List.countP_set hlt, hold, toNat_eq_ite, toNat_eq_ite]
  have hle : old.holdsClaim.toNat ≤ b.channels.countP Oneshot.holdsClaim := by
    by_cases hclaim : old.holdsClaim = true
    · rw [hclaim]
      exact List.countP_pos_iff.mpr ⟨old, hold ▸ List.getElem_mem hlt, hclaim⟩
    · rw [Bool.eq_false_of_not_eq_true hclaim]
      exact Nat.zero_le _
  omega

/-- The completion takes its claim with it, or is dropped with it. -/
theorem respond_claims (completion : FiDriverCompletion) :
    ((b.respond channel completion).operationActive = b.operationActive ∧
        (b.respond channel completion).claims = b.claims + completion.retainedClaim.toNat) ∨
      ((b.respond channel completion).operationActive = (!completion.retainedClaim && b.operationActive) ∧
        (b.respond channel completion).claims = b.claims) := by
  unfold Bridge.respond
  cases hch : b.channels[channel]? with
  | none => exact .inr ⟨operationActive_dropClaimIf _, claims_dropClaimIf _⟩
  | some state =>
    cases state with
    | waiting =>
      have hcount := countP_set_channel (.sent completion) hch
      exact .inl ⟨rfl, (congrArg (b.queue.length + ·) hcount).trans (Nat.add_assoc _ _ _).symm⟩
    | sent c => exact .inr ⟨operationActive_dropClaimIf _, claims_dropClaimIf _⟩
    | closed => exact .inr ⟨operationActive_dropClaimIf _, claims_dropClaimIf _⟩
    | failed => exact .inr ⟨operationActive_dropClaimIf _, claims_dropClaimIf _⟩

theorem closeChannel_step : ClaimStep b (b.closeChannel channel) b.claims (b.closeChannel channel).claims := by
  unfold Bridge.closeChannel
  cases hch : b.channels[channel]? with
  | none => exact .kept rfl rfl
  | some state =>
    cases state with
    | waiting =>
      exact .kept rfl (congrArg (b.queue.length + ·) (countP_set_channel .closed hch))
    | sent completion =>
      have hcount := countP_set_channel .closed hch
      dsimp only
      cases hclaim : completion.retainedClaim with
      | false =>
        rw [Oneshot.holdsClaim, hclaim] at hcount
        exact .kept rfl (congrArg (b.queue.length + ·) hcount)
      | true =>
        rw [Oneshot.holdsClaim, hclaim] at hcount
        exact .dropped rfl (Nat.add_lt_add_left (Nat.lt_of_succ_le (le_of_eq hcount)) _)
    | closed => exact .kept rfl rfl
    | failed => exact .kept rfl rfl

theorem dropCommand_claims (command : FiDriverCommand api) :
    (b.dropCommand command).claims = b.claims ∧ (b.dropCommand command).operationActive = false := by
  unfold Bridge.dropCommand
  cases hch : b.channels[command.response]? with
  | none => exact ⟨rfl, rfl⟩
  | some state =>
    cases state with
    | waiting =>
      exact ⟨congrArg (b.queue.length + ·) (countP_set_channel .failed hch), rfl⟩
    | sent c => exact ⟨rfl, rfl⟩
    | closed => exact ⟨rfl, rfl⟩
    | failed => exact ⟨rfl, rfl⟩

theorem foldl_dropCommand (commands : List (FiDriverCommand api)) (b : Bridge api) :
    (commands.foldl Bridge.dropCommand b).claims = b.claims ∧
      (commands.foldl Bridge.dropCommand b).operationActive = (commands.isEmpty && b.operationActive) := by
  induction commands generalizing b with
  | nil => exact ⟨rfl, (Bool.true_and _).symm⟩
  | cons command commands ih =>
    obtain ⟨hclaims, hactive⟩ := ih (b.dropCommand command)
    obtain ⟨hcommand, hfree⟩ := dropCommand_claims (b := b) command
    rw [List.foldl_cons, hclaims, hactive, hcommand, hfree]
    exact ⟨rfl, by simp⟩

end

/-! ## The steps -/

section
variable {b : Bridge api} {input : Input api}

/-- The claims of a task and of what it leaves. -/
def StepsClaim (b : Bridge api) (n : ℕ) (r : Bridge api × List (Task api)) : Prop :=
  ClaimStep b r.1 (b.claims + n) (r.1.claims + claimsOf r.2)

/-- The claims are those of another state with as many. -/
theorem StepsClaim.congr {b' : Bridge api} {n n' : ℕ} {r : Step api} (h : StepsClaim b' n' r)
    (hclaims : b'.claims + n' = b.claims + n) (hactive : b'.operationActive = b.operationActive) : StepsClaim b n r := by
  unfold StepsClaim at h ⊢
  rw [hclaims] at h
  cases h with
  | kept hkept hn => exact .kept (hkept.trans hactive) hn
  | taken hfree htaken hn => exact .taken (hactive.symm.trans hfree) htaken hn
  | dropped hfree hn => exact .dropped hfree hn

theorem afterResponse_step (caller : Caller api) (response : Except RpcFiOperationError FiDriverResponse)
    (retainedClaim : Bool) :
    StepsClaim b retainedClaim.toNat (afterResponse b caller response retainedClaim input) := by
  have hdropped : ∀ t : Task api, t.holdsClaim = false →
      StepsClaim b retainedClaim.toNat (b.dropClaimIf retainedClaim, [t]) := by
    intro t ht
    unfold StepsClaim claimsOf
    rw [claims_dropClaimIf, List.countP_singleton, ht]
    cases retainedClaim with
    | false => exact .kept rfl rfl
    | true => exact .dropped rfl (Nat.lt_succ_self _)
  cases caller with
  | other request => exact hdropped _ rfl
  | applyReplacements previewId approval =>
    unfold afterResponse
    dsimp only
    split_ifs
    · exact hdropped _ rfl
    · exact hdropped _ rfl
  | payAndCreate previewId intent approval paymentFederationId completionCallback =>
    refine .kept rfl ?_
    cases retainedClaim <;> rfl

theorem afterSettled_step (previewId : String) (result : RpcFiOperationResult) (retainedClaim : Bool) :
    StepsClaim b retainedClaim.toNat (afterSettled b previewId result retainedClaim input) := by
  unfold afterSettled StepsClaim claimsOf
  rw [claims_dropClaimIf]
  have hnext : (if !mayRetryPayer result || input.status.started then Task.clearSelection previewId result
      else (Task.done (.operation result) : Task api)).holdsClaim = false := by
    split_ifs <;> rfl
  rw [List.countP_singleton, hnext]
  cases retainedClaim with
  | false => exact .kept rfl rfl
  | true => exact .dropped rfl (Nat.lt_succ_self _)

/-- The claim of a command goes with the response, or is dropped before it. -/
theorem respond_step (retain : Bool) (channel : ℕ) (response : FiDriverResponse) {next : Task api}
    (hnext : next.holdsClaim = false) :
    StepsClaim b 1 ((b.dropClaimIf !retain).respond channel ⟨response, retain⟩, [next]) := by
  have hzero : claimsOf [next] = 0 := by
    unfold claimsOf
    rw [List.countP_singleton, hnext]
    rfl
  unfold StepsClaim
  dsimp only
  rw [hzero]
  cases retain with
  | true =>
    rcases respond_claims (b := b) ⟨response, true⟩ with ⟨hactive, hn⟩ | ⟨hfree, hn⟩
    · exact .kept hactive hn
    · exact .dropped hfree (Nat.lt_succ_of_le (le_of_eq hn))
  | false =>
    have hfree : (b.dropClaim.respond channel ⟨response, false⟩).operationActive = false ∧
        (b.dropClaim.respond channel ⟨response, false⟩).claims = b.claims := by
      rcases respond_claims (b := b.dropClaim) ⟨response, false⟩ with h | h
      · exact h
      · exact h
    exact .dropped hfree.1 (Nat.lt_succ_of_le (le_of_eq hfree.2))

theorem finishCommand_step (d : DriverState) (command : FiDriverCommand api) (before after : FiStatus)
    (response : FiDriverResponse) : StepsClaim b 1 (finishCommand b d command before after response) :=
  (respond_step command.retainClaimForHandoff command.response response rfl).congr rfl rfl

theorem command_holdsClaim {t : Task api} {command : FiDriverCommand api} (h : t.command? = some command) :
    t.holdsClaim = true := by
  cases t <;> first | rfl | cases h

/-- The driver drops its command and the queue. -/
theorem dropDriver_step (t : Task api) :
    StepsClaim b t.holdsClaim.toNat ((t.command?.toList ++ b.queue).foldl Bridge.dropCommand
      ({ b with driverGone := true, queue := [] }.dropClaimIf t.holdsClaim), []) := by
  unfold StepsClaim
  obtain ⟨hclaims, hactive⟩ := foldl_dropCommand (t.command?.toList ++ b.queue)
    ({ b with driverGone := true, queue := [] }.dropClaimIf t.holdsClaim)
  dsimp only
  rw [claims_dropClaimIf] at hclaims
  rw [operationActive_dropClaimIf] at hactive
  have hqueue : ({ b with driverGone := true, queue := [] } : Bridge api).claims + b.queue.length = b.claims :=
    Nat.add_comm (0 + _) _ |>.trans (congrArg (b.queue.length + ·) (Nat.zero_add _))
  by_cases hidle : b.queue = [] ∧ t.holdsClaim = false
  · have hcommand : t.command? = none := by
      cases hc : t.command? with
      | none => rfl
      | some command =>
        have hholds := command_holdsClaim hc
        rw [hidle.2] at hholds
        cases hholds
    refine .kept ?_ ?_
    · rw [hactive, hcommand, hidle.1, hidle.2]
      rfl
    · rw [hclaims, hidle.2]
      rw [hidle.1] at hqueue
      exact hqueue
  · refine .dropped ?_ ?_
    · rw [hactive]
      by_cases hholds : t.holdsClaim = true
      · rw [hholds]
        simp
      · have hnonempty : (t.command?.toList ++ b.queue).isEmpty = false := by
          rw [List.isEmpty_eq_false_iff]
          intro hempty
          exact hidle ⟨(List.append_eq_nil_iff.mp hempty).2, Bool.eq_false_of_not_eq_true hholds⟩
        rw [hnonempty, Bool.false_and]
    · rw [hclaims]
      show _ + 0 < _
      by_cases hholds : t.holdsClaim = true
      · rw [hholds, Bool.toNat_true]
        omega
      · have hpos : 0 < b.queue.length :=
          List.length_pos_iff.mpr fun hempty => hidle ⟨hempty, Bool.eq_false_of_not_eq_true hholds⟩
        omega

theorem dropClaim_step : StepsClaim b 1 (b.dropClaim, []) := .dropped rfl (Nat.lt_succ_self _)

theorem dropTask_step (t : Task api) : StepsClaim b t.holdsClaim.toNat (b.dropTask t, []) := by
  unfold Bridge.dropTask
  by_cases hdriver : t.isDriver = true
  · rw [if_pos hdriver]
    exact dropDriver_step t
  · rw [if_neg hdriver]
    have hother : StepsClaim b t.holdsClaim.toNat (b.dropClaimIf t.holdsClaim, []) := by
      cases t.holdsClaim with
      | false => exact .kept rfl rfl
      | true => exact dropClaim_step
    cases t
    case receive caller channel => exact closeChannel_step
    case createHook => exact .dropped rfl (Nat.lt_succ_self _)
    all_goals exact hother

/-- The claim of a task is dropped, and what follows has none. -/
theorem released_step {b' : Bridge api} {ts : List (Task api)} (hclaims : b'.claims = b.claims)
    (hfree : b'.operationActive = false) (hts : claimsOf ts = 0) : StepsClaim b 1 (b', ts) :=
  .dropped hfree (by show b'.claims + claimsOf ts < _; omega)

/-- The claim of a task goes with it. -/
theorem goesOn_step {b' : Bridge api} {n : ℕ} {ts : List (Task api)} (hclaims : b'.claims = b.claims)
    (hactive : b'.operationActive = b.operationActive) (hts : claimsOf ts = n) : StepsClaim b n (b', ts) :=
  .kept hactive (by show b'.claims + claimsOf ts = _; omega)

/-- A call that claims gives the claim to what follows, or drops it again. -/
theorem claimOr_step {busy : Reply} {next : Bridge api → Step api}
    (hnext : b.operationActive = false → StepsClaim b 0 (next { b with operationActive := true })) :
    StepsClaim b 0 (b.claimOr busy next) := by
  unfold Bridge.claimOr
  rcases tryClaimOperation_cases (b := b) with ⟨-, hclaim⟩ | ⟨hfree, hclaim⟩
  · rw [hclaim]
    exact goesOn_step rfl rfl rfl
  · rw [hclaim]
    exact hnext hfree

theorem claimed_step {t : Task api} (hfree : b.operationActive = false) (ht : claimsOf [t] = 1) :
    StepsClaim b 0 ({ b with operationActive := true }, [t]) :=
  .taken hfree rfl (congrArg (b.claims + ·) ht)

theorem afterAuthorization_step {k : Purpose} {b' : Bridge api} (authorization : Authorization api k)
    {next : api.Approval k → Task api} (hclaims : b'.claims = b.claims)
    (hactive : b'.operationActive = b.operationActive) (hnext : ∀ approval, claimsOf [next approval] = 1) :
    StepsClaim b 1 (afterAuthorization b' authorization next) := by
  cases authorization with
  | rejected error => exact released_step hclaims rfl rfl
  | refused error => exact released_step hclaims rfl rfl
  | unreachable => exact released_step hclaims rfl rfl
  | stored approval => exact goesOn_step hclaims hactive (hnext approval)
  | approved approval => exact goesOn_step hclaims hactive (hnext approval)

theorem installPreview_step (previewId : String) (preview : api.Preview .selection) (formationStarted : Bool) :
    StepsClaim b 1 (installPreview b previewId preview formationStarted) := by
  unfold installPreview
  dsimp only
  split_ifs
  · exact goesOn_step rfl rfl rfl
  · exact goesOn_step rfl rfl rfl
  · exact released_step rfl rfl rfl

theorem ensureHook_step (previewId : String) (intent : api.FormationIntent) (approval : api.Approval .selection)
    (paymentFederationId : String) : StepsClaim b 1 (ensureHook b previewId intent approval paymentFederationId) := by
  unfold ensureHook
  split_ifs
  · exact goesOn_step rfl rfl rfl
  · cases b.formationState.formationPush.filter fun stored => decide (stored.previewId = previewId) with
    | none => exact released_step rfl rfl rfl
    | some stored =>
      dsimp only
      split_ifs
      · exact goesOn_step rfl rfl rfl
      · exact goesOn_step rfl rfl rfl

theorem claims_push (caller : Caller api) : (b.push caller).claims = b.claims + 1 := by
  unfold Bridge.push Bridge.claims
  simp only [Bridge.note, List.length_append, List.length_singleton, List.countP_append, List.countP_singleton,
    Oneshot.holdsClaim, Bool.false_eq_true, if_false]
  omega

theorem sendCommand_step (caller : Caller api) : StepsClaim b 1 (sendCommand b caller input) := by
  unfold sendCommand
  split_ifs
  · cases caller with
    | other request => exact released_step rfl rfl rfl
    | payAndCreate previewId intent approval paymentFederationId completionCallback => exact released_step rfl rfl rfl
    | applyReplacements previewId approval => exact released_step rfl rfl rfl
  · exact goesOn_step rfl rfl rfl
  · exact .kept rfl (claims_push caller)

theorem receiveResponse_step (caller : Caller api) (channel : ℕ) :
    StepsClaim b 0 (receiveResponse b caller channel input) := by
  unfold receiveResponse
  cases hch : b.channels[channel]? with
  | none => exact goesOn_step rfl rfl rfl
  | some state =>
    cases state with
    | waiting => exact goesOn_step rfl rfl rfl
    | sent completion =>
      have hafter : StepsClaim (b.setChannel channel .closed) completion.retainedClaim.toNat
          (afterResponse (b.setChannel channel .closed) caller (.ok completion.response) completion.retainedClaim input) :=
        afterResponse_step caller _ _
      have hcount := countP_set_channel .closed hch
      have hclaims : (b.setChannel channel .closed).claims + completion.retainedClaim.toNat = b.claims :=
        (Nat.add_assoc _ _ _).trans (congrArg (b.queue.length + ·) hcount)
      exact hafter.congr hclaims rfl
    | closed => exact goesOn_step rfl rfl rfl
    | failed => exact afterResponse_step caller (.error driverUnavailableError) false

theorem settlePush_step (previewId : String) (result : RpcFiOperationResult) (retainedClaim formationStarted : Bool) :
    StepsClaim b retainedClaim.toNat (settlePush b previewId result retainedClaim formationStarted input) := by
  have hstays : ∀ (b' : Bridge api) (t : Task api), b'.claims = b.claims → b'.operationActive = b.operationActive →
      t.holdsClaim = retainedClaim → StepsClaim b retainedClaim.toNat (b', [t]) := by
    intro b' t hclaims hactive ht
    refine goesOn_step hclaims hactive ?_
    unfold claimsOf
    rw [List.countP_singleton, ht, toNat_eq_ite]
  unfold settlePush
  dsimp only
  split_ifs
  · exact hstays _ _ rfl rfl rfl
  all_goals first
    | exact hstays _ _ rfl rfl rfl
    | exact (afterSettled_step previewId result retainedClaim).congr rfl rfl

theorem driverReadCurrent_step (d : DriverState) : StepsClaim b 0 (driverReadCurrent b d input) := by
  unfold driverReadCurrent
  cases input.currentOperation with
  | ok operation => exact goesOn_step rfl rfl rfl
  | error error => exact goesOn_step rfl rfl rfl

theorem driverResumeLiquidity_step (d : DriverState) : StepsClaim b 1 (driverResumeLiquidity b d input) := by
  unfold driverResumeLiquidity
  cases input.liquidityResult with
  | ok operation => exact released_step rfl rfl rfl
  | error error => exact released_step rfl rfl rfl

theorem startResume_step (d : DriverState) : StepsClaim b 0 (startResume b d input) := by
  unfold startResume
  rcases tryClaimOperation_cases (b := b) with ⟨-, hclaim⟩ | ⟨hfree, hclaim⟩
  · rw [hclaim]
    exact goesOn_step rfl rfl rfl
  · rw [hclaim]
    exact claimed_step hfree rfl

theorem startReconcile_step (d : DriverState) : StepsClaim b 0 (startReconcile b d) := by
  unfold startReconcile
  rcases d.liquidityRecovery.nextStep with ⟨step, recovery⟩
  cases step with
  | none => exact goesOn_step rfl rfl rfl
  | some step =>
    cases step with
    | readCurrent => exact goesOn_step rfl rfl rfl
    | resume operationId =>
      rcases tryClaimOperation_cases (b := b) with ⟨-, hclaim⟩ | ⟨hfree, hclaim⟩
      · rw [hclaim]
        exact goesOn_step rfl rfl rfl
      · rw [hclaim]
        exact .taken hfree rfl rfl

theorem driverSelect_step (d : DriverState) (select : Select) : StepsClaim b 0 (driverSelect b d select input) := by
  unfold driverSelect
  cases hqueue : b.queue with
  | cons command queue =>
    -- the claim of the command goes to the driver
    have hclaims : ({ b with queue := queue } : Bridge api).claims + 1 = b.claims := by
      unfold Bridge.claims
      rw [hqueue, List.length_cons]
      dsimp only
      omega
    exact .kept rfl hclaims
  | nil =>
    dsimp only
    split_ifs
    · cases select with
      | formation => exact startResume_step d
      | liquidity => exact startReconcile_step d
      | command => exact goesOn_step rfl rfl rfl
    · exact goesOn_step rfl rfl rfl

theorem invalidatePush_step (d : DriverState) (command : FiDriverCommand api) (before after : FiStatus)
    (response : FiDriverResponse) : StepsClaim b 1 (invalidatePush b d command before after response) := by
  unfold invalidatePush
  dsimp only
  split_ifs
  · exact goesOn_step rfl rfl rfl
  · exact goesOn_step rfl rfl rfl
  · exact (finishCommand_step d command before after response).congr rfl rfl

theorem poll_step (t : Task api) : StepsClaim b t.holdsClaim.toNat (poll b t input) := by
  cases t with
  | previewSelection request =>
    refine claimOr_step fun hfree => ?_
    cases api.selectionRequestFromRpc request with
    | some error => exact goesOn_step rfl hfree.symm rfl
    | none => exact claimed_step hfree rfl
  | previewFmanSelection =>
    show StepsClaim b 1 (FiClient.previewFmanSelection b input)
    unfold FiClient.previewFmanSelection
    cases input.selectionPreview with
    | error error => exact released_step rfl rfl rfl
    | ok preview => exact goesOn_step rfl rfl rfl
  | storeSelection previewId preview => exact goesOn_step rfl rfl rfl
  | installPreview previewId preview formationStarted => exact installPreview_step previewId preview formationStarted
  | revokeReplaced previewId preview => exact released_step rfl rfl rfl
  | previewReplacements => exact claimOr_step fun hfree => claimed_step hfree rfl
  | previewFmanReplacements =>
    show StepsClaim b 1 (FiClient.previewFmanReplacements b input)
    unfold FiClient.previewFmanReplacements
    cases input.replacementPreview with
    | error error => exact released_step rfl rfl rfl
    | ok preview => exact goesOn_step rfl rfl rfl
  | storeReplacement previewId preview => exact released_step rfl rfl rfl
  | applyReplacements previewId maxTotalMsats => exact claimOr_step fun hfree => claimed_step hfree rfl
  | authorizeReplacement previewId maxTotalMsats => exact afterAuthorization_step _ rfl rfl fun _ => rfl
  | payAndCreate previewId intent paymentFederationId maxTotalMsats =>
    refine claimOr_step fun hfree => ?_
    cases api.formationIntentFromRpc intent with
    | error error => exact goesOn_step rfl hfree.symm rfl
    | ok intent => exact claimed_step hfree rfl
  | authorizeSelection previewId intent paymentFederationId maxTotalMsats =>
    exact afterAuthorization_step _ rfl rfl fun _ => rfl
  | ensureHook previewId intent approval paymentFederationId =>
    exact ensureHook_step previewId intent approval paymentFederationId
  | createHook previewId intent approval paymentFederationId => exact goesOn_step rfl rfl rfl
  | request request => exact claimOr_step fun hfree => claimed_step hfree rfl
  | send caller => exact sendCommand_step caller
  | receive caller channel => exact receiveResponse_step caller channel
  | settlePush previewId result retainedClaim formationStarted =>
    exact settlePush_step previewId result retainedClaim formationStarted
  | revokeSettled previewId result retainedClaim => exact afterSettled_step previewId result retainedClaim
  | clearSelection previewId result => exact goesOn_step rfl rfl rfl
  | clearReplacement previewId result => exact goesOn_step rfl rfl rfl
  | done reply => exact goesOn_step rfl rfl rfl
  | driverLoop d => exact goesOn_step rfl rfl rfl
  | driverSelect d select => exact driverSelect_step d select
  | driverResume d before => exact released_step rfl rfl rfl
  | driverReadCurrent d => exact driverReadCurrent_step d
  | driverResumeLiquidity d operationId => exact driverResumeLiquidity_step d
  | driverExecute d command before =>
    show StepsClaim b 1 (FiClient.driverExecute b d command before input)
    unfold FiClient.driverExecute
    dsimp only
    split_ifs
    · exact goesOn_step rfl rfl rfl
    · exact finishCommand_step d command before input.status _
  | invalidateSelection d command before after response => exact goesOn_step rfl rfl rfl
  | invalidateReplacement d command before after response => exact goesOn_step rfl rfl rfl
  | invalidatePush d command before after response => exact invalidatePush_step d command before after response
  | revokeAbandoned d command before after response => exact finishCommand_step d command before after response

theorem runTask_step (t : Task api) : StepsClaim b t.holdsClaim.toNat (runTask b t input) := by
  unfold runTask
  split_ifs
  · exact dropTask_step t
  · exact poll_step t

end

/-! ## Runs -/

theorem claimsOf_start (call : Call api) : claimsOf [call.start] = 0 := by
  cases call <;> rfl

theorem claimed_call {b : Bridge api} {ts : List (Task api)} (h : Claimed b ts) (call : Call api) :
    Claimed b (ts ++ [call.start]) := by
  unfold Claimed claimsOf at h ⊢
  rw [List.countP_append, show List.countP Task.holdsClaim [call.start] = 0 from claimsOf_start call, Nat.add_zero]
  exact h

theorem claimed_run {b : Bridge api} {before after : List (Task api)} {t : Task api} (input : Input api)
    (h : Claimed b (before ++ t :: after)) :
    Claimed (runTask b t input).1 (before ++ (runTask b t input).2 ++ after) := by
  unfold Claimed claimsOf at h ⊢
  rw [countP_task, toNat_eq_ite] at h
  rw [countP_next]
  have hstep : (before ++ after).countP Task.holdsClaim +
      ((runTask b t input).1.claims + claimsOf (runTask b t input).2) = (runTask b t input).1.operationActive.toNat :=
    (runTask_step t).claimed (by omega)
  unfold claimsOf at hstep
  omega

theorem claimed_initial : Claimed (Bridge.initial api) [.driverLoop .initial] := rfl

theorem claimed_bridge (es : List (Event (Call api) (Input api))) : Claimed (bridge es).state (bridge es).tasks :=
  pool_invariant (I := Claimed) claimed_initial (fun _ _ call h => claimed_call h call)
    (fun _ _ _ _ input h => claimed_run input h) es

/-- Whatever calls are made and dropped at whatever awaits, whatever comes back to them, and also
through a shutdown: `operation_active` is set exactly while some call, command, completion or the
driver holds a claim, and then one does.  So no two mutations are ever under way, and no claim is
lost. -/
theorem exclusive (es : List (Event (Call api) (Input api))) :
    (bridge es).tasks.countP Task.holdsClaim + (bridge es).state.queue.length +
        (bridge es).state.channels.countP Oneshot.holdsClaim =
      if (bridge es).state.operationActive then 1 else 0 := by
  have h := claimed_bridge es
  unfold Claimed claimsOf Bridge.claims at h
  rw [toNat_eq_ite, ← h, Nat.add_assoc]

end FiClient
