import Fedi.FiClient.Exclusion

/-!
# The response of a paid formation brings the claim

A channel is made for one caller.  `paid` tells for each channel whether that is a paid
formation; commands and completions keep to it.

    a paid formation that has its response without the claim was left by a driver that is gone
                                                                                  (linked_run)
-/

namespace FiClient

open Tasks

variable {api : FiApi}

/-- A paid formation whose response came without the claim. -/
def Task.unclaimed : Task api → Bool
  | .settlePush _ _ retainedClaim _ => !retainedClaim
  | _ => false

def Task.receives? : Task api → Option (Caller api × ℕ)
  | .receive caller channel => some (caller, channel)
  | _ => none

structure BridgeLinked (paid : List Bool) (b : Bridge api) : Prop where
  length : paid.length = b.channels.length
  failed : ∀ channel : ℕ, b.channels[channel]? = some .failed → b.driverGone = true
  sent : ∀ (channel : ℕ) (completion : FiDriverCompletion), b.channels[channel]? = some (.sent completion) →
    paid[channel]? = some completion.retainedClaim
  queue : ∀ command ∈ b.queue, paid[command.response]? = some command.retainClaimForHandoff

structure TaskLinked (paid : List Bool) (driverGone : Bool) (t : Task api) : Prop where
  command : ∀ command, t.command? = some command → paid[command.response]? = some command.retainClaimForHandoff
  receives : ∀ caller channel, t.receives? = some (caller, channel) → paid[channel]? = some caller.retains
  unclaimed : t.unclaimed = true → driverGone = true

/-- Every channel has its kind of caller. -/
def Linked (b : Bridge api) (ts : List (Task api)) : Prop :=
  ∃ paid, BridgeLinked paid b ∧ ∀ t ∈ ts, TaskLinked paid b.driverGone t

section
variable {paid paid' : List Bool} {b b' : Bridge api} {t : Task api} {input : Input api} {driverGone : Bool}

theorem getElem?_of_isPrefix {l l' : List Bool} (h : l <+: l') {i : ℕ} {x : Bool} (hx : l[i]? = some x) :
    l'[i]? = some x := by
  obtain ⟨more, rfl⟩ := h
  rw [List.getElem?_append_left (List.getElem?_eq_some_iff.mp hx).1]
  exact hx

theorem TaskLinked.mono (h : TaskLinked paid driverGone t) (hpaid : paid <+: paid') {driverGone' : Bool}
    (hgone : driverGone = true → driverGone' = true) : TaskLinked paid' driverGone' t where
  command := fun command hc => getElem?_of_isPrefix hpaid (h.command command hc)
  receives := fun caller channel hr => getElem?_of_isPrefix hpaid (h.receives caller channel hr)
  unclaimed := fun hu => hgone (h.unclaimed hu)

/-- A task that has no command, no channel and no lost claim. -/
theorem taskLinked_plain (hcommand : t.command? = none) (hreceives : t.receives? = none) (hunclaimed : t.unclaimed = false) :
    TaskLinked paid driverGone t where
  command := fun command hc => by rw [hcommand] at hc; cases hc
  receives := fun caller channel hr => by rw [hreceives] at hr; cases hr
  unclaimed := fun hu => by rw [hunclaimed] at hu; cases hu

theorem taskLinked_command {command : FiDriverCommand api} (hcommand : t.command? = some command)
    (hpaid : paid[command.response]? = some command.retainClaimForHandoff) (hreceives : t.receives? = none)
    (hunclaimed : t.unclaimed = false) : TaskLinked paid driverGone t where
  command := fun command' hc => by rw [hcommand] at hc; cases hc; exact hpaid
  receives := fun caller channel hr => by rw [hreceives] at hr; cases hr
  unclaimed := fun hu => by rw [hunclaimed] at hu; cases hu

/-- The channels and the queue are what counts. -/
theorem BridgeLinked.congr (h : BridgeLinked paid b) (hchannels : b'.channels = b.channels) (hqueue : b'.queue = b.queue)
    (hgone : b'.driverGone = b.driverGone) : BridgeLinked paid b' where
  length := by rw [hchannels]; exact h.length
  failed := by rw [hchannels, hgone]; exact h.failed
  sent := by rw [hchannels]; exact h.sent
  queue := by rw [hqueue]; exact h.queue

/-- What a step leaves is linked, and what is beside it stays so. -/
def StepsLinked (paid : List Bool) (b : Bridge api) (r : Step api) : Prop :=
  ∃ paid', paid <+: paid' ∧ (b.driverGone = true → r.1.driverGone = true) ∧ BridgeLinked paid' r.1 ∧
    ∀ x ∈ r.2, TaskLinked paid' r.1.driverGone x

/-- A step that leaves the channels and the queue alone. -/
theorem stepsLinked_plain {ts : List (Task api)} (h : BridgeLinked paid b) (hchannels : b'.channels = b.channels)
    (hqueue : b'.queue = b.queue) (hgone : b'.driverGone = b.driverGone)
    (hts : ∀ x ∈ ts, TaskLinked paid b.driverGone x) : StepsLinked paid b (b', ts) := by
  refine ⟨paid, List.prefix_rfl, fun hg => hgone.trans hg, h.congr hchannels hqueue hgone, ?_⟩
  dsimp only
  rw [hgone]
  exact hts

/-- The state before counts only by whether the driver is gone. -/
theorem StepsLinked.congr {r : Step api} (h : StepsLinked paid b' r) (hgone : b'.driverGone = b.driverGone) :
    StepsLinked paid b r := by
  unfold StepsLinked at h ⊢
  rw [hgone] at h
  exact h

theorem taskLinked_one {x : Task api} (h : TaskLinked paid driverGone t) (hx : x ∈ [t]) :
    TaskLinked paid driverGone x := by
  rw [List.mem_singleton.mp hx]
  exact h

theorem stepsLinked_to {next : Task api} (h : BridgeLinked paid b) (hchannels : b'.channels = b.channels)
    (hqueue : b'.queue = b.queue) (hgone : b'.driverGone = b.driverGone) (hcommand : next.command? = none)
    (hreceives : next.receives? = none) (hunclaimed : next.unclaimed = false) : StepsLinked paid b (b', [next]) :=
  stepsLinked_plain h hchannels hqueue hgone fun _ hx =>
    taskLinked_one (taskLinked_plain hcommand hreceives hunclaimed) hx

theorem stepsLinked_none (h : BridgeLinked paid b) (hchannels : b'.channels = b.channels)
    (hqueue : b'.queue = b.queue) (hgone : b'.driverGone = b.driverGone) : StepsLinked paid b (b', []) :=
  stepsLinked_plain h hchannels hqueue hgone fun _ hx => by cases hx

/-! ## Channels -/

theorem getElem?_set_channel {channel other : ℕ} {state found : Oneshot}
    (h : (b.setChannel channel state).channels[other]? = some found) :
    other = channel ∧ found = state ∨ b.channels[other]? = some found := by
  unfold Bridge.setChannel at h
  dsimp only at h
  rw [List.getElem?_set] at h
  split_ifs at h with heq hlt
  · exact .inl ⟨heq.symm, (Option.some.inj h).symm⟩
  · exact .inr h

theorem BridgeLinked.setChannel {channel : ℕ} {state : Oneshot} (h : BridgeLinked paid b)
    (hfailed : state = .failed → b.driverGone = true)
    (hsent : ∀ completion, state = .sent completion → paid[channel]? = some completion.retainedClaim) :
    BridgeLinked paid (b.setChannel channel state) where
  length := h.length.trans List.length_set.symm
  failed := by
    intro other hother
    rcases getElem?_set_channel hother with ⟨-, hstate⟩ | hbefore
    · exact hfailed hstate.symm
    · exact h.failed other hbefore
  sent := by
    intro other completion hother
    rcases getElem?_set_channel hother with ⟨rfl, hstate⟩ | hbefore
    · exact hsent completion hstate.symm
    · exact h.sent other completion hbefore
  queue := h.queue

theorem BridgeLinked.dropClaimIf (h : BridgeLinked paid b) (owned : Bool) : BridgeLinked paid (b.dropClaimIf owned) := by
  cases owned
  · exact h
  · exact h.congr rfl rfl rfl

theorem driverGone_dropClaimIf (owned : Bool) : (b.dropClaimIf owned).driverGone = b.driverGone := by
  cases owned <;> rfl

theorem BridgeLinked.respond {channel : ℕ} {completion : FiDriverCompletion} (h : BridgeLinked paid b)
    (hpaid : paid[channel]? = some completion.retainedClaim) : BridgeLinked paid (b.respond channel completion) := by
  unfold Bridge.respond
  cases hch : b.channels[channel]? with
  | none => exact h.dropClaimIf _
  | some state =>
    cases state with
    | waiting =>
      exact h.setChannel (fun hf => by cases hf) fun c hc => by cases hc; exact hpaid
    | sent c => exact h.dropClaimIf _
    | closed => exact h.dropClaimIf _
    | failed => exact h.dropClaimIf _

theorem driverGone_respond {channel : ℕ} {completion : FiDriverCompletion} :
    (b.respond channel completion).driverGone = b.driverGone := by
  unfold Bridge.respond
  cases b.channels[channel]? with
  | none => exact driverGone_dropClaimIf _
  | some state =>
    cases state with
    | waiting => rfl
    | sent c => exact driverGone_dropClaimIf _
    | closed => exact driverGone_dropClaimIf _
    | failed => exact driverGone_dropClaimIf _

theorem BridgeLinked.closeChannel (h : BridgeLinked paid b) (channel : ℕ) :
    BridgeLinked paid (b.closeChannel channel) ∧ (b.closeChannel channel).driverGone = b.driverGone := by
  have hclosed : BridgeLinked paid (b.setChannel channel .closed) :=
    h.setChannel (fun hf => by cases hf) fun c hc => by cases hc
  unfold Bridge.closeChannel
  cases b.channels[channel]? with
  | none => exact ⟨h, rfl⟩
  | some state =>
    cases state with
    | waiting => exact ⟨hclosed, rfl⟩
    | sent completion => exact ⟨hclosed.dropClaimIf _, driverGone_dropClaimIf _⟩
    | closed => exact ⟨h, rfl⟩
    | failed => exact ⟨h, rfl⟩

theorem BridgeLinked.dropCommands (commands : List (FiDriverCommand api)) :
    ∀ {b : Bridge api}, BridgeLinked paid b → b.driverGone = true →
      BridgeLinked paid (commands.foldl Bridge.dropCommand b) ∧
        (commands.foldl Bridge.dropCommand b).driverGone = true := by
  induction commands with
  | nil => exact fun h hgone => ⟨h, hgone⟩
  | cons command commands ih =>
    intro b h hgone
    have hdropped : BridgeLinked paid (b.dropCommand command) ∧ (b.dropCommand command).driverGone = true := by
      unfold Bridge.dropCommand
      cases b.channels[command.response]? with
      | none => exact ⟨h.congr rfl rfl rfl, hgone⟩
      | some state =>
        cases state with
        | waiting =>
          have hfailed : BridgeLinked paid (b.setChannel command.response .failed) :=
            h.setChannel (fun _ => hgone) fun c hc => by cases hc
          exact ⟨hfailed.congr rfl rfl rfl, hgone⟩
        | sent c => exact ⟨h.congr rfl rfl rfl, hgone⟩
        | closed => exact ⟨h.congr rfl rfl rfl, hgone⟩
        | failed => exact ⟨h.congr rfl rfl rfl, hgone⟩
    exact ih hdropped.1 hdropped.2

/-! ## The steps -/

theorem dropTask_linked (h : BridgeLinked paid b) (t : Task api) : StepsLinked paid b (b.dropTask t, []) := by
  unfold Bridge.dropTask
  by_cases hdriver : t.isDriver = true
  · rw [if_pos hdriver]
    have hgone : BridgeLinked paid ({ b with driverGone := true, queue := [] } : Bridge api) :=
      ⟨h.length, fun _ _ => rfl, h.sent, fun command hc => by cases hc⟩
    obtain ⟨hdropped, hstays⟩ := (hgone.dropClaimIf t.holdsClaim).dropCommands (t.command?.toList ++ b.queue)
      (driverGone_dropClaimIf _)
    exact ⟨paid, List.prefix_rfl, fun _ => hstays, hdropped, fun _ hx => by cases hx⟩
  · rw [if_neg hdriver]
    have hother : StepsLinked paid b (b.dropClaimIf t.holdsClaim, []) :=
      ⟨paid, List.prefix_rfl, fun hg => (driverGone_dropClaimIf _).trans hg, h.dropClaimIf _, fun _ hx => by cases hx⟩
    cases t
    case receive caller channel =>
      obtain ⟨hclosed, hgone⟩ := h.closeChannel channel
      exact ⟨paid, List.prefix_rfl, fun hg => hgone.trans hg, hclosed, fun _ hx => by cases hx⟩
    case createHook => exact stepsLinked_none h rfl rfl rfl
    all_goals exact hother

theorem afterResponse_linked {caller : Caller api} {response : Except RpcFiOperationError FiDriverResponse}
    {retainedClaim : Bool} (h : BridgeLinked paid b)
    (hclaim : caller.retains = true → retainedClaim = true ∨ b.driverGone = true) :
    StepsLinked paid b (afterResponse b caller response retainedClaim input) := by
  have hdropped : ∀ next : Task api, next.command? = none → next.receives? = none → next.unclaimed = false →
      StepsLinked paid b (b.dropClaimIf retainedClaim, [next]) := by
    intro next hcommand hreceives hunclaimed
    refine ⟨paid, List.prefix_rfl, fun hg => (driverGone_dropClaimIf _).trans hg, h.dropClaimIf _, fun x hx => ?_⟩
    exact taskLinked_one (taskLinked_plain hcommand hreceives hunclaimed) hx
  cases caller with
  | other request => exact hdropped _ rfl rfl rfl
  | applyReplacements previewId approval =>
    unfold afterResponse
    dsimp only
    split_ifs
    · exact hdropped _ rfl rfl rfl
    · exact hdropped _ rfl rfl rfl
  | payAndCreate previewId intent approval paymentFederationId completionCallback =>
    refine stepsLinked_plain h rfl rfl rfl fun x hx => taskLinked_one ⟨fun _ hc => ?_, fun _ _ hr => ?_, fun hu => ?_⟩ hx
    · cases hc
    · cases hr
    · rcases hclaim rfl with hretained | hgone
      · rw [hretained] at hu
        cases hu
      · exact hgone

theorem afterSettled_linked (h : BridgeLinked paid b) (previewId : String) (result : RpcFiOperationResult)
    (retainedClaim : Bool) : StepsLinked paid b (afterSettled b previewId result retainedClaim input) := by
  unfold afterSettled
  refine ⟨paid, List.prefix_rfl, fun hg => (driverGone_dropClaimIf _).trans hg, h.dropClaimIf _, fun x hx => ?_⟩
  refine taskLinked_one ?_ hx
  split_ifs
  · exact taskLinked_plain rfl rfl rfl
  · exact taskLinked_plain rfl rfl rfl

theorem finishCommand_linked {command : FiDriverCommand api} (h : BridgeLinked paid b)
    (hpaid : paid[command.response]? = some command.retainClaimForHandoff) (d : DriverState) (before after : FiStatus)
    (response : FiDriverResponse) : StepsLinked paid b (finishCommand b d command before after response) := by
  unfold finishCommand
  dsimp only
  generalize (if command.operation.rearmsLiquidity then [LiquidityEntry.rearmed] else []) = entries
  have hnoted : BridgeLinked paid (b.noteLiquidity entries) := h.congr rfl rfl rfl
  refine ⟨paid, List.prefix_rfl, fun hg => driverGone_respond.trans ((driverGone_dropClaimIf _).trans hg),
    (hnoted.dropClaimIf _).respond hpaid, fun x hx => ?_⟩
  exact taskLinked_one (taskLinked_plain rfl rfl rfl) hx

theorem sendCommand_linked (h : BridgeLinked paid b) (caller : Caller api) :
    StepsLinked paid b (sendCommand b caller input) := by
  unfold sendCommand
  split_ifs with hgone hfull
  · have hdropped : BridgeLinked paid b.dropClaim := h.congr rfl rfl rfl
    exact afterResponse_linked hdropped fun _ => .inr hgone
  · exact stepsLinked_to h rfl rfl rfl rfl rfl rfl
  · -- a channel of its own
    have hnew : (paid ++ [caller.retains])[b.channels.length]? = some caller.retains := by
      rw [← h.length, List.getElem?_append_right (le_refl _), Nat.sub_self]
      rfl
    have hold : ∀ {channel : ℕ} {state : Oneshot}, (b.channels ++ [Oneshot.waiting])[channel]? = some state →
        state = .waiting ∨ b.channels[channel]? = some state := by
      intro channel state hstate
      rcases Nat.lt_or_ge channel b.channels.length with hlt | hge
      · rw [List.getElem?_append_left hlt] at hstate
        exact .inr hstate
      · rw [List.getElem?_append_right hge] at hstate
        exact .inl (List.mem_singleton.mp (List.mem_of_getElem? hstate))
    refine ⟨paid ++ [caller.retains], List.prefix_append _ _, id, ⟨?_, ?_, ?_, ?_⟩, fun x hx => ?_⟩
    · show (paid ++ [caller.retains]).length = (b.channels ++ [Oneshot.waiting]).length
      rw [List.length_append, List.length_append, h.length]
      rfl
    · intro channel hch
      rcases hold hch with hwaiting | hbefore
      · cases hwaiting
      · exact h.failed channel hbefore
    · intro channel completion hch
      rcases hold hch with hwaiting | hbefore
      · cases hwaiting
      · exact getElem?_of_isPrefix (List.prefix_append _ _) (h.sent channel completion hbefore)
    · intro command hcommand
      rcases List.mem_append.mp hcommand with hbefore | hlast
      · exact getElem?_of_isPrefix (List.prefix_append _ _) (h.queue command hbefore)
      · rw [List.mem_singleton.mp hlast]
        exact hnew
    · refine taskLinked_one ⟨fun _ hc => ?_, fun caller' channel hr => ?_, fun hu => ?_⟩ hx
      · cases hc
      · cases hr
        exact hnew
      · cases hu

theorem receiveResponse_linked (h : BridgeLinked paid b) {caller : Caller api} {channel : ℕ}
    (hpaid : paid[channel]? = some caller.retains) : StepsLinked paid b (receiveResponse b caller channel input) := by
  have hstays : StepsLinked paid b (b, [.receive caller channel]) :=
    stepsLinked_plain h rfl rfl rfl fun x hx => taskLinked_one
      ⟨fun _ hc => (by cases hc), fun _ _ hr => (by cases hr; exact hpaid), fun hu => (by cases hu)⟩ hx
  unfold receiveResponse
  cases hch : b.channels[channel]? with
  | none => exact hstays
  | some state =>
    cases state with
    | waiting => exact hstays
    | closed => exact hstays
    | failed => exact afterResponse_linked h fun _ => .inr (h.failed channel hch)
    | sent completion =>
      have hsame : caller.retains = completion.retainedClaim :=
        Option.some.inj (hpaid.symm.trans (h.sent channel completion hch))
      have hclosed : BridgeLinked paid (b.setChannel channel .closed) :=
        h.setChannel (fun hf => by cases hf) fun c hc => by cases hc
      exact afterResponse_linked hclosed fun hretains => .inl (hsame.symm.trans hretains)

theorem settlePush_linked (h : BridgeLinked paid b) (previewId : String) (result : RpcFiOperationResult)
    {retainedClaim : Bool} (formationStarted : Bool) (hclaim : retainedClaim = false → b.driverGone = true) :
    StepsLinked paid b (settlePush b previewId result retainedClaim formationStarted input) := by
  have hcleared : ∀ stored : Option (StoredFormationPush api),
      BridgeLinked paid ((b.setFormationPush stored).note [.settled .selection previewId]) :=
    fun _ => h.congr rfl rfl rfl
  unfold settlePush
  dsimp only
  split_ifs
  · refine stepsLinked_plain h rfl rfl rfl fun x hx =>
      taskLinked_one ⟨fun _ hc => (by cases hc), fun _ _ hr => (by cases hr), fun hu => ?_⟩ hx
    refine hclaim ?_
    cases retainedClaim with
    | false => rfl
    | true => cases hu
  all_goals first
    | exact stepsLinked_to h rfl rfl rfl rfl rfl rfl
    | exact (afterSettled_linked (hcleared _) previewId result retainedClaim).congr rfl
    | exact afterSettled_linked h previewId result retainedClaim

theorem claimOr_linked (h : BridgeLinked paid b) {busy : Reply} {next : Bridge api → Step api}
    (hnext : StepsLinked paid b (next { b with operationActive := true })) :
    StepsLinked paid b (b.claimOr busy next) := by
  unfold Bridge.claimOr
  rcases tryClaimOperation_cases (b := b) with ⟨-, hclaim⟩ | ⟨-, hclaim⟩
  · rw [hclaim]
    exact stepsLinked_to h rfl rfl rfl rfl rfl rfl
  · rw [hclaim]
    exact hnext

theorem afterAuthorization_linked {k : Purpose} (h : BridgeLinked paid b) (previewId : String) (maxTotalMsats : ℕ)
    {next : api.Approval k → Task api} (hnext : ∀ approval, TaskLinked paid b.driverGone (next approval)) :
    StepsLinked paid b (afterAuthorization (b.authorize k previewId maxTotalMsats).1
      (b.authorize k previewId maxTotalMsats).2 next) := by
  have hdone : ∀ reply : Reply, StepsLinked paid b
      ((b.authorize k previewId maxTotalMsats).1.dropClaim, [.done reply]) := by
    intro reply
    cases k <;> exact stepsLinked_to h rfl rfl rfl rfl rfl rfl
  have hgoes : ∀ approval, StepsLinked paid b ((b.authorize k previewId maxTotalMsats).1, [next approval]) := by
    intro approval
    cases k <;> exact stepsLinked_plain h rfl rfl rfl fun _ hx => taskLinked_one (hnext approval) hx
  cases (b.authorize k previewId maxTotalMsats).2 with
  | rejected error => exact hdone _
  | refused error => exact hdone _
  | unreachable => cases k <;> exact stepsLinked_none h rfl rfl rfl
  | stored approval => exact hgoes approval
  | approved approval => exact hgoes approval

theorem driverSelect_linked (h : BridgeLinked paid b) (d : DriverState) (select : Select) :
    StepsLinked paid b (driverSelect b d select input) := by
  have hto : ∀ next : Task api, next.command? = none → next.receives? = none → next.unclaimed = false →
      ∀ active, StepsLinked paid b ({ b with operationActive := active }, [next]) :=
    fun next hcommand hreceives hunclaimed _ => stepsLinked_to h rfl rfl rfl hcommand hreceives hunclaimed
  unfold driverSelect
  cases hqueue : b.queue with
  | cons command queue =>
    have hcommand := h.queue command (by rw [hqueue]; exact List.mem_cons_self)
    refine ⟨paid, List.prefix_rfl, id, ⟨h.length, h.failed, h.sent, fun c hc => ?_⟩, fun x hx => ?_⟩
    · exact h.queue c (by rw [hqueue]; exact List.mem_cons_of_mem _ hc)
    · exact taskLinked_one (taskLinked_command rfl hcommand rfl rfl) hx
  | nil =>
    dsimp only
    split_ifs
    · cases select with
      | command => exact hto _ rfl rfl rfl _
      | formation =>
        unfold startResume
        rcases tryClaimOperation_cases (b := b) with ⟨-, hclaim⟩ | ⟨-, hclaim⟩
        · rw [hclaim]
          exact hto _ rfl rfl rfl _
        · rw [hclaim]
          exact hto _ rfl rfl rfl _
      | liquidity =>
        unfold startReconcile
        rcases d.liquidityRecovery.nextStep with ⟨step, recovery⟩
        cases step with
        | none => exact hto _ rfl rfl rfl _
        | some step =>
          cases step with
          | readCurrent => exact hto _ rfl rfl rfl _
          | resume operationId =>
            rcases tryClaimOperation_cases (b := b) with ⟨-, hclaim⟩ | ⟨-, hclaim⟩
            · rw [hclaim]
              exact stepsLinked_to h rfl rfl rfl rfl rfl rfl
            · rw [hclaim]
              exact stepsLinked_to h rfl rfl rfl rfl rfl rfl
    · exact hto _ rfl rfl rfl _

theorem driverReadCurrent_linked (h : BridgeLinked paid b) (d : DriverState) :
    StepsLinked paid b (driverReadCurrent b d input) := by
  unfold driverReadCurrent
  cases input.currentOperation with
  | ok operation => exact stepsLinked_to h rfl rfl rfl rfl rfl rfl
  | error error => exact stepsLinked_to h rfl rfl rfl rfl rfl rfl

theorem driverResumeLiquidity_linked (h : BridgeLinked paid b) (d : DriverState) :
    StepsLinked paid b (driverResumeLiquidity b d input) := by
  unfold driverResumeLiquidity
  cases input.liquidityResult with
  | ok operation => exact stepsLinked_to h rfl rfl rfl rfl rfl rfl
  | error error => exact stepsLinked_to h rfl rfl rfl rfl rfl rfl

theorem poll_linked (h : BridgeLinked paid b) (ht : TaskLinked paid b.driverGone t) :
    StepsLinked paid b (poll b t input) := by
  cases t with
  | previewSelection request =>
    refine claimOr_linked h ?_
    cases api.selectionRequestFromRpc request with
    | some error => exact stepsLinked_to h rfl rfl rfl rfl rfl rfl
    | none => exact stepsLinked_to h rfl rfl rfl rfl rfl rfl
  | previewFmanSelection =>
    show StepsLinked paid b (FiClient.previewFmanSelection b input)
    unfold FiClient.previewFmanSelection
    cases input.selectionPreview with
    | error error => exact stepsLinked_to h rfl rfl rfl rfl rfl rfl
    | ok preview => exact stepsLinked_to h rfl rfl rfl rfl rfl rfl
  | storeSelection previewId preview => exact stepsLinked_to h rfl rfl rfl rfl rfl rfl
  | installPreview previewId preview formationStarted =>
    show StepsLinked paid b (FiClient.installPreview b previewId preview formationStarted)
    unfold FiClient.installPreview
    dsimp only
    split_ifs
    · exact stepsLinked_to h rfl rfl rfl rfl rfl rfl
    · exact stepsLinked_to h rfl rfl rfl rfl rfl rfl
    · exact stepsLinked_to h rfl rfl rfl rfl rfl rfl
  | revokeReplaced previewId preview => exact stepsLinked_to h rfl rfl rfl rfl rfl rfl
  | previewReplacements => exact claimOr_linked h (stepsLinked_to h rfl rfl rfl rfl rfl rfl)
  | previewFmanReplacements =>
    show StepsLinked paid b (FiClient.previewFmanReplacements b input)
    unfold FiClient.previewFmanReplacements
    cases input.replacementPreview with
    | error error => exact stepsLinked_to h rfl rfl rfl rfl rfl rfl
    | ok preview => exact stepsLinked_to h rfl rfl rfl rfl rfl rfl
  | storeReplacement previewId preview => exact stepsLinked_to h rfl rfl rfl rfl rfl rfl
  | applyReplacements previewId maxTotalMsats => exact claimOr_linked h (stepsLinked_to h rfl rfl rfl rfl rfl rfl)
  | authorizeReplacement previewId maxTotalMsats =>
    exact afterAuthorization_linked h previewId maxTotalMsats fun _ => taskLinked_plain rfl rfl rfl
  | payAndCreate previewId intent paymentFederationId maxTotalMsats =>
    refine claimOr_linked h ?_
    cases api.formationIntentFromRpc intent with
    | error error => exact stepsLinked_to h rfl rfl rfl rfl rfl rfl
    | ok intent => exact stepsLinked_to h rfl rfl rfl rfl rfl rfl
  | authorizeSelection previewId intent paymentFederationId maxTotalMsats =>
    exact afterAuthorization_linked h previewId maxTotalMsats fun _ => taskLinked_plain rfl rfl rfl
  | ensureHook previewId intent approval paymentFederationId =>
    show StepsLinked paid b (FiClient.ensureHook b previewId intent approval paymentFederationId)
    unfold FiClient.ensureHook
    split_ifs
    · exact stepsLinked_to h rfl rfl rfl rfl rfl rfl
    · cases b.formationState.formationPush.filter fun stored => decide (stored.previewId = previewId) with
      | none => exact stepsLinked_to h rfl rfl rfl rfl rfl rfl
      | some stored =>
        dsimp only
        split_ifs
        · exact stepsLinked_to h rfl rfl rfl rfl rfl rfl
        · exact stepsLinked_to h rfl rfl rfl rfl rfl rfl
  | createHook previewId intent approval paymentFederationId => exact stepsLinked_to h rfl rfl rfl rfl rfl rfl
  | request request => exact claimOr_linked h (stepsLinked_to h rfl rfl rfl rfl rfl rfl)
  | send caller => exact sendCommand_linked h caller
  | receive caller channel => exact receiveResponse_linked h (ht.receives caller channel rfl)
  | settlePush previewId result retainedClaim formationStarted =>
    refine settlePush_linked h previewId result formationStarted fun hretained => ht.unclaimed ?_
    rw [hretained]
    rfl
  | revokeSettled previewId result retainedClaim => exact afterSettled_linked h previewId result retainedClaim
  | clearSelection previewId result => exact stepsLinked_to h rfl rfl rfl rfl rfl rfl
  | clearReplacement previewId result => exact stepsLinked_to h rfl rfl rfl rfl rfl rfl
  | done reply => exact stepsLinked_to h rfl rfl rfl rfl rfl rfl
  | driverLoop d => exact stepsLinked_to h rfl rfl rfl rfl rfl rfl
  | driverSelect d select => exact driverSelect_linked h d select
  | driverResume d before => exact stepsLinked_to h rfl rfl rfl rfl rfl rfl
  | driverReadCurrent d => exact driverReadCurrent_linked h d
  | driverResumeLiquidity d operationId => exact driverResumeLiquidity_linked h d
  | driverExecute d command before =>
    have hcommand := ht.command command rfl
    show StepsLinked paid b (FiClient.driverExecute b d command before input)
    unfold FiClient.driverExecute
    dsimp only
    split_ifs
    · exact stepsLinked_plain h rfl rfl rfl fun x hx => taskLinked_one (taskLinked_command rfl hcommand rfl rfl) hx
    · exact finishCommand_linked h hcommand d before input.status _
  | invalidateSelection d command before after response =>
    exact stepsLinked_plain h rfl rfl rfl fun x hx =>
      taskLinked_one (taskLinked_command rfl (ht.command command rfl) rfl rfl) hx
  | invalidateReplacement d command before after response =>
    exact stepsLinked_plain h rfl rfl rfl fun x hx =>
      taskLinked_one (taskLinked_command rfl (ht.command command rfl) rfl rfl) hx
  | invalidatePush d command before after response =>
    have hcommand := ht.command command rfl
    have hcleared : BridgeLinked paid ((b.setFormationPush none).note [.invalidated]) := h.congr rfl rfl rfl
    show StepsLinked paid b (FiClient.invalidatePush b d command before after response)
    unfold FiClient.invalidatePush
    dsimp only
    split_ifs
    · exact stepsLinked_plain h rfl rfl rfl fun x hx => taskLinked_one (taskLinked_command rfl hcommand rfl rfl) hx
    · exact stepsLinked_plain h rfl rfl rfl fun x hx => taskLinked_one (taskLinked_command rfl hcommand rfl rfl) hx
    · exact (finishCommand_linked hcleared hcommand d before after response).congr rfl
  | revokeAbandoned d command before after response =>
    exact finishCommand_linked h (ht.command command rfl) d before after response

end

/-! ## Runs -/

theorem linked_run {b : Bridge api} {before after : List (Task api)} {t : Task api} (input : Input api)
    (h : Linked b (before ++ t :: after)) :
    Linked (runTask b t input).1 (before ++ (runTask b t input).2 ++ after) := by
  obtain ⟨paid, hb, hts⟩ := h
  obtain ⟨ht, hothers⟩ := forall_task_iff.mp hts
  have hstep : StepsLinked paid b (runTask b t input) := by
    unfold runTask
    split_ifs
    · exact dropTask_linked hb t
    · exact poll_linked hb ht
  obtain ⟨paid', hpaid, hgone, hb', hnext⟩ := hstep
  exact ⟨paid', hb', forall_next_iff.mpr ⟨hnext, fun x hx => (hothers x hx).mono hpaid hgone⟩⟩

theorem linked_call {b : Bridge api} {ts : List (Task api)} (h : Linked b ts) (call : Call api) :
    Linked b (ts ++ [call.start]) := by
  obtain ⟨paid, hb, hts⟩ := h
  refine ⟨paid, hb, fun x hx => ?_⟩
  rcases List.mem_append.mp hx with hx | hx
  · exact hts x hx
  · rw [List.mem_singleton.mp hx]
    cases call <;> exact taskLinked_plain rfl rfl rfl

theorem linked_initial : Linked (Bridge.initial api) [.driverLoop .initial] := by
  refine ⟨[], ⟨rfl, fun _ h => ?_, fun _ _ h => ?_, fun _ h => ?_⟩, fun x hx =>
    taskLinked_one (taskLinked_plain rfl rfl rfl) hx⟩
  · cases h
  · cases h
  · cases h

end FiClient
