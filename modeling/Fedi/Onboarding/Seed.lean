import Fedi.Onboarding.Device

/-!
# The seed of a device

A seed that is committed stays, with its device index and the identifier of the handset
(`seed_final`).  The identifier is always one that was sealed with the seed, so reading it back
never fails; a bridge is full only on the handset whose identifier was sealed, and elsewhere it
is offboarding once it has been loaded.  Of the panics only the two for completing twice can be
reached (`full_on_own_handset`).
-/

namespace Onboarding

open DeviceRegistration Tasks

/-! ## What stays -/

section
variable {Mnemonic Social : Type}

/-- Seed, index, identifier and how they came about. -/
def AppStateJsonOnboarded.committed (state : AppStateJsonOnboarded Mnemonic Social) :
    Mnemonic × ℕ × List Char × Option OnboardingMethod :=
  (state.rootMnemonic, state.deviceIndex, state.encryptedDeviceIdentifierV2, state.onboardingMethod)

/-- What is committed, if anything. -/
def AppStateJson.committed : AppStateJson Mnemonic Social → Option (Mnemonic × ℕ × List Char × Option OnboardingMethod)
  | .onboarded state => some state.committed
  | .onboarding _ => none

@[simp] theorem committed_onboarded (state : AppStateJsonOnboarded Mnemonic Social) :
    (AppStateJson.onboarded state).committed = some state.committed := rfl

@[simp] theorem committed_onboarding (stage : OnboardingStage Mnemonic Social) :
    (AppStateJson.onboarding stage).committed = none := rfl

theorem committed_eq_none {a : AppStateJson Mnemonic Social} : a.committed = none ↔ ∃ stage, a = .onboarding stage := by
  cases a with
  | onboarded state => simp
  | onboarding stage => simp

end

section
variable {Mnemonic Social Secret Nonce : Type} (S : Sealing Secret Nonce) (toRootSecret : Mnemonic → Secret)

/-- Some handset's identifier, sealed with the seed. -/
def SealedFor (rootMnemonic : Mnemonic) (encryptedDeviceIdentifier : List Char) : Prop :=
  ∃ identity nonce, encryptedDeviceIdentifier = sealIdentity S toRootSecret identity rootMnemonic nonce

def OnboardingStage.Sealed : OnboardingStage Mnemonic Social → Prop
  | .deviceIndexSelection rootMnemonic _ encryptedDeviceIdentifier =>
    SealedFor S toRootSecret rootMnemonic encryptedDeviceIdentifier
  | _ => True

def AppStateJson.Sealed : AppStateJson Mnemonic Social → Prop
  | .onboarded state => SealedFor S toRootSecret state.rootMnemonic state.encryptedDeviceIdentifierV2
  | .onboarding stage => stage.Sealed S toRootSecret

/-- The committed identifier, read back. -/
def AppStateJson.Opens (existing : DeviceIdentifier) (a : AppStateJson Mnemonic Social) : Prop :=
  ∃ rootMnemonic deviceIndex encrypted method, a.committed = some (rootMnemonic, deviceIndex, encrypted, method) ∧
    fromEncryptedString S encrypted (toRootSecret rootMnemonic) = .ok existing

def Panic.Doubled (p : Panic) : Prop := p = .duplicateCall ∨ p = .alreadyCompleted

/-- A bridge that has been loaded on a handset. -/
structure Loaded (identity : Identity) (s : System Mnemonic Social) (bridge : BridgeState) : Prop where
  store : s.store = false
  opened : bridge ≠ .onboarding
  full : bridge = .full → s.appState.Opens S toRootSecret identity.val
  elsewhere : ∀ existing, s.appState.Opens S toRootSecret existing → existing ≠ identity.val →
    bridge = .offboarding (.deviceIdentifierMismatch existing identity.val)

/-- The seed is committed, and the bridge is being loaded. -/
def Task.Loads : Task Mnemonic Social → Prop
  | .loading | .settling _ => True
  | _ => False

def Task.Fits (identity : Identity) (s : System Mnemonic Social) : Task Mnemonic Social → Prop
  | .loading => s.store = false
  | .settling bridge => Loaded S toRootSecret identity s bridge
  | _ => True

structure Sound (identity : Identity) (earlier : Option (Mnemonic × ℕ × List Char × Option OnboardingMethod))
    (s : System Mnemonic Social) (tasks : List (Task Mnemonic Social)) : Prop where
  sealed : s.appState.Sealed S toRootSecret
  store : s.store = true ↔ s.appState.committed = none
  bridge : s.bridge ≠ .onboarding → Loaded S toRootSecret identity s s.bridge
  tasks : ∀ t ∈ tasks, t.Fits S toRootSecret identity s
  panics : ∀ p ∈ s.panics, p.Doubled
  kept : ∀ c, earlier = some c → s.appState.committed = some c

end

/-! ## Sealing -/

section
variable {Mnemonic Social Secret Nonce : Type} {S : Sealing Secret Nonce} {toRootSecret : Mnemonic → Secret}
  {identity : Identity}

theorem fromEncryptedString_sealIdentity (identity : Identity) (rootMnemonic : Mnemonic) (nonce : Nonce) :
    fromEncryptedString S (sealIdentity S toRootSecret identity rootMnemonic nonce) (toRootSecret rootMnemonic) =
      .ok identity.val := by
  obtain ⟨s, sent, haccepted, htrimmed, hparsed⟩ := identity.property
  exact fromEncryptedString_encryptAndHexEncode S haccepted htrimmed hparsed _ nonce

theorem opens_onboarded {state : AppStateJsonOnboarded Mnemonic Social} {existing : DeviceIdentifier} :
    (AppStateJson.onboarded state).Opens S toRootSecret existing ↔
      fromEncryptedString S state.encryptedDeviceIdentifierV2 (toRootSecret state.rootMnemonic) = .ok existing := by
  constructor
  · rintro ⟨m, index, encrypted, method, hcommitted, hopen⟩
    rw [committed_onboarded, Option.some.injEq] at hcommitted
    unfold AppStateJsonOnboarded.committed at hcommitted
    simp only [Prod.mk.injEq] at hcommitted
    obtain ⟨rfl, -, rfl, -⟩ := hcommitted
    exact hopen
  · exact fun hopen => ⟨_, _, _, _, rfl, hopen⟩

/-- The identifier can be read back, and a bridge is full on its handset only. -/
theorem bridgeFull_of_sealed {state : AppStateJsonOnboarded Mnemonic Social}
    (h : SealedFor S toRootSecret state.rootMnemonic state.encryptedDeviceIdentifierV2) :
    ∃ bridge, bridgeFull S toRootSecret identity state = .ok bridge ∧
      ∀ s : System Mnemonic Social, s.appState = .onboarded state → s.store = false →
        Loaded S toRootSecret identity s bridge := by
  obtain ⟨sealer, nonce, hsealed⟩ := h
  have hopen := @fromEncryptedString_sealIdentity _ _ _ S toRootSecret sealer state.rootMnemonic nonce
  rw [← hsealed] at hopen
  have hunique : ∀ existing, (AppStateJson.onboarded state).Opens S toRootSecret existing → existing = sealer.val := by
    intro existing hexisting
    rw [opens_onboarded, hopen] at hexisting
    exact (Except.ok.inj hexisting).symm
  unfold bridgeFull
  rw [hopen]
  dsimp only
  by_cases hmismatch : sealer.val = identity.val
  · -- no other identifier was sealed
    have hhere : ∀ {existing : DeviceIdentifier} {Q : Prop}, (AppStateJson.onboarded state).Opens S toRootSecret existing →
        existing ≠ identity.val → Q :=
      fun hexisting hne => absurd ((hunique _ hexisting).trans hmismatch) hne
    rw [if_neg (not_not_intro hmismatch)]
    split_ifs
    · exact ⟨_, rfl, fun s happ hstore => ⟨hstore, BridgeState.noConfusion, fun hfull => BridgeState.noConfusion hfull,
        fun _ hexisting => hhere (happ ▸ hexisting)⟩⟩
    · exact ⟨_, rfl, fun s happ hstore => ⟨hstore, BridgeState.noConfusion, fun hfull => BridgeState.noConfusion hfull,
        fun _ hexisting => hhere (happ ▸ hexisting)⟩⟩
    · refine ⟨_, rfl, fun s happ hstore => ⟨hstore, BridgeState.noConfusion, fun _ => ?_,
        fun _ hexisting => hhere (happ ▸ hexisting)⟩⟩
      rw [happ, opens_onboarded, hopen, hmismatch]
  · rw [if_pos hmismatch]
    refine ⟨_, rfl, fun s happ hstore => ⟨hstore, BridgeState.noConfusion, fun hfull => BridgeState.noConfusion hfull, ?_⟩⟩
    intro existing hexisting _
    rw [happ] at hexisting
    rw [hunique existing hexisting]

theorem sealed_restoreMnemonic {rootMnemonic : Mnemonic} {nonce : Nonce} {stage stage' : OnboardingStage Mnemonic Social}
    (h : restoreMnemonic S toRootSecret identity rootMnemonic nonce stage = some stage') :
    stage'.Sealed S toRootSecret := by
  cases stage with
  | init =>
    cases h
    exact ⟨identity, nonce, rfl⟩
  | socialRecovery state =>
    cases h
    exact ⟨identity, nonce, rfl⟩
  | deviceIndexSelection m social encrypted => cases h

theorem sealed_completeOnboarding {method : OnboardingCompletionMethod} {drawn : Mnemonic} {nonce : Nonce}
    {stage : OnboardingStage Mnemonic Social} {state : AppStateJsonOnboarded Mnemonic Social}
    (hstage : stage.Sealed S toRootSecret)
    (h : completeOnboarding S toRootSecret identity method drawn nonce stage = some state) :
    SealedFor S toRootSecret state.rootMnemonic state.encryptedDeviceIdentifierV2 := by
  cases stage with
  | init =>
    cases method with
    | newSeed =>
      cases h
      exact ⟨identity, nonce, rfl⟩
    | gotDeviceIndex index => cases h
  | socialRecovery social => cases h
  | deviceIndexSelection m social encrypted =>
    cases method with
    | newSeed => cases h
    | gotDeviceIndex index =>
      cases h
      exact hstage

end

/-! ## Steps -/

section
variable {Mnemonic Social Secret Nonce : Type} {S : Sealing Secret Nonce} {toRootSecret : Mnemonic → Secret}
  {identity : Identity} {earlier : Option (Mnemonic × ℕ × List Char × Option OnboardingMethod)}
  {s s' : System Mnemonic Social} {before after : List (Task Mnemonic Social)} {task : Task Mnemonic Social}

theorem AppStateJson.Opens.congr {a a' : AppStateJson Mnemonic Social} {existing : DeviceIdentifier}
    (h : a.Opens S toRootSecret existing) (hcommitted : a'.committed = a.committed) :
    a'.Opens S toRootSecret existing := by
  obtain ⟨m, index, encrypted, method, hc, hopen⟩ := h
  exact ⟨m, index, encrypted, method, hcommitted.trans hc, hopen⟩

theorem Loaded.frame {bridge : BridgeState} (h : Loaded S toRootSecret identity s bridge) (hstore : s'.store = false)
    (hcommitted : s'.appState.committed = s.appState.committed) : Loaded S toRootSecret identity s' bridge where
  store := hstore
  opened := h.opened
  full hfull := (h.full hfull).congr hcommitted
  elsewhere existing hexisting := h.elsewhere existing (hexisting.congr hcommitted.symm)

/-- What other RPCs rely on. -/
theorem Task.Fits.frame {t : Task Mnemonic Social} (h : t.Fits S toRootSecret identity s)
    (hstore : s.store = false → s'.store = false)
    (hcommitted : s.store = false → s'.appState.committed = s.appState.committed) :
    t.Fits S toRootSecret identity s' := by
  cases t with
  | loading => exact hstore h
  | settling bridge => exact Loaded.frame h (hstore h.store) (hcommitted h.store)
  | _ => trivial

theorem Sound.tasks_next (h : Sound S toRootSecret identity earlier s (before ++ task :: after))
    (hstore : s.store = false → s'.store = false)
    (hcommitted : s.store = false → s'.appState.committed = s.appState.committed) {next : List (Task Mnemonic Social)}
    (hnext : ∀ t ∈ next, t.Fits S toRootSecret identity s') :
    ∀ t ∈ before ++ next ++ after, t.Fits S toRootSecret identity s' := by
  refine forall_next_iff.mpr ⟨hnext, ?_⟩
  intro t ht
  exact ((forall_task_iff.mp h.tasks).2 t ht).frame hstore hcommitted

/-- A step that writes neither `AppState` nor the store. -/
theorem Sound.same (h : Sound S toRootSecret identity earlier s (before ++ task :: after)) (happ : s'.appState = s.appState)
    (hstore : s'.store = s.store) (hbridge : s'.bridge = s.bridge) (hpanics : ∀ p ∈ s'.panics, p.Doubled)
    {next : List (Task Mnemonic Social)} (hnext : ∀ t ∈ next, t.Fits S toRootSecret identity s') :
    Sound S toRootSecret identity earlier s' (before ++ next ++ after) := by
  refine ⟨?_, ?_, ?_, ?_, hpanics, happ ▸ h.kept⟩
  · rw [happ]
    exact h.sealed
  · rw [happ, hstore]
    exact h.store
  · rw [hbridge]
    intro hopened
    have hloaded := h.bridge hopened
    refine hloaded.frame ?_ ?_
    · rw [hstore]
      exact hloaded.store
    · rw [happ]
  · apply h.tasks_next _ _ hnext
    · rw [hstore]
      exact id
    · rw [happ]
      exact fun _ => rfl

/-- Nothing is committed while the store is there. -/
theorem Sound.kept_of_store {tasks : List (Task Mnemonic Social)} (h : Sound S toRootSecret identity earlier s tasks)
    (hstore : s.store = true) {a : AppStateJson Mnemonic Social} : ∀ c, earlier = some c → a.committed = some c := by
  intro c hc
  have hkept := h.kept c hc
  rw [h.store.mp hstore] at hkept
  cases hkept

theorem Sound.store_of_onboarded {tasks : List (Task Mnemonic Social)} (h : Sound S toRootSecret identity earlier s tasks)
    {state : AppStateJsonOnboarded Mnemonic Social} (honboarded : s.appState = .onboarded state) : ¬ s.store = true := by
  intro hstore
  have hnone := h.store.mp hstore
  rw [honboarded] at hnone
  cases hnone

theorem Sound.onboarded_of_gone {tasks : List (Task Mnemonic Social)} (h : Sound S toRootSecret identity earlier s tasks)
    (hgone : s.store = false) : ∃ state, s.appState = .onboarded state := by
  cases happ : s.appState with
  | onboarded state => exact ⟨state, rfl⟩
  | onboarding stage =>
    have hstore := h.store.mpr (by rw [happ]; rfl)
    rw [hgone] at hstore
    cases hstore

theorem fits_nil : ∀ t ∈ ([] : List (Task Mnemonic Social)), t.Fits S toRootSecret identity s :=
  fun _ ht => absurd ht List.not_mem_nil

theorem fits_single {t : Task Mnemonic Social} (h : t.Fits S toRootSecret identity s) :
    ∀ t' ∈ [t], t'.Fits S toRootSecret identity s := by
  intro t' ht'
  rw [List.mem_singleton.mp ht']
  exact h

theorem doubled_snoc {p : Panic} (h : ∀ q ∈ s.panics, q.Doubled) (hp : p.Doubled) :
    ∀ q ∈ (s.panic p).panics, q.Doubled := by
  intro q hq
  rcases List.mem_append.mp hq with hq | hq
  · exact h q hq
  · rw [List.mem_singleton.mp hq]
    exact hp

theorem Sound.lockStore (h : Sound S toRootSecret identity earlier s (before ++ task :: after))
    {f : System Mnemonic Social → System Mnemonic Social × List (Task Mnemonic Social)}
    (hf : s.store = true → Sound S toRootSecret identity earlier (f s).1 (before ++ (f s).2 ++ after)) :
    Sound S toRootSecret identity earlier (s.lockStore task f).1 (before ++ (s.lockStore task f).2 ++ after) := by
  unfold System.lockStore
  split_ifs with hlocked hstore
  · exact h.same rfl rfl rfl h.panics (fits_single (forall_task_iff.mp h.tasks).1)
  · exact hf hstore
  · exact h.same rfl rfl rfl h.panics fits_nil

theorem Sound.writeStage (h : Sound S toRootSecret identity earlier s (before ++ task :: after)) (hstore : s.store = true)
    {closure : OnboardingStage Mnemonic Social → Option (OnboardingStage Mnemonic Social)}
    (hclosure : ∀ stage stage', closure stage = some stage' → stage'.Sealed S toRootSecret) :
    Sound S toRootSecret identity earlier (s.writeStage closure) (before ++ [] ++ after) := by
  obtain ⟨stage, hstage⟩ := committed_eq_none.mp (h.store.mp hstore)
  unfold System.writeStage
  rw [hstage]
  dsimp only
  split
  · exact h.same rfl rfl rfl h.panics fits_nil
  · rename_i stage' hwritten
    refine ⟨hclosure stage stage' hwritten, ?_, ?_, ?_, h.panics, h.kept_of_store hstore⟩
    · exact ⟨fun _ => rfl, fun _ => hstore⟩
    · intro hopened
      have hgone := (h.bridge hopened).store
      rw [hstore] at hgone
      cases hgone
    · apply h.tasks_next _ _ fits_nil
      · exact id
      · intro hgone
        rw [hstore] at hgone
        cases hgone

/-- The flags of a committed state. -/
theorem Sound.writeOnboarded (h : Sound S toRootSecret identity earlier s (before ++ task :: after))
    (hbridge : s.bridge ≠ .onboarding)
    {closure : AppStateJsonOnboarded Mnemonic Social → AppStateJsonOnboarded Mnemonic Social}
    (hclosure : ∀ state, (closure state).committed = state.committed) :
    Sound S toRootSecret identity earlier (s.writeOnboarded closure) (before ++ [] ++ after) := by
  have hloaded := h.bridge hbridge
  have hgone := hloaded.store
  obtain ⟨state, happ⟩ := h.onboarded_of_gone hgone
  unfold System.writeOnboarded
  rw [happ]
  dsimp only
  have hsame : (AppStateJson.onboarded (closure state)).committed = s.appState.committed := by
    rw [happ, committed_onboarded, committed_onboarded, hclosure]
  have hkept := hclosure state
  unfold AppStateJsonOnboarded.committed at hkept
  simp only [Prod.mk.injEq] at hkept
  obtain ⟨hm, -, hencrypted, -⟩ := hkept
  refine ⟨?_, ?_, ?_, ?_, h.panics, fun c hc => hsame.trans (h.kept c hc)⟩
  · have hsealed := h.sealed
    rw [happ] at hsealed
    show SealedFor S toRootSecret _ _
    rw [hm, hencrypted]
    exact hsealed
  · show s.store = true ↔ (AppStateJson.onboarded (closure state)).committed = none
    rw [hsame]
    exact h.store
  · exact fun _ => hloaded.frame hgone hsame
  · refine h.tasks_next ?_ ?_ fits_nil
    · exact id
    · exact fun _ => hsame

/-- The store that is taken out goes into the committed `AppState`. -/
theorem Sound.take {method : OnboardingCompletionMethod} (input : Input Mnemonic Social Nonce)
    (h : Sound S toRootSecret identity earlier s (before ++ .taking method :: after)) :
    Sound S toRootSecret identity earlier (take S toRootSecret identity s method input).1
      (before ++ (take S toRootSecret identity s method input).2 ++ after) := by
  unfold Onboarding.take
  split_ifs with hlocked hgone
  · exact h.same rfl rfl rfl h.panics (fits_single trivial)
  · refine h.same ?_ ?_ ?_ (doubled_snoc h.panics (.inl rfl)) fits_nil
    · rfl
    · rfl
    · rfl
  · have hstore : s.store = true := by simpa using hgone
    obtain ⟨stage, hstage⟩ := committed_eq_none.mp (h.store.mp hstore)
    rw [hstage]
    dsimp only
    split
    · exact h.same rfl rfl rfl h.panics fits_nil
    · rename_i state hcomplete
      have hsealed : stage.Sealed S toRootSecret := by
        have hs := h.sealed
        rw [hstage] at hs
        exact hs
      refine ⟨sealed_completeOnboarding hsealed hcomplete, ?_, ?_, ?_, h.panics, h.kept_of_store hstore⟩
      · exact ⟨fun hfalse => absurd hfalse Bool.false_ne_true, fun hnone => absurd hnone (Option.some_ne_none _)⟩
      · exact fun hopened => absurd (h.bridge hopened).store hgone
      · refine h.tasks_next ?_ ?_ (fits_single rfl)
        · exact fun _ => rfl
        · exact fun hfalse => absurd hfalse hgone

/-- A step that takes or gives back the mutex, or has an index registered. -/
theorem Sound.relock (h : Sound S toRootSecret identity earlier s (before ++ task :: after)) (locked : Bool)
    (registered : List (Mnemonic × ℕ × List Char)) {next : List (Task Mnemonic Social)}
    (hnext : ∀ t ∈ next, t.Fits S toRootSecret identity s) :
    Sound S toRootSecret identity earlier { s with locked := locked, registered := registered } (before ++ next ++ after) := by
  refine h.same ?_ ?_ ?_ ?_ ?_
  · rfl
  · rfl
  · rfl
  · exact h.panics
  · intro t ht
    exact (hnext t ht).frame (fun hs => hs) fun _ => rfl

/-- The load of a committed seed succeeds, and its outcome is settled next. -/
theorem Sound.loads (h : Sound S toRootSecret identity earlier s (before ++ .loading :: after)) :
    ∃ bridge, finishLoading S toRootSecret identity s = ({ s with locked := false }, [.settling bridge]) ∧
      Loaded S toRootSecret identity s bridge := by
  have hgone : s.store = false := (forall_task_iff.mp h.tasks).1
  obtain ⟨state, happ⟩ := h.onboarded_of_gone hgone
  have hsealed := h.sealed
  rw [happ] at hsealed
  obtain ⟨bridge, hbridge, hloaded⟩ := @bridgeFull_of_sealed _ _ _ _ S toRootSecret identity state hsealed
  refine ⟨bridge, ?_, hloaded s happ hgone⟩
  simp only [Onboarding.finishLoading, happ, hbridge]

theorem Sound.finishLoading (h : Sound S toRootSecret identity earlier s (before ++ .loading :: after)) :
    Sound S toRootSecret identity earlier (finishLoading S toRootSecret identity s).1
      (before ++ (finishLoading S toRootSecret identity s).2 ++ after) := by
  obtain ⟨bridge, hload, hloaded⟩ := h.loads
  rw [hload]
  exact h.relock false s.registered (fits_single hloaded)

theorem Sound.settle {bridge : BridgeState} (h : Sound S toRootSecret identity earlier s (before ++ .settling bridge :: after)) :
    Sound S toRootSecret identity earlier { s with bridge := bridge } (before ++ [] ++ after) := by
  have hloaded : Loaded S toRootSecret identity s bridge := (forall_task_iff.mp h.tasks).1
  refine ⟨h.sealed, h.store, fun _ => hloaded.frame hloaded.store rfl, ?_, h.panics, h.kept⟩
  refine h.tasks_next ?_ ?_ fits_nil
  · exact id
  · exact fun _ => rfl

theorem Sound.call {tasks : List (Task Mnemonic Social)} (c : Call Mnemonic) (h : Sound S toRootSecret identity earlier s tasks) :
    Sound S toRootSecret identity earlier s (tasks ++ [start c]) := by
  refine ⟨h.sealed, h.store, h.bridge, ?_, h.panics, h.kept⟩
  intro t ht
  rcases List.mem_append.mp ht with ht | ht
  · exact h.tasks t ht
  · rw [List.mem_singleton.mp ht]
    cases c with
    | onboardRegisterAsNewDevice index => cases index <;> trivial
    | _ => trivial

theorem Sound.run (input : Input Mnemonic Social Nonce) (h : Sound S toRootSecret identity earlier s (before ++ task :: after)) :
    Sound S toRootSecret identity earlier (run S toRootSecret identity s task input).1
      (before ++ (run S toRootSecret identity s task input).2 ++ after) := by
  cases task with
  | restoring rootMnemonic =>
    exact h.lockStore fun hstore => h.writeStage hstore fun _ _ hstage => sealed_restoreMnemonic hstage
  | resetting =>
    refine h.lockStore fun hstore => h.writeStage hstore fun stage stage' hstage => ?_
    cases stage <;> cases hstage
    trivial
  | uploading =>
    show Sound S toRootSecret identity earlier s (before ++ (if _ then _ else _) ++ after)
    split_ifs
    · exact h.same rfl rfl rfl h.panics fits_nil
    · exact h.same rfl rfl rfl h.panics (fits_single trivial)
  | recordingSocialRecovery state =>
    refine h.lockStore fun hstore => h.writeStage hstore fun stage stage' hstage => ?_
    cases stage <;> cases hstage <;> trivial
  | continuing =>
    refine h.lockStore fun hstore => ?_
    split
    · exact h.same rfl rfl rfl h.panics (fits_single trivial)
    · exact h.same rfl rfl rfl h.panics fits_nil
    · rename_i state honboarded
      exact absurd hstore (h.store_of_onboarded honboarded)
  | approving state =>
    show Sound S toRootSecret identity earlier s (before ++ (if _ then _ else _) ++ after)
    split_ifs
    · exact h.same rfl rfl rfl h.panics fits_nil
    · exact h.same rfl rfl rfl h.panics (fits_single trivial)
  | recordingApprovals state =>
    refine h.lockStore fun hstore => h.writeStage hstore fun stage stage' hstage => ?_
    cases stage <;> cases hstage
    trivial
  | cancelling =>
    refine h.lockStore fun hstore => h.writeStage hstore fun stage stage' hstage => ?_
    cases stage <;> cases hstage
    trivial
  | combining =>
    refine h.lockStore fun hstore => ?_
    split
    · split_ifs
      · exact h.same rfl rfl rfl h.panics fits_nil
      · exact h.same rfl rfl rfl h.panics (fits_single trivial)
    · exact h.same rfl rfl rfl h.panics fits_nil
    · rename_i state honboarded
      exact absurd hstore (h.store_of_onboarded honboarded)
  | choosing =>
    refine h.lockStore fun hstore => ?_
    split
    · exact h.relock true s.registered (fits_single trivial)
    · exact h.same rfl rfl rfl h.panics fits_nil
    · rename_i state honboarded
      exact absurd hstore (h.store_of_onboarded honboarded)
  | fetching =>
    show Sound S toRootSecret identity earlier { s with locked := false } (before ++ (if _ then _ else _) ++ after)
    split_ifs
    · exact h.relock false s.registered fits_nil
    · exact h.relock false s.registered (fits_single trivial)
  | registering index forceOverwrite =>
    refine h.lockStore fun hstore => ?_
    split
    · exact h.relock true s.registered (fits_single trivial)
    · exact h.same rfl rfl rfl h.panics fits_nil
    · rename_i state honboarded
      exact absurd hstore (h.store_of_onboarded honboarded)
  | retrying index forceOverwrite m encrypted =>
    show Sound S toRootSecret identity earlier (register s index m encrypted input.fails).1
      (before ++ (register s index m encrypted input.fails).2 ++ after)
    unfold register
    split_ifs
    · exact h.relock false s.registered fits_nil
    · exact h.relock false _ (fits_single trivial)
  | completing method =>
    unfold Onboarding.run
    dsimp only
    split
    · exact h.same rfl rfl rfl h.panics (fits_single trivial)
    · refine h.same ?_ ?_ ?_ (doubled_snoc h.panics (.inr rfl)) fits_nil
      · rfl
      · rfl
      · rfl
  | taking method => exact h.take input
  | loading => exact h.finishLoading
  | settling bridge => exact h.settle
  | settingDeviceIndexConflict value =>
    unfold Onboarding.run
    dsimp only
    split_ifs with hfull
    · exact h.writeOnboarded (by rw [hfull]; exact BridgeState.noConfusion) fun _ => rfl
    · exact h.same rfl rfl rfl h.panics fits_nil
  | settingInternalBridgeExport enabled =>
    unfold Onboarding.run
    dsimp only
    split_ifs with hopen
    · exact h.same rfl rfl rfl h.panics fits_nil
    · exact h.writeOnboarded hopen fun _ => rfl

end

/-! ### Loads in flight -/

section
variable {Mnemonic Social Secret Nonce : Type} {S : Sealing Secret Nonce} {toRootSecret : Mnemonic → Secret}
  {identity : Identity} {earlier : Option (Mnemonic × ℕ × List Char × Option OnboardingMethod)}
  {s s' : System Mnemonic Social} {before after : List (Task Mnemonic Social)} {task : Task Mnemonic Social}

/-- While a bridge with a committed seed is still onboarding, an RPC loads it. -/
def Loading (s : System Mnemonic Social) (tasks : List (Task Mnemonic Social)) : Prop :=
  s.store = false → s.bridge = .onboarding → ∃ t ∈ tasks, t.Loads

/-- A step that neither commits nor loads. -/
def System.Alike (s s' : System Mnemonic Social) : Prop := s'.store = s.store ∧ s'.bridge = s.bridge

theorem alike_lockStore {f : System Mnemonic Social → System Mnemonic Social × List (Task Mnemonic Social)}
    (hf : s.Alike (f s).1) : s.Alike (s.lockStore task f).1 := by
  unfold System.lockStore
  split_ifs
  · exact ⟨rfl, rfl⟩
  · exact hf
  · exact ⟨rfl, rfl⟩

theorem alike_writeStage {closure : OnboardingStage Mnemonic Social → Option (OnboardingStage Mnemonic Social)} :
    s.Alike (s.writeStage closure) := by
  unfold System.writeStage
  split
  · exact ⟨rfl, rfl⟩
  · split
    · exact ⟨rfl, rfl⟩
    · exact ⟨rfl, rfl⟩

theorem alike_writeOnboarded {closure : AppStateJsonOnboarded Mnemonic Social → AppStateJsonOnboarded Mnemonic Social} :
    s.Alike (s.writeOnboarded closure) := by
  unfold System.writeOnboarded
  split
  · exact ⟨rfl, rfl⟩
  · exact ⟨rfl, rfl⟩

theorem alike_run (input : Input Mnemonic Social Nonce) (hloads : ¬ task.Loads) (htaking : ∀ method, task ≠ .taking method) :
    s.Alike (run S toRootSecret identity s task input).1 := by
  cases task with
  | restoring rootMnemonic => exact alike_lockStore alike_writeStage
  | resetting => exact alike_lockStore alike_writeStage
  | uploading => exact ⟨rfl, rfl⟩
  | recordingSocialRecovery state => exact alike_lockStore alike_writeStage
  | continuing =>
    refine alike_lockStore ?_
    split
    · exact ⟨rfl, rfl⟩
    · exact ⟨rfl, rfl⟩
    · exact ⟨rfl, rfl⟩
  | approving state => exact ⟨rfl, rfl⟩
  | recordingApprovals state => exact alike_lockStore alike_writeStage
  | cancelling => exact alike_lockStore alike_writeStage
  | combining =>
    refine alike_lockStore ?_
    split
    · exact ⟨rfl, rfl⟩
    · exact ⟨rfl, rfl⟩
    · exact ⟨rfl, rfl⟩
  | choosing =>
    refine alike_lockStore ?_
    split
    · exact ⟨rfl, rfl⟩
    · exact ⟨rfl, rfl⟩
    · exact ⟨rfl, rfl⟩
  | fetching => exact ⟨rfl, rfl⟩
  | registering index forceOverwrite =>
    refine alike_lockStore ?_
    split
    · exact ⟨rfl, rfl⟩
    · exact ⟨rfl, rfl⟩
    · exact ⟨rfl, rfl⟩
  | retrying index forceOverwrite m encrypted =>
    show s.Alike (register s index m encrypted input.fails).1
    unfold register
    split_ifs
    · exact ⟨rfl, rfl⟩
    · exact ⟨rfl, rfl⟩
  | completing method =>
    unfold run
    dsimp only
    split
    · exact ⟨rfl, rfl⟩
    · exact ⟨rfl, rfl⟩
  | taking method => exact absurd rfl (htaking method)
  | loading => exact absurd trivial hloads
  | settling bridge => exact absurd trivial hloads
  | settingDeviceIndexConflict value =>
    unfold run
    dsimp only
    split_ifs
    · exact alike_writeOnboarded
    · exact ⟨rfl, rfl⟩
  | settingInternalBridgeExport enabled =>
    unfold run
    dsimp only
    split_ifs
    · exact ⟨rfl, rfl⟩
    · exact alike_writeOnboarded

theorem Loading.run (input : Input Mnemonic Social Nonce) (hsound : Sound S toRootSecret identity earlier s (before ++ task :: after))
    (h : Loading s (before ++ task :: after)) :
    Loading (run S toRootSecret identity s task input).1 (before ++ (run S toRootSecret identity s task input).2 ++ after) := by
  by_cases hloads : task.Loads
  · cases task with
    | loading =>
      obtain ⟨bridge, hload, -⟩ := hsound.loads
      intro _ _
      refine exists_next_iff.mpr (.inl ⟨.settling bridge, ?_, trivial⟩)
      show _ ∈ (finishLoading S toRootSecret identity s).2
      rw [hload]
      exact List.mem_singleton_self _
    | settling bridge =>
      have hloaded : Loaded S toRootSecret identity s bridge := (forall_task_iff.mp hsound.tasks).1
      exact fun _ honboarding => absurd honboarding hloaded.opened
    | _ => exact hloads.elim
  · have hothers : s.store = false → s.bridge = .onboarding → ∃ t ∈ before ++ after, t.Loads := by
      intro hstore hbridge
      exact (exists_task_iff.mp (h hstore hbridge)).resolve_left hloads
    have hsame : ∀ next : List (Task Mnemonic Social), Loading s (before ++ next ++ after) :=
      fun _ hstore hbridge => exists_next_iff.mpr (.inr (hothers hstore hbridge))
    by_cases htaking : ∃ method, task = .taking method
    · obtain ⟨method, rfl⟩ := htaking
      show Loading (Onboarding.take S toRootSecret identity s method input).1
        (before ++ (Onboarding.take S toRootSecret identity s method input).2 ++ after)
      unfold Onboarding.take
      split_ifs
      · exact hsame _
      · exact hsame _
      · split
        · rename_i hgone _ state honboarded
          exact absurd (by simpa using hgone) (hsound.store_of_onboarded honboarded)
        · split
          · exact hsame _
          · exact fun _ _ => exists_next_iff.mpr (.inl ⟨.loading, List.mem_singleton_self _, trivial⟩)
    · have hother : ∀ method, task ≠ .taking method := fun method heq => htaking ⟨method, heq⟩
      obtain ⟨hkept, hbridge⟩ := @alike_run _ _ _ _ S toRootSecret identity s task input hloads hother
      intro hstore honboarding
      rw [hkept] at hstore
      rw [hbridge] at honboarding
      exact hsame _ hstore honboarding

end

/-! ## Launches -/

section
variable {Mnemonic Social Secret Nonce : Type} {S : Sealing Secret Nonce} {toRootSecret : Mnemonic → Secret}

/-- What the first version has left was sealed with its seed. -/
def AppStateJsonV0.Sealed (S : Sealing Secret Nonce) (toRootSecret : Mnemonic → Secret)
    (value : AppStateJsonV0 Mnemonic Social) : Prop :=
  ∀ encrypted, value.encryptedDeviceIdentifierV2 = some encrypted → SealedFor S toRootSecret value.rootMnemonic encrypted

structure Persisted.Sealed (S : Sealing Secret Nonce) (toRootSecret : Mnemonic → Secret) (p : Persisted Mnemonic Social) :
    Prop where
  db : ∀ a, p.db = some a → a.Sealed S toRootSecret
  v0 : ∀ value, p.v0 = some value → value.Sealed S toRootSecret

theorem sealed_fromV0 {value : AppStateJsonV0 Mnemonic Social} (h : value.Sealed S toRootSecret) (identity : Identity)
    (nonce : Nonce) : (fromV0 S toRootSecret identity value nonce).Sealed S toRootSecret := by
  unfold fromV0
  dsimp only
  split
  · rename_i index social hcommitted hindex
    show SealedFor S toRootSecret value.rootMnemonic _
    cases hencrypted : value.encryptedDeviceIdentifierV2 with
    | none => exact ⟨identity, nonce, rfl⟩
    | some encrypted => exact h encrypted hencrypted
  · trivial
  · trivial
  · exact ⟨identity, nonce, rfl⟩

theorem sealed_load {p : Persisted Mnemonic Social} (h : p.Sealed S toRootSecret) (identity : Identity) (nonce : Nonce) :
    (load S toRootSecret identity p.db p.v0 nonce).Sealed S toRootSecret := by
  unfold load
  split
  · rename_i a hdb
    exact h.db a hdb
  · split
    · rename_i value hv0
      exact sealed_fromV0 (h.v0 value hv0) identity nonce
    · trivial

theorem sound_bridgeNew {a : AppStateJson Mnemonic Social} (h : a.Sealed S toRootSecret) (identity : Identity)
    (registered : List (Mnemonic × ℕ × List Char)) :
    Sound S toRootSecret identity a.committed (bridgeNew S toRootSecret identity a registered) [] := by
  have hnone : ∀ p ∈ ([] : List Panic), p.Doubled := fun _ hp => absurd hp List.not_mem_nil
  unfold bridgeNew
  split
  · rename_i stage
    exact ⟨h, by simp, fun hopen => absurd rfl hopen, fits_nil, hnone, fun _ hc => hc⟩
  · rename_i state
    obtain ⟨bridge, hbridge, hloaded⟩ := @bridgeFull_of_sealed _ _ _ _ S toRootSecret identity state h
    rw [hbridge]
    exact ⟨h, by simp, fun _ => hloaded _ rfl rfl, fits_nil, hnone, fun _ hc => hc⟩

theorem loading_bridgeNew {a : AppStateJson Mnemonic Social} (h : a.Sealed S toRootSecret) (identity : Identity)
    (registered : List (Mnemonic × ℕ × List Char)) : Loading (bridgeNew S toRootSecret identity a registered) [] := by
  unfold bridgeNew
  split
  · exact fun hstore => absurd hstore Bool.noConfusion
  · rename_i state
    obtain ⟨bridge, hbridge, hloaded⟩ := @bridgeFull_of_sealed _ _ _ _ S toRootSecret identity state h
    rw [hbridge]
    exact fun hstore honboarding => absurd honboarding (hloaded ⟨.onboarded state, bridge, false, false, [], registered⟩ rfl rfl).opened

/-- From any moment of a launch on. -/
theorem sound_pool {identity : Identity} {earlier : Option (Mnemonic × ℕ × List Char × Option OnboardingMethod)}
    {device : Pool (System Mnemonic Social) (Task Mnemonic Social)}
    (h : Sound S toRootSecret identity earlier device.state device.tasks) (hloading : Loading device.state device.tasks)
    (es : List (Event (Call Mnemonic) (Input Mnemonic Social Nonce))) :
    Sound S toRootSecret identity earlier (pool start (run S toRootSecret identity) device es).state
        (pool start (run S toRootSecret identity) device es).tasks ∧
      Loading (pool start (run S toRootSecret identity) device es).state
        (pool start (run S toRootSecret identity) device es).tasks := by
  apply pool_invariant (I := fun s tasks => Sound S toRootSecret identity earlier s tasks ∧ Loading s tasks) ⟨h, hloading⟩
  · rintro s tasks c ⟨hinv, hload⟩
    refine ⟨hinv.call c, fun hstore hbridge => ?_⟩
    obtain ⟨t, ht, hloads⟩ := hload hstore hbridge
    exact ⟨t, List.mem_append_left _ ht, hloads⟩
  · exact fun _ _ _ _ input hinv => ⟨hinv.1.run input, hinv.2.run input hinv.1⟩

theorem sound_launch {p : Persisted Mnemonic Social} (h : p.Sealed S toRootSecret) (l : Launch Mnemonic Social Nonce) :
    Sound S toRootSecret l.identity (load S toRootSecret l.identity p.db p.v0 l.nonce).committed
        (launch S toRootSecret p l).state (launch S toRootSecret p l).tasks ∧
      Loading (launch S toRootSecret p l).state (launch S toRootSecret p l).tasks :=
  sound_pool (sound_bridgeNew (sealed_load h l.identity l.nonce) l.identity p.registered)
    (loading_bridgeNew (sealed_load h l.identity l.nonce) l.identity p.registered) l.events

theorem sealed_launches {p : Persisted Mnemonic Social} (h : p.Sealed S toRootSecret)
    (ls : List (Launch Mnemonic Social Nonce)) : (launches S toRootSecret p ls).Sealed S toRootSecret := by
  induction ls generalizing p with
  | nil => exact h
  | cons l ls ih =>
    apply ih
    refine ⟨?_, h.v0⟩
    intro a ha
    obtain rfl : (launch S toRootSecret p l).state.appState = a := Option.some.inj ha
    exact (sound_launch h l).1.sealed

theorem launches_append (p : Persisted Mnemonic Social) (ls ls' : List (Launch Mnemonic Social Nonce)) :
    launches S toRootSecret p (ls ++ ls') = launches S toRootSecret (launches S toRootSecret p ls) ls' :=
  List.foldl_append

theorem committed_launches {p : Persisted Mnemonic Social} (h : p.Sealed S toRootSecret)
    {c : Mnemonic × ℕ × List Char × Option OnboardingMethod} (hc : p.db.bind AppStateJson.committed = some c)
    (ls : List (Launch Mnemonic Social Nonce)) :
    (launches S toRootSecret p ls).db.bind AppStateJson.committed = some c := by
  induction ls generalizing p with
  | nil => exact hc
  | cons l ls ih =>
    apply ih (sealed_launches h [l])
    show (launch S toRootSecret p l).state.appState.committed = some c
    apply (sound_launch h l).1.kept
    obtain ⟨a, ha, hac⟩ := Option.bind_eq_some_iff.mp hc
    unfold load
    rw [ha]
    exact hac

/-- What is committed at a moment of a launch stays while the launch goes on. -/
theorem committed_within {p : Persisted Mnemonic Social} (h : p.Sealed S toRootSecret) (l : Launch Mnemonic Social Nonce)
    (es : List (Event (Call Mnemonic) (Input Mnemonic Social Nonce)))
    {c : Mnemonic × ℕ × List Char × Option OnboardingMethod}
    (hc : (launch S toRootSecret p l).state.appState.committed = some c) :
    (launch S toRootSecret p { l with events := l.events ++ es }).state.appState.committed = some c := by
  obtain ⟨hsound, hloading⟩ := sound_launch h l
  have hnow : Sound S toRootSecret l.identity (some c) (launch S toRootSecret p l).state (launch S toRootSecret p l).tasks :=
    ⟨hsound.sealed, hsound.store, hsound.bridge, hsound.tasks, hsound.panics, fun _ heq => heq ▸ hc⟩
  have hlater := (sound_pool hnow hloading es).1.kept c rfl
  have happend : launch S toRootSecret p { l with events := l.events ++ es } =
      pool start (run S toRootSecret l.identity) (launch S toRootSecret p l) es := List.foldl_append
  rw [happend]
  exact hlater

/-- A committed seed stays, with its device index, identifier and method: from the start, or from any moment of a
launch on, while that launch goes on and through further launches. -/
theorem seed_final {p : Persisted Mnemonic Social} (h : p.Sealed S toRootSecret)
    (ls : List (Launch Mnemonic Social Nonce)) (l : Launch Mnemonic Social Nonce)
    (es : List (Event (Call Mnemonic) (Input Mnemonic Social Nonce))) (ls' : List (Launch Mnemonic Social Nonce))
    {c : Mnemonic × ℕ × List Char × Option OnboardingMethod}
    (hc : p.db.bind AppStateJson.committed = some c ∨
      (launches S toRootSecret p (ls ++ [l])).db.bind AppStateJson.committed = some c) :
    (launches S toRootSecret p (ls ++ [{ l with events := l.events ++ es }] ++ ls')).db.bind AppStateJson.committed =
      some c := by
  rcases hc with hc | hc
  · exact committed_launches h hc _
  · rw [launches_append] at hc
    rw [launches_append]
    refine committed_launches (sealed_launches h _) ?_ ls'
    rw [launches_append]
    exact committed_within (sealed_launches h ls) l es hc

/-- Whatever the launches before were, on whichever handset. -/
theorem full_on_own_handset {p : Persisted Mnemonic Social} (h : p.Sealed S toRootSecret)
    (ls : List (Launch Mnemonic Social Nonce)) (l : Launch Mnemonic Social Nonce) :
    ((launch S toRootSecret (launches S toRootSecret p ls) l).state.bridge = .full →
      (launch S toRootSecret (launches S toRootSecret p ls) l).state.appState.Opens S toRootSecret l.identity.val) ∧
    (∀ existing, (launch S toRootSecret (launches S toRootSecret p ls) l).state.appState.Opens S toRootSecret existing →
      existing ≠ l.identity.val →
      (∀ t ∈ (launch S toRootSecret (launches S toRootSecret p ls) l).tasks, ¬ t.Loads) →
      (launch S toRootSecret (launches S toRootSecret p ls) l).state.bridge =
        .offboarding (.deviceIdentifierMismatch existing l.identity.val)) ∧
    ∀ panic ∈ (launch S toRootSecret (launches S toRootSecret p ls) l).state.panics,
      panic = .duplicateCall ∨ panic = .alreadyCompleted := by
  obtain ⟨hsound, hloading⟩ := sound_launch (sealed_launches h ls) l
  refine ⟨fun hfull => ?_, fun existing hexisting hne hloaded => ?_, hsound.panics⟩
  · exact (hsound.bridge (by rw [hfull]; exact BridgeState.noConfusion)).full hfull
  · have hgone : (launch S toRootSecret (launches S toRootSecret p ls) l).state.store = false := by
      by_contra hstore
      have hnone := hsound.store.mp (by simpa using hstore)
      obtain ⟨m, index, encrypted, method, hcommitted, -⟩ := hexisting
      rw [hnone] at hcommitted
      cases hcommitted
    have hopened : (launch S toRootSecret (launches S toRootSecret p ls) l).state.bridge ≠ .onboarding := by
      intro honboarding
      obtain ⟨t, ht, hloads⟩ := hloading hgone honboarding
      exact hloaded t ht hloads
    exact (hsound.bridge hopened).elsewhere existing hexisting hne

end

/-! ## A run -/

def phoneIdentity : Identity :=
  ⟨phone, phone.fmt none, phone, phone_accepted, phone_trimmed, by decide +kernel⟩

def tablet : DeviceIdentifier := ⟨['T'], ['T', 'a', 'b'], ['4', 'e']⟩

def tabletIdentity : Identity :=
  ⟨tablet, tablet.fmt none, tablet, ⟨rfl, by decide, by decide, by decide, by decide⟩,
    trimmed_of rfl rfl ⟨by decide, by decide⟩, by decide +kernel⟩

def fresh : Persisted ℕ Unit := ⟨none, none, []⟩

theorem sealed_fresh : fresh.Sealed shiftCipher UInt8.ofNat := by
  refine ⟨?_, ?_⟩
  · intro a ha
    cases ha
  · intro value hvalue
    cases hvalue

def plainInput : Input ℕ Unit UInt8 := ⟨false, 0, 5, (), 0⟩

/-- A seed is restored, and the device takes over an index. -/
def restoredOnPhone : Launch ℕ Unit UInt8 where
  identity := phoneIdentity
  nonce := 1
  events :=
    [.call (.restoreMnemonic 7), .advance 0 plainInput, .call (.onboardTransferExistingDeviceRegistration 2)] ++
      List.replicate 6 (.advance 0 plainInput)

/-- The storage is moved to another handset. -/
def movedToTablet : Launch ℕ Unit UInt8 := ⟨tabletIdentity, 3, [.call .completeOnboardingNewSeed, .advance 0 plainInput]⟩

def committedOnPhone : ℕ × ℕ × List Char × Option OnboardingMethod :=
  (7, 2, sealIdentity shiftCipher UInt8.ofNat phoneIdentity 7 5, some .restored)

/-- The seed is committed, and the rest of the bridge not yet loaded. -/
def committing : Launch ℕ Unit UInt8 := { restoredOnPhone with events := restoredOnPhone.events.take 7 }

/-- Another completion overtakes the first. -/
def completedTwice : List (Event (Call ℕ) (Input ℕ Unit UInt8)) :=
  [.call .completeOnboardingNewSeed, .advance 1 plainInput, .advance 0 plainInput, .advance 1 plainInput]

theorem seed_final_demo :
    (launches shiftCipher UInt8.ofNat fresh
      ([] ++ [{ committing with events := committing.events ++ completedTwice }] ++ [movedToTablet])).db.bind
        AppStateJson.committed = some committedOnPhone :=
  seed_final sealed_fresh [] committing completedTwice [movedToTablet] (.inr (by decide +kernel))

def movedDevice : Pool (System ℕ Unit) (Task ℕ Unit) :=
  launch shiftCipher UInt8.ofNat (launches shiftCipher UInt8.ofNat fresh [restoredOnPhone]) movedToTablet

theorem full_on_own_handset_demo :
    movedDevice.state.bridge = .offboarding (.deviceIdentifierMismatch phone tablet) ∧
      ∀ panic ∈ movedDevice.state.panics, panic = .duplicateCall ∨ panic = .alreadyCompleted := by
  obtain ⟨-, helsewhere, hpanics⟩ := full_on_own_handset sealed_fresh [restoredOnPhone] movedToTablet
  have hcommitted : movedDevice.state.appState.committed = some committedOnPhone := by decide +kernel
  have hidle : movedDevice.tasks = [] := List.isEmpty_iff.mp (by decide +kernel)
  refine ⟨helsewhere phone ⟨_, _, _, _, hcommitted, ?_⟩ (by decide) fun t ht => ?_, hpanics⟩
  · exact fromEncryptedString_sealIdentity phoneIdentity 7 5
  · have ht : t ∈ movedDevice.tasks := ht
    rw [hidle] at ht
    exact absurd ht List.not_mem_nil

end Onboarding
