import Fedi.DeviceRegistration.DeviceIdentifier
import Fedi.Lib.Tasks

/-!
# Onboarding a device

`AppState` is `Onboarding`, with a stage, until a seed and a device index are committed, and
`Onboarded` from then on.  The front end drives the stages through RPCs that wait for the
mutex of `BridgeOnboarding`; completing takes the store out of it, commits, and loads the rest
of the bridge.  A launch of the app reads what the one before has written, on the handset that
it runs on, and may end while RPCs are in flight.

`run` takes one RPC from an await to the next.  The database holds `AppState` as it is in
memory, so there is one copy here.
-/

namespace Onboarding

open DeviceRegistration Tasks

/-! ## `AppState` -/

inductive OnboardingMethod
  | newSeed
  | restored
deriving DecidableEq

inductive OnboardingCompletionMethod
  | newSeed
  | gotDeviceIndex (deviceIndex : ℕ)
deriving DecidableEq

section
variable (Mnemonic Social : Type)

inductive OnboardingStage
  | init
  | socialRecovery (state : Social)
  | deviceIndexSelection (rootMnemonic : Mnemonic) (socialRecoveryState : Option Social)
      (encryptedDeviceIdentifier : List Char)
deriving DecidableEq

structure AppStateJsonOnboarded where
  socialRecoveryState : Option Social
  deviceIndex : ℕ
  encryptedDeviceIdentifierV2 : List Char
  internalBridgeExport : Bool
  deviceIndexConflict : Bool
  onboardingMethod : Option OnboardingMethod
  rootMnemonic : Mnemonic
  encryptedDeviceIdentifierV1 : Option (List Char)
deriving DecidableEq

inductive AppStateJson
  | onboarded (state : AppStateJsonOnboarded Mnemonic Social)
  | onboarding (stage : OnboardingStage Mnemonic Social)
deriving DecidableEq

/-- The file of the first version, as far as it is migrated here. -/
structure AppStateJsonV0 where
  socialRecoveryState : Option Social
  deviceIndex : Option ℕ
  encryptedDeviceIdentifierV2 : Option (List Char)
  encryptedDeviceIdentifierV1 : Option (List Char)
  matrixSession : Bool
  joinedFederations : Bool
  rootMnemonic : Mnemonic

end

/-- What a handset calls itself: the text that it sends is parsed, and has no white space at its ends. -/
def Identity : Type :=
  { id : DeviceIdentifier // ∃ s sent, Accepted s sent ∧ Trimmed s ∧ fromStr s = .ok id }

/-! ## The bridge -/

inductive BridgeOffboardingReason
  | deviceIdentifierMismatch (existing new : DeviceIdentifier)
  | internalBridgeExport
  | deviceIndexConflict
deriving DecidableEq

inductive BridgeState
  | offboarding (reason : BridgeOffboardingReason)
  | onboarding
  | full
deriving DecidableEq

inductive Panic
  | appStateInvariant
  | appStateOnboardingInvariant
  | deviceIdDecryption
  | duplicateCall
  | alreadyCompleted
deriving DecidableEq

section
variable (Mnemonic Social : Type)

structure System where
  appState : AppStateJson Mnemonic Social
  bridge : BridgeState
  /-- The mutex of `BridgeOnboarding`, and whether the store is in it. -/
  locked : Bool
  store : Bool
  panics : List Panic
  /-- What the device registration service has accepted. -/
  registered : List (Mnemonic × ℕ × List Char)

inductive Call
  | restoreMnemonic (rootMnemonic : Mnemonic)
  | resetUnrecognizedSeed
  | validateRecoveryFile
  | socialRecoveryApprovals
  | cancelSocialRecovery
  | completeSocialRecovery
  | completeOnboardingNewSeed
  | onboardRegisterAsNewDevice (index : Option ℕ)
  | onboardTransferExistingDeviceRegistration (index : ℕ)
  | setDeviceIndexConflict (value : Bool)
  | setInternalBridgeExport (enabled : Bool)

/-- Where an RPC waits, with what it holds. -/
inductive Task
  | restoring (rootMnemonic : Mnemonic)
  | resetting
  /- `start_social_recovery_v2`: for the upload, for the mutex. -/
  | uploading
  | recordingSocialRecovery (state : Social)
  /- `social_recovery_approvals`: for the mutex, for the shares of the guardians, for the mutex. -/
  | continuing
  | approving (state : Social)
  | recordingApprovals (state : Social)
  | cancelling
  /- `complete_social_recovery`: for the mutex. -/
  | combining
  /- `onboardRegisterAsNewDevice` without an index: for the mutex, and with it for the service. -/
  | choosing
  | fetching
  /- `register_device_with_index`: for the mutex, and with it for the service. -/
  | registering (index : ℕ) (forceOverwrite : Bool)
  | retrying (index : ℕ) (forceOverwrite : Bool) (rootMnemonic : Mnemonic) (encryptedDeviceIdentifier : List Char)
  /- `complete_onboarding`: before the first step, for the mutex, and with it for the bridge; then with the bridge. -/
  | completing (method : OnboardingCompletionMethod)
  | taking (method : OnboardingCompletionMethod)
  | loading
  | settling (bridge : BridgeState)
  | settingDeviceIndexConflict (value : Bool)
  | settingInternalBridgeExport (enabled : Bool)

/-- What the outside decides at an await. -/
structure Input (Nonce : Type) where
  fails : Bool
  /-- A mnemonic that is drawn, or combined from the shares of the guardians. -/
  mnemonic : Mnemonic
  nonce : Nonce
  social : Social
  registeredDevices : ℕ

end

section
variable {Mnemonic Social : Type}

def start : Call Mnemonic → Task Mnemonic Social
  | .restoreMnemonic rootMnemonic => .restoring rootMnemonic
  | .resetUnrecognizedSeed => .resetting
  | .validateRecoveryFile => .uploading
  | .socialRecoveryApprovals => .continuing
  | .cancelSocialRecovery => .cancelling
  | .completeSocialRecovery => .combining
  | .completeOnboardingNewSeed => .completing .newSeed
  | .onboardRegisterAsNewDevice (some index) => .registering index false
  | .onboardRegisterAsNewDevice none => .choosing
  | .onboardTransferExistingDeviceRegistration index => .registering index true
  | .setDeviceIndexConflict value => .settingDeviceIndexConflict value
  | .setInternalBridgeExport enabled => .settingInternalBridgeExport enabled

/-! ## Writes to `AppState` -/

def System.panic (s : System Mnemonic Social) (p : Panic) : System Mnemonic Social := { s with panics := s.panics ++ [p] }

/-- The RPC gets the mutex with the store in it, or waits on; without the store onboarding is complete. -/
def System.lockStore (s : System Mnemonic Social) (task : Task Mnemonic Social)
    (f : System Mnemonic Social → System Mnemonic Social × List (Task Mnemonic Social)) :
    System Mnemonic Social × List (Task Mnemonic Social) :=
  if s.locked then (s, [task]) else if s.store then f s else (s, [])

/-- `AppStateOnboarding::with_write_lock`, with a closure that may refuse the transition. -/
def System.writeStage (s : System Mnemonic Social)
    (closure : OnboardingStage Mnemonic Social → Option (OnboardingStage Mnemonic Social)) : System Mnemonic Social :=
  match s.appState with
  | .onboarded _ => s.panic .appStateOnboardingInvariant
  | .onboarding stage =>
    match closure stage with
    | none => s
    | some stage => { s with appState := .onboarding stage }

/-- `AppState::with_write_lock`. -/
def System.writeOnboarded (s : System Mnemonic Social)
    (closure : AppStateJsonOnboarded Mnemonic Social → AppStateJsonOnboarded Mnemonic Social) : System Mnemonic Social :=
  match s.appState with
  | .onboarded state => { s with appState := .onboarded (closure state) }
  | .onboarding _ => s.panic .appStateInvariant

/-! ### Stages -/

/-- Init -> SocialRecovery or SocialRecovery -> SocialRecovery. -/
def socialRecoveryStartOrUpdate (state : Social) : OnboardingStage Mnemonic Social → Option (OnboardingStage Mnemonic Social)
  | .init | .socialRecovery _ => some (.socialRecovery state)
  | .deviceIndexSelection _ _ _ => none

/-- SocialRecovery -> SocialRecovery. -/
def socialRecoveryUpdate (state : Social) : OnboardingStage Mnemonic Social → Option (OnboardingStage Mnemonic Social)
  | .socialRecovery _ => some (.socialRecovery state)
  | _ => none

/-- SocialRecovery -> Init. -/
def socialRecoveryCancel : OnboardingStage Mnemonic Social → Option (OnboardingStage Mnemonic Social)
  | .socialRecovery _ => some .init
  | _ => none

/-- DeviceIndexSelection -> Init. -/
def resetUnrecognizedSeed : OnboardingStage Mnemonic Social → Option (OnboardingStage Mnemonic Social)
  | .deviceIndexSelection _ _ _ => some .init
  | _ => none

end

section
variable {Mnemonic Social Secret Nonce : Type} (S : Sealing Secret Nonce) (toRootSecret : Mnemonic → Secret)
  (identity : Identity)

def sealIdentity (rootMnemonic : Mnemonic) (nonce : Nonce) : List Char :=
  encryptAndHexEncode S identity.val (toRootSecret rootMnemonic) nonce

/-- Init -> DeviceIndexSelection or SocialRecovery -> DeviceIndexSelection. -/
def restoreMnemonic (rootMnemonic : Mnemonic) (nonce : Nonce) :
    OnboardingStage Mnemonic Social → Option (OnboardingStage Mnemonic Social)
  | .init => some (.deviceIndexSelection rootMnemonic none (sealIdentity S toRootSecret identity rootMnemonic nonce))
  | .socialRecovery state =>
    some (.deviceIndexSelection rootMnemonic (some state) (sealIdentity S toRootSecret identity rootMnemonic nonce))
  | .deviceIndexSelection _ _ _ => none

/-- NewSeed: Init -> complete; GotDeviceIndex: DeviceIndexSelection -> complete. -/
def completeOnboarding (method : OnboardingCompletionMethod) (drawn : Mnemonic) (nonce : Nonce) :
    OnboardingStage Mnemonic Social → Option (AppStateJsonOnboarded Mnemonic Social)
  | .init =>
    match method with
    | .newSeed => some ⟨none, 0, sealIdentity S toRootSecret identity drawn nonce, false, false, some .newSeed, drawn, none⟩
    | .gotDeviceIndex _ => none
  | .deviceIndexSelection rootMnemonic socialRecoveryState encryptedDeviceIdentifier =>
    match method with
    | .newSeed => none
    | .gotDeviceIndex deviceIndex =>
      some ⟨socialRecoveryState, deviceIndex, encryptedDeviceIdentifier, false, false, some .restored, rootMnemonic, none⟩
  | .socialRecovery _ => none

/-! ## Loading -/

/-- `BridgeFull::new`; decrypting the identifier must never fail. -/
def bridgeFull (state : AppStateJsonOnboarded Mnemonic Social) : Except Panic BridgeState :=
  match fromEncryptedString S state.encryptedDeviceIdentifierV2 (toRootSecret state.rootMnemonic) with
  | .error _ => .error .deviceIdDecryption
  | .ok existing =>
    if existing ≠ identity.val then .ok (.offboarding (.deviceIdentifierMismatch existing identity.val))
    else if state.internalBridgeExport then .ok (.offboarding .internalBridgeExport)
    else if state.deviceIndexConflict then .ok (.offboarding .deviceIndexConflict)
    else .ok .full

/-- `AppStateJson::from_v0`. -/
def fromV0 (value : AppStateJsonV0 Mnemonic Social) (nonce : Nonce) : AppStateJson Mnemonic Social :=
  let wasSeedCommitted := value.matrixSession || value.joinedFederations
  let encryptDeviceIdentifier := sealIdentity S toRootSecret identity value.rootMnemonic nonce
  match wasSeedCommitted, value.deviceIndex, value.socialRecoveryState with
  | true, some deviceIndex, socialRecoveryState =>
    .onboarded ⟨socialRecoveryState, deviceIndex, value.encryptedDeviceIdentifierV2.getD encryptDeviceIdentifier, false,
      false, none, value.rootMnemonic, value.encryptedDeviceIdentifierV1⟩
  -- the index does not matter where the seed is not committed
  | false, _, some socialRecoveryState => .onboarding (.socialRecovery socialRecoveryState)
  | false, _, none => .onboarding .init
  -- the seed is final, but the index is still to be selected
  | true, none, socialRecoveryState =>
    .onboarding (.deviceIndexSelection value.rootMnemonic socialRecoveryState encryptDeviceIdentifier)

/-- `AppState::load`. -/
def load (db : Option (AppStateJson Mnemonic Social)) (v0 : Option (AppStateJsonV0 Mnemonic Social)) (nonce : Nonce) :
    AppStateJson Mnemonic Social :=
  match db with
  | some state => state
  | none =>
    match v0 with
    | some value => fromV0 S toRootSecret identity value nonce
    | none => .onboarding .init

/-- `Bridge::new`. -/
def bridgeNew (appState : AppStateJson Mnemonic Social) (registered : List (Mnemonic × ℕ × List Char)) :
    System Mnemonic Social :=
  match appState with
  | .onboarding _ => ⟨appState, .onboarding, false, true, [], registered⟩
  | .onboarded state =>
    match bridgeFull S toRootSecret identity state with
    | .ok bridge => ⟨appState, bridge, false, false, [], registered⟩
    | .error p => ⟨appState, .onboarding, false, false, [p], registered⟩

/-! ## Steps -/

/-- The store is put back where completing fails. -/
def take (s : System Mnemonic Social) (method : OnboardingCompletionMethod) (input : Input Mnemonic Social Nonce) :
    System Mnemonic Social × List (Task Mnemonic Social) :=
  if s.locked then (s, [.taking method])
  else if s.store = false then (s.panic .duplicateCall, [])
  else
    match s.appState with
    | .onboarded _ => ({ s with store := false }.panic .appStateOnboardingInvariant, [])
    | .onboarding stage =>
      match completeOnboarding S toRootSecret identity method input.mnemonic input.nonce stage with
      | none => (s, [])
      | some state => ({ s with appState := .onboarded state, store := false, locked := true }, [.loading])

def finishLoading (s : System Mnemonic Social) : System Mnemonic Social × List (Task Mnemonic Social) :=
  match s.appState with
  | .onboarding _ => ({ s with locked := false }.panic .appStateInvariant, [])
  | .onboarded state =>
    match bridgeFull S toRootSecret identity state with
    | .ok bridge => ({ s with locked := false }, [.settling bridge])
    | .error p => ({ s with locked := false }.panic p, [])

/-- The service takes the index, or says that another device owns it. -/
def register (s : System Mnemonic Social) (index : ℕ) (rootMnemonic : Mnemonic) (encryptedDeviceIdentifier : List Char)
    (fails : Bool) : System Mnemonic Social × List (Task Mnemonic Social) :=
  if fails then ({ s with locked := false }, [])
  else
    ({ s with
        locked := false
        registered := (rootMnemonic, index, encryptedDeviceIdentifier) :: s.registered },
      [.completing (.gotDeviceIndex index)])

/-- One RPC runs to its next await. -/
def run (s : System Mnemonic Social) (task : Task Mnemonic Social) (input : Input Mnemonic Social Nonce) :
    System Mnemonic Social × List (Task Mnemonic Social) :=
  match task with
  | .restoring rootMnemonic =>
    s.lockStore task fun s => (s.writeStage (restoreMnemonic S toRootSecret identity rootMnemonic input.nonce), [])
  | .resetting => s.lockStore task fun s => (s.writeStage resetUnrecognizedSeed, [])
  | .uploading => (s, if input.fails then [] else [.recordingSocialRecovery input.social])
  | .recordingSocialRecovery state =>
    s.lockStore task fun s => (s.writeStage (socialRecoveryStartOrUpdate state), [])
  | .continuing =>
    s.lockStore task fun s =>
      match s.appState with
      | .onboarding (.socialRecovery state) => (s, [.approving state])
      | .onboarding _ => (s, [])
      | .onboarded _ => (s.panic .appStateOnboardingInvariant, [])
  | .approving _ => (s, if input.fails then [] else [.recordingApprovals input.social])
  | .recordingApprovals state => s.lockStore task fun s => (s.writeStage (socialRecoveryUpdate state), [])
  | .cancelling => s.lockStore task fun s => (s.writeStage socialRecoveryCancel, [])
  | .combining =>
    s.lockStore task fun s =>
      match s.appState with
      | .onboarding (.socialRecovery _) => (s, if input.fails then [] else [.restoring input.mnemonic])
      | .onboarding _ => (s, [])
      | .onboarded _ => (s.panic .appStateOnboardingInvariant, [])
  | .choosing =>
    s.lockStore task fun s =>
      match s.appState with
      | .onboarding (.deviceIndexSelection _ _ _) => ({ s with locked := true }, [.fetching])
      | .onboarding _ => (s, [])
      | .onboarded _ => (s.panic .appStateOnboardingInvariant, [])
  | .fetching =>
    -- `try_into` a u8
    ({ s with locked := false },
      if input.fails ∨ 256 ≤ input.registeredDevices then [] else [.registering input.registeredDevices false])
  | .registering index forceOverwrite =>
    s.lockStore task fun s =>
      match s.appState with
      | .onboarding (.deviceIndexSelection rootMnemonic _ encryptedDeviceIdentifier) =>
        ({ s with locked := true }, [.retrying index forceOverwrite rootMnemonic encryptedDeviceIdentifier])
      | .onboarding _ => (s, [])
      | .onboarded _ => (s.panic .appStateOnboardingInvariant, [])
  | .retrying index _ rootMnemonic encryptedDeviceIdentifier =>
    register s index rootMnemonic encryptedDeviceIdentifier input.fails
  | .completing method =>
    match s.bridge with
    | .onboarding => (s, [.taking method])
    | _ => (s.panic .alreadyCompleted, [])
  | .taking method => take S toRootSecret identity s method input
  | .loading => finishLoading S toRootSecret identity s
  | .settling bridge => ({ s with bridge := bridge }, [])
  -- the service runs while the bridge is full; the export is marked on one that is offboarding, too
  | .settingDeviceIndexConflict value =>
    if s.bridge = .full then (s.writeOnboarded fun state => { state with deviceIndexConflict := value }, []) else (s, [])
  | .settingInternalBridgeExport enabled =>
    if s.bridge = .onboarding then (s, [])
    else (s.writeOnboarded fun state => { state with internalBridgeExport := enabled }, [])

end

/-! ## Launches -/

section
variable (Mnemonic Social Nonce : Type)

/-- One run of the app on a handset. -/
structure Launch where
  identity : Identity
  nonce : Nonce
  events : List (Event (Call Mnemonic) (Input Mnemonic Social Nonce))

/-- What is on disk, and what the device registration service has. -/
structure Persisted where
  db : Option (AppStateJson Mnemonic Social)
  v0 : Option (AppStateJsonV0 Mnemonic Social)
  registered : List (Mnemonic × ℕ × List Char)

end

section
variable {Mnemonic Social Secret Nonce : Type} (S : Sealing Secret Nonce) (toRootSecret : Mnemonic → Secret)

/-- The device at the end of a launch. -/
def launch (p : Persisted Mnemonic Social) (l : Launch Mnemonic Social Nonce) :
    Pool (System Mnemonic Social) (Task Mnemonic Social) :=
  pool start (run S toRootSecret l.identity)
    ⟨bridgeNew S toRootSecret l.identity (load S toRootSecret l.identity p.db p.v0 l.nonce) p.registered, []⟩ l.events

def afterLaunch (p : Persisted Mnemonic Social) (l : Launch Mnemonic Social Nonce) : Persisted Mnemonic Social :=
  { p with
    db := some (launch S toRootSecret p l).state.appState
    registered := (launch S toRootSecret p l).state.registered }

def launches (p : Persisted Mnemonic Social) (ls : List (Launch Mnemonic Social Nonce)) : Persisted Mnemonic Social :=
  ls.foldl (afterLaunch S toRootSecret) p

end

end Onboarding
