import Fedi.Lib.Tasks

/-!
# Loading, joining, recovering and leaving a federation

Everything about one federation id: its state machine behind an RwLock, the lock that keeps a
second client from being opened, the live `FederationV2` values, and the entry of
`AppState.joined_federations`.  The guard of the lock lives in the `FederationV2`, so the lock
is free again when the last clone is dropped.

    actions:         ..(load)..............(leave).........(join)...
    federation lock: ..***************************.........*********
    state lock:      ..******..............*******.........******...

A transition holds the state lock over all its awaits.  `run` takes one task from an await to
the next; a task that waits for a lock stays where it is until the lock is free.
-/

namespace Federations

open Tasks

/-! ## State -/

/-- A federation is named by its number of creation. -/
abbrev FederationRef := ℕ

inductive FederationStateInternal
  | newForJoin
  | newForLoad
  | loadFailed
  | normal (fed : FederationRef)
  | recovering (fed : FederationRef)
  | left
  /-- A state with no transition, only used to replace another for a while. -/
  | dead
deriving DecidableEq

/-- An `Arc<FederationV2>`: how many clones RPCs and background tasks hold, and whether the state machine or a
transition holds one. -/
structure FederationV2 where
  ref : FederationRef
  recovering : Bool
  clones : ℕ
  owned : Bool
deriving DecidableEq

/-- The panics of the state machine. -/
inductive Panic
  | lockMustNotBeHeld
  | invalidState
  | mustNotOverrideFederation
  | federationMustBePresent
  | recoveryMustBeComplete
deriving DecidableEq

structure System where
  /-- The entry of `Federations.federations`, with its RwLock. -/
  state : Option FederationStateInternal
  writer : Bool
  readers : ℕ
  /-- The entry of `FederationsLocker.locks`. -/
  locked : Bool
  federations : List FederationV2
  created : ℕ
  /-- The version of the entry of `AppState.joined_federations`. -/
  joinedFederation : Option ℕ
  pendingRejoinFromScratch : Bool
  panics : List Panic
deriving DecidableEq

/-- What the outside decides at an await. -/
structure Input where
  fails : Bool
  /-- The prefetched info has a backup. -/
  backup : Bool
  /-- The client has recoveries that are not complete. -/
  recovering : Bool
  noncesReused : Bool
  /-- A holder of a clone clones it, instead of dropping it. -/
  clones : Bool

/-! ## Tasks -/

inductive Call
  | join (recoverFromScratch : Bool)
  | leave
  | rpc

/-- Where a task waits, with what it holds. -/
inductive Task
  /- `join_federation` and `join`: before the first step, for the prefetched info, for the state lock, for
  `FederationV2::join` up to `Self::new`, for `AppState`, for the background tasks, for the event. -/
  | joinStarting (recoverFromScratch : Bool)
  | joinFetching (recoverFromScratch : Bool)
  | joinWaiting (recoverFromScratch : Bool)
  | joinOpening (recoverFromScratch : Bool)
  | joinRegistering (fed : FederationRef)
  | joinFinishing (fed : FederationRef)
  | joinAnnouncing (fed : FederationRef)
  /- `load_from_db`: for the state lock, for `from_db`, for the event. -/
  | loadWaiting
  | loadOpening
  | loadAnnouncing (fed : FederationRef)
  /- `start_recovery_monitoring_inner`: for the state lock (to read), for the recovery, for the state lock (to
  write), for the task group, for the clones, for the client to shut down, for `from_db`, for the nonce check. -/
  | monitorWaiting
  | monitorRecovering (fed : FederationRef)
  | monitorUpgrading
  | monitorStopping (fed : FederationRef)
  | monitorUnique (fed : FederationRef)
  | monitorClosing
  | monitorReopening
  | monitorChecking (fed : FederationRef)
  /- `leave`: for the state lock; `leave_internal`: for `AppState`, for the task group, for the clones, for the
  client to shut down, for the database. -/
  | leaveWaiting
  | leaveUnregistering (fed : FederationRef)
  | leaveStopping (fed : FederationRef)
  | leaveUnique (fed : FederationRef)
  | leaveClosing
  | leaveDeleting
  /- An RPC, or a background task: about to get the federation, and with a clone of it. -/
  | rpcStarting
  | rpc (fed : FederationRef)
deriving DecidableEq

def start : Call → Task
  | .join recoverFromScratch => .joinStarting recoverFromScratch
  | .leave => .leaveWaiting
  | .rpc => .rpcStarting

/-! ## Locks and clones -/

/-- The task gets the state lock to write, or waits on. -/
def System.write (s : System) (task : Task) (f : System → System × List Task) : System × List Task :=
  if s.writer ∨ 0 < s.readers then (s, [task]) else f { s with writer := true }

def System.release (s : System) : System := { s with writer := false }

/-- A transition panics; its locks are released. -/
def System.panic (s : System) (p : Panic) : System := { s with writer := false, panics := s.panics ++ [p] }

/-- `try_lock_federation` and the `expect` on it. -/
def System.lock (s : System) (f : System → System × List Task) : System × List Task :=
  if s.locked then (s.panic .lockMustNotBeHeld, []) else f { s with locked := true }

/-- The guard is dropped. -/
def System.unlock (s : System) : System := { s with locked := false }

/-- `FederationV2::new`: the value takes the guard. -/
def System.create (s : System) (recovering : Bool) : System :=
  { s with
    federations := ⟨s.created, recovering, 0, true⟩ :: s.federations
    created := s.created + 1 }

/-- Drops a value together with its guard once nobody holds it. -/
def System.collect (s : System) (fed : FederationV2) : System :=
  if fed.clones = 0 ∧ fed.owned = false then
    { s with federations := s.federations.filter fun other => decide (other.ref ≠ fed.ref), locked := false }
  else
    { s with federations := s.federations.map fun other => if other.ref = fed.ref then fed else other }

def System.find (s : System) (fed : FederationRef) : Option FederationV2 :=
  s.federations.find? fun other => decide (other.ref = fed)

/-- The transition drops its clone, and with it the last one outside RPCs and background tasks. -/
def System.abandon (s : System) (fed : FederationRef) : System :=
  match s.find fed with
  | none => s
  | some federation => s.collect { federation with owned := false }

/-- Somebody holds one more clone. -/
def System.clone (s : System) (fed : FederationRef) : System :=
  match s.find fed with
  | none => s
  | some federation => s.collect { federation with clones := federation.clones + 1 }

def System.dropClone (s : System) (fed : FederationRef) : System :=
  match s.find fed with
  | none => s
  | some federation => s.collect { federation with clones := federation.clones - 1 }

/-- `wait_for_unique`: the value is taken out once no clone is left. -/
def System.unwrap (s : System) (task : Task) (fed : FederationRef) (next : Task) : System × List Task :=
  match s.find fed with
  | none => (s, [task])
  | some federation =>
    if federation.clones = 0 then
      ({ s with federations := s.federations.filter fun other => decide (other.ref ≠ fed) }, [next])
    else (s, [task])

/-- Whether the state machine has just become `Recovering`. -/
def System.isRecovering (s : System) (fed : FederationRef) : Bool :=
  match s.find fed with
  | none => false
  | some federation => federation.recovering

/-- The state that a federation starts in, and the monitor that goes with `Recovering`. -/
def System.ready (s : System) (fed : FederationRef) : System :=
  { s with state := some (if s.isRecovering fed then .recovering fed else .normal fed) }

def System.monitor (s : System) (fed : FederationRef) : List Task :=
  if s.isRecovering fed then [.monitorWaiting] else []

/-- The background tasks of a federation that is not recovering hold clones of it. -/
def System.startBackgroundTasksIfReady (s : System) (fed : FederationRef) : System × List Task :=
  if s.isRecovering fed then (s, []) else (s.clone fed, [.rpc fed])

/-! ## Steps -/

/-- `FederationStateMachine::join`, once it has the state lock. -/
def beginJoin (s : System) (recoverFromScratch fails : Bool) : System × List Task :=
  match s.state with
  | some .newForJoin | some .left =>
    -- `ensure_joinable`
    if fails then (s.release, []) else s.lock fun s => (s, [.joinOpening recoverFromScratch])
  | _ => (s.release, [])

/-- A rejoin after a failed nonce check must not use the backup. -/
def openJoin (s : System) (recoverFromScratch : Bool) (input : Input) : System × List Task :=
  if input.fails ∨ recoverFromScratch = false ∧ input.backup ∧ s.pendingRejoinFromScratch then
    (s.unlock.release, [])
  else (s.create input.recovering, [.joinRegistering s.created])

def registerJoin (s : System) (fed : FederationRef) : System × List Task :=
  match s.joinedFederation with
  | some _ => ((s.abandon fed).panic .mustNotOverrideFederation, [])
  | none => ({ s with joinedFederation := some 2 }, [.joinFinishing fed])

def finishJoin (s : System) (fed : FederationRef) : System × List Task :=
  let r := s.startBackgroundTasksIfReady fed
  (r.1.ready fed, .joinAnnouncing fed :: (s.monitor fed ++ r.2))

/-- The caller of `join` gets a clone. -/
def announceJoin (s : System) (fed : FederationRef) : System × List Task := ((s.clone fed).release, [.rpc fed])

def beginLoad (s : System) : System × List Task :=
  match s.state with
  | some .newForLoad => s.lock fun s => (s, [.loadOpening])
  | _ => (s.panic .invalidState, [])

def openLoad (s : System) (input : Input) : System × List Task :=
  if input.fails then ({ s with state := some .loadFailed }.unlock.release, [])
  else
    let r := (s.create input.recovering).startBackgroundTasksIfReady s.created
    (r.1, .loadAnnouncing s.created :: r.2)

def announceLoad (s : System) (fed : FederationRef) : System × List Task := ((s.ready fed).release, s.monitor fed)

/-- The monitor reads the state; its read lock blocks all transitions until the recovery ends. -/
def beginMonitor (s : System) : System × List Task :=
  if s.writer then (s, [.monitorWaiting])
  else
    match s.state with
    | some (.recovering fed) => ({ s with readers := s.readers + 1 }, [.monitorRecovering fed])
    | _ => ({ s with panics := s.panics ++ [.invalidState] }, [])

def awaitRecovery (s : System) (fails : Bool) : System × List Task :=
  ({ s with readers := s.readers - 1 }, if fails then [] else [.monitorUpgrading])

def upgradeMonitor (s : System) : System × List Task :=
  match s.state with
  | some (.recovering fed) => ({ s with state := some .dead }, [.monitorStopping fed])
  | _ => ({ s with state := some .dead }.panic .invalidState, [])

def stopRecovered (s : System) (fed : FederationRef) (fails : Bool) : System × List Task :=
  if fails then ((s.abandon fed).release, []) else (s, [.monitorUnique fed])

/-- The entry of `AppState` is read once the client is shut down. -/
def closeRecovered (s : System) : System × List Task :=
  match s.joinedFederation with
  | none => (s.unlock.release, [])
  | some _ => (s, [.monitorReopening])

def reopenRecovered (s : System) (input : Input) : System × List Task :=
  if input.fails then ({ s with state := some .loadFailed }.unlock.release, [])
  else if input.recovering then (((s.create true).abandon s.created).panic .recoveryMustBeComplete, [])
  else
    let r := (s.create false).startBackgroundTasksIfReady s.created
    (r.1, .monitorChecking s.created :: r.2)

def checkRecovered (s : System) (fed : FederationRef) (noncesReused : Bool) : System × List Task :=
  if s.pendingRejoinFromScratch then
    ({ s with pendingRejoinFromScratch := false, state := some (.normal fed) }.release, [])
  else if noncesReused then
    ({ s with pendingRejoinFromScratch := true, state := some .left }, [.leaveUnregistering fed])
  else ({ s with state := some (.normal fed) }.release, [])

def beginLeave (s : System) : System × List Task :=
  match s.state with
  | some (.normal fed) => ({ s with state := some .left }, [.leaveUnregistering fed])
  | _ => (s.release, [])

def unregister (s : System) (fed : FederationRef) : System × List Task :=
  match s.joinedFederation with
  | none => ((s.abandon fed).panic .federationMustBePresent, [])
  | some _ => ({ s with joinedFederation := none }, [.leaveStopping fed])

def stopLeft (s : System) (fed : FederationRef) (fails : Bool) : System × List Task :=
  if fails then ((s.abandon fed).release, []) else (s, [.leaveUnique fed])

/-- `get_federation_maybe_recovering`; while the state lock is held the federation is loading. -/
def getFederation (s : System) : System × List Task :=
  if s.writer then (s, [])
  else
    match s.state with
    | some (.normal fed) | some (.recovering fed) => (s.clone fed, [.rpc fed])
    | _ => (s, [])

/-- One task runs to its next await. -/
def run (s : System) (task : Task) (input : Input) : System × List Task :=
  match task with
  | .joinStarting recoverFromScratch =>
    ({ s with state := some (s.state.getD .newForJoin) }, [.joinFetching recoverFromScratch])
  | .joinFetching recoverFromScratch => (s, if input.fails then [] else [.joinWaiting recoverFromScratch])
  | .joinWaiting recoverFromScratch => s.write task fun s => beginJoin s recoverFromScratch input.fails
  | .joinOpening recoverFromScratch => openJoin s recoverFromScratch input
  | .joinRegistering fed => registerJoin s fed
  | .joinFinishing fed => finishJoin s fed
  | .joinAnnouncing fed => announceJoin s fed
  | .loadWaiting => s.write task beginLoad
  | .loadOpening => openLoad s input
  | .loadAnnouncing fed => announceLoad s fed
  | .monitorWaiting => beginMonitor s
  | .monitorRecovering _ => awaitRecovery s input.fails
  | .monitorUpgrading => s.write task upgradeMonitor
  | .monitorStopping fed => stopRecovered s fed input.fails
  | .monitorUnique fed => s.unwrap task fed .monitorClosing
  | .monitorClosing => closeRecovered s
  | .monitorReopening => reopenRecovered s input
  | .monitorChecking fed => checkRecovered s fed input.noncesReused
  | .leaveWaiting => s.write task beginLeave
  | .leaveUnregistering fed => unregister s fed
  | .leaveStopping fed => stopLeft s fed input.fails
  | .leaveUnique fed => s.unwrap task fed .leaveClosing
  | .leaveClosing => (s, [.leaveDeleting])
  -- the value and its guard go out of scope, whether or not the database is deleted
  | .leaveDeleting => (s.unlock.release, [])
  | .rpcStarting => getFederation s
  | .rpc fed => if input.clones then (s.clone fed, [.rpc fed, .rpc fed]) else (s.dropClone fed, [])

/-- `load_joined_federations_in_background` at the start: an entry of an old version is not loaded. -/
def initial (joinedFederation : Option ℕ) : Pool System Task :=
  let s : System := ⟨none, false, 0, false, [], 0, joinedFederation, false, []⟩
  match joinedFederation with
  | none => ⟨s, []⟩
  | some version => if version < 2 then ⟨s, []⟩ else ⟨{ s with state := some .newForLoad }, [.loadWaiting]⟩

/-- The federation after a run. -/
def lifecycle (joinedFederation : Option ℕ) (es : List (Event Call Input)) : Pool System Task :=
  pool start run (initial joinedFederation) es

end Federations
