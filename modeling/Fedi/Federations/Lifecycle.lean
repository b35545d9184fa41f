import Fedi.Federations.StateMachine

/-!
# No panic, one client, and agreement with `AppState`

In every run that meets the conditions no panic is reached, at most one `FederationV2` is
alive, and outside of transitions the state machine is in `Normal`, `Recovering` or
`LoadFailed` exactly when the federation is in `AppState` (`sound_of_run`).  The conditions:

* the task group shuts down when a recovery is complete: the error return leaves the state
  machine dead (`shutdown_strands`);
* a federation is not joined again while clones from a failed leave are alive: they hold the
  guard of the lock;
* a client that is opened again after its recovery is not recovering;
* the entry of the start has a version that is loaded.
-/

namespace Federations

open Tasks

/-! ## What is promised -/

/-- The tasks that hold a `FederationV2` by value. -/
@[simp] def Task.owns : Task → Bool
  | .leaveClosing | .leaveDeleting => true
  | _ => false

/-- The tasks of a load. -/
@[simp] def Task.loads : Task → Bool
  | .loadWaiting | .loadOpening | .loadAnnouncing _ => true
  | _ => false

def System.Settled (s : System) : Prop :=
  s.state = some .loadFailed ∨ (∃ fed, s.state = some (.normal fed)) ∨ ∃ fed, s.state = some (.recovering fed)

/-- No transition has the state lock, and none is still to load the federation. -/
def AtRest (s : System) (tasks : List Task) : Prop := s.writer = false ∧ ∀ task ∈ tasks, task.loads = false

structure Sound (s : System) (tasks : List Task) : Prop where
  calm : s.panics = []
  single : s.federations.length + tasks.countP Task.owns ≤ 1
  agrees : AtRest s tasks → (s.Settled ↔ s.joinedFederation.isSome)

/-! ## The conditions -/

def Lawful (s : System) (_ : List Task) (task : Task) (input : Input) : Prop :=
  match task with
  | .joinWaiting _ =>
    s.writer = false → s.readers = 0 → s.state = some .left → input.fails = false → s.federations = []
  | .monitorStopping _ => input.fails = false
  | .monitorReopening => input.fails = false → input.recovering = false
  | _ => True

instance (s : System) (others : List Task) (task : Task) (input : Input) : Decidable (Lawful s others task input) := by
  unfold Lawful
  split <;> infer_instance

/-- The entry of the start is loaded. -/
def Loadable (joinedFederation : Option ℕ) : Prop := ∀ version, joinedFederation = some version → 2 ≤ version

/-! ## The invariant -/

/-- The tasks that hold the state lock to write. -/
@[simp] def Task.writes : Task → Bool
  | .joinOpening _ | .joinRegistering _ | .joinFinishing _ | .joinAnnouncing _ | .loadOpening | .loadAnnouncing _
  | .monitorStopping _ | .monitorUnique _ | .monitorClosing | .monitorReopening | .monitorChecking _
  | .leaveUnregistering _ | .leaveStopping _ | .leaveUnique _ | .leaveClosing | .leaveDeleting => true
  | _ => false

@[simp] def Task.reads : Task → Bool
  | .monitorRecovering _ => true
  | _ => false

/-- The tasks that hold the guard of the lock, in a value of their own or in no value. -/
@[simp] def Task.guards : Task → Bool
  | .joinOpening _ | .loadOpening | .monitorClosing | .monitorReopening | .leaveClosing | .leaveDeleting => true
  | _ => false

/-- The tasks that expect the state `Recovering`. -/
@[simp] def Task.monitors : Task → Bool
  | .monitorWaiting | .monitorRecovering _ | .monitorUpgrading => true
  | _ => false

/-- The federation is the only value, and the state machine or a transition holds a clone of it. -/
def System.Owns (s : System) (fed : FederationRef) : Prop :=
  ∃ federation, s.federations = [federation] ∧ federation.ref = fed ∧ federation.owned = true

/-- Nothing to be left behind by a join. -/
def System.Joinable (s : System) : Prop := s.state = some .newForJoin ∨ s.state = some .left

/-- What a task that holds the state lock finds when it goes on. -/
def Task.Fits (s : System) : Task → Prop
  | .joinOpening _ => s.Joinable ∧ s.joinedFederation = none
  | .joinRegistering fed => s.Joinable ∧ s.joinedFederation = none ∧ s.Owns fed
  | .joinFinishing fed => s.Joinable ∧ s.joinedFederation.isSome ∧ s.Owns fed
  | .joinAnnouncing fed =>
    (s.state = some (.normal fed) ∨ s.state = some (.recovering fed)) ∧ s.joinedFederation.isSome ∧ s.Owns fed
  | .loadOpening => s.state = some .newForLoad ∧ s.joinedFederation.isSome
  | .loadAnnouncing fed => s.state = some .newForLoad ∧ s.joinedFederation.isSome ∧ s.Owns fed
  | .monitorStopping fed | .monitorUnique fed | .monitorChecking fed =>
    s.state = some .dead ∧ s.joinedFederation.isSome ∧ s.Owns fed
  | .monitorClosing | .monitorReopening => s.state = some .dead ∧ s.joinedFederation.isSome
  | .leaveUnregistering fed => s.state = some .left ∧ s.joinedFederation.isSome ∧ s.Owns fed
  | .leaveStopping fed | .leaveUnique fed => s.state = some .left ∧ s.joinedFederation = none ∧ s.Owns fed
  | .leaveClosing | .leaveDeleting => s.state = some .left ∧ s.joinedFederation = none
  | _ => True

/-- What holds while nobody has the state lock to write. -/
def System.Rests (s : System) : Prop :=
  match s.state with
  | none | some .newForJoin => s.joinedFederation = none ∧ s.federations = []
  | some .newForLoad => s.joinedFederation.isSome ∧ s.federations = []
  | some .loadFailed => s.joinedFederation.isSome
  | some (.normal fed) | some (.recovering fed) => s.joinedFederation.isSome ∧ s.Owns fed
  | some .left => s.joinedFederation = none
  | some .dead => False

def System.Recovers (s : System) : Prop := ∃ fed, s.state = some (.recovering fed)

@[simp] def held (b : Bool) : ℕ := if b then 1 else 0

structure Inv (s : System) (tasks : List Task) : Prop where
  writers : tasks.countP Task.writes = held s.writer
  readers : tasks.countP Task.reads = s.readers
  exclusive : s.writer = true → s.readers = 0
  fits : ∀ task ∈ tasks, task.writes = true → task.Fits s
  rests : s.writer = false → s.Rests
  guarded : s.federations.length + tasks.countP Task.guards = held s.locked
  monitors : tasks.countP Task.monitors ≤ 1
  monitored : ∀ task ∈ tasks, task.monitors = true → s.Recovers
  loads : tasks.countP Task.loads ≤ 1
  loading : ∀ task ∈ tasks, task.loads = true → s.state = some .newForLoad
  loaded : s.state = some .newForLoad → ∃ task ∈ tasks, task.loads = true
  calm : s.panics = []

theorem held_le (b : Bool) : held b ≤ 1 := by
  cases b <;> simp [held]

variable {s s' : System} {before after next : List Task} {task : Task}

theorem Inv.length_le (h : Inv s before) : s.federations.length ≤ 1 := by
  have := h.guarded
  have := held_le s.locked
  omega

/-- What an advance has to provide when nobody else holds the state lock to write. -/
structure Advance (s : System) (task : Task) (s' : System) (next : List Task) : Prop where
  writers : next.countP Task.writes = held s'.writer
  readers : s'.readers + held task.reads = s.readers + next.countP Task.reads
  exclusive : s'.writer = true → s'.readers = 0
  fits : ∀ x ∈ next, x.writes = true → x.Fits s'
  rests : s'.writer = false → s'.Rests
  guarded : s'.federations.length + next.countP Task.guards + held s.locked =
    s.federations.length + held task.guards + held s'.locked
  monitors : next.countP Task.monitors ≤ held task.monitors ∨ next.countP Task.monitors ≤ 1 ∧ ¬ s.Recovers
  monitored : ∀ x ∈ next, x.monitors = true → s'.Recovers
  keeps : s.Recovers → s'.Recovers ∨ task.monitors = true
  loads : next.countP Task.loads ≤ held task.loads
  loading : ∀ x ∈ next, x.loads = true → s'.state = some .newForLoad
  loaded : s'.state = some .newForLoad → (s.state = some .newForLoad ∧ task.loads = false) ∨ ∃ x ∈ next, x.loads = true
  keepsLoad : s.state = some .newForLoad → s'.state = some .newForLoad ∨ task.loads = true
  calm : s'.panics = []

theorem countP_eq_zero_of {p : Task → Bool} {l : List Task} (h : l.countP p = 0) : ∀ x ∈ l, p x = false := by
  intro x hx
  simpa using List.countP_eq_zero.mp h x hx

theorem Inv.advance (h : Inv s (before ++ task :: after)) (halone : task.writes = true ∨ s.writer = false)
    (hadvance : Advance s task s' next) : Inv s' (before ++ next ++ after) := by
  have hwriters := h.writers
  have hreaders := h.readers
  have hguarded := h.guarded
  have hmonitors := h.monitors
  have hloads := h.loads
  rw [countP_task] at hwriters hreaders hguarded hmonitors hloads
  have hothers : (before ++ after).countP Task.writes = 0 := by
    rcases halone with hwrites | hfree
    · have := held_le s.writer
      simp only [hwrites, if_true] at hwriters
      omega
    · simp only [hfree, held, Bool.false_eq_true, if_false] at hwriters
      omega
  constructor
  case writers => rw [countP_next, hothers, hadvance.writers, Nat.add_zero]
  case readers =>
    rw [countP_next]
    have := hadvance.readers
    unfold held at this
    omega
  case exclusive => exact hadvance.exclusive
  case fits =>
    refine forall_next_iff.mpr ⟨hadvance.fits, fun x hx hwrites => ?_⟩
    rw [countP_eq_zero_of hothers x hx] at hwrites
    cases hwrites
  case rests => exact hadvance.rests
  case guarded =>
    rw [countP_next]
    have := hadvance.guarded
    simp only [held] at this hguarded ⊢
    omega
  case monitors =>
    rw [countP_next]
    rcases hadvance.monitors with hle | ⟨hle, hnot⟩
    · unfold held at hle
      omega
    · have hnone : (before ++ after).countP Task.monitors = 0 := by
        refine List.countP_eq_zero.mpr fun x hx hmonitors => hnot ?_
        exact h.monitored x (by simp only [List.mem_append, List.mem_cons] at hx ⊢; tauto) hmonitors
      omega
  case monitored =>
    refine forall_next_iff.mpr ⟨hadvance.monitored, fun x hx hmonitor => ?_⟩
    have hrecovers := h.monitored x (by simp only [List.mem_append, List.mem_cons] at hx ⊢; tauto) hmonitor
    rcases hadvance.keeps hrecovers with hkeeps | htask
    · exact hkeeps
    · have hnone : (before ++ after).countP Task.monitors = 0 := by
        simp only [htask, if_true] at hmonitors
        omega
      rw [countP_eq_zero_of hnone x hx] at hmonitor
      cases hmonitor
  case loads =>
    rw [countP_next]
    have := hadvance.loads
    unfold held at this
    omega
  case loading =>
    refine forall_next_iff.mpr ⟨hadvance.loading, fun x hx hload => ?_⟩
    have hnew := h.loading x (by simp only [List.mem_append, List.mem_cons] at hx ⊢; tauto) hload
    rcases hadvance.keepsLoad hnew with hkeeps | htask
    · exact hkeeps
    · have hnone : (before ++ after).countP Task.loads = 0 := by
        simp only [htask, if_true] at hloads
        omega
      rw [countP_eq_zero_of hnone x hx] at hload
      cases hload
  case loaded =>
    intro hnew
    rw [exists_next_iff]
    rcases hadvance.loaded hnew with ⟨hold, htask⟩ | hnext
    · have hbefore := h.loaded hold
      rw [exists_task_iff, htask] at hbefore
      exact .inr (hbefore.resolve_left (by simp))
    · exact .inl hnext
  case calm => exact hadvance.calm

/-- A task in front of its first lock, and RPCs: none of the classes. -/
def Task.plain (task : Task) : Prop :=
  task.writes = false ∧ task.reads = false ∧ task.guards = false ∧ task.monitors = false ∧ task.loads = false

theorem countP_plain (p : Task → Bool) {l : List Task} (h : ∀ x ∈ l, p x = false) : l.countP p = 0 :=
  List.countP_eq_zero.mpr fun x hx => by simp [h x hx]

/-- Clones come and go. -/
structure Cloned (s s' : System) : Prop where
  state : s'.state = s.state
  writer : s'.writer = s.writer
  readers : s'.readers = s.readers
  joinedFederation : s'.joinedFederation = s.joinedFederation
  panics : s'.panics = s.panics
  guarded : s'.federations.length + held s.locked = s.federations.length + held s'.locked
  owns : ∀ fed, s.Owns fed → s'.Owns fed
  empty : s.federations = [] → s'.federations = []

theorem cloned_refl (s : System) : Cloned s s := ⟨rfl, rfl, rfl, rfl, rfl, rfl, fun _ h => h, fun h => h⟩

theorem Cloned.fits (h : Cloned s s') {x : Task} (hfits : x.Fits s) : x.Fits s' := by
  unfold Task.Fits System.Joinable at *
  have howns := h.owns
  cases x <;> simp only [h.state, h.joinedFederation] at hfits ⊢ <;> first | exact hfits | tauto

theorem Cloned.rests (h : Cloned s s') (hrests : s.Rests) : s'.Rests := by
  unfold System.Rests at *
  have howns := h.owns
  have hempty := h.empty
  rw [h.state, h.joinedFederation]
  split <;> simp_all

theorem Inv.plain (h : Inv s (before ++ task :: after)) (htask : task.plain) (hcloned : Cloned s s')
    (hnext : ∀ x ∈ next, x.plain) : Inv s' (before ++ next ++ after) := by
  obtain ⟨hw, hr, hg, hm, hl⟩ := htask
  have hcount : ∀ p : Task → Bool, p task = false → (∀ x ∈ next, p x = false) →
      (before ++ next ++ after).countP p = (before ++ task :: after).countP p := by
    intro p hp hall
    rw [countP_next, countP_task, countP_plain p hall]
    simp [hp]
  constructor
  case writers => rw [hcount _ hw fun x hx => (hnext x hx).1, h.writers, hcloned.writer]
  case readers => rw [hcount _ hr fun x hx => (hnext x hx).2.1, h.readers, hcloned.readers]
  case exclusive =>
    rw [hcloned.writer, hcloned.readers]
    exact h.exclusive
  case fits =>
    refine forall_next_iff.mpr ⟨fun x hx hwrites => ?_, fun x hx hwrites => ?_⟩
    · rw [(hnext x hx).1] at hwrites
      cases hwrites
    · exact hcloned.fits ((forall_task_iff.mp h.fits).2 x hx hwrites)
  case rests =>
    intro hfree
    rw [hcloned.writer] at hfree
    exact hcloned.rests (h.rests hfree)
  case guarded =>
    have hguarded := h.guarded
    have := hcloned.guarded
    rw [hcount _ hg fun x hx => (hnext x hx).2.2.1]
    omega
  case monitors =>
    rw [hcount _ hm fun x hx => (hnext x hx).2.2.2.1]
    exact h.monitors
  case monitored =>
    unfold System.Recovers
    rw [hcloned.state]
    refine forall_next_iff.mpr ⟨fun x hx hmonitor => ?_, (forall_task_iff.mp h.monitored).2⟩
    rw [(hnext x hx).2.2.2.1] at hmonitor
    cases hmonitor
  case loads =>
    rw [hcount _ hl fun x hx => (hnext x hx).2.2.2.2]
    exact h.loads
  case loading =>
    rw [hcloned.state]
    refine forall_next_iff.mpr ⟨fun x hx hload => ?_, (forall_task_iff.mp h.loading).2⟩
    rw [(hnext x hx).2.2.2.2] at hload
    cases hload
  case loaded =>
    rw [hcloned.state]
    intro hnew
    have hbefore := h.loaded hnew
    rw [exists_task_iff, hl] at hbefore
    exact exists_next_iff.mpr (.inr (hbefore.resolve_left (by simp)))
  case calm => rw [hcloned.panics, h.calm]

/-! ### Clones -/

theorem Inv.federations_cases {tasks : List Task} (h : Inv s tasks) :
    s.federations = [] ∨ ∃ federation, s.federations = [federation] ∧ s.locked = true := by
  have hguarded := h.guarded
  cases hfederations : s.federations with
  | nil => exact .inl rfl
  | cons federation rest =>
    rw [hfederations, List.length_cons] at hguarded
    cases hlocked : s.locked with
    | false => simp [hlocked] at hguarded
    | true =>
      simp only [hlocked, held, if_true] at hguarded
      have hrest : rest = [] := List.eq_nil_of_length_eq_zero (by omega)
      exact .inr ⟨federation, by rw [hrest], rfl⟩

theorem find_single {federation : FederationV2} (h : s.federations = [federation]) (fed : FederationRef) :
    s.find fed = if federation.ref = fed then some federation else none := by
  unfold System.find
  rw [h]
  by_cases href : federation.ref = fed <;> simp [href]

theorem find_empty (h : s.federations = []) (fed : FederationRef) : s.find fed = none := by
  unfold System.find
  rw [h]
  rfl

theorem collect_single {federation federation' : FederationV2} (h : s.federations = [federation])
    (href : federation'.ref = federation.ref) :
    s.collect federation' =
      if federation'.clones = 0 ∧ federation'.owned = false then { s with federations := [], locked := false }
      else { s with federations := [federation'] } := by
  unfold System.collect
  rw [h]
  simp [href]

/-- Cloning and dropping clones of the only value. -/
theorem cloned_of_single {federation federation' : FederationV2} (h : s.federations = [federation])
    (hlocked : s.locked = true) (href : federation'.ref = federation.ref)
    (howned : federation'.owned = federation.owned) : Cloned s (s.collect federation') := by
  rw [collect_single h href]
  split
  next hgone =>
    refine ⟨rfl, rfl, rfl, rfl, rfl, by simp [h, hlocked], fun fed hfed => ?_, fun _ => rfl⟩
    obtain ⟨only, honly, -, hown⟩ := hfed
    rw [h] at honly
    cases honly
    rw [← howned, hgone.2] at hown
    cases hown
  · refine ⟨rfl, rfl, rfl, rfl, rfl, by simp [h], fun fed hfed => ?_, fun hempty => ?_⟩
    · obtain ⟨only, honly, hfed, hown⟩ := hfed
      rw [h] at honly
      cases honly
      exact ⟨federation', rfl, href.trans hfed, howned.trans hown⟩
    · rw [h] at hempty
      cases hempty

theorem Inv.clone {tasks : List Task} (h : Inv s tasks) (fed : FederationRef) : Cloned s (s.clone fed) := by
  unfold System.clone
  rcases h.federations_cases with hempty | ⟨federation, hsingle, hlocked⟩
  · rw [find_empty hempty]
    exact cloned_refl s
  · rw [find_single hsingle]
    by_cases href : federation.ref = fed
    · rw [if_pos href]
      exact cloned_of_single hsingle hlocked rfl rfl
    · rw [if_neg href]
      exact cloned_refl s

theorem Inv.dropClone {tasks : List Task} (h : Inv s tasks) (fed : FederationRef) : Cloned s (s.dropClone fed) := by
  unfold System.dropClone
  rcases h.federations_cases with hempty | ⟨federation, hsingle, hlocked⟩
  · rw [find_empty hempty]
    exact cloned_refl s
  · rw [find_single hsingle]
    by_cases href : federation.ref = fed
    · rw [if_pos href]
      exact cloned_of_single hsingle hlocked rfl rfl
    · rw [if_neg href]
      exact cloned_refl s

/-- One more clone of the value that is owned. -/
theorem System.Owns.clone {fed : FederationRef} (h : s.Owns fed) :
    ∃ federation, s.clone fed = { s with federations := [federation] } ∧ federation.ref = fed ∧
      federation.owned = true ∧ federation.recovering = s.isRecovering fed := by
  obtain ⟨federation, hsingle, href, howned⟩ := h
  unfold System.clone System.isRecovering
  rw [find_single hsingle, if_pos href]
  have hcollect := @collect_single s federation { federation with clones := federation.clones + 1 } hsingle rfl
  rw [if_neg (by simp)] at hcollect
  exact ⟨_, hcollect, href, howned, rfl⟩

/-- The owner drops its clone: the value stays as long as others hold clones. -/
theorem System.Owns.abandon {fed : FederationRef} (h : s.Owns fed) :
    s.abandon fed = { s with federations := [], locked := false } ∨
      ∃ federation, s.abandon fed = { s with federations := [federation] } := by
  obtain ⟨federation, hsingle, href, -⟩ := h
  unfold System.abandon
  rw [find_single hsingle, if_pos href]
  have hcollect := @collect_single s federation { federation with owned := false } hsingle rfl
  by_cases hclones : federation.clones = 0
  · rw [if_pos ⟨hclones, rfl⟩] at hcollect
    exact .inl hcollect
  · rw [if_neg (by simp [hclones])] at hcollect
    exact .inr ⟨_, hcollect⟩

theorem Inv.locked_of_owns {tasks : List Task} (h : Inv s tasks) {fed : FederationRef} (howns : s.Owns fed) :
    s.locked = true := by
  obtain ⟨federation, hsingle, -⟩ := howns
  rcases h.federations_cases with hempty | ⟨_, -, hlocked⟩
  · rw [hsingle] at hempty
    cases hempty
  · exact hlocked

/-! ### Transitions -/

/-- A task that holds the state lock goes on. -/
theorem Inv.writing (h : Inv s (before ++ task :: after)) (hwrites : task.writes = true) :
    s.writer = true ∧ s.readers = 0 ∧ task.Fits s := by
  have hwriters := h.writers
  rw [countP_task, hwrites] at hwriters
  have hwriter : s.writer = true := by
    cases hfree : s.writer with
    | false => simp [hfree] at hwriters
    | true => rfl
  exact ⟨hwriter, h.exclusive hwriter, h.fits task (by simp) hwrites⟩

/-- A task that holds the guard goes on: no value is alive. -/
theorem Inv.guarding (h : Inv s (before ++ task :: after)) (hguards : task.guards = true) :
    s.federations = [] ∧ s.locked = true := by
  have hguarded := h.guarded
  rw [countP_task, hguards] at hguarded
  simp only [if_true] at hguarded
  cases hlocked : s.locked with
  | false => simp [hlocked] at hguarded
  | true =>
    simp only [hlocked, held, if_true] at hguarded
    exact ⟨List.eq_nil_of_length_eq_zero (by omega), rfl⟩

theorem owns_create (hempty : s.federations = []) (recovering : Bool) : (s.create recovering).Owns s.created :=
  ⟨⟨s.created, recovering, 0, true⟩, by simp [System.create, hempty], rfl, rfl⟩

theorem isRecovering_create (hempty : s.federations = []) (recovering : Bool) :
    (s.create recovering).isRecovering s.created = recovering := by
  simp [System.isRecovering, System.find, System.create, hempty]

/-- The tables after the background tasks were started: the value may have one more clone. -/
theorem System.Owns.startBackgroundTasks {fed : FederationRef} (h : s.Owns fed) :
    (s.isRecovering fed = true ∧ s.startBackgroundTasksIfReady fed = (s, [])) ∨
      (s.isRecovering fed = false ∧ ∃ federation,
        s.startBackgroundTasksIfReady fed = ({ s with federations := [federation] }, [.rpc fed]) ∧
        federation.ref = fed ∧ federation.owned = true ∧ federation.recovering = false) := by
  unfold System.startBackgroundTasksIfReady
  cases hrecovering : s.isRecovering fed with
  | true => exact .inl ⟨rfl, rfl⟩
  | false =>
    obtain ⟨federation, hclone, href, howned, hsame⟩ := h.clone
    exact .inr ⟨rfl, federation, by simp [hclone], href, howned, hsame.trans hrecovering⟩

theorem Inv.openJoin {recoverFromScratch : Bool} {input : Input}
    (h : Inv s (before ++ .joinOpening recoverFromScratch :: after)) :
    Inv (openJoin s recoverFromScratch input).1 (before ++ (openJoin s recoverFromScratch input).2 ++ after) := by
  obtain ⟨hwriter, hreaders, hjoinable, hentry⟩ := h.writing rfl
  obtain ⟨hempty, hlocked⟩ := h.guarding rfl
  unfold Federations.openJoin
  split
  · refine h.advance (.inl rfl) ?_
    constructor
    case rests =>
      intro _
      rcases hjoinable with hstate | hstate <;> simp [System.Rests, System.release, System.unlock, *]
    all_goals rcases hjoinable with hstate | hstate <;> simp [System.release, System.unlock, System.Recovers, h.calm, *]
  · refine h.advance (.inl rfl) ?_
    constructor
    case fits =>
      simp only [List.mem_singleton, forall_eq]
      exact fun _ => ⟨hjoinable, hentry, owns_create hempty _⟩
    all_goals rcases hjoinable with hstate | hstate <;> simp [System.create, System.Recovers, h.calm, *]

theorem Inv.registerJoin {fed : FederationRef} (h : Inv s (before ++ .joinRegistering fed :: after)) :
    Inv (registerJoin s fed).1 (before ++ (registerJoin s fed).2 ++ after) := by
  obtain ⟨hwriter, hreaders, hjoinable, hentry, howns⟩ := h.writing rfl
  unfold Federations.registerJoin
  rw [hentry]
  refine h.advance (.inl rfl) ?_
  constructor
  case fits =>
    simp only [List.mem_singleton, forall_eq]
    exact fun _ => ⟨hjoinable, rfl, howns⟩
  all_goals rcases hjoinable with hstate | hstate <;> simp [System.Recovers, h.calm, *]

theorem Inv.finishJoin {fed : FederationRef} (h : Inv s (before ++ .joinFinishing fed :: after)) :
    Inv (finishJoin s fed).1 (before ++ (finishJoin s fed).2 ++ after) := by
  obtain ⟨hwriter, hreaders, hjoinable, hentry, howns⟩ := h.writing rfl
  unfold Federations.finishJoin System.monitor System.ready
  rcases howns.startBackgroundTasks with ⟨hrecovering, hstart⟩ | ⟨hready, federation, hstart, href, howned, hnot⟩
  · simp only [hstart, hrecovering, if_true]
    refine h.advance (.inl rfl) ?_
    constructor
    case fits => simpa [Task.Fits] using ⟨hentry, howns⟩
    all_goals rcases hjoinable with hstate | hstate <;> simp [System.Recovers, List.countP_cons, h.calm, *]
  · have hnormal : System.isRecovering { s with federations := [federation] } fed = false := by
      simp [System.isRecovering, System.find, href, hnot]
    simp only [hstart, hready, hnormal, Bool.false_eq_true, if_false]
    have howns' : System.Owns { s with state := some (.normal fed), federations := [federation] } fed :=
      ⟨federation, rfl, href, howned⟩
    have hlength : s.federations.length = 1 := by
      obtain ⟨_, hsingle, -⟩ := howns
      rw [hsingle]
      rfl
    refine h.advance (.inl rfl) ?_
    constructor
    case fits => simpa [Task.Fits] using ⟨hentry, howns'⟩
    all_goals rcases hjoinable with hstate | hstate <;> simp [System.Recovers, List.countP_cons, h.calm, *]

theorem Inv.announceJoin {fed : FederationRef} (h : Inv s (before ++ .joinAnnouncing fed :: after)) :
    Inv (announceJoin s fed).1 (before ++ (announceJoin s fed).2 ++ after) := by
  obtain ⟨hwriter, hreaders, hstate, hentry, howns⟩ := h.writing rfl
  obtain ⟨federation, hclone, href, howned, -⟩ := howns.clone
  unfold Federations.announceJoin
  rw [hclone]
  have howns' : System.Owns (System.release { s with federations := [federation] }) fed :=
    ⟨federation, rfl, href, howned⟩
  have hlength : s.federations.length = 1 := by
    obtain ⟨_, hsingle, -⟩ := howns
    rw [hsingle]
    rfl
  refine h.advance (.inl rfl) ?_
  constructor
  case rests =>
    intro _
    rcases hstate with hstate | hstate
    all_goals
      unfold System.Rests
      simp only [System.release, hstate]
      exact ⟨hentry, federation, rfl, href, howned⟩
  all_goals rcases hstate with hstate | hstate <;> simp [System.release, System.Recovers, h.calm, *]

theorem Inv.openLoad {input : Input} (h : Inv s (before ++ .loadOpening :: after)) :
    Inv (openLoad s input).1 (before ++ (openLoad s input).2 ++ after) := by
  obtain ⟨hwriter, hreaders, hstate, hentry⟩ := h.writing rfl
  obtain ⟨hempty, hlocked⟩ := h.guarding rfl
  unfold Federations.openLoad
  split
  · refine h.advance (.inl rfl) ?_
    constructor <;> simp [System.Rests, System.release, System.unlock, System.Recovers, h.calm, *]
  · have howns := owns_create hempty input.recovering
    rcases howns.startBackgroundTasks with ⟨-, hstart⟩ | ⟨-, federation, hstart, href, howned, -⟩
    · rw [hstart]
      refine h.advance (.inl rfl) ?_
      constructor
      case fits =>
        simp only [List.mem_singleton, forall_eq]
        exact fun _ => ⟨hstate, hentry, howns⟩
      all_goals simp [System.create, System.Recovers, List.countP_cons, h.calm, *]
    · rw [hstart]
      refine h.advance (.inl rfl) ?_
      constructor
      case fits =>
        simp only [List.mem_cons, List.not_mem_nil, or_false, forall_eq_or_imp, forall_eq]
        exact ⟨fun _ => ⟨hstate, hentry, federation, rfl, href, howned⟩, fun hfalse => (by cases hfalse)⟩
      all_goals simp [System.create, System.Recovers, List.countP_cons, h.calm, *]

theorem Inv.announceLoad {fed : FederationRef} (h : Inv s (before ++ .loadAnnouncing fed :: after)) :
    Inv (announceLoad s fed).1 (before ++ (announceLoad s fed).2 ++ after) := by
  obtain ⟨hwriter, hreaders, hstate, hentry, howns⟩ := h.writing rfl
  unfold Federations.announceLoad System.monitor System.ready
  refine h.advance (.inl rfl) ?_
  obtain ⟨federation, hsingle, href, howned⟩ := howns
  cases s.isRecovering fed with
  | true =>
    constructor
    case rests => exact fun _ => ⟨hentry, federation, hsingle, href, howned⟩
    all_goals simp [System.release, System.Recovers, h.calm, *]
  | false =>
    constructor
    case rests => exact fun _ => ⟨hentry, federation, hsingle, href, howned⟩
    all_goals simp [System.release, System.Recovers, h.calm, *]

theorem Inv.stopRecovered {fed : FederationRef} (h : Inv s (before ++ .monitorStopping fed :: after)) :
    Inv (stopRecovered s fed false).1 (before ++ (stopRecovered s fed false).2 ++ after) := by
  obtain ⟨hwriter, hreaders, hstate, hentry, howns⟩ := h.writing rfl
  refine h.advance (.inl rfl) ?_
  constructor
  case fits =>
    simp only [Federations.stopRecovered, Bool.false_eq_true, if_false, List.mem_singleton, forall_eq]
    exact fun _ => ⟨hstate, hentry, howns⟩
  all_goals simp [Federations.stopRecovered, System.Recovers, h.calm, *]

/-- A task that waits for the last clone goes on with the value, or waits on. -/
theorem Inv.unwrap {fed : FederationRef} {taken : Task} (h : Inv s (before ++ task :: after))
    (hwrites : task.writes = true ∧ task.reads = false ∧ task.guards = false ∧ task.monitors = false ∧
      task.loads = false)
    (htaken : taken.writes = true ∧ taken.reads = false ∧ taken.guards = true ∧ taken.monitors = false ∧
      taken.loads = false)
    (howns : s.Owns fed) (hstate : s.state = some .dead ∨ s.state = some .left)
    (hfits : ∀ federations, taken.Fits { s with federations := federations }) :
    Inv (s.unwrap task fed taken).1 (before ++ (s.unwrap task fed taken).2 ++ after) := by
  obtain ⟨hwriter, hreaders, -⟩ := h.writing hwrites.1
  obtain ⟨federation, hsingle, href, howned⟩ := howns
  unfold System.unwrap
  rw [find_single hsingle, if_pos href]
  dsimp only
  split
  · refine h.advance (.inl hwrites.1) ?_
    constructor
    case fits =>
      simp only [List.mem_singleton, forall_eq]
      exact fun _ => hfits _
    all_goals
      rcases hstate with hstate | hstate
      all_goals
        simp [-Task.writes, -Task.reads, -Task.guards, -Task.monitors, -Task.loads, System.Recovers, h.calm, *]
  · simpa using h

theorem Inv.closeRecovered (h : Inv s (before ++ .monitorClosing :: after)) :
    Inv (closeRecovered s).1 (before ++ (closeRecovered s).2 ++ after) := by
  obtain ⟨hwriter, hreaders, hstate, hentry⟩ := h.writing rfl
  obtain ⟨version, hversion⟩ := Option.isSome_iff_exists.mp hentry
  unfold Federations.closeRecovered
  rw [hversion]
  refine h.advance (.inl rfl) ?_
  constructor
  case fits =>
    simp only [List.mem_singleton, forall_eq]
    exact fun _ => ⟨hstate, hentry⟩
  all_goals simp [System.Recovers, h.calm, *]

theorem Inv.reopenRecovered {input : Input} (h : Inv s (before ++ .monitorReopening :: after))
    (hlawful : input.fails = false → input.recovering = false) :
    Inv (reopenRecovered s input).1 (before ++ (reopenRecovered s input).2 ++ after) := by
  obtain ⟨hwriter, hreaders, hstate, hentry⟩ := h.writing rfl
  obtain ⟨hempty, hlocked⟩ := h.guarding rfl
  unfold Federations.reopenRecovered
  split
  · refine h.advance (.inl rfl) ?_
    constructor <;> simp [System.Rests, System.release, System.unlock, System.Recovers, h.calm, *]
  next hok =>
    rw [hlawful (by simpa using hok), if_neg (by simp)]
    have howns := owns_create hempty false
    rcases howns.startBackgroundTasks with ⟨hrecovering, -⟩ | ⟨-, federation, hstart, href, howned, -⟩
    · rw [isRecovering_create hempty] at hrecovering
      cases hrecovering
    · rw [hstart]
      refine h.advance (.inl rfl) ?_
      constructor
      case fits =>
        simp only [List.mem_cons, List.not_mem_nil, or_false, forall_eq_or_imp, forall_eq]
        exact ⟨fun _ => ⟨hstate, hentry, federation, rfl, href, howned⟩, fun hfalse => (by cases hfalse)⟩
      all_goals simp [System.create, System.Recovers, List.countP_cons, h.calm, *]

theorem Inv.checkRecovered {fed : FederationRef} {noncesReused : Bool}
    (h : Inv s (before ++ .monitorChecking fed :: after)) :
    Inv (checkRecovered s fed noncesReused).1 (before ++ (checkRecovered s fed noncesReused).2 ++ after) := by
  obtain ⟨hwriter, hreaders, hstate, hentry, federation, hsingle, href, howned⟩ := h.writing rfl
  have hlocked := h.locked_of_owns ⟨federation, hsingle, href, howned⟩
  unfold Federations.checkRecovered
  split
  · refine h.advance (.inl rfl) ?_
    constructor
    case rests => exact fun _ => ⟨hentry, federation, hsingle, href, howned⟩
    all_goals simp [System.release, System.Recovers, h.calm, *]
  · split
    · refine h.advance (.inl rfl) ?_
      constructor
      case fits =>
        simp only [List.mem_singleton, forall_eq]
        exact fun _ => ⟨rfl, hentry, federation, hsingle, href, howned⟩
      all_goals simp [System.Recovers, h.calm, *]
    · refine h.advance (.inl rfl) ?_
      constructor
      case rests => exact fun _ => ⟨hentry, federation, hsingle, href, howned⟩
      all_goals simp [System.release, System.Recovers, h.calm, *]

theorem Inv.unregister {fed : FederationRef} (h : Inv s (before ++ .leaveUnregistering fed :: after)) :
    Inv (unregister s fed).1 (before ++ (unregister s fed).2 ++ after) := by
  obtain ⟨hwriter, hreaders, hstate, hentry, howns⟩ := h.writing rfl
  obtain ⟨version, hversion⟩ := Option.isSome_iff_exists.mp hentry
  unfold Federations.unregister
  rw [hversion]
  refine h.advance (.inl rfl) ?_
  constructor
  case fits =>
    simp only [List.mem_singleton, forall_eq]
    exact fun _ => ⟨hstate, rfl, howns⟩
  all_goals simp [System.Recovers, h.calm, *]

theorem Inv.stopLeft {fed : FederationRef} {fails : Bool} (h : Inv s (before ++ .leaveStopping fed :: after)) :
    Inv (stopLeft s fed fails).1 (before ++ (stopLeft s fed fails).2 ++ after) := by
  obtain ⟨hwriter, hreaders, hstate, hentry, howns⟩ := h.writing rfl
  have hlocked := h.locked_of_owns howns
  have hlength : s.federations.length = 1 := by
    obtain ⟨_, hsingle, -⟩ := howns
    rw [hsingle]
    rfl
  unfold Federations.stopLeft
  cases fails with
  | true =>
    refine h.advance (.inl rfl) ?_
    -- the value stays alive when others hold clones of it
    rcases howns.abandon with habandon | ⟨federation, habandon⟩
    all_goals
      simp only [habandon, if_true]
      constructor <;> simp [System.Rests, System.release, System.Recovers, h.calm, *]
  | false =>
    refine h.advance (.inl rfl) ?_
    constructor
    case fits =>
      simp only [Bool.false_eq_true, if_false, List.mem_singleton, forall_eq]
      exact fun _ => ⟨hstate, hentry, howns⟩
    all_goals simp [System.Recovers, h.calm, *]

theorem Inv.closeLeft (h : Inv s (before ++ .leaveClosing :: after)) :
    Inv s (before ++ [.leaveDeleting] ++ after) := by
  obtain ⟨hwriter, hreaders, hstate, hentry⟩ := h.writing rfl
  refine h.advance (.inl rfl) ?_
  constructor
  case fits =>
    simp only [List.mem_singleton, forall_eq]
    exact fun _ => ⟨hstate, hentry⟩
  all_goals simp [System.Recovers, h.calm, *]

theorem Inv.deleteLeft (h : Inv s (before ++ .leaveDeleting :: after)) :
    Inv s.unlock.release (before ++ [] ++ after) := by
  obtain ⟨hwriter, hreaders, hstate, hentry⟩ := h.writing rfl
  obtain ⟨hempty, hlocked⟩ := h.guarding rfl
  refine h.advance (.inl rfl) ?_
  constructor <;> simp [System.Rests, System.unlock, System.release, System.Recovers, h.calm, *]

/-! ### In front of the state lock -/

theorem Inv.write {f : System → System × List Task} (h : Inv s (before ++ task :: after))
    (hf : s.writer = false → s.readers = 0 →
      Inv (f { s with writer := true }).1 (before ++ (f { s with writer := true }).2 ++ after)) :
    Inv (s.write task f).1 (before ++ (s.write task f).2 ++ after) := by
  unfold System.write
  split
  · simpa using h
  next hfree =>
    rw [not_or, Bool.not_eq_true, Nat.not_lt, Nat.le_zero] at hfree
    exact hf hfree.1 hfree.2

/-- A transition that finds nothing to do gives the lock back. -/
theorem Inv.giveBack (h : Inv s (before ++ task :: after)) (htask : task.plain) (hfree : s.writer = false) :
    Inv ({ s with writer := true } : System).release (before ++ [] ++ after) := by
  refine h.plain htask ?_ (by simp)
  exact ⟨rfl, hfree.symm, rfl, rfl, rfl, rfl, fun _ howns => howns, fun hempty => hempty⟩

/-- A value, or a transition, holds the guard. -/
theorem Inv.unlocked {tasks : List Task} (h : Inv s tasks) (hfree : s.writer = false) (hempty : s.federations = []) :
    s.locked = false := by
  have hwriters := h.writers
  have hguarded := h.guarded
  have hle : tasks.countP Task.guards ≤ tasks.countP Task.writes := by
    refine List.countP_mono_left fun x _ hguards => ?_
    cases x <;> simp at hguards ⊢
  rw [hempty, List.length_nil] at hguarded
  rw [hfree] at hwriters
  cases hlocked : s.locked with
  | false => rfl
  | true =>
    simp only [hlocked, held, Bool.false_eq_true, if_true, if_false] at hguarded hwriters
    omega

theorem Inv.beginJoin {recoverFromScratch fails : Bool}
    (h : Inv s (before ++ .joinWaiting recoverFromScratch :: after)) (hfree : s.writer = false)
    (hreaders : s.readers = 0) (hlawful : s.state = some .left → fails = false → s.federations = []) :
    Inv (beginJoin { s with writer := true } recoverFromScratch fails).1
      (before ++ (beginJoin { s with writer := true } recoverFromScratch fails).2 ++ after) := by
  have hrests := h.rests hfree
  have hgives := h.giveBack ⟨rfl, rfl, rfl, rfl, rfl⟩ hfree
  have hopens : s.Joinable → s.joinedFederation = none → s.federations = [] →
      Inv { s with writer := true, locked := true } (before ++ [.joinOpening recoverFromScratch] ++ after) := by
    intro hjoinable hentry hempty
    have hlocked := h.unlocked hfree hempty
    refine h.advance (.inr hfree) ?_
    constructor
    case fits =>
      simp only [List.mem_singleton, forall_eq]
      exact fun _ => ⟨hjoinable, hentry⟩
    all_goals
      rcases hjoinable with hstate | hstate
      all_goals simp [System.Recovers, h.calm, *]
  unfold System.Rests at hrests
  unfold Federations.beginJoin
  cases hstate : s.state with
  | none => simpa [hstate] using hgives
  | some state =>
    cases state with
    | newForJoin =>
      rw [hstate] at hrests
      cases fails with
      | true => simpa [hstate] using hgives
      | false =>
        have hlocked := h.unlocked hfree hrests.2
        simpa [System.lock, hlocked, hstate] using hopens (.inl hstate) hrests.1 hrests.2
    | left =>
      rw [hstate] at hrests
      cases fails with
      | true => simpa [hstate] using hgives
      | false =>
        have hempty := hlawful hstate rfl
        have hlocked := h.unlocked hfree hempty
        simpa [System.lock, hlocked, hstate] using hopens (.inr hstate) hrests hempty
    | _ => simpa [hstate] using hgives

theorem Inv.beginLoad (h : Inv s (before ++ .loadWaiting :: after)) (hfree : s.writer = false)
    (hreaders : s.readers = 0) :
    Inv (beginLoad { s with writer := true }).1 (before ++ (beginLoad { s with writer := true }).2 ++ after) := by
  have hstate := h.loading .loadWaiting (by simp) rfl
  have hrests := h.rests hfree
  unfold System.Rests at hrests
  rw [hstate] at hrests
  have hlocked := h.unlocked hfree hrests.2
  unfold Federations.beginLoad System.lock
  simp only [hstate, hlocked, Bool.false_eq_true, if_false]
  refine h.advance (.inr hfree) ?_
  constructor
  case fits =>
    simp only [List.mem_singleton, forall_eq]
    exact fun _ => ⟨rfl, hrests.1⟩
  all_goals simp [System.Recovers, h.calm, *]

theorem Inv.beginLeave (h : Inv s (before ++ .leaveWaiting :: after)) (hfree : s.writer = false)
    (hreaders : s.readers = 0) :
    Inv (beginLeave { s with writer := true }).1 (before ++ (beginLeave { s with writer := true }).2 ++ after) := by
  have hgives := h.giveBack ⟨rfl, rfl, rfl, rfl, rfl⟩ hfree
  have hrests := h.rests hfree
  unfold System.Rests at hrests
  unfold Federations.beginLeave
  split
  next fed hstate =>
    dsimp only at hstate
    rw [hstate] at hrests
    obtain ⟨hentry, federation, hsingle, href, howned⟩ := hrests
    refine h.advance (.inr hfree) ?_
    constructor
    case fits =>
      simp only [List.mem_singleton, forall_eq]
      exact fun _ => ⟨rfl, hentry, federation, hsingle, href, howned⟩
    all_goals simp [System.Recovers, h.calm, *]
  · exact hgives

theorem Inv.beginMonitor (h : Inv s (before ++ .monitorWaiting :: after)) :
    Inv (beginMonitor s).1 (before ++ (beginMonitor s).2 ++ after) := by
  obtain ⟨recovering, hrecovering⟩ := h.monitored .monitorWaiting (by simp) rfl
  unfold Federations.beginMonitor
  split
  · simpa using h
  next hbusy =>
    rw [Bool.not_eq_true] at hbusy
    split
    next fed hstate =>
      refine h.advance (.inr hbusy) ?_
      constructor
      case rests => exact h.rests
      all_goals simp [System.Recovers, h.calm, *]
    next hother => exact absurd hrecovering (hother recovering)

theorem Inv.awaitRecovery {fed : FederationRef} {fails : Bool} (h : Inv s (before ++ .monitorRecovering fed :: after)) :
    Inv (awaitRecovery s fails).1 (before ++ (awaitRecovery s fails).2 ++ after) := by
  obtain ⟨recovering, hstate⟩ := h.monitored (.monitorRecovering fed) (by simp) rfl
  have hreaders := h.readers
  rw [countP_task] at hreaders
  have hpositive : 0 < s.readers := by
    simp at hreaders
    omega
  have hwriter : s.writer = false := by
    by_contra hbusy
    have := h.exclusive (by simpa using hbusy)
    omega
  unfold Federations.awaitRecovery
  refine h.advance (.inr hwriter) ?_
  cases fails
  all_goals
    constructor
    case rests => exact h.rests
    case readers =>
      simp
      omega
    all_goals simp [System.Recovers, h.calm, *]

theorem Inv.upgradeMonitor (h : Inv s (before ++ .monitorUpgrading :: after)) (hfree : s.writer = false)
    (hreaders : s.readers = 0) :
    Inv (upgradeMonitor { s with writer := true }).1
      (before ++ (upgradeMonitor { s with writer := true }).2 ++ after) := by
  obtain ⟨fed, hstate⟩ := h.monitored .monitorUpgrading (by simp) rfl
  have hrests := h.rests hfree
  unfold System.Rests at hrests
  rw [hstate] at hrests
  obtain ⟨hentry, federation, hsingle, href, howned⟩ := hrests
  unfold Federations.upgradeMonitor
  simp only [hstate]
  refine h.advance (.inr hfree) ?_
  constructor
  case fits =>
    simp only [List.mem_singleton, forall_eq]
    exact fun _ => ⟨rfl, hentry, federation, hsingle, href, howned⟩
  all_goals simp [System.Recovers, h.calm, *]

/-- A transition that runs finds the federation in the map. -/
theorem Inv.free_of_none {tasks : List Task} (h : Inv s tasks) (hnone : s.state = none) : s.writer = false := by
  by_contra hbusy
  have hwriters := h.writers
  rw [Bool.not_eq_false] at hbusy
  rw [hbusy] at hwriters
  have hpositive : 0 < tasks.countP Task.writes := by simp [hwriters]
  obtain ⟨task, htask, hwrites⟩ := List.countP_pos_iff.mp hpositive
  have hfits := h.fits task htask hwrites
  unfold Task.Fits System.Joinable at hfits
  cases task <;> simp [hnone] at hfits hwrites

theorem Inv.startJoin {recoverFromScratch : Bool} (h : Inv s (before ++ .joinStarting recoverFromScratch :: after)) :
    Inv { s with state := some (s.state.getD .newForJoin) }
      (before ++ [.joinFetching recoverFromScratch] ++ after) := by
  cases hstate : s.state with
  | some state =>
    refine h.plain ⟨rfl, rfl, rfl, rfl, rfl⟩ ?_ (by simp [Task.plain])
    exact ⟨hstate.symm, rfl, rfl, rfl, rfl, rfl, fun _ howns => howns, fun hempty => hempty⟩
  | none =>
    have hfree := h.free_of_none hstate
    have hrests := h.rests hfree
    unfold System.Rests at hrests
    rw [hstate] at hrests
    refine h.advance (.inr hfree) ?_
    constructor
    case rests => exact fun _ => hrests
    all_goals simp [System.Recovers, h.calm, *]

/-! ## Runs -/

/-- Every task keeps the invariant. -/
theorem inv_run (s : System) (before : List Task) (task : Task) (after : List Task) (input : Input)
    (h : Inv s (before ++ task :: after)) (hlawful : Lawful s (before ++ after) task input) :
    Inv (run s task input).1 (before ++ (run s task input).2 ++ after) := by
  cases task with
  | joinStarting recoverFromScratch => exact h.startJoin
  | joinFetching recoverFromScratch =>
    have hplain : (Task.joinFetching recoverFromScratch).plain := ⟨rfl, rfl, rfl, rfl, rfl⟩
    unfold run
    dsimp only
    split
    · exact h.plain hplain (cloned_refl s) (by simp)
    · exact h.plain hplain (cloned_refl s) (by simp [Task.plain])
  | joinWaiting recoverFromScratch =>
    exact h.write fun hfree hreaders => h.beginJoin hfree hreaders (hlawful hfree hreaders)
  | joinOpening recoverFromScratch => exact h.openJoin
  | joinRegistering fed => exact h.registerJoin
  | joinFinishing fed => exact h.finishJoin
  | joinAnnouncing fed => exact h.announceJoin
  | loadWaiting => exact h.write fun hfree hreaders => h.beginLoad hfree hreaders
  | loadOpening => exact h.openLoad
  | loadAnnouncing fed => exact h.announceLoad
  | monitorWaiting => exact h.beginMonitor
  | monitorRecovering fed => exact h.awaitRecovery
  | monitorUpgrading => exact h.write fun hfree hreaders => h.upgradeMonitor hfree hreaders
  | monitorStopping fed =>
    unfold run
    rw [show input.fails = false from hlawful]
    exact h.stopRecovered
  | monitorUnique fed =>
    obtain ⟨-, -, hstate, hentry, howns⟩ := h.writing rfl
    exact h.unwrap ⟨rfl, rfl, rfl, rfl, rfl⟩ ⟨rfl, rfl, rfl, rfl, rfl⟩ howns (.inl hstate) fun _ => ⟨hstate, hentry⟩
  | monitorClosing => exact h.closeRecovered
  | monitorReopening => exact h.reopenRecovered hlawful
  | monitorChecking fed => exact h.checkRecovered
  | leaveWaiting => exact h.write fun hfree hreaders => h.beginLeave hfree hreaders
  | leaveUnregistering fed => exact h.unregister
  | leaveStopping fed => exact h.stopLeft
  | leaveUnique fed =>
    obtain ⟨-, -, hstate, hentry, howns⟩ := h.writing rfl
    exact h.unwrap ⟨rfl, rfl, rfl, rfl, rfl⟩ ⟨rfl, rfl, rfl, rfl, rfl⟩ howns (.inr hstate) fun _ => ⟨hstate, hentry⟩
  | leaveClosing => exact h.closeLeft
  | leaveDeleting => exact h.deleteLeft
  | rpcStarting =>
    have hplain : (Task.rpcStarting).plain := ⟨rfl, rfl, rfl, rfl, rfl⟩
    unfold run getFederation
    dsimp only
    split
    · exact h.plain hplain (cloned_refl s) (by simp)
    · split
      · exact h.plain hplain (h.clone _) (by simp [Task.plain])
      · exact h.plain hplain (h.clone _) (by simp [Task.plain])
      · exact h.plain hplain (cloned_refl s) (by simp)
  | rpc fed =>
    have hplain : (Task.rpc fed).plain := ⟨rfl, rfl, rfl, rfl, rfl⟩
    unfold run
    dsimp only
    split
    · exact h.plain hplain (h.clone fed) (by simp [Task.plain])
    · exact h.plain hplain (h.dropClone fed) (by simp)

theorem inv_call (s : System) (tasks : List Task) (c : Call) (h : Inv s tasks) : Inv s (tasks ++ [start c]) := by
  have hplain : (start c).plain := by cases c <;> exact ⟨rfl, rfl, rfl, rfl, rfl⟩
  obtain ⟨hw, hr, hg, hm, hl⟩ := hplain
  constructor
  case writers => simpa [-Task.writes, List.countP_append, hw] using h.writers
  case readers => simpa [-Task.reads, List.countP_append, hr] using h.readers
  case exclusive => exact h.exclusive
  case fits => simpa [-Task.writes, or_imp, forall_and, hw] using h.fits
  case rests => exact h.rests
  case guarded => simpa [-Task.guards, List.countP_append, hg] using h.guarded
  case monitors => simpa [-Task.monitors, List.countP_append, hm] using h.monitors
  case monitored => simpa [-Task.monitors, or_imp, forall_and, hm] using h.monitored
  case loads => simpa [-Task.loads, List.countP_append, hl] using h.loads
  case loading => simpa [-Task.loads, or_imp, forall_and, hl] using h.loading
  case loaded => simpa [-Task.loads, or_and_right, exists_or, hl] using h.loaded
  case calm => exact h.calm

theorem inv_initial {joinedFederation : Option ℕ} (h : Loadable joinedFederation) :
    Inv (initial joinedFederation).state (initial joinedFederation).tasks := by
  cases joinedFederation with
  | none => constructor <;> simp [initial, System.Rests]
  | some version =>
    have hversion : ¬ version < 2 := Nat.not_lt.mpr (h version rfl)
    constructor <;> simp [initial, hversion, System.Rests]

theorem Inv.sound {tasks : List Task} (h : Inv s tasks) : Sound s tasks := by
  constructor
  case calm => exact h.calm
  case single =>
    have hguarded := h.guarded
    have hle := held_le s.locked
    have howns : tasks.countP Task.owns ≤ tasks.countP Task.guards := by
      refine List.countP_mono_left fun x _ howns => ?_
      cases x <;> simp at howns ⊢
    omega
  case agrees =>
    rintro ⟨hfree, hloads⟩
    have hrests := h.rests hfree
    unfold System.Rests at hrests
    unfold System.Settled
    cases hstate : s.state with
    | none => simp [hstate] at hrests ⊢; exact hrests.1
    | some state =>
      rw [hstate] at hrests
      cases state with
      | newForLoad =>
        obtain ⟨task, htask, hload⟩ := h.loaded hstate
        rw [hloads task htask] at hload
        cases hload
      | dead => exact hrests.elim
      | newForJoin => simp [hrests.1]
      | left => simp [hrests]
      | loadFailed => simp [hrests]
      | normal fed => simp [hrests.1]
      | recovering fed => simp [hrests.1]

/-- Every run that meets the conditions is sound. -/
theorem sound_of_run (joinedFederation : Option ℕ) (es : List (Event Call Input)) (hloadable : Loadable joinedFederation)
    (hlawful : Along start run Lawful (initial joinedFederation) es) :
    Sound (lifecycle joinedFederation es).state (lifecycle joinedFederation es).tasks :=
  (pool_induction (inv_initial hloadable) inv_call inv_run hlawful).sound

/-- Every step is taken, and no RPC clones. -/
def plainInput : Input := ⟨false, false, false, false, false⟩

/-- The federation is joined, with recoveries that are not complete. -/
def joinedToRecover : List (Event Call Input) :=
  [ .call (.join false), .advance 0 plainInput, .advance 0 plainInput, .advance 0 plainInput,
    .advance 0 { plainInput with recovering := true }, .advance 0 plainInput, .advance 0 plainInput,
    .advance 0 plainInput, .advance 0 plainInput ]

/-- The recovery is complete, and the federation is left while an RPC holds a clone. -/
def recoveredAndLeft : List (Event Call Input) :=
  joinedToRecover ++ List.replicate 8 (.advance 0 plainInput) ++
    [ .call .rpc, .advance 1 plainInput, .advance 0 plainInput, .call .leave, .advance 1 plainInput,
      .advance 1 plainInput, .advance 1 plainInput, .advance 1 plainInput, .advance 0 plainInput,
      .advance 0 plainInput, .advance 0 plainInput, .advance 0 plainInput ]

theorem sound_of_run_demo : Sound (lifecycle none recoveredAndLeft).state (lifecycle none recoveredAndLeft).tasks :=
  sound_of_run none recoveredAndLeft (by intro version h; cases h) (by decide +kernel)

/-- The recovery is complete, and the task group does not shut down. -/
def recoveredAndStuck : List (Event Call Input) :=
  joinedToRecover ++
    [ .advance 0 plainInput, .advance 0 plainInput, .advance 0 plainInput, .advance 0 { plainInput with fails := true } ]

/-- The federation is in `AppState` and its state machine is dead. -/
theorem shutdown_strands : ¬ ∀ joinedFederation es, Loadable joinedFederation →
    Sound (lifecycle joinedFederation es).state (lifecycle joinedFederation es).tasks := by
  intro h
  have hsound := h none recoveredAndStuck (by intro version h; cases h)
  have hrest : AtRest (lifecycle none recoveredAndStuck).state (lifecycle none recoveredAndStuck).tasks :=
    ⟨by decide +kernel, by decide +kernel⟩
  have hstate : (lifecycle none recoveredAndStuck).state.state = some .dead := by decide +kernel
  rcases (hsound.agrees hrest).mpr (by decide +kernel) with hfailed | ⟨fed, hnormal⟩ | ⟨fed, hrecovering⟩
  · simp [hstate] at hfailed
  · simp [hstate] at hnormal
  · simp [hstate] at hrecovering

end Federations
