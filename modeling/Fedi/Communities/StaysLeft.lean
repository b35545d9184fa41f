import Fedi.Communities.Service

/-!
# Left communities stay left

Once nothing is in flight, the map in memory and `AppState` have the same keys and none of
them was left, in every run whose writes meet two conditions (`staysLeft_of_run`): a write to
`AppState` agrees with the map by then, or another write in flight will correct it; and a
redirect is of a community that is still in the map, to an invite that was not left.

Neither is checked.  A refresh that cloned the map before a community was left writes its
changed metadata to `AppState` afterwards (`refresh_resurrects`).
-/

namespace Communities

open BTreeMaps Tasks

/-! ## What is promised -/

def System.InMemory (s : System) (code : String) : Prop := (s.communities.get? code).isSome

def System.InAppState (s : System) (code : String) : Prop := (s.joinedCommunities.get? code).isSome

instance (s : System) (code : String) : Decidable (s.InMemory code) :=
  inferInstanceAs (Decidable ((s.communities.get? code).isSome = true))

instance (s : System) (code : String) : Decidable (s.InAppState code) :=
  inferInstanceAs (Decidable ((s.joinedCommunities.get? code).isSome = true))

/-- What was left is in neither map, and the maps have the same keys. -/
structure StaysLeft (s : System) : Prop where
  left : ∀ code ∈ s.left, ¬ s.InMemory code ∧ ¬ s.InAppState code
  agree : ∀ code, s.InMemory code ↔ s.InAppState code

section

variable (cfg : Config)

/-! ## The conditions -/

/-- The task is about to put the invite in `AppState`. -/
def Task.Inserts (code : String) : Task → Prop
  | .recordingJoin invite _ => cfg.codec.print invite = code
  | .recordingMigration _ newInvite _ => cfg.codec.print newInvite = code
  | .recordingUpdate oldInvite _ => cfg.codec.print oldInvite = code
  | _ => False

/-- The task is about to remove the invite from `AppState`. -/
def Task.Removes (code : String) : Task → Prop
  | .recordingLeave inviteCode => inviteCode = code
  | .recordingMigration oldInvite _ _ => cfg.codec.print oldInvite = code
  | _ => False

instance (code : String) (task : Task) : Decidable (task.Inserts cfg code) := by
  unfold Task.Inserts
  split <;> infer_instance

instance (code : String) (task : Task) : Decidable (task.Removes cfg code) := by
  unfold Task.Removes
  split <;> infer_instance

/-- Inserting the invite in `AppState` agrees with the map, or will be corrected. -/
def MayInsert (s : System) (others : List Task) (code : String) : Prop :=
  s.InMemory code ∨ ∃ task ∈ others, task.Removes cfg code

def MayRemove (s : System) (others : List Task) (code : String) : Prop :=
  ¬ s.InMemory code ∨ ∃ task ∈ others, task.Inserts cfg code

instance (s : System) (others : List Task) (code : String) : Decidable (MayInsert cfg s others code) :=
  inferInstanceAs (Decidable (_ ∨ _))

instance (s : System) (others : List Task) (code : String) : Decidable (MayRemove cfg s others code) :=
  inferInstanceAs (Decidable (_ ∨ _))

/-- The conditions on the writes of a task. -/
def Orderly (s : System) (others : List Task) (task : Task) (_ : Network) : Prop :=
  match task with
  | .recordingJoin invite _ => MayInsert cfg s others (cfg.codec.print invite)
  | .recordingLeave inviteCode => MayRemove cfg s others inviteCode
  | .migrating oldInvite newInvite _ =>
    (s.InMemory (cfg.codec.print oldInvite) ∨ s.InMemory (cfg.codec.print newInvite)) ∧
      cfg.codec.print newInvite ∉ s.left
  | .recordingMigration oldInvite newInvite _ =>
    MayInsert cfg s others (cfg.codec.print newInvite) ∧ MayRemove cfg s others (cfg.codec.print oldInvite)
  | .recordingUpdate oldInvite _ => MayInsert cfg s others (cfg.codec.print oldInvite)
  | _ => True

instance (s : System) (others : List Task) (task : Task) (network : Network) :
    Decidable (Orderly cfg s others task network) := by
  unfold Orderly
  split <;> infer_instance

/-! ## The invariant -/

/-- Where the maps disagree, a write to `AppState` is in flight. -/
structure Agreeing (s : System) (tasks : List Task) : Prop where
  inserted : ∀ code, s.InMemory code → s.InAppState code ∨ ∃ task ∈ tasks, task.Inserts cfg code
  removed : ∀ code, ¬ s.InMemory code → ¬ s.InAppState code ∨ ∃ task ∈ tasks, task.Removes cfg code
  left : ∀ code ∈ s.left, ¬ s.InMemory code

theorem Agreeing.staysLeft {s : System} (h : Agreeing cfg s []) : StaysLeft s := by
  have hinserted : ∀ code, s.InMemory code → s.InAppState code := by
    intro code hcode
    simpa using h.inserted code hcode
  have hremoved : ∀ code, ¬ s.InMemory code → ¬ s.InAppState code := by
    intro code hcode
    simpa using h.removed code hcode
  refine ⟨fun code hleft => ⟨h.left code hleft, hremoved code (h.left code hleft)⟩, fun code => ⟨hinserted code, ?_⟩⟩
  intro happ
  by_contra hcode
  exact hremoved code hcode happ

variable {cfg} {s : System} {before after : List Task} {task : Task}

/-! ### Membership after a write -/

theorem inMemory_insert {s s' : System} {code : String} {community : Community}
    (h : s'.communities = s.communities.insert code community) (code' : String) :
    s'.InMemory code' ↔ code' = code ∨ s.InMemory code' := by
  unfold System.InMemory
  rw [h, BTreeMap.get?_insert]
  by_cases hcode : code' = code <;> simp [hcode]

theorem inMemory_erase {s s' : System} {code : String} (h : s'.communities = s.communities.erase code)
    (code' : String) : s'.InMemory code' ↔ code' ≠ code ∧ s.InMemory code' := by
  unfold System.InMemory
  rw [h, BTreeMap.get?_erase]
  by_cases hcode : code' = code <;> simp [hcode]

theorem inMemory_replace {s s' : System} {oldCode newCode : String} {community : Community}
    (h : s'.communities = (s.communities.insert newCode community).erase oldCode) (code' : String) :
    s'.InMemory code' ↔ code' ≠ oldCode ∧ (code' = newCode ∨ s.InMemory code') := by
  unfold System.InMemory
  rw [h, BTreeMap.get?_erase, BTreeMap.get?_insert]
  by_cases hold : code' = oldCode <;> by_cases hnew : code' = newCode <;> simp [hold, hnew]

theorem inAppState_insert {s s' : System} {code : String} {info : CommunityInfo}
    (h : s'.joinedCommunities = s.joinedCommunities.insert code info) (code' : String) :
    s'.InAppState code' ↔ code' = code ∨ s.InAppState code' := by
  unfold System.InAppState
  rw [h, BTreeMap.get?_insert]
  by_cases hcode : code' = code <;> simp [hcode]

theorem inAppState_erase {s s' : System} {code : String}
    (h : s'.joinedCommunities = s.joinedCommunities.erase code) (code' : String) :
    s'.InAppState code' ↔ code' ≠ code ∧ s.InAppState code' := by
  unfold System.InAppState
  rw [h, BTreeMap.get?_erase]
  by_cases hcode : code' = code <;> simp [hcode]

theorem inAppState_replace {s s' : System} {oldCode newCode : String} {info : CommunityInfo}
    (h : s'.joinedCommunities = (s.joinedCommunities.insert newCode info).erase oldCode) (code' : String) :
    s'.InAppState code' ↔ code' ≠ oldCode ∧ (code' = newCode ∨ s.InAppState code') := by
  unfold System.InAppState
  rw [h, BTreeMap.get?_erase, BTreeMap.get?_insert]
  by_cases hold : code' = oldCode <;> by_cases hnew : code' = newCode <;> simp [hold, hnew]

/-! ### Steps that write neither map -/

/-- The step leaves both maps and what was left. -/
structure Unchanged (s s' : System) : Prop where
  communities : s'.communities = s.communities
  joinedCommunities : s'.joinedCommunities = s.joinedCommunities
  left : s'.left = s.left

theorem Agreeing.unchanged {s' : System} {next : List Task} (h : Agreeing cfg s (before ++ task :: after))
    (hinserts : ∀ code, ¬ task.Inserts cfg code) (hremoves : ∀ code, ¬ task.Removes cfg code)
    (hsame : Unchanged s s') : Agreeing cfg s' (before ++ next ++ after) := by
  have hmemory : ∀ code, s'.InMemory code ↔ s.InMemory code := fun code => by
    unfold System.InMemory
    rw [hsame.communities]
  have happ : ∀ code, s'.InAppState code ↔ s.InAppState code := fun code => by
    unfold System.InAppState
    rw [hsame.joinedCommunities]
  constructor
  case inserted =>
    intro code hcode
    rw [exists_next_iff, happ]
    have hbefore := h.inserted code ((hmemory code).mp hcode)
    rw [exists_task_iff] at hbefore
    have := hinserts code
    tauto
  case removed =>
    intro code hcode
    rw [exists_next_iff, happ]
    have hbefore := h.removed code (by rwa [hmemory] at hcode)
    rw [exists_task_iff] at hbefore
    have := hremoves code
    tauto
  case left =>
    intro code hcode
    rw [hmemory]
    exact h.left code (hsame.left ▸ hcode)

theorem fetchJoin_unchanged (network : Network) (inviteCode : String) :
    Unchanged s (fetchJoin cfg network s inviteCode).1 := by
  unfold fetchJoin
  split
  · exact ⟨rfl, rfl, rfl⟩
  · split
    · exact ⟨rfl, rfl, rfl⟩
    · split <;> exact ⟨rfl, rfl, rfl⟩

theorem readInfo_unchanged (community : Community) : Unchanged s (readInfo s community).1 := by
  unfold readInfo
  split
  · exact ⟨rfl, rfl, rfl⟩
  · split <;> exact ⟨rfl, rfl, rfl⟩

theorem fetchRefresh_unchanged (network : Network) (community : Community) (oldInfo : CommunityInfo) :
    Unchanged s (fetchRefresh cfg network s community oldInfo).1 := by
  unfold fetchRefresh
  split
  · exact ⟨rfl, rfl, rfl⟩
  · split
    · exact ⟨rfl, rfl, rfl⟩
    · split <;> exact ⟨rfl, rfl, rfl⟩

/-! ### Steps that write the map in memory -/

theorem Agreeing.insertJoin {invite : CommunityInvite} {info : CommunityInfo}
    (h : Agreeing cfg s (before ++ .joining invite info :: after)) :
    Agreeing cfg (insertJoin cfg s invite info).1 (before ++ (insertJoin cfg s invite info).2 ++ after) := by
  unfold Communities.insertJoin
  dsimp only
  split
  · exact h.unchanged (fun _ h => h) (fun _ h => h) ⟨rfl, rfl, rfl⟩
  · constructor
    case inserted =>
      intro code hcode
      rw [inMemory_insert rfl] at hcode
      rw [exists_next_iff]
      rcases hcode with rfl | hcode
      · exact .inr (.inl ⟨_, List.mem_singleton_self _, rfl⟩)
      · have hbefore := h.inserted code hcode
        rw [exists_task_iff] at hbefore
        exact hbefore.imp_right fun hpending => .inr (hpending.resolve_left fun h => h)
    case removed =>
      intro code hcode
      rw [inMemory_insert rfl, not_or] at hcode
      rw [exists_next_iff]
      have hbefore := h.removed code hcode.2
      rw [exists_task_iff] at hbefore
      exact hbefore.imp_right fun hpending => .inr (hpending.resolve_left fun h => h)
    case left =>
      intro code hcode
      rw [List.mem_filter, decide_eq_true_iff] at hcode
      rw [inMemory_insert rfl, not_or]
      exact ⟨hcode.2, h.left code hcode.1⟩

theorem Agreeing.removeLeft {inviteCode : String} (h : Agreeing cfg s (before ++ .leaving inviteCode :: after)) :
    Agreeing cfg (removeLeft s inviteCode).1 (before ++ (removeLeft s inviteCode).2 ++ after) := by
  unfold Communities.removeLeft
  split
  · exact h.unchanged (fun _ h => h) (fun _ h => h) ⟨rfl, rfl, rfl⟩
  · constructor
    case inserted =>
      intro code hcode
      rw [inMemory_erase rfl] at hcode
      rw [exists_next_iff]
      have hbefore := h.inserted code hcode.2
      rw [exists_task_iff] at hbefore
      exact hbefore.imp_right fun hpending => .inr (hpending.resolve_left fun h => h)
    case removed =>
      intro code hcode
      rw [exists_next_iff]
      by_cases hleft : code = inviteCode
      · exact .inr (.inl ⟨_, List.mem_singleton_self _, hleft.symm⟩)
      · rw [inMemory_erase rfl, not_and] at hcode
        have hbefore := h.removed code (hcode hleft)
        rw [exists_task_iff] at hbefore
        exact hbefore.imp_right fun hpending => .inr (hpending.resolve_left fun h => h)
    case left =>
      intro code hcode
      rw [inMemory_erase rfl, not_and]
      rcases List.mem_cons.mp hcode with rfl | hcode
      · exact fun hne => absurd rfl hne
      · exact fun _ => h.left code hcode

theorem Agreeing.migrate {oldInvite newInvite : CommunityInvite} {newInfo : CommunityInfo} {network : Network}
    (h : Agreeing cfg s (before ++ .migrating oldInvite newInvite newInfo :: after))
    (horderly : Orderly cfg s (before ++ after) (.migrating oldInvite newInvite newInfo) network) :
    Agreeing cfg (migrate cfg s oldInvite newInvite newInfo).1
      (before ++ (migrate cfg s oldInvite newInvite newInfo).2 ++ after) := by
  obtain ⟨hpresent, hnew⟩ := horderly
  have hleft : (Communities.migrate cfg s oldInvite newInvite newInfo).1.left = s.left := by
    unfold Communities.migrate System.InMemory at *
    dsimp only
    rw [if_neg]
    rintro ⟨hold, hnot⟩
    rw [Option.isNone_iff_eq_none] at hold hnot
    simp [hold, hnot] at hpresent
  constructor
  case inserted =>
    intro code hcode
    rw [inMemory_replace rfl] at hcode
    rw [exists_next_iff]
    rcases hcode with ⟨-, rfl | hcode⟩
    · exact .inr (.inl ⟨_, List.mem_singleton_self _, rfl⟩)
    · have hbefore := h.inserted code hcode
      rw [exists_task_iff] at hbefore
      exact hbefore.imp_right fun hpending => .inr (hpending.resolve_left fun h => h)
  case removed =>
    intro code hcode
    rw [exists_next_iff]
    by_cases hold : code = cfg.codec.print oldInvite
    · exact .inr (.inl ⟨_, List.mem_singleton_self _, hold.symm⟩)
    · rw [inMemory_replace rfl, not_and, not_or] at hcode
      have hbefore := h.removed code (hcode hold).2
      rw [exists_task_iff] at hbefore
      exact hbefore.imp_right fun hpending => .inr (hpending.resolve_left fun h => h)
  case left =>
    intro code hcode
    rw [hleft] at hcode
    rw [inMemory_replace rfl]
    rintro ⟨-, rfl | hmemory⟩
    · exact hnew hcode
    · exact h.left code hcode hmemory

/-! ### Steps that write `AppState` -/

/-- One write to `AppState` that inserts some invites and removes others. -/
theorem Agreeing.record {s' : System} (h : Agreeing cfg s (before ++ task :: after))
    (hmemory : s'.communities = s.communities) (hleft : s'.left = s.left)
    (happ : ∀ code, s'.InAppState code ↔
      ¬ task.Removes cfg code ∧ (task.Inserts cfg code ∨ s.InAppState code))
    (hinsert : ∀ code, task.Inserts cfg code → ¬ task.Removes cfg code → MayInsert cfg s (before ++ after) code)
    (hremove : ∀ code, task.Removes cfg code → MayRemove cfg s (before ++ after) code) :
    Agreeing cfg s' (before ++ [] ++ after) := by
  have hsame : ∀ code, s'.InMemory code ↔ s.InMemory code := fun code => by
    unfold System.InMemory
    rw [hmemory]
  rw [List.append_nil]
  constructor
  case inserted =>
    intro code hcode
    rw [hsame] at hcode
    rw [happ]
    have hbefore := h.inserted code hcode
    rw [exists_task_iff] at hbefore
    by_cases hremoves : task.Removes cfg code
    · exact .inr ((hremove code hremoves).resolve_left (not_not.mpr hcode))
    · tauto
  case removed =>
    intro code hcode
    rw [hsame] at hcode
    rw [happ]
    have hbefore := h.removed code hcode
    rw [exists_task_iff] at hbefore
    by_cases hremoves : task.Removes cfg code
    · exact .inl fun hin => hin.1 hremoves
    · by_cases hinserts : task.Inserts cfg code
      · exact .inr ((hinsert code hinserts hremoves).resolve_left hcode)
      · tauto
  case left =>
    intro code hcode
    rw [hsame]
    exact h.left code (hleft ▸ hcode)

/-- The step lemma: an advance that meets the conditions keeps the invariant. -/
theorem agreeing_run (network : Network) (h : Agreeing cfg s (before ++ task :: after))
    (horderly : Orderly cfg s (before ++ after) task network) :
    Agreeing cfg (run cfg s task network).1 (before ++ (run cfg s task network).2 ++ after) := by
  cases task with
  | starting inviteCode => exact h.unchanged (fun _ h => h) (fun _ h => h) (fetchJoin_unchanged network inviteCode)
  | joining invite info => exact h.insertJoin
  | recordingJoin invite info =>
    refine h.record rfl rfl (fun code => ?_) (fun code hcode _ => ?_) fun _ h => h.elim
    · rw [inAppState_insert rfl]
      simp [Task.Removes, Task.Inserts, eq_comm]
    · exact (show cfg.codec.print invite = code from hcode) ▸ horderly
  | leaving inviteCode => exact h.removeLeft
  | recordingLeave inviteCode =>
    refine h.record rfl rfl (fun code => ?_) (fun _ h => h.elim) fun code hcode => ?_
    · rw [inAppState_erase rfl]
      simp [Task.Removes, Task.Inserts, eq_comm]
    · exact (show inviteCode = code from hcode) ▸ horderly
  | cloning => exact h.unchanged (fun _ h => h) (fun _ h => h) ⟨rfl, rfl, rfl⟩
  | reading community => exact h.unchanged (fun _ h => h) (fun _ h => h) (readInfo_unchanged community)
  | refreshing community oldInfo =>
    exact h.unchanged (fun _ h => h) (fun _ h => h) (fetchRefresh_unchanged network community oldInfo)
  | migrating oldInvite newInvite newInfo => exact h.migrate horderly
  | recordingMigration oldInvite newInvite newInfo =>
    refine h.record rfl rfl (fun code => ?_) (fun code hcode _ => ?_) fun code hcode => ?_
    · rw [inAppState_replace rfl]
      simp [Task.Removes, Task.Inserts, eq_comm]
    · exact (show cfg.codec.print newInvite = code from hcode) ▸ horderly.1
    · exact (show cfg.codec.print oldInvite = code from hcode) ▸ horderly.2
  | updating community newInfo => exact h.unchanged (fun _ h => h) (fun _ h => h) ⟨rfl, rfl, rfl⟩
  | recordingUpdate oldInvite newInfo =>
    refine h.record rfl rfl (fun code => ?_) (fun code hcode _ => ?_) fun _ h => h.elim
    · rw [inAppState_insert rfl]
      simp [Task.Removes, Task.Inserts, eq_comm]
    · exact (show cfg.codec.print oldInvite = code from hcode) ▸ horderly

theorem agreeing_call (c : Call) {tasks : List Task} (h : Agreeing cfg s tasks) :
    Agreeing cfg s (tasks ++ [start c]) := by
  refine ⟨fun code hcode => ?_, fun code hcode => ?_, h.left⟩
  · exact (h.inserted code hcode).imp_right fun ⟨task, htask, hinserts⟩ => ⟨task, by simp [htask], hinserts⟩
  · exact (h.removed code hcode).imp_right fun ⟨task, htask, hremoves⟩ => ⟨task, by simp [htask], hremoves⟩

theorem agreeing_initial : Agreeing cfg System.initial [] := by
  refine ⟨fun code hcode => ?_, fun code _ => .inl fun happ => ?_, fun code hcode => ?_⟩
  · simp [System.InMemory, System.initial] at hcode
  · simp [System.InAppState, System.initial] at happ
  · simp [System.initial] at hcode

end

/-! ## Runs -/

/-- In every run whose writes meet the conditions, nothing that was left is in either map once no task is in flight,
and the two maps have the same keys. -/
theorem staysLeft_of_run (cfg : Config) (es : List (Event Call Network))
    (h : Along start (run cfg) (Orderly cfg) ⟨System.initial, []⟩ es) (hidle : (service cfg es).tasks = []) :
    StaysLeft (service cfg es).state := by
  have hagreeing : Agreeing cfg (service cfg es).state (service cfg es).tasks :=
    pool_induction (I := Agreeing cfg) (Q := Orderly cfg) agreeing_initial (fun _ _ c hinv => agreeing_call c hinv)
      (fun _ _ _ _ network hinv horderly => agreeing_run network hinv horderly) h
  rw [hidle] at hagreeing
  exact hagreeing.staysLeft cfg

/-! ### A refresh that outlives its community -/

/-- Codes are the URL or the id that they carry. -/
def plainConfig : Config where
  codec := ⟨fun code => some ⟨code⟩, fun _ => none, fun invite =>
    match invite with
    | .v1 invite => invite.communityMetaUrl
    | .v2 invite => invite.communityUuidHex⟩
  v2MigrationEnabled := true

/-- Every community has this name. -/
def named (name : String) : Network where
  fetchCommunityMetaJson _ := some ⟨name, 1, BTreeMap.empty⟩
  fetchCommunity _ := none

/-- One community is joined, and left. -/
def joinedAndLeft : List (Event Call Network) :=
  [ .call (.joinCommunity "a"), .advance 0 (named "old"), .advance 0 (named "old"), .advance 0 (named "old"),
    .call (.leaveCommunity "a"), .advance 0 (named "old"), .advance 0 (named "old") ]

/-- A refresh clones the map while the join is being recorded, and writes changed metadata to `AppState` while the
leave is. -/
def refreshedMeanwhile : List (Event Call Network) :=
  [ .call (.joinCommunity "a"), .advance 0 (named "old"), .advance 0 (named "old"),
    .call .refreshMetas, .advance 1 (named "old"), .advance 0 (named "old"), .advance 0 (named "old"),
    .call (.leaveCommunity "a"), .advance 1 (named "old"),
    .advance 0 (named "new"), .advance 0 (named "new"), .advance 0 (named "new"), .advance 0 (named "new") ]

theorem staysLeft_of_run_demo : StaysLeft (service plainConfig refreshedMeanwhile).state :=
  staysLeft_of_run plainConfig refreshedMeanwhile (by decide +kernel) (by decide +kernel)

/-- The community is left while a refresh waits for its metadata, which has changed. -/
def leftDuringRefresh : List (Event Call Network) :=
  [ .call (.joinCommunity "a"), .advance 0 (named "old"), .advance 0 (named "old"), .advance 0 (named "old"),
    .call .refreshMetas, .advance 0 (named "old"), .advance 0 (named "old"),
    .call (.leaveCommunity "a"), .advance 1 (named "old"), .advance 1 (named "old"),
    .advance 0 (named "new"), .advance 0 (named "new"), .advance 0 (named "new") ]

/-- It is in `AppState` again, and in memory after the next start. -/
theorem refresh_resurrects : ¬ ∀ cfg es, (service cfg es).tasks = [] → StaysLeft (service cfg es).state := by
  intro h
  have hstays := h plainConfig leftDuringRefresh (by decide +kernel)
  have hleft := hstays.left "a" (by decide +kernel)
  exact hleft.2 (by decide +kernel)

end Communities
