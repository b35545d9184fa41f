import Fedi.Communities.StaysLeft

/-!
# The first community

The first community that counts for the gift is recorded in `AppState`; a redirect takes the
record along, and a leave clears it for good.  When the app starts, the record is filled in
for users who joined before it was there.

Every launch reads what the one before has written, and may end while tasks are in flight.
Whatever the launches do, the recorded community is one that is still joined, and the record
never goes back between two moments of a run, in one launch or over several
(`firstCommunity_held`).
-/

namespace Communities

open BTreeMaps Tasks

/-! ## Launches -/

/-- What `AppState` keeps of the communities. -/
structure Persisted where
  joinedCommunities : BTreeMap String CommunityInfo
  firstCommInviteCode : FirstCommunityInviteCodeState

/-- `AppState::load`: with more than one community it is not known which one was first. -/
def backfill (p : Persisted) : Persisted :=
  let inviteCodes := p.joinedCommunities.keys.filter fun code => decide (code ∉ fediGiftExcludedCommunities)
  if p.firstCommInviteCode = .neverSet ∧ inviteCodes ≠ [] then
    match inviteCodes with
    | [code] => { p with firstCommInviteCode := .set code }
    | _ => { p with firstCommInviteCode := .unset }
  else p

section

variable (cfg : Config)

/-- `Communities::init`: a code that does not parse is skipped. -/
def init (p : Persisted) : System :=
  let loaded := p.joinedCommunities.entries.filterMap fun (code, info) =>
    (cfg.codec.fromStr code).map fun invite => (code, invite, info)
  { communities := loaded.zipIdx.foldl (fun communities ((code, invite, _), i) => communities.insert code ⟨invite, i⟩)
      BTreeMap.empty
    infos := loaded.map fun (_, _, info) => info
    joinedCommunities := p.joinedCommunities
    firstCommInviteCode := p.firstCommInviteCode
    notices := []
    left := [] }

def launch (p : Persisted) (es : List (Event Call Network)) : Persisted :=
  let s := (pool start (run cfg) ⟨init cfg (backfill p), []⟩ es).state
  ⟨s.joinedCommunities, s.firstCommInviteCode⟩

/-- What the launches leave behind. -/
def launches (p : Persisted) (sessions : List (List (Event Call Network))) : Persisted :=
  sessions.foldl (launch cfg) p

end

/-! ## What is promised -/

/-- The recorded community is joined. -/
def Held (first : FirstCommunityInviteCodeState) (joined : BTreeMap String CommunityInfo) : Prop :=
  ∀ code, first = .set code → (joined.get? code).isSome

/-- A record that is set is not forgotten, and one that is cleared stays so. -/
def Follows : FirstCommunityInviteCodeState → FirstCommunityInviteCodeState → Prop
  | .neverSet, _ => True
  | .set _, later => later ≠ .neverSet
  | .unset, later => later = .unset

theorem follows_refl (first : FirstCommunityInviteCodeState) : Follows first first := by
  cases first with
  | neverSet => trivial
  | set code => exact FirstCommunityInviteCodeState.noConfusion
  | unset => rfl

theorem Follows.trans {a b c : FirstCommunityInviteCodeState} (hab : Follows a b) (hbc : Follows b c) : Follows a c := by
  cases a with
  | neverSet => trivial
  | set code =>
    cases b with
    | neverSet => exact absurd rfl hab
    | set code' => exact hbc
    | unset =>
      have hc : c = .unset := hbc
      rw [hc]
      exact FirstCommunityInviteCodeState.noConfusion
  | unset =>
    have hb : b = .unset := hab
    rw [hb] at hbc
    exact hbc

/-! ## Writes to `AppState` -/

/-- A redirect is of a V1 invite to a V2 invite. -/
def Task.Redirects : Task → Prop
  | .migrating oldInvite newInvite _ | .recordingMigration oldInvite newInvite _ =>
    (∃ invite, oldInvite = .v1 invite) ∧ ∃ invite, newInvite = .v2 invite
  | _ => True

section

variable (cfg : Config) (first0 : FirstCommunityInviteCodeState)

structure Recorded (s : System) (tasks : List Task) : Prop where
  held : Held s.firstCommInviteCode s.joinedCommunities
  follows : Follows first0 s.firstCommInviteCode
  redirects : ∀ task ∈ tasks, task.Redirects

end

section

variable {cfg : Config} {first0 : FirstCommunityInviteCodeState} {s : System} {before after : List Task} {task : Task}

theorem preview_redirects {network : Network} {invite newInvite : CommunityInvite} {info : CommunityInfo}
    (h : preview cfg network invite = some (newInvite, info)) (hne : invite ≠ newInvite) :
    (∃ old, invite = .v1 old) ∧ ∃ new, newInvite = .v2 new := by
  cases invite with
  | v2 invite =>
    simp only [preview, Option.map_eq_some_iff, Prod.mk.injEq] at h
    obtain ⟨_, -, rfl, -⟩ := h
    exact absurd rfl hne
  | v1 invite =>
    refine ⟨⟨invite, rfl⟩, ?_⟩
    simp only [preview] at h
    split at h
    · cases h
    · split at h
      · cases h
        exact absurd rfl hne
      · split at h
        · cases h
        · rename_i redirected _
          simp only [Option.map_eq_some_iff, Prod.mk.injEq] at h
          obtain ⟨_, -, rfl, -⟩ := h
          exact ⟨redirected, rfl⟩

theorem held_recordJoin {invite : CommunityInvite} {info : CommunityInfo}
    (h : Held s.firstCommInviteCode s.joinedCommunities) :
    Held (recordJoin cfg s invite info).firstCommInviteCode (recordJoin cfg s invite info).joinedCommunities := by
  intro code hcode
  show ((s.joinedCommunities.insert (cfg.codec.print invite) info).get? code).isSome
  rw [BTreeMap.get?_insert]
  split_ifs with heq
  · rfl
  · apply h
    unfold recordJoin System.notify at hcode
    dsimp only at hcode
    split_ifs at hcode
    · exact absurd (FirstCommunityInviteCodeState.set.inj hcode).symm heq
    · exact hcode

theorem held_recordLeave {inviteCode : String} (h : Held s.firstCommInviteCode s.joinedCommunities) :
    Held (recordLeave s inviteCode).firstCommInviteCode (recordLeave s inviteCode).joinedCommunities := by
  intro code hcode
  unfold recordLeave System.notify at hcode
  dsimp only at hcode
  split_ifs at hcode with hfirst
  show ((s.joinedCommunities.erase inviteCode).get? code).isSome
  rw [BTreeMap.get?_erase]
  have hne : code ≠ inviteCode := by
    rintro rfl
    exact hfirst hcode
  rw [if_neg hne]
  exact h code hcode

/-- The V2 code is not the V1 code that is removed. -/
theorem held_recordMigration (hcodes : ∀ a b, cfg.codec.print (.v1 a) ≠ cfg.codec.print (.v2 b))
    {oldInvite newInvite : CommunityInvite} {newInfo : CommunityInfo}
    (hredirects : (Task.recordingMigration oldInvite newInvite newInfo).Redirects)
    (h : Held s.firstCommInviteCode s.joinedCommunities) :
    Held (recordMigration cfg s oldInvite newInvite newInfo).firstCommInviteCode
      (recordMigration cfg s oldInvite newInvite newInfo).joinedCommunities := by
  obtain ⟨⟨old, rfl⟩, new, rfl⟩ := hredirects
  intro code hcode
  unfold recordMigration System.notify at hcode
  dsimp only at hcode
  show (((s.joinedCommunities.insert (cfg.codec.print (.v2 new)) newInfo).erase (cfg.codec.print (.v1 old))).get?
    code).isSome
  rw [BTreeMap.get?_erase, BTreeMap.get?_insert]
  split_ifs at hcode with hfirst
  · obtain rfl := FirstCommunityInviteCodeState.set.inj hcode
    rw [if_neg (hcodes old new).symm, if_pos rfl]
    rfl
  · have hne : code ≠ cfg.codec.print (.v1 old) := by
      rintro rfl
      exact hfirst hcode
    rw [if_neg hne]
    split_ifs
    · rfl
    · exact h code hcode

theorem held_recordUpdate {oldInvite : CommunityInvite} {newInfo : CommunityInfo}
    (h : Held s.firstCommInviteCode s.joinedCommunities) :
    Held (recordUpdate cfg s oldInvite newInfo).firstCommInviteCode
      (recordUpdate cfg s oldInvite newInfo).joinedCommunities := by
  intro code hcode
  show ((s.joinedCommunities.insert (cfg.codec.print oldInvite) newInfo).get? code).isSome
  rw [BTreeMap.get?_insert]
  split_ifs
  · rfl
  · exact h code hcode

theorem held_backfill {p : Persisted} (h : Held p.firstCommInviteCode p.joinedCommunities) :
    Held (backfill p).firstCommInviteCode (backfill p).joinedCommunities := by
  unfold backfill
  dsimp only
  split_ifs
  · split
    · rename_i code hcodes
      intro code' hcode
      obtain rfl := FirstCommunityInviteCodeState.set.inj hcode
      have hmem : code ∈ p.joinedCommunities.keys := by
        apply List.mem_of_mem_filter (p := fun code => decide (code ∉ fediGiftExcludedCommunities))
        rw [hcodes]
        exact List.mem_singleton_self code
      obtain ⟨info, hinfo⟩ := BTreeMap.mem_keys.mp hmem
      show (p.joinedCommunities.get? code).isSome
      rw [hinfo]
      rfl
    · exact fun _ hcode => absurd hcode FirstCommunityInviteCodeState.noConfusion
  · exact h

theorem Recorded.unchanged {s' : System} {next : List Task} (h : Recorded first0 s (before ++ task :: after))
    (hfirst : s'.firstCommInviteCode = s.firstCommInviteCode) (hjoined : s'.joinedCommunities = s.joinedCommunities)
    (hnext : ∀ t ∈ next, t.Redirects) : Recorded first0 s' (before ++ next ++ after) := by
  refine ⟨?_, ?_, ?_⟩
  · rw [hfirst, hjoined]
    exact h.held
  · rw [hfirst]
    exact h.follows
  · exact forall_next_iff.mpr ⟨hnext, (forall_task_iff.mp h.redirects).2⟩

/-- A task that writes to `AppState` is done. -/
theorem Recorded.record {s' : System} (h : Recorded first0 s (before ++ task :: after))
    (hheld : Held s'.firstCommInviteCode s'.joinedCommunities)
    (hfollows : Follows s.firstCommInviteCode s'.firstCommInviteCode) : Recorded first0 s' (before ++ [] ++ after) :=
  ⟨hheld, h.follows.trans hfollows,
    forall_next_iff.mpr ⟨fun _ ht => absurd ht List.not_mem_nil, (forall_task_iff.mp h.redirects).2⟩⟩

theorem follows_recordJoin {invite : CommunityInvite} {info : CommunityInfo} :
    Follows s.firstCommInviteCode (recordJoin cfg s invite info).firstCommInviteCode := by
  unfold recordJoin System.notify
  dsimp only
  split_ifs with hfirst
  · rw [hfirst.2]
    trivial
  · exact follows_refl _

theorem follows_recordLeave {inviteCode : String} :
    Follows s.firstCommInviteCode (recordLeave s inviteCode).firstCommInviteCode := by
  show Follows _ (if _ then _ else s.firstCommInviteCode)
  split_ifs with hfirst
  · rw [hfirst]
    exact FirstCommunityInviteCodeState.noConfusion
  · exact follows_refl _

theorem follows_recordMigration {oldInvite newInvite : CommunityInvite} {newInfo : CommunityInfo} :
    Follows s.firstCommInviteCode (recordMigration cfg s oldInvite newInvite newInfo).firstCommInviteCode := by
  show Follows _ (if _ then _ else s.firstCommInviteCode)
  split_ifs with hfirst
  · rw [hfirst]
    exact FirstCommunityInviteCodeState.noConfusion
  · exact follows_refl _

theorem follows_backfill (p : Persisted) : Follows p.firstCommInviteCode (backfill p).firstCommInviteCode := by
  unfold backfill
  dsimp only
  split_ifs with hfirst
  · rw [hfirst.1]
    trivial
  · exact follows_refl _

theorem recorded_run (hcodes : ∀ a b, cfg.codec.print (.v1 a) ≠ cfg.codec.print (.v2 b)) (network : Network)
    (h : Recorded first0 s (before ++ task :: after)) :
    Recorded first0 (run cfg s task network).1 (before ++ (run cfg s task network).2 ++ after) := by
  have htask := (forall_task_iff.mp h.redirects).1
  have hnone : ∀ t ∈ ([] : List Task), t.Redirects := fun _ ht => absurd ht List.not_mem_nil
  have hone : ∀ {next : Task}, next.Redirects → ∀ t ∈ [next], t.Redirects := by
    intro next hnext t ht
    rw [List.mem_singleton.mp ht]
    exact hnext
  cases task with
  | starting inviteCode =>
    show Recorded first0 (fetchJoin cfg network s inviteCode).1 (before ++ (fetchJoin cfg network s inviteCode).2 ++ after)
    unfold fetchJoin
    split
    · exact h.unchanged rfl rfl hnone
    · split
      · exact h.unchanged rfl rfl hnone
      · split_ifs
        · exact h.unchanged rfl rfl hnone
        · exact h.unchanged rfl rfl (hone trivial)
  | joining invite info =>
    show Recorded first0 (insertJoin cfg s invite info).1 (before ++ (insertJoin cfg s invite info).2 ++ after)
    unfold insertJoin
    dsimp only
    split_ifs
    · exact h.unchanged rfl rfl hnone
    · exact h.unchanged rfl rfl (hone trivial)
  | recordingJoin invite info => exact h.record (held_recordJoin h.held) follows_recordJoin
  | leaving inviteCode =>
    show Recorded first0 (removeLeft s inviteCode).1 (before ++ (removeLeft s inviteCode).2 ++ after)
    unfold removeLeft
    split_ifs
    · exact h.unchanged rfl rfl hnone
    · exact h.unchanged rfl rfl (hone trivial)
  | recordingLeave inviteCode => exact h.record (held_recordLeave h.held) follows_recordLeave
  | cloning =>
    refine h.unchanged rfl rfl fun t ht => ?_
    obtain ⟨community, -, rfl⟩ := List.mem_map.mp ht
    trivial
  | reading community =>
    show Recorded first0 (readInfo s community).1 (before ++ (readInfo s community).2 ++ after)
    unfold readInfo
    split
    · exact h.unchanged rfl rfl hnone
    · split_ifs
      · exact h.unchanged rfl rfl hnone
      · exact h.unchanged rfl rfl (hone trivial)
  | refreshing community oldInfo =>
    show Recorded first0 (fetchRefresh cfg network s community oldInfo).1
      (before ++ (fetchRefresh cfg network s community oldInfo).2 ++ after)
    unfold fetchRefresh
    split
    · exact h.unchanged rfl rfl hnone
    · rename_i newInvite newInfo hpreview
      split_ifs with hsame hinfo
      · exact h.unchanged rfl rfl (hone (preview_redirects hpreview hsame))
      · exact h.unchanged rfl rfl (hone trivial)
      · exact h.unchanged rfl rfl hnone
  | migrating oldInvite newInvite newInfo => exact h.unchanged rfl rfl (hone htask)
  | recordingMigration oldInvite newInvite newInfo =>
    exact h.record (held_recordMigration hcodes htask h.held) follows_recordMigration
  | updating community newInfo => exact h.unchanged rfl rfl (hone trivial)
  | recordingUpdate oldInvite newInfo => exact h.record (held_recordUpdate h.held) (follows_refl _)

/-! ## Runs -/

/-- From any moment of a launch on. -/
theorem recorded_pool (hcodes : ∀ a b, cfg.codec.print (.v1 a) ≠ cfg.codec.print (.v2 b)) {moment : Pool System Task}
    (h : Recorded first0 moment.state moment.tasks) (es : List (Event Call Network)) :
    Recorded first0 (pool start (run cfg) moment es).state (pool start (run cfg) moment es).tasks := by
  apply pool_invariant (I := Recorded first0) h
  · intro s tasks c hinv
    refine ⟨hinv.held, hinv.follows, ?_⟩
    intro t ht
    rcases List.mem_append.mp ht with ht | ht
    · exact hinv.redirects t ht
    · rw [List.mem_singleton.mp ht]
      cases c <;> trivial
  · exact fun _ _ _ _ network hinv => recorded_run hcodes network hinv

theorem recorded_start (hcodes : ∀ a b, cfg.codec.print (.v1 a) ≠ cfg.codec.print (.v2 b)) {p : Persisted}
    (h : Held p.firstCommInviteCode p.joinedCommunities) (es : List (Event Call Network)) :
    Recorded p.firstCommInviteCode (pool start (run cfg) ⟨init cfg (backfill p), []⟩ es).state
      (pool start (run cfg) ⟨init cfg (backfill p), []⟩ es).tasks := by
  have hinit : Recorded p.firstCommInviteCode (init cfg (backfill p)) [] :=
    ⟨held_backfill h, follows_backfill p, fun _ ht => absurd ht List.not_mem_nil⟩
  exact recorded_pool hcodes hinit es

theorem recorded_launch (hcodes : ∀ a b, cfg.codec.print (.v1 a) ≠ cfg.codec.print (.v2 b)) {p : Persisted}
    (h : Held p.firstCommInviteCode p.joinedCommunities) (es : List (Event Call Network)) :
    Held (launch cfg p es).firstCommInviteCode (launch cfg p es).joinedCommunities ∧
      Follows p.firstCommInviteCode (launch cfg p es).firstCommInviteCode := by
  have hend := recorded_start hcodes h es
  exact ⟨hend.held, hend.follows⟩

/-- The record at a moment of a launch, and at a later one. -/
theorem follows_within (hcodes : ∀ a b, cfg.codec.print (.v1 a) ≠ cfg.codec.print (.v2 b)) {p : Persisted}
    (h : Held p.firstCommInviteCode p.joinedCommunities) (es es' : List (Event Call Network)) :
    Follows (launch cfg p es).firstCommInviteCode (launch cfg p (es ++ es')).firstCommInviteCode := by
  have hnow := recorded_start hcodes h es
  have hagain : Recorded (launch cfg p es).firstCommInviteCode
      (pool start (run cfg) ⟨init cfg (backfill p), []⟩ es).state
      (pool start (run cfg) ⟨init cfg (backfill p), []⟩ es).tasks := ⟨hnow.held, follows_refl _, hnow.redirects⟩
  have hlater := recorded_pool hcodes hagain es'
  have happend : pool start (run cfg) ⟨init cfg (backfill p), []⟩ (es ++ es') =
      pool start (run cfg) (pool start (run cfg) ⟨init cfg (backfill p), []⟩ es) es' := List.foldl_append
  show Follows _ (pool start (run cfg) ⟨init cfg (backfill p), []⟩ (es ++ es')).state.firstCommInviteCode
  rw [happend]
  exact hlater.follows

theorem recorded_launches (hcodes : ∀ a b, cfg.codec.print (.v1 a) ≠ cfg.codec.print (.v2 b)) {p : Persisted}
    (h : Held p.firstCommInviteCode p.joinedCommunities) (sessions : List (List (Event Call Network))) :
    Held (launches cfg p sessions).firstCommInviteCode (launches cfg p sessions).joinedCommunities ∧
      Follows p.firstCommInviteCode (launches cfg p sessions).firstCommInviteCode := by
  induction sessions generalizing p with
  | nil => exact ⟨h, follows_refl _⟩
  | cons es sessions ih =>
    obtain ⟨hheld, hfollows⟩ := recorded_launch hcodes h es
    obtain ⟨hlast, hlater⟩ := ih hheld
    exact ⟨hlast, hfollows.trans hlater⟩

theorem launches_append (p : Persisted) (sessions sessions' : List (List (Event Call Network))) :
    launches cfg p (sessions ++ sessions') = launches cfg (launches cfg p sessions) sessions' := List.foldl_append

end

/-- In every run of launches the recorded community is joined at every moment, and the record is not forgotten: `es`
are the steps of a launch up to a moment, `es'` those that follow in it, and the last launch may be cut anywhere. -/
theorem firstCommunity_held (cfg : Config) (hcodes : ∀ a b, cfg.codec.print (.v1 a) ≠ cfg.codec.print (.v2 b))
    {p : Persisted} (h : Held p.firstCommInviteCode p.joinedCommunities)
    (sessions : List (List (Event Call Network))) (es es' : List (Event Call Network))
    (sessions' : List (List (Event Call Network))) :
    Held (launches cfg p (sessions ++ [es ++ es'] ++ sessions')).firstCommInviteCode
        (launches cfg p (sessions ++ [es ++ es'] ++ sessions')).joinedCommunities ∧
      Follows p.firstCommInviteCode (launches cfg p (sessions ++ [es ++ es'] ++ sessions')).firstCommInviteCode ∧
      Follows (launches cfg p (sessions ++ [es])).firstCommInviteCode
        (launches cfg p (sessions ++ [es ++ es'] ++ sessions')).firstCommInviteCode := by
  obtain ⟨hheld, hfollows⟩ := recorded_launches hcodes h (sessions ++ [es ++ es'] ++ sessions')
  refine ⟨hheld, hfollows, ?_⟩
  have hbefore := (recorded_launches hcodes h sessions).1
  have hafter := (recorded_launches hcodes h (sessions ++ [es ++ es'])).1
  rw [launches_append p (sessions ++ [es ++ es'])]
  have hlater := (recorded_launches hcodes hafter sessions').2
  rw [launches_append p sessions [es ++ es']] at hlater ⊢
  rw [launches_append p sessions [es]]
  exact (follows_within hcodes hbefore es es').trans hlater

/-- The codes start with the number of the version. -/
def numberedConfig : Config where
  codec := ⟨fun code => some ⟨code⟩, fun _ => none, fun invite =>
    match invite with
    | .v1 invite => "1" ++ invite.communityMetaUrl
    | .v2 invite => "2" ++ invite.communityUuidHex⟩
  v2MigrationEnabled := true

theorem numberedConfig_codes (a : CommunityInviteV1) (b : CommunityInviteV2) :
    numberedConfig.codec.print (.v1 a) ≠ numberedConfig.codec.print (.v2 b) := by
  intro h
  have hchars := congrArg String.toList h
  simp [numberedConfig] at hchars

/-- The community that was joined is left. -/
def leftAgain : List (Event Call Network) :=
  [.call (.leaveCommunity "1a"), .advance 0 (named "old"), .advance 0 (named "old")]

/-- A launch with a join and a leave, then one with a join. -/
theorem firstCommunity_held_demo :
    Held (launches numberedConfig ⟨BTreeMap.empty, .neverSet⟩
        ([] ++ [joinedAndLeft.take 4 ++ leftAgain] ++ [joinedAndLeft.take 4])).firstCommInviteCode
      (launches numberedConfig ⟨BTreeMap.empty, .neverSet⟩
        ([] ++ [joinedAndLeft.take 4 ++ leftAgain] ++ [joinedAndLeft.take 4])).joinedCommunities ∧
    Follows .neverSet (launches numberedConfig ⟨BTreeMap.empty, .neverSet⟩
      ([] ++ [joinedAndLeft.take 4 ++ leftAgain] ++ [joinedAndLeft.take 4])).firstCommInviteCode ∧
    Follows (launches numberedConfig ⟨BTreeMap.empty, .neverSet⟩ ([] ++ [joinedAndLeft.take 4])).firstCommInviteCode
      (launches numberedConfig ⟨BTreeMap.empty, .neverSet⟩
        ([] ++ [joinedAndLeft.take 4 ++ leftAgain] ++ [joinedAndLeft.take 4])).firstCommInviteCode :=
  firstCommunity_held numberedConfig numberedConfig_codes (fun _ hcode => FirstCommunityInviteCodeState.noConfusion hcode)
    [] (joinedAndLeft.take 4) leftAgain [joinedAndLeft.take 4]

end Communities
