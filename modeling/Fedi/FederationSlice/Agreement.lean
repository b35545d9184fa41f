import Fedi.FederationSlice.Communities

/-!
# The store has the communities of the bridge

Once nothing is in flight, the communities of the store are those of the bridge, without
duplicates, and no community was joined automatically after it was left, in every run that
meets two conditions (`agreed_of_run`).  A list that is written into the store agrees with the
bridge by then, for each community that nothing else in flight is about; and automatic joins of
one community have one code, and do not overlap.

Neither is checked.  A community that is joined while the default community is being joined is
dropped from the store (`defaultJoin_drops`).
-/

namespace CommunityStore

open BTreeMaps FederationSlice Tasks

/-! ## What is promised -/

def Agrees (s : System) (id : String) : Prop := id ∈ s.ids ↔ id ∈ s.bridge.keys

structure Agreed (s : System) (tasks : List Task) : Prop where
  neverRejoined : s.rejoined = []
  nodup : tasks = [] → s.ids.Nodup
  agrees : tasks = [] → ∀ id, Agrees s id

/-! ## The conditions -/

/-- A task in flight that decides whether the store has the community. -/
def Task.decides (id : String) : Task → Bool
  | .listing | .listed _ | .defaultJoined _ _ => true
  | .joined community _ | .autojoined _ community _ => decide (community.id = id)
  | .left communityId => decide (communityId = id)
  | .migrated v1InviteCode v2Community => decide (v1InviteCode = id ∨ v2Community.id = id)
  | _ => false

def Pending (tasks : List Task) (id : String) : Prop := ∃ task ∈ tasks, task.decides id = true

instance (tasks : List Task) (id : String) : Decidable (Pending tasks id) :=
  inferInstanceAs (Decidable (∃ task ∈ tasks, _))

/-- A list is what the bridge has, for each community that nothing in flight decides. -/
def Current (s : System) (others : List Task) (list : List String) : Prop :=
  ∀ id ∈ list ++ s.bridge.keys, (id ∈ list ↔ id ∈ s.bridge.keys) ∨ Pending others id

instance (s : System) (others : List Task) (list : List String) : Decidable (Current s others list) :=
  inferInstanceAs (Decidable (∀ id ∈ list ++ s.bridge.keys, _))

/-- The automatic joins of a code. -/
def Task.autojoins (code : String) : Task → Bool
  | .autojoining other _ | .autojoined other _ _ => decide (other = code)
  | _ => false

section

variable (codeOf : String → String)

def Lawful (s : System) (others : List Task) (task : Task) (input : Input) : Prop :=
  match task with
  | .listing => input.fails = true → Current s others s.ids
  | .listed answer => Current s others (ids Community.id answer)
  | .defaultJoined community joinedCommunities =>
    community.id ∉ ids Community.id joinedCommunities ∧
      Current s others (community.id :: ids Community.id joinedCommunities)
  | .joined community refreshes => refreshes = false → community.id ∈ s.bridge.keys ∨ Pending others community.id
  | .left communityId => communityId ∉ s.bridge.keys ∨ Pending others communityId
  | .migrated v1InviteCode v2Community =>
    (v1InviteCode = v2Community.id ∨ v1InviteCode ∉ s.bridge.keys ∨ Pending others v1InviteCode) ∧
      (v2Community.id ∈ s.bridge.keys ∨ Pending others v2Community.id)
  | .autojoinStarting code _ =>
    code ∉ s.previouslyAutojoinedCommunities → ∀ other ∈ others, other.autojoins code = false
  | .autojoining code _ => codeOf input.inviteCode = code
  | .migrating v1InviteCode v2InviteCode _ => codeOf v2InviteCode = codeOf v1InviteCode
  | _ => True

instance (s : System) (others : List Task) (task : Task) (input : Input) :
    Decidable (Lawful codeOf s others task input) := by
  unfold Lawful
  split <;> infer_instance

end

/-! ## The invariant -/

/-- Every list in flight is without duplicates. -/
def Task.Fits : Task → Prop
  | .listed answer => (ids Community.id answer).Nodup
  | .defaultJoining joinedCommunities | .defaultJoined _ joinedCommunities => (ids Community.id joinedCommunities).Nodup
  | .joined community _ => community.id ≠ ""
  | _ => True

/-- What is known of automatic joins. -/
structure Autojoins (codeOf : String → String) (s : System) (tasks : List Task) : Prop where
  neverRejoined : s.rejoined = []
  known : ∀ id, id ∈ s.autojoined ∨ id ∈ s.autojoinedLeft →
    codeOf id ∈ s.previouslyAutojoinedCommunities ∨
      ∃ community setAsSelected, Task.autojoined (codeOf id) community setAsSelected ∈ tasks
  alone : ∀ code, tasks.countP (Task.autojoins code) ≤ 1
  unmarked : ∀ code setAsSelected, Task.autojoining code setAsSelected ∈ tasks →
    code ∉ s.previouslyAutojoinedCommunities

structure Inv (s : System) (tasks : List Task) : Prop where
  fits : ∀ task ∈ tasks, task.Fits
  nodup : s.ids.Nodup
  settled : ∀ id, Agrees s id ∨ Pending tasks id

variable {globalCommunityInvite : Option String} {codeOf : String → String} {s s' : System}
  {before after next tasks : List Task} {task : Task} {id : String}

/-! ### Lists -/

theorem merge_id (existing new : Community) : (existing.merge new).id = new.id := rfl

theorem upsertCommunity_ids {payload : Community} (hid : payload.id ≠ "") :
    id ∈ (s.upsertCommunity payload).ids ↔ id ∈ s.ids ∨ id = payload.id := by
  unfold System.upsertCommunity
  rw [if_neg hid]
  exact mem_ids_upsertListItem merge_id

/-- The existing communities of `setCommunities`, updated or dropped. -/
def updatedCommunities (s : System) (payload : List Community) : List Community :=
  s.communities.filterMap fun existing =>
    (payload.find? fun f => decide (f.id = existing.id)).map existing.merge

theorem ids_updatedCommunities (s : System) (payload : List Community) :
    ids Community.id (updatedCommunities s payload) =
      s.ids.filter fun id => decide (id ∈ ids Community.id payload) := by
  unfold updatedCommunities System.ids ids
  induction s.communities with
  | nil => rfl
  | cons existing rest ih =>
    rw [List.filterMap_cons, List.map_cons, List.filter_cons]
    cases hfind : payload.find? fun f => decide (f.id = existing.id) with
    | none =>
      have hnot : existing.id ∉ payload.map Community.id := by
        intro hmem
        obtain ⟨f, hf, hid⟩ := List.mem_map.mp hmem
        exact List.find?_eq_none.mp hfind f hf (by simpa using hid)
      simp only [Option.map_none, hnot, decide_false, Bool.false_eq_true, if_false]
      exact ih
    | some found =>
      have hid := List.find?_some hfind
      rw [decide_eq_true_eq] at hid
      have hmem : existing.id ∈ payload.map Community.id :=
        List.mem_map.mpr ⟨found, List.mem_of_find?_eq_some hfind, hid⟩
      simp only [Option.map_some, hmem, decide_true, if_true, List.map_cons, ih, merge_id, hid]

theorem setCommunities_ids {payload : List Community} :
    id ∈ (s.setCommunities payload).ids ↔ id ∈ ids Community.id payload := by
  have hsplit : (s.setCommunities payload).ids =
      ids Community.id (updatedCommunities s payload) ++ ids Community.id (newItems Community.id s.communities payload) :=
    List.map_append
  rw [hsplit, List.mem_append, ids_updatedCommunities, List.mem_filter, decide_eq_true_eq]
  constructor
  · rintro (h | h)
    · exact h.2
    · exact (List.filter_sublist.map Community.id).subset h
  · intro h
    by_cases hold : id ∈ s.ids
    · exact .inl ⟨hold, h⟩
    · obtain ⟨community, hcommunity, rfl⟩ := List.mem_map.mp h
      exact .inr (List.mem_map_of_mem (List.mem_filter.mpr ⟨hcommunity, by simpa using hold⟩))

theorem setCommunities_nodup {payload : List Community} (h : s.ids.Nodup) (hpayload : (ids Community.id payload).Nodup) :
    (s.setCommunities payload).ids.Nodup := by
  have hsame : (ids Community.id (updatedCommunities s payload)).Sublist s.ids := by
    rw [ids_updatedCommunities]
    exact List.filter_sublist
  exact nodup_newItems hsame h hpayload

theorem migrate_ids {v1InviteCode : String} {v2Community : Community} :
    id ∈ (s.migrateCommunityV1ToV2 v1InviteCode v2Community).ids ↔
      id ∈ s.ids ∧ id ≠ v1InviteCode ∨ id = v2Community.id := by
  refine (mem_ids_upsertListItem merge_id).trans (or_congr_left ?_)
  unfold System.ids ids
  rw [List.mem_map, List.mem_map]
  constructor
  · rintro ⟨community, hcommunity, rfl⟩
    rw [List.mem_filter, decide_eq_true_eq] at hcommunity
    exact ⟨⟨community, hcommunity.1, rfl⟩, hcommunity.2⟩
  · rintro ⟨⟨community, hcommunity, rfl⟩, hne⟩
    exact ⟨community, List.mem_filter.mpr ⟨hcommunity, by simpa using hne⟩, rfl⟩

theorem leaveFulfilled_ids {communityId : String} :
    id ∈ (s.leaveFulfilled communityId).ids ↔ id ∈ s.ids ∧ id ≠ communityId := by
  unfold System.leaveFulfilled System.ids ids
  dsimp only
  rw [List.mem_map, List.mem_map]
  constructor
  · rintro ⟨community, hcommunity, rfl⟩
    rw [List.mem_filter, decide_eq_true_eq] at hcommunity
    exact ⟨⟨community, hcommunity.1, rfl⟩, hcommunity.2⟩
  · rintro ⟨⟨community, hcommunity, rfl⟩, hne⟩
    exact ⟨community, List.mem_filter.mpr ⟨hcommunity, by simpa using hne⟩, rfl⟩

theorem ids_listCommunities (bridge : BTreeMap String RpcCommunity) :
    ids Community.id (listCommunities bridge) = bridge.keys := by
  unfold ids listCommunities BTreeMap.keys
  rw [List.map_map]
  rfl

theorem listCommunities_nodup (bridge : BTreeMap String RpcCommunity) :
    (ids Community.id (listCommunities bridge)).Nodup := by
  rw [ids_listCommunities]
  exact bridge.keys_nodup

theorem mem_keys_erase {bridge : BTreeMap String RpcCommunity} {code : String} :
    id ∈ (bridge.erase code).keys ↔ id ∈ bridge.keys ∧ id ≠ code := by
  rw [BTreeMap.mem_keys, BTreeMap.mem_keys, BTreeMap.get?_erase]
  by_cases hid : id = code
  · simp [hid]
  · simp [hid]

/-! ### The list of the store -/

/-- A task goes on with others; what it decided agrees now, or is for them to decide. -/
theorem Inv.goOn (h : Inv s (before ++ task :: after)) (hfits : ∀ t ∈ next, t.Fits) (hnodup : s'.ids.Nodup)
    (hsettled : ∀ id, Agrees s id ∨ task.decides id = true →
      Agrees s' id ∨ Pending next id ∨ Pending (before ++ after) id) :
    Inv s' (before ++ next ++ after) where
  fits := forall_next_iff.mpr ⟨hfits, (forall_task_iff.mp h.fits).2⟩
  nodup := hnodup
  settled := by
    intro id
    have hnext : Pending (before ++ next ++ after) id ↔ Pending next id ∨ Pending (before ++ after) id := exists_next_iff
    have htask : Pending (before ++ task :: after) id ↔ task.decides id = true ∨ Pending (before ++ after) id :=
      exists_task_iff
    rw [hnext]
    rcases h.settled id with hagrees | hpending
    · exact hsettled id (.inl hagrees)
    · rcases htask.mp hpending with hdecides | hothers
      · exact hsettled id (.inr hdecides)
      · exact .inr (.inr hothers)

/-- A step that changes neither list. -/
theorem Inv.same (h : Inv s (before ++ task :: after)) (htask : ∀ id, task.decides id = false)
    (hids : s'.communities = s.communities) (hbridge : s'.bridge = s.bridge) (hfits : ∀ t ∈ next, t.Fits) :
    Inv s' (before ++ next ++ after) := by
  have hsame : s'.ids = s.ids := by
    show ids Community.id s'.communities = ids Community.id s.communities
    rw [hids]
  refine h.goOn hfits (hsame ▸ h.nodup) fun id hid => ?_
  rw [htask id] at hid
  left
  unfold Agrees at hid ⊢
  rw [hsame, hbridge]
  simpa using hid

/-- A step whose task lists the communities next. -/
theorem Inv.relists (h : Inv s (before ++ task :: after)) (hnodup : s'.ids.Nodup) :
    Inv s' (before ++ [.listing] ++ after) :=
  h.goOn (by simp [Task.Fits]) hnodup fun _ _ => .inr (.inl ⟨.listing, List.mem_singleton_self _, rfl⟩)

theorem join_spec {input : Input} {r : System × Community} (h : s.join input = some r) :
    input.inviteCode ≠ "" ∧ input.inviteCode ∉ s.bridge.keys ∧
      r = ({ s with bridge := s.bridge.insert input.inviteCode input.community },
        input.community.coerce input.inviteCode) := by
  unfold System.join at h
  split at h
  · simp at h
  next haccepted =>
    simp only [not_or] at haccepted
    exact ⟨haccepted.2.1, haccepted.2.2, (Option.some.inj h).symm⟩

/-- A request to join whose answer decides the community. -/
theorem Inv.request {input : Input} {note : System → System} {answered : Community → Task}
    (h : Inv s (before ++ task :: after)) (htask : ∀ id, task.decides id = false)
    (hids : ∀ s, (note s).communities = s.communities) (hbridge : ∀ s, (note s).bridge = s.bridge)
    (hfits : ∀ community : Community, community.id ≠ "" → (answered community).Fits)
    (hdecides : ∀ community : Community, (answered community).decides community.id = true) :
    Inv (s.request input note answered).1 (before ++ (s.request input note answered).2 ++ after) := by
  unfold System.request
  cases hjoin : s.join input with
  | none => exact h.same htask rfl rfl (by simp)
  | some r =>
    obtain ⟨hcode, -, rfl⟩ := join_spec hjoin
    have hsame : (note { s with bridge := s.bridge.insert input.inviteCode input.community }).ids = s.ids := by
      unfold System.ids
      rw [hids]
    refine h.goOn (by simpa using hfits (input.community.coerce input.inviteCode) hcode) (hsame ▸ h.nodup)
      fun id hid => ?_
    by_cases hjoined : id = input.inviteCode
    · subst hjoined
      exact .inr (.inl ⟨_, List.mem_singleton_self _, hdecides (input.community.coerce input.inviteCode)⟩)
    · rw [htask id] at hid
      left
      unfold Agrees at hid ⊢
      rw [hsame, hbridge, BTreeMap.mem_keys_insert]
      simpa [hjoined] using hid

theorem ensureDefault_fits (h : s.ids.Nodup) : ∀ t ∈ ensureDefault globalCommunityInvite s, t.Fits := by
  unfold ensureDefault
  split
  · simp
  · split
    · simp
    · simpa [Task.Fits] using h

theorem refresh_communities (s : System) (answer : List Community) :
    (refresh globalCommunityInvite s answer).1.communities = (s.setCommunities answer).communities ∧
      (refresh globalCommunityInvite s answer).1.bridge = s.bridge := by
  unfold refresh
  dsimp only
  split <;> exact ⟨rfl, rfl⟩

/-- A list that is written agrees with the bridge. -/
theorem agrees_of_current {list : List String} (hcurrent : Current s tasks list) (hbridge : s'.bridge = s.bridge)
    (hids : ∀ id, id ∈ s'.ids ↔ id ∈ list) (id : String) : Agrees s' id ∨ Pending tasks id := by
  unfold Agrees
  rw [hbridge, hids]
  by_cases hmem : id ∈ list ++ s.bridge.keys
  · exact hcurrent id hmem
  · rw [List.mem_append, not_or] at hmem
    left
    simp only [hmem]

theorem Inv.listed {answer : List Community} (h : Inv s (before ++ .listed answer :: after))
    (hcurrent : Current s (before ++ after) (ids Community.id answer)) :
    Inv (refresh globalCommunityInvite s answer).1
      (before ++ (refresh globalCommunityInvite s answer).2 ++ after) := by
  obtain ⟨hcommunities, hbridge⟩ := @refresh_communities globalCommunityInvite s answer
  have hanswer : (ids Community.id answer).Nodup := h.fits (.listed answer) (by simp)
  have hids : (refresh globalCommunityInvite s answer).1.ids = (s.setCommunities answer).ids := by
    unfold System.ids
    rw [hcommunities]
  have hnodup : (refresh globalCommunityInvite s answer).1.ids.Nodup := hids ▸ setCommunities_nodup h.nodup hanswer
  refine h.goOn (ensureDefault_fits hnodup) hnodup fun id _ => ?_
  have hagrees := agrees_of_current hcurrent hbridge (fun id => by rw [hids, setCommunities_ids]) id
  exact hagrees.imp_right .inr

theorem finishDefault_communities (s : System) (community : Community) (joinedCommunities : List Community) :
    (finishDefault globalCommunityInvite s community joinedCommunities).communities =
        (s.setCommunities (community :: joinedCommunities)).communities ∧
      (finishDefault globalCommunityInvite s community joinedCommunities).bridge = s.bridge := by
  unfold finishDefault
  dsimp only
  split <;> exact ⟨rfl, rfl⟩

theorem Inv.defaultJoined {community : Community} {joinedCommunities : List Community}
    (h : Inv s (before ++ .defaultJoined community joinedCommunities :: after))
    (hnew : community.id ∉ ids Community.id joinedCommunities)
    (hcurrent : Current s (before ++ after) (community.id :: ids Community.id joinedCommunities)) :
    Inv (finishDefault globalCommunityInvite s community joinedCommunities) (before ++ [] ++ after) := by
  obtain ⟨hcommunities, hbridge⟩ := @finishDefault_communities globalCommunityInvite s community joinedCommunities
  have hjoined : (ids Community.id joinedCommunities).Nodup :=
    h.fits (.defaultJoined community joinedCommunities) (by simp)
  have hids : (finishDefault globalCommunityInvite s community joinedCommunities).ids =
      (s.setCommunities (community :: joinedCommunities)).ids := by
    unfold System.ids
    rw [hcommunities]
  have hlist : (ids Community.id (community :: joinedCommunities)).Nodup := List.nodup_cons.mpr ⟨hnew, hjoined⟩
  refine h.goOn (by simp) (hids ▸ setCommunities_nodup h.nodup hlist) fun id _ => ?_
  have hagrees := agrees_of_current hcurrent hbridge (fun id => by rw [hids, setCommunities_ids]; rfl) id
  exact hagrees.imp_right .inr

theorem upsertCommunity_bridge {payload : Community} : (s.upsertCommunity payload).bridge = s.bridge := by
  unfold System.upsertCommunity
  split <;> rfl

theorem upsertCommunity_nodup {payload : Community} (h : s.ids.Nodup) : (s.upsertCommunity payload).ids.Nodup := by
  unfold System.upsertCommunity
  split
  · exact h
  · exact nodup_upsertListItem merge_id h

theorem Inv.upsert {community : Community} (h : Inv s (before ++ .joined community false :: after))
    (hjoined : community.id ∈ s.bridge.keys ∨ Pending (before ++ after) community.id) :
    Inv (s.upsertCommunity community) (before ++ [] ++ after) := by
  have hid : community.id ≠ "" := h.fits (.joined community false) (by simp)
  refine h.goOn (by simp) (upsertCommunity_nodup h.nodup) fun id hold => ?_
  unfold Agrees at hold ⊢
  rw [upsertCommunity_bridge, upsertCommunity_ids hid]
  by_cases hsame : id = community.id
  · subst hsame
    rcases hjoined with hbridge | hothers
    · exact .inl (by simp [hbridge])
    · exact .inr (.inr hothers)
  · have hother : community.id ≠ id := fun heq => hsame heq.symm
    simp only [Task.decides, hother, decide_false, Bool.false_eq_true, or_false] at hold
    left
    simpa [hsame] using hold

theorem leave_cases (s : System) (communityId : String) (fails : Bool) :
    leave s communityId fails = (s, []) ∨
      leave s communityId fails =
        ({ s with
            bridge := s.bridge.erase communityId
            autojoinedLeft :=
              if communityId ∈ s.autojoined then communityId :: s.autojoinedLeft else s.autojoinedLeft },
          [.left communityId]) := by
  unfold CommunityStore.leave
  split
  · exact .inl rfl
  · exact .inr rfl

theorem Inv.leave {communityId : String} {fails : Bool} (h : Inv s (before ++ .leaving communityId :: after)) :
    Inv (leave s communityId fails).1 (before ++ (leave s communityId fails).2 ++ after) := by
  rcases leave_cases s communityId fails with hrefused | hleft
  · rw [hrefused]
    exact h.same (fun _ => rfl) rfl rfl (by simp)
  · rw [hleft]
    refine h.goOn (by simp [Task.Fits]) h.nodup fun id hold => ?_
    by_cases hid : id = communityId
    · exact .inr (.inl ⟨_, List.mem_singleton_self _, by simp [Task.decides, hid]⟩)
    · left
      unfold Agrees at hold ⊢
      rw [mem_keys_erase]
      simpa [Task.decides, hid] using hold

theorem Inv.left {communityId : String} (h : Inv s (before ++ .left communityId :: after))
    (hleft : communityId ∉ s.bridge.keys ∨ Pending (before ++ after) communityId) :
    Inv (s.leaveFulfilled communityId) (before ++ [] ++ after) := by
  have hnodup : (s.leaveFulfilled communityId).ids.Nodup := nodup_ids_filter _ h.nodup
  refine h.goOn (by simp) hnodup fun id hold => ?_
  unfold Agrees at hold ⊢
  rw [leaveFulfilled_ids]
  by_cases hid : id = communityId
  · subst hid
    rcases hleft with hbridge | hothers
    · exact .inl (by simpa [System.leaveFulfilled] using hbridge)
    · exact .inr (.inr hothers)
  · have hother : communityId ≠ id := fun heq => hid heq.symm
    simp only [Task.decides, hother, decide_false, Bool.false_eq_true, or_false] at hold
    left
    simpa [System.leaveFulfilled, hid] using hold

theorem migrate_cases (s : System) (v1InviteCode v2InviteCode : String) (v2Community : RpcCommunity) :
    migrate s v1InviteCode v2InviteCode v2Community = (s, []) ∨
      v1InviteCode ∈ s.bridge.keys ∧
      migrate s v1InviteCode v2InviteCode v2Community =
        ({ s with
            bridge := (s.bridge.erase v1InviteCode).insert v2InviteCode v2Community
            autojoined := if v1InviteCode ∈ s.autojoined then v2InviteCode :: s.autojoined else s.autojoined
            autojoinedLeft :=
              if v1InviteCode ∈ s.autojoinedLeft then v2InviteCode :: s.autojoinedLeft else s.autojoinedLeft },
          [.migrated v1InviteCode (v2Community.coerce v2InviteCode)]) := by
  unfold CommunityStore.migrate
  split
  · exact .inl rfl
  next hmem => exact .inr ⟨not_not.mp hmem, rfl⟩

theorem Inv.migrate {v1InviteCode v2InviteCode : String} {v2Community : RpcCommunity}
    (h : Inv s (before ++ .migrating v1InviteCode v2InviteCode v2Community :: after)) :
    Inv (migrate s v1InviteCode v2InviteCode v2Community).1
      (before ++ (migrate s v1InviteCode v2InviteCode v2Community).2 ++ after) := by
  rcases migrate_cases s v1InviteCode v2InviteCode v2Community with hrefused | ⟨-, hmigrated⟩
  · rw [hrefused]
    exact h.same (fun _ => rfl) rfl rfl (by simp)
  · rw [hmigrated]
    refine h.goOn (by simp [Task.Fits]) h.nodup fun id hold => ?_
    by_cases hid : v1InviteCode = id ∨ v2InviteCode = id
    · exact .inr (.inl ⟨_, List.mem_singleton_self _, decide_eq_true hid⟩)
    · rw [not_or] at hid
      left
      unfold Agrees at hold ⊢
      rw [BTreeMap.mem_keys_insert, mem_keys_erase]
      simpa [Task.decides, Ne.symm hid.1, Ne.symm hid.2] using hold

theorem Inv.migrated {v1InviteCode : String} {v2Community : Community}
    (h : Inv s (before ++ .migrated v1InviteCode v2Community :: after))
    (hv1 : v1InviteCode = v2Community.id ∨ v1InviteCode ∉ s.bridge.keys ∨ Pending (before ++ after) v1InviteCode)
    (hv2 : v2Community.id ∈ s.bridge.keys ∨ Pending (before ++ after) v2Community.id) :
    Inv (s.migrateCommunityV1ToV2 v1InviteCode v2Community) (before ++ [] ++ after) := by
  have hnodup : (s.migrateCommunityV1ToV2 v1InviteCode v2Community).ids.Nodup :=
    nodup_upsertListItem merge_id (nodup_ids_filter _ h.nodup)
  refine h.goOn (by simp) hnodup fun id hold => ?_
  have hbridge : (s.migrateCommunityV1ToV2 v1InviteCode v2Community).bridge = s.bridge := rfl
  unfold Agrees at hold ⊢
  rw [hbridge, migrate_ids]
  by_cases hid : id = v2Community.id
  · subst hid
    rcases hv2 with hjoined | hothers
    · exact .inl (by simp [hjoined])
    · exact .inr (.inr hothers)
  · by_cases hold' : id = v1InviteCode
    · subst hold'
      rcases hv1.resolve_left hid with hgone | hothers
      · exact .inl (by simp [hid, hgone])
      · exact .inr (.inr hothers)
    · have hv1Ne : v1InviteCode ≠ id := fun heq => hold' heq.symm
      have hv2Ne : v2Community.id ≠ id := fun heq => hid heq.symm
      simp only [Task.decides, hv1Ne, hv2Ne, or_self, decide_false, Bool.false_eq_true, or_false] at hold
      left
      simpa [hid, hold'] using hold

theorem finishAutojoin_communities (s : System) (code : String) (community : Community) (setAsSelected : Bool) :
    (finishAutojoin s code community setAsSelected).communities = s.communities := by
  unfold finishAutojoin System.addAutojoinNoticeToDisplay
  cases setAsSelected
  · simp only [Bool.false_eq_true, if_false]
    split <;> rfl
  · rfl

/-- What every task keeps. -/
theorem inv_run (input : Input) (h : Inv s (before ++ task :: after))
    (hlawful : Lawful codeOf s (before ++ after) task input) :
    Inv (run globalCommunityInvite s task input).1
      (before ++ (run globalCommunityInvite s task input).2 ++ after) := by
  have hfit : task.Fits := h.fits task (by simp)
  cases task with
  | listing =>
    unfold run
    dsimp only
    cases hfails : input.fails with
    | true =>
      have hcurrent : Current s (before ++ after) s.ids := hlawful hfails
      refine h.goOn (by simp) h.nodup fun id _ => ?_
      exact (agrees_of_current hcurrent rfl (fun _ => Iff.rfl) id).imp_right .inr
    | false =>
      refine h.goOn (by simpa [Task.Fits] using listCommunities_nodup s.bridge) h.nodup fun id _ => ?_
      exact .inr (.inl ⟨_, List.mem_singleton_self _, rfl⟩)
  | listed answer => exact h.listed hlawful
  | ensuring => exact h.same (fun _ => rfl) rfl rfl (ensureDefault_fits h.nodup)
  | defaultJoining joinedCommunities =>
    exact h.request (fun _ => rfl) (fun _ => rfl) (fun _ => rfl) (fun _ _ => hfit) fun _ => rfl
  | defaultJoined community joinedCommunities => exact h.defaultJoined hlawful.1 hlawful.2
  | autojoinStarting code setAsSelected =>
    refine h.same (fun _ => rfl) rfl rfl ?_
    unfold run
    dsimp only
    split <;> simp [Task.Fits]
  | autojoining code setAsSelected =>
    exact h.request (fun _ => rfl) (fun _ => rfl) (fun _ => rfl) (fun _ _ => trivial)
      fun community => by simp [Task.decides]
  | autojoined code community setAsSelected =>
    have hids : (finishAutojoin s code community setAsSelected).ids = s.ids := by
      unfold System.ids
      rw [finishAutojoin_communities]
    exact h.relists (hids ▸ h.nodup)
  | joining refreshes =>
    exact h.request (fun _ => rfl) (fun _ => rfl) (fun _ => rfl) (fun _ hcode => hcode)
      fun community => by simp [Task.decides]
  | joined community refreshes =>
    unfold run
    cases refreshes with
    | true => exact h.relists h.nodup
    | false => exact h.upsert (hlawful rfl)
  | leaveStarting communityId =>
    refine h.same (fun _ => rfl) rfl rfl ?_
    unfold run
    dsimp only
    split <;> simp [Task.Fits]
  | leaving communityId => exact h.leave
  | left communityId => exact h.left hlawful
  | migrating v1InviteCode v2InviteCode v2Community => exact h.migrate
  | migrated v1InviteCode v2Community => exact h.migrated hlawful.1 hlawful.2

/-! ### Automatic joins -/

theorem countP_le_one_of_mem {p : Task → Bool} (h : (before ++ task :: after).countP p ≤ 1) (htask : p task = true) :
    ∀ t ∈ before ++ after, p t = false := by
  rw [countP_task, if_pos htask] at h
  have hnone : (before ++ after).countP p = 0 := by omega
  intro t ht
  simpa using List.countP_eq_zero.mp hnone t ht

/-- A step that is not about automatic joins; the bridge may have the known communities under other invites. -/
theorem Autojoins.goOn (h : Autojoins codeOf s (before ++ task :: after)) (htask : ∀ code, task.autojoins code = false)
    (hnext : ∀ t ∈ next, ∀ code, t.autojoins code = false) (hrejoined : s'.rejoined = s.rejoined)
    (hmarked : s'.previouslyAutojoinedCommunities = s.previouslyAutojoinedCommunities)
    (hknown : ∀ id, id ∈ s'.autojoined ∨ id ∈ s'.autojoinedLeft →
      ∃ other, codeOf other = codeOf id ∧ (other ∈ s.autojoined ∨ other ∈ s.autojoinedLeft)) :
    Autojoins codeOf s' (before ++ next ++ after) where
  neverRejoined := hrejoined.trans h.neverRejoined
  known := by
    intro id hid
    obtain ⟨other, hcode, hother⟩ := hknown id hid
    rw [hmarked, ← hcode]
    refine (h.known other hother).imp_right ?_
    rintro ⟨community, setAsSelected, hmem⟩
    refine ⟨community, setAsSelected, ?_⟩
    have hne : Task.autojoined (codeOf other) community setAsSelected ≠ task := by
      intro heq
      have hfalse := htask (codeOf other)
      rw [← heq] at hfalse
      simp [Task.autojoins] at hfalse
    simp only [List.mem_append, List.mem_cons] at hmem ⊢
    tauto
  alone := by
    intro code
    have hzero : next.countP (Task.autojoins code) = 0 :=
      List.countP_eq_zero.mpr fun t ht => by simp [hnext t ht code]
    have hold := h.alone code
    rw [countP_task] at hold
    rw [countP_next, hzero]
    omega
  unmarked := by
    intro code setAsSelected hmem
    rw [hmarked]
    refine h.unmarked code setAsSelected ?_
    simp only [List.mem_append, List.mem_cons] at hmem ⊢
    rcases hmem with (hbefore | hin) | hafter
    · exact .inl hbefore
    · have hfalse := hnext _ hin code
      simp [Task.autojoins] at hfalse
    · exact .inr (.inr hafter)

/-- A step that leaves what is known of automatic joins. -/
theorem Autojoins.same (h : Autojoins codeOf s (before ++ task :: after)) (htask : ∀ code, task.autojoins code = false)
    (hnext : ∀ t ∈ next, ∀ code, t.autojoins code = false) (hrejoined : s'.rejoined = s.rejoined)
    (hmarked : s'.previouslyAutojoinedCommunities = s.previouslyAutojoinedCommunities)
    (hjoined : s'.autojoined = s.autojoined) (hleft : s'.autojoinedLeft = s.autojoinedLeft) :
    Autojoins codeOf s' (before ++ next ++ after) :=
  h.goOn htask hnext hrejoined hmarked fun id hid => ⟨id, rfl, by rwa [hjoined, hleft] at hid⟩

theorem Autojoins.request {input : Input} {answered : Community → Task}
    (h : Autojoins codeOf s (before ++ task :: after)) (htask : ∀ code, task.autojoins code = false)
    (hanswered : ∀ community code, (answered community).autojoins code = false) :
    Autojoins codeOf (s.request input (fun s => s) answered).1
      (before ++ (s.request input (fun s => s) answered).2 ++ after) := by
  unfold System.request
  cases hjoin : s.join input with
  | none => exact h.same htask (by simp) rfl rfl rfl rfl
  | some r =>
    obtain ⟨-, -, rfl⟩ := join_spec hjoin
    exact h.same htask (by simpa using hanswered _) rfl rfl rfl rfl

theorem ensureDefault_autojoins (s : System) :
    ∀ t ∈ ensureDefault globalCommunityInvite s, ∀ code, t.autojoins code = false := by
  unfold ensureDefault
  split
  · simp
  · split <;> simp [Task.autojoins]

theorem Autojoins.listed {answer : List Community} (h : Autojoins codeOf s (before ++ .listed answer :: after)) :
    Autojoins codeOf (refresh globalCommunityInvite s answer).1
      (before ++ (refresh globalCommunityInvite s answer).2 ++ after) := by
  unfold refresh
  dsimp only
  split <;> exact h.same (fun _ => rfl) (ensureDefault_autojoins _) rfl rfl rfl rfl

theorem Autojoins.defaultJoined {community : Community} {joinedCommunities : List Community}
    (h : Autojoins codeOf s (before ++ .defaultJoined community joinedCommunities :: after)) :
    Autojoins codeOf (finishDefault globalCommunityInvite s community joinedCommunities) (before ++ [] ++ after) := by
  unfold finishDefault
  dsimp only
  split <;> exact h.same (fun _ => rfl) (by simp) rfl rfl rfl rfl

theorem Autojoins.upsert {community : Community} {refreshes : Bool}
    (h : Autojoins codeOf s (before ++ .joined community refreshes :: after)) :
    Autojoins codeOf (s.upsertCommunity community) (before ++ [] ++ after) := by
  unfold System.upsertCommunity
  split <;> exact h.same (fun _ => rfl) (by simp) rfl rfl rfl rfl

theorem Autojoins.leave {communityId : String} {fails : Bool}
    (h : Autojoins codeOf s (before ++ .leaving communityId :: after)) :
    Autojoins codeOf (leave s communityId fails).1 (before ++ (leave s communityId fails).2 ++ after) := by
  rcases leave_cases s communityId fails with hrefused | hleft
  · rw [hrefused]
    exact h.same (fun _ => rfl) (by simp) rfl rfl rfl rfl
  · rw [hleft]
    refine h.goOn (fun _ => rfl) (by simp [Task.autojoins]) rfl rfl fun id hid => ⟨id, rfl, ?_⟩
    by_cases hjoined : communityId ∈ s.autojoined
    · simp only [if_pos hjoined, List.mem_cons] at hid
      rcases hid with hid | rfl | hid
      · exact .inl hid
      · exact .inl hjoined
      · exact .inr hid
    · simpa [hjoined] using hid

theorem Autojoins.migrate {v1InviteCode v2InviteCode : String} {v2Community : RpcCommunity}
    (h : Autojoins codeOf s (before ++ .migrating v1InviteCode v2InviteCode v2Community :: after))
    (hcode : codeOf v2InviteCode = codeOf v1InviteCode) :
    Autojoins codeOf (migrate s v1InviteCode v2InviteCode v2Community).1
      (before ++ (migrate s v1InviteCode v2InviteCode v2Community).2 ++ after) := by
  rcases migrate_cases s v1InviteCode v2InviteCode v2Community with hrefused | ⟨-, hmigrated⟩
  · rw [hrefused]
    exact h.same (fun _ => rfl) (by simp) rfl rfl rfl rfl
  · rw [hmigrated]
    -- what is known of the migrated community was known of it under its old invite
    have hmoved : ∀ (list : List String) (id : String),
        (id ∈ if v1InviteCode ∈ list then v2InviteCode :: list else list) →
          id ∈ list ∨ id = v2InviteCode ∧ v1InviteCode ∈ list := by
      intro list id hid
      split at hid
      next hmem => exact (List.mem_cons.mp hid).elim (fun heq => .inr ⟨heq, hmem⟩) .inl
      · exact .inl hid
    refine h.goOn (fun _ => rfl) (by simp [Task.autojoins]) rfl rfl fun id hid => ?_
    rcases hid with hid | hid
    · rcases hmoved s.autojoined id hid with hold | ⟨rfl, hold⟩
      · exact ⟨id, rfl, .inl hold⟩
      · exact ⟨v1InviteCode, hcode.symm, .inl hold⟩
    · rcases hmoved s.autojoinedLeft id hid with hold | ⟨rfl, hold⟩
      · exact ⟨id, rfl, .inr hold⟩
      · exact ⟨v1InviteCode, hcode.symm, .inr hold⟩

/-- An automatic join starts when none of its code is in flight. -/
theorem Autojoins.starts {code : String} {setAsSelected : Bool}
    (h : Autojoins codeOf s (before ++ .autojoinStarting code setAsSelected :: after))
    (hnew : code ∉ s.previouslyAutojoinedCommunities) (halone : ∀ t ∈ before ++ after, t.autojoins code = false) :
    Autojoins codeOf s (before ++ [.autojoining code setAsSelected] ++ after) where
  neverRejoined := h.neverRejoined
  known := by
    intro id hid
    refine (h.known id hid).imp_right ?_
    rintro ⟨community, selected, hmem⟩
    refine ⟨community, selected, ?_⟩
    simp only [List.mem_append, List.mem_cons, reduceCtorEq, false_or] at hmem ⊢
    tauto
  alone := by
    intro other
    have hold := h.alone other
    rw [countP_task] at hold
    rw [countP_next]
    by_cases hother : other = code
    · subst hother
      have hzero : (before ++ after).countP (Task.autojoins other) = 0 :=
        List.countP_eq_zero.mpr fun t ht => by simp [halone t ht]
      have hone : [Task.autojoining other setAsSelected].countP (Task.autojoins other) ≤ 1 := List.countP_le_length
      omega
    · have hzero : [Task.autojoining code setAsSelected].countP (Task.autojoins other) = 0 := by
        simpa [Task.autojoins] using fun heq : code = other => hother heq.symm
      omega
  unmarked := by
    intro other selected hmem
    simp only [List.mem_append, List.mem_singleton] at hmem
    rcases hmem with (hbefore | heq) | hafter
    · exact h.unmarked other selected (List.mem_append_left _ hbefore)
    · simp only [Task.autojoining.injEq] at heq
      exact heq.1 ▸ hnew
    · exact h.unmarked other selected (List.mem_append_right _ (List.mem_cons_of_mem _ hafter))

/-- The join of a community that was not left after an automatic join. -/
theorem Autojoins.join {code : String} {setAsSelected : Bool} {input : Input}
    (h : Autojoins codeOf s (before ++ .autojoining code setAsSelected :: after))
    (hcode : codeOf input.inviteCode = code) :
    Autojoins codeOf
      (s.request input (fun s => s.noteAutojoin input.inviteCode)
        fun community => .autojoined code community setAsSelected).1
      (before ++ (s.request input (fun s => s.noteAutojoin input.inviteCode)
        fun community => .autojoined code community setAsSelected).2 ++ after) := by
  have hothers := countP_le_one_of_mem (h.alone code) (by simp [Task.autojoins])
  have hunmarked : code ∉ s.previouslyAutojoinedCommunities := h.unmarked code setAsSelected (by simp)
  have hold : ∀ id, id ∈ s.autojoined ∨ id ∈ s.autojoinedLeft → codeOf id ∈ s.previouslyAutojoinedCommunities ∨
      ∃ community selected, Task.autojoined (codeOf id) community selected ∈ before ++ after := by
    intro id hid
    refine (h.known id hid).imp_right ?_
    rintro ⟨community, selected, hmem⟩
    refine ⟨community, selected, ?_⟩
    simp only [List.mem_append, List.mem_cons, reduceCtorEq, false_or] at hmem ⊢
    exact hmem
  unfold System.request
  cases hjoin : s.join input with
  | none =>
    refine ⟨h.neverRejoined, fun id hid => ?_, fun other => ?_, fun other selected hmem => ?_⟩
    · simpa using hold id hid
    · have hcount := h.alone other
      rw [countP_task] at hcount
      rw [countP_next]
      simp only [List.countP_nil]
      omega
    · refine h.unmarked other selected ?_
      simp only [List.mem_append, List.mem_cons, List.append_nil] at hmem ⊢
      tauto
  | some r =>
    obtain ⟨-, -, rfl⟩ := join_spec hjoin
    refine ⟨?_, fun id hid => ?_, fun other => ?_, fun other selected hmem => ?_⟩
    · -- it would be known, so its code would be noted or its automatic join in flight
      have hnot : input.inviteCode ∉ s.autojoinedLeft := by
        intro hleft
        rcases hold input.inviteCode (.inr hleft) with hmarked | ⟨community, selected, hmem⟩
        · exact hunmarked (hcode ▸ hmarked)
        · have hfalse := hothers _ hmem
          simp [Task.autojoins, hcode] at hfalse
      show (if input.inviteCode ∈ s.autojoinedLeft then input.inviteCode :: s.rejoined else s.rejoined) = []
      rw [if_neg hnot]
      exact h.neverRejoined
    · have hcases : id = input.inviteCode ∨ id ∈ s.autojoined ∨ id ∈ s.autojoinedLeft := by
        rcases hid with hjoined | hleft
        · exact (List.mem_cons.mp hjoined).imp_right .inl
        · exact .inr (.inr hleft)
      rcases hcases with rfl | hid
      · exact .inr ⟨_, setAsSelected, by rw [hcode]; exact List.mem_append_left _ (List.mem_append_right _ (List.mem_singleton_self _))⟩
      · refine (hold id hid).imp_right ?_
        rintro ⟨community, selected, hmem⟩
        refine ⟨community, selected, ?_⟩
        simp only [List.mem_append] at hmem ⊢
        tauto
    · have hcount := h.alone other
      rw [countP_task] at hcount
      rw [countP_next, List.countP_singleton]
      exact hcount
    · refine h.unmarked other selected ?_
      simp only [List.mem_append, List.mem_cons, reduceCtorEq] at hmem ⊢
      tauto

theorem finishAutojoin_keeps (s : System) (code : String) (community : Community) (setAsSelected : Bool) :
    (finishAutojoin s code community setAsSelected).previouslyAutojoinedCommunities =
        code :: s.previouslyAutojoinedCommunities ∧
      (finishAutojoin s code community setAsSelected).autojoined = s.autojoined ∧
      (finishAutojoin s code community setAsSelected).autojoinedLeft = s.autojoinedLeft ∧
      (finishAutojoin s code community setAsSelected).rejoined = s.rejoined := by
  unfold finishAutojoin System.addAutojoinNoticeToDisplay
  cases setAsSelected
  · simp only [Bool.false_eq_true, if_false]
    split <;> exact ⟨rfl, rfl, rfl, rfl⟩
  · exact ⟨rfl, rfl, rfl, rfl⟩

theorem Autojoins.finish {code : String} {community : Community} {setAsSelected : Bool}
    (h : Autojoins codeOf s (before ++ .autojoined code community setAsSelected :: after)) :
    Autojoins codeOf (finishAutojoin s code community setAsSelected) (before ++ [.listing] ++ after) := by
  have hothers := countP_le_one_of_mem (h.alone code) (by simp [Task.autojoins])
  obtain ⟨hmarked, hjoined, hleft, hrejoined⟩ := finishAutojoin_keeps s code community setAsSelected
  refine ⟨hrejoined.trans h.neverRejoined, fun id hid => ?_, fun other => ?_, fun other selected hmem => ?_⟩
  · rw [hjoined, hleft] at hid
    rw [hmarked, List.mem_cons]
    rcases h.known id hid with hnoted | ⟨other, selected, hmem⟩
    · exact .inl (.inr hnoted)
    · simp only [List.mem_append, List.mem_cons, Task.autojoined.injEq] at hmem
      rcases hmem with hbefore | heq | hafter
      · exact .inr ⟨other, selected, by simp [hbefore]⟩
      · exact .inl (.inl heq.1)
      · exact .inr ⟨other, selected, by simp [hafter]⟩
  · have hcount := h.alone other
    rw [countP_task] at hcount
    rw [countP_next, List.countP_singleton]
    simp only [Task.autojoins, Bool.false_eq_true, if_false]
    omega
  · simp only [List.mem_append, List.mem_singleton, reduceCtorEq, or_false] at hmem
    have hmem' : Task.autojoining other selected ∈ before ++ after := List.mem_append.mpr hmem
    rw [hmarked, List.mem_cons, not_or]
    constructor
    · intro heq
      have hfalse := hothers _ hmem'
      simp [Task.autojoins, heq] at hfalse
    · refine h.unmarked other selected ?_
      simp only [List.mem_append, List.mem_cons]
      tauto

/-- What every task keeps. -/
theorem autojoins_run (input : Input) (h : Autojoins codeOf s (before ++ task :: after))
    (hlawful : Lawful codeOf s (before ++ after) task input) :
    Autojoins codeOf (run globalCommunityInvite s task input).1
      (before ++ (run globalCommunityInvite s task input).2 ++ after) := by
  cases task with
  | listing =>
    refine h.same (fun _ => rfl) ?_ rfl rfl rfl rfl
    unfold run
    dsimp only
    split <;> simp [Task.autojoins]
  | listed answer => exact h.listed
  | ensuring => exact h.same (fun _ => rfl) (ensureDefault_autojoins s) rfl rfl rfl rfl
  | defaultJoining joinedCommunities => exact h.request (fun _ => rfl) fun _ _ => rfl
  | defaultJoined community joinedCommunities => exact h.defaultJoined
  | autojoinStarting code setAsSelected =>
    unfold run
    dsimp only
    split
    · exact h.same (fun _ => rfl) (by simp) rfl rfl rfl rfl
    next hnew => exact h.starts hnew (hlawful hnew)
  | autojoining code setAsSelected => exact h.join hlawful
  | autojoined code community setAsSelected => exact h.finish
  | joining refreshes => exact h.request (fun _ => rfl) fun _ _ => rfl
  | joined community refreshes =>
    unfold run
    cases refreshes with
    | true => exact h.same (fun _ => rfl) (by simp [Task.autojoins]) rfl rfl rfl rfl
    | false => exact h.upsert
  | leaveStarting communityId =>
    refine h.same (fun _ => rfl) ?_ rfl rfl rfl rfl
    unfold run
    dsimp only
    split <;> simp [Task.autojoins]
  | leaving communityId => exact h.leave
  | left communityId => exact h.same (fun _ => rfl) (by simp [run]) rfl rfl rfl rfl
  | migrating v1InviteCode v2InviteCode v2Community => exact h.migrate hlawful
  | migrated v1InviteCode v2Community => exact h.same (fun _ => rfl) (by simp [run]) rfl rfl rfl rfl

/-! ## Runs -/

theorem inv_call (call : Call) (h : Inv s tasks) : Inv s (tasks ++ [start call]) where
  fits := by
    have hstart : (start call).Fits := by cases call <;> trivial
    intro t ht
    rcases List.mem_append.mp ht with hold | hnew
    · exact h.fits t hold
    · exact List.mem_singleton.mp hnew ▸ hstart
  nodup := h.nodup
  settled := by
    intro id
    refine (h.settled id).imp_right ?_
    rintro ⟨t, ht, hdecides⟩
    exact ⟨t, List.mem_append_left _ ht, hdecides⟩

theorem autojoins_call (call : Call) (h : Autojoins codeOf s tasks) : Autojoins codeOf s (tasks ++ [start call]) where
  neverRejoined := h.neverRejoined
  known := by
    intro id hid
    refine (h.known id hid).imp_right ?_
    rintro ⟨community, setAsSelected, hmem⟩
    exact ⟨community, setAsSelected, List.mem_append_left _ hmem⟩
  alone := by
    intro code
    have hstart : (start call).autojoins code = false := by cases call <;> rfl
    rw [List.countP_append, List.countP_singleton, hstart]
    exact h.alone code
  unmarked := by
    intro code setAsSelected hmem
    rcases List.mem_append.mp hmem with hold | hnew
    · exact h.unmarked code setAsSelected hold
    · have heq := List.mem_singleton.mp hnew
      cases call <;> simp [start] at heq

theorem inv_initial : Inv System.initial [] := by
  refine ⟨by simp, List.nodup_nil, fun id => .inl ?_⟩
  unfold Agrees System.ids ids System.initial
  simp [BTreeMap.keys]

theorem autojoins_initial : Autojoins codeOf System.initial [] := by
  refine ⟨rfl, ?_, ?_, ?_⟩ <;> simp [System.initial]

/-- The store of a run that meets the conditions agrees with the bridge. -/
theorem agreed_of_run (globalCommunityInvite : Option String) (codeOf : String → String)
    (es : List (Event Call Input))
    (hlawful : Along start (run globalCommunityInvite) (Lawful codeOf) ⟨System.initial, []⟩ es) :
    Agreed (communities globalCommunityInvite es).state (communities globalCommunityInvite es).tasks := by
  have hinv : Inv (communities globalCommunityInvite es).state (communities globalCommunityInvite es).tasks ∧
      Autojoins codeOf (communities globalCommunityInvite es).state (communities globalCommunityInvite es).tasks :=
    pool_induction (I := fun s tasks => Inv s tasks ∧ Autojoins codeOf s tasks) ⟨inv_initial, autojoins_initial⟩
      (fun s tasks call h => ⟨inv_call call h.1, autojoins_call call h.2⟩)
      (fun s before task after input h hlawful => ⟨inv_run input h.1 hlawful, autojoins_run input h.2 hlawful⟩) hlawful
  refine ⟨hinv.2.neverRejoined, fun _ => hinv.1.nodup, fun hdone id => ?_⟩
  rcases hinv.1.settled id with hagrees | ⟨task, hmem, -⟩
  · exact hagrees
  · rw [hdone] at hmem
    simp at hmem

def joins (inviteCode : String) : Input := ⟨false, inviteCode, ⟨inviteCode, .empty⟩⟩

/-- The default community is joined, another automatically; that one is migrated, left, and not joined again. -/
def autojoinedAndLeft : List (Event Call Input) :=
  [ .call .refreshCommunities, .advance 0 (joins ""), .advance 0 (joins ""), .advance 0 (joins "g"),
    .advance 0 (joins ""), .call (.autojoinCommunity "a" false), .advance 0 (joins ""), .advance 0 (joins "a"),
    .advance 0 (joins ""), .advance 0 (joins ""), .advance 0 (joins ""),
    .call (.migrate "a" "b" ⟨"b", .empty⟩), .advance 0 (joins ""), .advance 0 (joins ""),
    .call (.leaveCommunity "b"), .advance 0 (joins ""), .advance 0 (joins ""), .advance 0 (joins ""),
    .call (.autojoinCommunity "a" false), .advance 0 (joins "") ]

theorem agreed_of_run_demo :
    Agreed (communities (some "g") autojoinedAndLeft).state (communities (some "g") autojoinedAndLeft).tasks :=
  agreed_of_run (some "g") (fun inviteCode => if inviteCode = "b" then "a" else inviteCode) autojoinedAndLeft
    (by decide +kernel)

/-- A community is joined while the default community is being joined. -/
def joinedBeforeDefault : List (Event Call Input) :=
  [ .call .ensureDefaultCommunityIsJoined, .advance 0 (joins ""), .advance 0 (joins "g"), .call (.joinCommunity false),
    .advance 1 (joins "a"), .advance 1 (joins ""), .advance 0 (joins "") ]

/-- The bridge has it, and the store has lost it. -/
theorem defaultJoin_drops : ¬ ∀ globalCommunityInvite es,
    Agreed (communities globalCommunityInvite es).state (communities globalCommunityInvite es).tasks := by
  intro h
  have hagreed := h (some "g") joinedBeforeDefault
  have hjoined : "a" ∈ (communities (some "g") joinedBeforeDefault).state.bridge.keys := by decide +kernel
  have hlost : "a" ∉ (communities (some "g") joinedBeforeDefault).state.ids := by decide +kernel
  exact hlost ((hagreed.agrees (by decide +kernel) "a").mpr hjoined)

end CommunityStore
