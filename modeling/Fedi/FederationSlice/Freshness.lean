import Fedi.FederationSlice.Federations

/-!
# Left federations stay away, and balances are the newest

Once nothing is in flight, no federation that was left is in the store or referenced by it, and
every ready federation has the newest balance that was delivered, in every run that meets three
conditions (`fresh_of_run`): nothing delivered brings back a federation that was left before, or
an older balance; a federation that is left is not selected; and a used federation is not left
as the last one.

None is checked.  A guardian status that was asked for before a federation was left puts it
into the store again (`guardianStatus_resurrects`).
-/

namespace FederationSlice

open BTreeMaps Tasks

/-! ## What is promised -/

abbrev System.ids (s : System) : List String := FederationSlice.ids Federation.id s.federations

/-- The store has nothing of a federation. -/
structure Gone (s : System) (id : String) : Prop where
  absent : id ∉ s.ids
  notPaying : s.payFromFederationId ≠ some id
  notUsed : id ∉ s.recentlyUsedFederationIds
  notSelected : s.selectedFederationId ≠ some id

/-- The newest balance that was delivered. -/
def newestBalance (newest : BTreeMap String (ℕ × ℕ)) (id : String) : Option ℕ := (newest.get? id).map Prod.snd

structure Fresh (s : System) : Prop where
  gone : ∀ id ∈ s.left, Gone s id
  current : ∀ f ∈ s.federations, f.initState = .ready → f.balance = newestBalance s.newest f.id

/-! ## The conditions -/

/-- The federation was not left, or the store is about to be told. -/
def Present (s : System) (others : List Task) (id : String) : Prop := id ∉ s.left ∨ Task.left id ∈ others

instance (s : System) (others : List Task) (id : String) : Decidable (Present s others id) :=
  inferInstanceAs (Decidable (_ ∨ _))

/-- A balance of bridge time `time` is not older than what was delivered. -/
def NotOlder (newest : BTreeMap String (ℕ × ℕ)) (id : String) (balance time : ℕ) : Prop :=
  ∀ known ∈ newest.get? id, known.1 ≤ time ∨ known.2 = balance

instance (newest : BTreeMap String (ℕ × ℕ)) (id : String) (balance time : ℕ) :
    Decidable (NotOlder newest id balance time) := by
  unfold NotOlder
  infer_instance

def Lawful (s : System) (others : List Task) (task : Task) (input : Input) : Prop :=
  match task with
  | .listed answer time => ∀ f ∈ answer, Present s others f.id ∧ ∀ balance ∈ f.balance, NotOlder s.newest f.id balance time
  | .federationEvent f time => Present s others f.id ∧ ∀ balance ∈ f.balance, NotOlder s.newest f.id balance time
  | .guardianStatus f => input.fails = false → Present s others f.id ∧ f.balance = newestBalance s.newest f.id
  | .balanceEvent federationId balance time => NotOlder s.newest federationId balance time
  | .left federationId =>
    s.selectedFederationId ≠ some federationId ∧
      (federationId ∈ s.recentlyUsedFederationIds → ∃ f ∈ s.federations, f.id ≠ federationId)
  | _ => True

instance (s : System) (others : List Task) (task : Task) (input : Input) : Decidable (Lawful s others task input) := by
  unfold Lawful
  split <;> infer_instance

/-! ## The invariant -/

/-- An object of the bridge has a balance if it is ready. -/
def Federation.Whole (f : Federation) : Prop := f.initState = .ready ↔ f.balance.isSome = true

def Task.Fits : Task → Prop
  | .listed answer _ => (ids Federation.id answer).Nodup ∧ ∀ f ∈ answer, f.Whole
  | .federationEvent f _ | .guardianStarting f | .guardianStatus f => f.Whole
  | _ => True

structure Inv (s : System) (tasks : List Task) : Prop where
  fits : ∀ task ∈ tasks, task.Fits
  nodup : s.ids.Nodup
  gone : ∀ id ∈ s.left, Gone s id ∨ Task.left id ∈ tasks
  current : ∀ f ∈ s.federations, f.initState = .ready → f.balance = newestBalance s.newest f.id

variable {s s' : System} {before after next : List Task} {task : Task} {id : String} {f : Federation}

/-! ### Notes -/

theorem newestBalance_note {newest : BTreeMap String (ℕ × ℕ)} {balance time : ℕ}
    (h : NotOlder newest id balance time) (other : String) :
    newestBalance (note newest id balance time) other = if other = id then some balance else newestBalance newest other := by
  unfold newestBalance note
  split
  · rw [BTreeMap.get?_insert]
    split <;> rfl
  next known hknown =>
    split
    · rw [BTreeMap.get?_insert]
      split <;> rfl
    next holder =>
      have hsame := (h known hknown).resolve_left holder
      split
      next hother =>
        rw [hother, hknown, ← hsame]
        rfl
      · rfl

theorem get?_note_of_ne {newest : BTreeMap String (ℕ × ℕ)} {balance time : ℕ} {other : String} (h : other ≠ id) :
    (note newest id balance time).get? other = newest.get? other := by
  unfold note
  split
  · rw [BTreeMap.get?_insert_ne _ _ h]
  · split
    · rw [BTreeMap.get?_insert_ne _ _ h]
    · rfl

/-- A delivered federation's balance is the newest. -/
theorem newestBalance_noteFederation {newest : BTreeMap String (ℕ × ℕ)} {time : ℕ}
    (h : ∀ balance ∈ f.balance, NotOlder newest f.id balance time) (other : String) :
    newestBalance (noteFederation time newest f) other =
      if other = f.id ∧ f.balance.isSome = true then f.balance else newestBalance newest other := by
  unfold noteFederation
  cases hbalance : f.balance with
  | none => simp
  | some balance =>
    dsimp only
    rw [newestBalance_note (h balance (by rw [hbalance]; rfl))]
    simp

theorem newestBalance_noteAll {answer : List Federation} {newest : BTreeMap String (ℕ × ℕ)} {time : ℕ}
    (hnodup : (ids Federation.id answer).Nodup)
    (h : ∀ f ∈ answer, ∀ balance ∈ f.balance, NotOlder newest f.id balance time) :
    (∀ other ∉ ids Federation.id answer,
      newestBalance (answer.foldl (noteFederation time) newest) other = newestBalance newest other) ∧
    ∀ f ∈ answer, f.balance.isSome = true →
      newestBalance (answer.foldl (noteFederation time) newest) f.id = f.balance := by
  induction answer generalizing newest with
  | nil => simp
  | cons first answer ih =>
    unfold ids at hnodup ih ⊢
    rw [List.map_cons, List.nodup_cons] at hnodup
    have hfirst := newestBalance_noteFederation (h first List.mem_cons_self)
    have hkept : ∀ f ∈ answer, (noteFederation time newest first).get? f.id = newest.get? f.id := by
      intro f hf
      have hne : f.id ≠ first.id := fun heq => hnodup.1 (List.mem_map.mpr ⟨f, hf, heq⟩)
      unfold noteFederation
      split
      · rfl
      · exact get?_note_of_ne hne
    have holder : ∀ f ∈ answer, ∀ balance ∈ f.balance, NotOlder (noteFederation time newest first) f.id balance time := by
      intro f hf balance hbalance
      unfold NotOlder
      rw [hkept f hf]
      exact h f (List.mem_cons_of_mem _ hf) balance hbalance
    obtain ⟨hothers, hanswer⟩ := ih hnodup.2 holder
    rw [List.foldl_cons]
    refine ⟨fun other hother => ?_, fun f hf hsome => ?_⟩
    · rw [List.map_cons, List.mem_cons, not_or] at hother
      rw [hothers other hother.2, hfirst, if_neg fun heq => hother.1 heq.1]
    · rcases List.mem_cons.mp hf with rfl | hf
      · rw [hothers _ hnodup.1, hfirst, if_pos ⟨rfl, hsome⟩]
      · exact hanswer f hf hsome

/-! ### What a reducer leaves -/

theorem upsert_id (existing new : Federation) : (existing.upsert new).id = new.id := rfl

theorem set_id (existing new : Federation) : (existing.set new).id = new.id := by
  unfold Federation.set
  split
  · rfl
  · rfl
  · split <;> rfl

/-- What comes from a delivered federation has its balance, if it is ready. -/
theorem upsert_ready {existing new : Federation} (h : (existing.upsert new).initState = .ready)
    (hwhole : new.Whole) : (existing.upsert new).balance = new.balance ∧ new.initState = .ready := by
  have hready : new.initState = .ready := h
  obtain ⟨balance, hbalance⟩ := Option.isSome_iff_exists.mp (hwhole.mp hready)
  refine ⟨?_, hready⟩
  unfold Federation.upsert Federation.spread
  dsimp only
  rw [hbalance]
  rfl

theorem set_ready {existing new : Federation} (h : (existing.set new).initState = .ready) (hwhole : new.Whole) :
    (existing.set new).balance = new.balance ∧ new.initState = .ready := by
  have hready : new.initState = .ready := by
    unfold Federation.set at h
    split at h
    next hstate =>
      rw [hstate] at h
      cases h
    next hstate =>
      rw [hstate] at h
      cases h
    next hstate => exact hstate
  obtain ⟨balance, hbalance⟩ := Option.isSome_iff_exists.mp (hwhole.mp hready)
  refine ⟨?_, hready⟩
  unfold Federation.set Federation.spread
  rw [hready]
  dsimp only
  split <;> simp [hbalance]

theorem upsertFederation_mem_ids {payload : Federation} (h : id ∈ (s.upsertFederation payload).ids) :
    id ∈ s.ids ∨ id = payload.id := by
  unfold System.upsertFederation at h
  split at h
  · exact .inl h
  · exact (mem_ids_upsertListItem upsert_id).mp h

theorem upsertFederation_nodup {payload : Federation} (h : s.ids.Nodup) : (s.upsertFederation payload).ids.Nodup := by
  unfold System.upsertFederation
  split
  · exact h
  · exact nodup_upsertListItem upsert_id h

/-- An upsert touches the list only. -/
theorem upsertFederation_gone {payload : Federation} (h : Gone s id) (hne : id ≠ payload.id) :
    Gone (s.upsertFederation payload) id := by
  refine ⟨fun hmem => (upsertFederation_mem_ids hmem).elim h.absent hne, ?_, ?_, ?_⟩
  all_goals unfold System.upsertFederation; split
  exacts [h.notPaying, h.notPaying, h.notUsed, h.notUsed, h.notSelected, h.notSelected]

theorem upsertFederation_left {payload : Federation} : (s.upsertFederation payload).left = s.left := by
  unfold System.upsertFederation
  split <;> rfl

theorem upsertFederation_newest {payload : Federation} : (s.upsertFederation payload).newest = s.newest := by
  unfold System.upsertFederation
  split <;> rfl

/-- An upsert with the newest balance. -/
theorem upsertFederation_current {payload : Federation} (hnodup : s.ids.Nodup) (hwhole : payload.Whole)
    (hbalance : payload.initState = .ready → payload.balance = newestBalance s.newest payload.id)
    (h : ∀ x ∈ s.federations, x.id ≠ payload.id → x.initState = .ready → x.balance = newestBalance s.newest x.id)
    (hsame : payload.id = "" → ∀ x ∈ s.federations, x.initState = .ready → x.balance = newestBalance s.newest x.id) :
    ∀ x ∈ (s.upsertFederation payload).federations, x.initState = .ready →
      x.balance = newestBalance (s.upsertFederation payload).newest x.id := by
  rw [upsertFederation_newest]
  intro x hx hready
  unfold System.upsertFederation at hx
  split at hx
  next hempty => exact hsame hempty x hx hready
  · rcases of_mem_upsertListItem hnodup hx with ⟨hold, hne⟩ | rfl | ⟨old, -, -, rfl⟩
    · exact h x hold hne hready
    · exact hbalance hready
    · obtain ⟨heq, hnew⟩ := upsert_ready hready hwhole
      rw [heq]
      exact hbalance hnew

/-- The existing federations of `setFederations`, updated. -/
def updatedFederations (s : System) (payload : List Federation) : List Federation :=
  s.federations.map fun existing =>
    match payload.find? fun f => decide (f.id = existing.id) with
    | none => existing
    | some federationToUpsert => existing.set federationToUpsert

theorem setFederations_eq (s : System) (payload : List Federation) : s.setFederations payload =
    { s with federations := updatedFederations s payload ++ newItems Federation.id s.federations payload } := rfl

theorem ids_updatedFederations (s : System) (payload : List Federation) :
    ids Federation.id (updatedFederations s payload) = s.ids := by
  unfold updatedFederations System.ids ids
  rw [List.map_map]
  refine List.map_congr_left fun existing _ => ?_
  rw [Function.comp_apply]
  cases hfind : payload.find? fun f => decide (f.id = existing.id) with
  | none => rfl
  | some federationToUpsert =>
    have hid := List.find?_some hfind
    rw [decide_eq_true_eq] at hid
    exact (set_id existing federationToUpsert).trans hid

theorem setFederations_mem_ids {payload : List Federation} (h : id ∈ (s.setFederations payload).ids) :
    id ∈ s.ids ∨ id ∈ ids Federation.id payload := by
  rw [setFederations_eq] at h
  have hupdated := ids_updatedFederations s payload
  unfold System.ids ids at *
  rw [List.map_append, hupdated, List.mem_append] at h
  refine h.imp_right fun hnew => ?_
  exact (List.filter_sublist.map Federation.id).subset hnew

theorem setFederations_nodup {payload : List Federation} (h : s.ids.Nodup) (hpayload : (ids Federation.id payload).Nodup) :
    (s.setFederations payload).ids.Nodup := by
  have hsame : (ids Federation.id (updatedFederations s payload)).Sublist s.ids := by rw [ids_updatedFederations]
  exact nodup_newItems hsame h hpayload

theorem setFederations_current {payload : List Federation} (hwhole : ∀ f ∈ payload, f.Whole)
    (hpayload : ∀ f ∈ payload, f.initState = .ready → f.balance = newestBalance s.newest f.id)
    (h : ∀ x ∈ s.federations, x.id ∉ ids Federation.id payload → x.initState = .ready →
      x.balance = newestBalance s.newest x.id) :
    ∀ x ∈ (s.setFederations payload).federations, x.initState = .ready → x.balance = newestBalance s.newest x.id := by
  intro x hx hready
  rcases List.mem_append.mp hx with hold | hnew
  · obtain ⟨existing, hexisting, rfl⟩ := List.mem_map.mp hold
    cases hfind : payload.find? fun f => decide (f.id = existing.id) with
    | none =>
      simp only [hfind] at hready ⊢
      refine h existing hexisting (fun hmem => ?_) hready
      obtain ⟨f, hf, hid⟩ := List.mem_map.mp hmem
      exact List.find?_eq_none.mp hfind f hf (by simpa using hid)
    | some federationToUpsert =>
      simp only [hfind] at hready ⊢
      have hmem := List.mem_of_find?_eq_some hfind
      obtain ⟨heq, hnew⟩ := set_ready hready (hwhole _ hmem)
      rw [heq, set_id]
      exact hpayload _ hmem hnew
  · exact hpayload x (List.mem_filter.mp hnew).1 hready

/-! ### Steps -/

/-- A task other than the end of a leave keeps these. -/
theorem Inv.others (h : Inv s (before ++ task :: after)) (htask : ∀ id, task ≠ .left id) :
    ∀ id ∈ s.left, Gone s id ∨ Task.left id ∈ before ++ after := by
  intro id hid
  refine (h.gone id hid).imp_right fun hmem => ?_
  simp only [List.mem_append, List.mem_cons] at hmem ⊢
  rcases hmem with hbefore | heq | hafter
  · exact .inl hbefore
  · exact absurd heq.symm (htask id)
  · exact .inr hafter

theorem mem_next {x : Task} (h : x ∈ before ++ after) : x ∈ before ++ next ++ after := by
  simp only [List.mem_append] at h ⊢
  tauto

/-- A step that leaves the store alone. -/
theorem Inv.same (h : Inv s (before ++ task :: after)) (htask : ∀ id, task ≠ .left id)
    (hnext : ∀ x ∈ next, x.Fits) : Inv s (before ++ next ++ after) where
  fits := forall_next_iff.mpr ⟨hnext, (forall_task_iff.mp h.fits).2⟩
  nodup := h.nodup
  gone := fun id hid => (h.others htask id hid).imp_right mem_next
  current := h.current

theorem listFederations_whole (bridge : BTreeMap String RpcFederation) : ∀ f ∈ listFederations bridge, f.Whole := by
  intro f hf
  obtain ⟨e, -, rfl⟩ := List.mem_map.mp hf
  unfold Federation.Whole RpcFederation.coerce
  split <;> simp

theorem listFederations_nodup (bridge : BTreeMap String RpcFederation) :
    (ids Federation.id (listFederations bridge)).Nodup := by
  have hkeys : ids Federation.id (listFederations bridge) = bridge.keys := by
    unfold ids listFederations BTreeMap.keys
    rw [List.map_map]
    refine List.map_congr_left fun e _ => ?_
    unfold RpcFederation.coerce
    rw [Function.comp_apply]
    split <;> rfl
  rw [hkeys]
  exact bridge.keys_nodup

theorem useFirst_cases (s : System) (federations : List Federation) :
    s.useFirst federations = s ∨
      ∃ first ∈ federations, s.useFirst federations = s.setLastUsedFederationId first.id := by
  unfold System.useFirst
  split
  · split
    · exact .inl rfl
    · exact .inr ⟨_, List.mem_cons_self, rfl⟩
  · exact .inl rfl

/-- Another federation is used last. -/
theorem Gone.lastUsed {used : String} (h : Gone s id) (hne : id ≠ used) : Gone (s.setLastUsedFederationId used) id where
  absent := h.absent
  notPaying := h.notPaying
  notUsed := by
    intro hmem
    rcases List.mem_cons.mp hmem with heq | hold
    · exact hne heq
    · exact h.notUsed (List.mem_filter.mp hold).1
  notSelected := fun heq => hne (Option.some.inj heq).symm

theorem Inv.refresh {answer : List Federation} {time : ℕ} (h : Inv s (before ++ .listed answer time :: after))
    (hlawful : ∀ f ∈ answer, Present s (before ++ after) f.id ∧
      ∀ balance ∈ f.balance, NotOlder s.newest f.id balance time) :
    Inv (refresh s answer time).1 (before ++ (refresh s answer time).2 ++ after) := by
  obtain ⟨hnodup, hwhole⟩ : (ids Federation.id answer).Nodup ∧ ∀ f ∈ answer, f.Whole :=
    h.fits (.listed answer time) (by simp)
  obtain ⟨hother, hnewest⟩ := newestBalance_noteAll hnodup fun f hf => (hlawful f hf).2
  have hset := @setFederations_nodup (s.noteAll answer time) answer h.nodup hnodup
  have hcurrent : ∀ x ∈ ((s.noteAll answer time).setFederations answer).federations, x.initState = .ready →
      x.balance = newestBalance (s.noteAll answer time).newest x.id := by
    refine setFederations_current hwhole (fun f hf hready => ?_) fun x hx hnot hready => ?_
    · exact (hnewest f hf ((hwhole f hf).mp hready)).symm
    · rw [h.current x hx hready]
      exact (hother x.id hnot).symm
  have hpresent : ∀ id ∈ s.left, id ∈ ids Federation.id answer → Task.left id ∈ before ++ after := by
    intro id hid hmem
    obtain ⟨f, hf, rfl⟩ := List.mem_map.mp hmem
    exact (hlawful f hf).1.resolve_left fun hnot => hnot hid
  have hgone : ∀ id ∈ s.left, Gone ((s.noteAll answer time).setFederations answer) id ∨
      Task.left id ∈ before ++ after := by
    intro id hid
    by_cases hanswer : id ∈ ids Federation.id answer
    · exact .inr (hpresent id hid hanswer)
    · refine (h.others (by simp) id hid).imp_left fun hold => ?_
      refine ⟨fun hmem => ?_, hold.notPaying, hold.notUsed, hold.notSelected⟩
      exact (setFederations_mem_ids hmem).elim hold.absent hanswer
  have hfits : ∀ x ∈ guardianTasks answer, x.Fits := by
    intro x hx
    obtain ⟨f, hf, rfl⟩ := List.mem_map.mp hx
    exact hwhole f (List.mem_filter.mp hf).1
  rcases useFirst_cases ((s.noteAll answer time).setFederations answer) answer with hsame | ⟨first, hfirst, hused⟩
  · unfold FederationSlice.refresh
    rw [hsame]
    exact ⟨forall_next_iff.mpr ⟨hfits, (forall_task_iff.mp h.fits).2⟩, hset,
      fun id hid => (hgone id hid).imp_right mem_next, hcurrent⟩
  · unfold FederationSlice.refresh
    rw [hused]
    refine ⟨forall_next_iff.mpr ⟨hfits, (forall_task_iff.mp h.fits).2⟩, hset, fun id hid => ?_, hcurrent⟩
    by_cases hid' : id = first.id
    · exact .inr (mem_next (hpresent id hid (by rw [hid']; exact List.mem_map_of_mem hfirst)))
    · exact (hgone id hid).imp (fun hold => hold.lastUsed hid') mem_next

theorem named_whole (h : f.Whole) : (named f).Whole := by
  unfold named
  split
  · exact h
  · split
    · exact h
    · exact h

/-- A delivered federation goes into the list. -/
theorem Inv.upsert {payload : Federation} (h : Inv s (before ++ task :: after)) (htask : ∀ id, task ≠ .left id)
    (hwhole : payload.Whole) (hpresent : Present s (before ++ after) payload.id)
    {newest : BTreeMap String (ℕ × ℕ)}
    (hother : ∀ other, other ≠ payload.id → newestBalance newest other = newestBalance s.newest other)
    (hbalance : payload.initState = .ready → payload.balance = newestBalance newest payload.id)
    (hempty : payload.id = "" → newest = s.newest) (hnext : ∀ x ∈ next, x.Fits) :
    Inv ({ s with newest := newest }.upsertFederation payload) (before ++ next ++ after) where
  fits := forall_next_iff.mpr ⟨hnext, (forall_task_iff.mp h.fits).2⟩
  nodup := upsertFederation_nodup h.nodup
  gone := fun id hid => by
    rw [upsertFederation_left] at hid
    by_cases hne : id = payload.id
    · rw [hne] at hid ⊢
      exact .inr (mem_next (hpresent.resolve_left fun hnot => hnot hid))
    · refine (h.others htask id hid).imp (fun hold => upsertFederation_gone ?_ hne) mem_next
      exact ⟨hold.absent, hold.notPaying, hold.notUsed, hold.notSelected⟩
  current := by
    refine upsertFederation_current h.nodup hwhole hbalance (fun x hx hne hready => ?_) fun hid x hx hready => ?_
    · exact (h.current x hx hready).trans (hother x.id hne).symm
    · rw [hempty hid]
      exact h.current x hx hready

theorem Inv.refreshGuardianStatus (h : Inv s (before ++ .guardianStatus f :: after)) {input : Input}
    (hlawful : input.fails = false → Present s (before ++ after) f.id ∧ f.balance = newestBalance s.newest f.id) :
    Inv (refreshGuardianStatus s f input).1 (before ++ (refreshGuardianStatus s f input).2 ++ after) := by
  have hwhole : f.Whole := h.fits (.guardianStatus f) (by simp)
  unfold FederationSlice.refreshGuardianStatus
  split
  · exact h.same (by simp) (by simp)
  next hok =>
    obtain ⟨hpresent, hbalance⟩ := hlawful (by simpa using hok)
    exact @Inv.upsert s before after [] _ { f with status := some input.status } h (by simp) hwhole hpresent s.newest
      (fun _ _ => rfl) (fun _ => hbalance) (fun _ => rfl) (by simp)

theorem Inv.onFederation {time : ℕ} (h : Inv s (before ++ .federationEvent f time :: after))
    (hpresent : Present s (before ++ after) f.id) (holder : ∀ balance ∈ f.balance, NotOlder s.newest f.id balance time) :
    Inv (onFederation s f time).1 (before ++ (onFederation s f time).2 ++ after) := by
  have hwhole : f.Whole := h.fits (.federationEvent f time) (by simp)
  unfold FederationSlice.onFederation
  split
  · exact h.same (by simp) (by simp)
  next hid =>
    have hnewest := newestBalance_noteFederation holder
    refine h.upsert (by simp) hwhole hpresent (fun other hne => ?_) (fun hready => ?_) (fun heq => absurd heq hid) ?_
    · rw [List.foldl_cons, List.foldl_nil, hnewest, if_neg fun heq => hne heq.1]
    · rw [List.foldl_cons, List.foldl_nil, hnewest, if_pos ⟨rfl, hwhole.mp hready⟩]
    · intro x hx
      split at hx
      · cases hx
      · cases hx
      · rw [List.mem_singleton.mp hx]
        exact named_whole hwhole

theorem updateFederationBalance_cases (s : System) (federationId : String) (balance : ℕ) :
    (s.updateFederationBalance federationId balance = s ∧
      (s.federations.find? fun f => decide (f.id = federationId)).all fun f =>
        decide (f.initState = .ready → f.balance = some balance)) ∨
      s.updateFederationBalance federationId balance =
        { s with federations := setBalance s.federations federationId balance } := by
  unfold System.updateFederationBalance
  cases s.federations.find? fun f => decide (f.id = federationId) with
  | none => exact .inl ⟨rfl, rfl⟩
  | some federation =>
    dsimp only
    split
    next hsame =>
      refine .inl ⟨rfl, ?_⟩
      simp only [Option.all_some, decide_eq_true_eq]
      exact fun hready => hsame.resolve_left fun hnot => hnot hready
    · exact .inr rfl

theorem ids_setBalance (federations : List Federation) (federationId : String) (balance : ℕ) :
    ids Federation.id (setBalance federations federationId balance) = ids Federation.id federations := by
  unfold setBalance ids
  rw [List.map_map]
  refine List.map_congr_left fun f _ => ?_
  rw [Function.comp_apply]
  split <;> rfl

theorem Inv.onBalance {federationId : String} {balance time : ℕ}
    (h : Inv s (before ++ .balanceEvent federationId balance time :: after))
    (hlawful : NotOlder s.newest federationId balance time) :
    Inv (onBalance s federationId balance time).1 (before ++ (onBalance s federationId balance time).2 ++ after) := by
  have hnewest := newestBalance_note hlawful
  have hold := h.others (by simp)
  unfold FederationSlice.onBalance
  rcases updateFederationBalance_cases { s with newest := note s.newest federationId balance time } federationId balance
    with ⟨hsame, hbalance⟩ | hupdated
  · rw [hsame]
    refine ⟨forall_next_iff.mpr ⟨by simp, (forall_task_iff.mp h.fits).2⟩, h.nodup, fun id hid => ?_,
      fun x hx hready => ?_⟩
    · exact (hold id hid).imp (fun hgone => ⟨hgone.absent, hgone.notPaying, hgone.notUsed, hgone.notSelected⟩) mem_next
    · rw [hnewest]
      split
      next hid =>
        -- the federation is the only one with its id
        obtain ⟨found, hfound⟩ : ∃ found, s.federations.find? (fun f => decide (f.id = federationId)) = some found := by
          rw [← Option.isSome_iff_exists, List.find?_isSome]
          exact ⟨x, hx, by simpa using hid⟩
        have hfoundId := List.find?_some hfound
        rw [decide_eq_true_eq] at hfoundId
        have heq := eq_of_nodup h.nodup hx (List.mem_of_find?_eq_some hfound) (hid.trans hfoundId.symm)
        dsimp only at hbalance
        rw [hfound, Option.all_some, decide_eq_true_eq, ← heq] at hbalance
        exact hbalance hready
      · exact h.current x hx hready
  · rw [hupdated]
    have hids := ids_setBalance s.federations federationId balance
    refine ⟨forall_next_iff.mpr ⟨by simp, (forall_task_iff.mp h.fits).2⟩, ?_, fun id hid => ?_, fun x hx hready => ?_⟩
    · show (ids Federation.id (setBalance s.federations federationId balance)).Nodup
      rw [hids]
      exact h.nodup
    · refine (hold id hid).imp (fun hgone => ⟨?_, hgone.notPaying, hgone.notUsed, hgone.notSelected⟩) mem_next
      show id ∉ ids Federation.id (setBalance s.federations federationId balance)
      rw [hids]
      exact hgone.absent
    · obtain ⟨old, hmem, rfl⟩ := List.mem_map.mp hx
      rw [hnewest]
      by_cases hid : old.id = federationId
      · simp [hid]
      · simp only [hid, if_false] at hready ⊢
        exact h.current old hmem hready

theorem Inv.leave {federationId : String} {fails : Bool} (h : Inv s (before ++ .leaving federationId :: after)) :
    Inv (leave s federationId fails).1 (before ++ (leave s federationId fails).2 ++ after) := by
  unfold FederationSlice.leave
  split
  · exact h.same (by simp) (by simp)
  · refine ⟨forall_next_iff.mpr ⟨by simp [Task.Fits], (forall_task_iff.mp h.fits).2⟩, h.nodup, fun id hid => ?_,
      h.current⟩
    rcases List.mem_cons.mp hid with rfl | hold
    · exact .inr (by simp)
    · refine (h.others (by simp) id hold).imp (fun hgone => ?_) mem_next
      exact ⟨hgone.absent, hgone.notPaying, hgone.notUsed, hgone.notSelected⟩

/-- The store forgets a federation that is not selected, and is not the only one that was used. -/
theorem gone_leaveFulfilled {federationId : String} (hselected : s.selectedFederationId ≠ some federationId)
    (hused : federationId ∈ s.recentlyUsedFederationIds → ∃ f ∈ s.federations, f.id ≠ federationId) :
    Gone (s.leaveFulfilled federationId) federationId ∧
      ∀ id, Gone s id → Gone (s.leaveFulfilled federationId) id := by
  have hids : ∀ id, id ∈ ids Federation.id (s.federations.filter fun fed => decide (fed.id ≠ federationId)) →
      id ∈ s.ids ∧ id ≠ federationId := by
    intro id hid
    obtain ⟨f, hf, rfl⟩ := List.mem_map.mp hid
    rw [List.mem_filter, decide_eq_true_eq] at hf
    exact ⟨List.mem_map_of_mem hf.1, hf.2⟩
  unfold System.leaveFulfilled
  cases hrest : s.federations.filter fun fed => decide (fed.id ≠ federationId) with
  | nil =>
    have hunused : federationId ∉ s.recentlyUsedFederationIds := by
      intro hmem
      obtain ⟨f, hf, hne⟩ := hused hmem
      rw [List.filter_eq_nil_iff] at hrest
      exact hrest f hf (by simpa using hne)
    exact ⟨⟨by simp [ids], by simp, hunused, hselected⟩,
      fun id hgone => ⟨by simp [ids], by simp, hgone.notUsed, hgone.notSelected⟩⟩
  | cons first rest =>
    rw [hrest] at hids
    obtain ⟨hfirst, hne⟩ := hids first.id List.mem_cons_self
    -- what replaces the used federations never brings back one that is gone
    have hrecent : ∀ id, id = federationId ∨ Gone s id →
        id ∉ if (s.recentlyUsedFederationIds.filter fun id => decide (id ≠ federationId)) = [] then [first.id]
          else s.recentlyUsedFederationIds.filter fun id => decide (id ≠ federationId) := by
      intro id hid
      split
      · rw [List.mem_singleton]
        rintro rfl
        rcases hid with heq | hgone
        · exact hne heq
        · exact hgone.absent hfirst
      · rw [List.mem_filter, decide_eq_true_eq]
        rintro ⟨hmem, hother⟩
        rcases hid with heq | hgone
        · exact hother heq
        · exact hgone.notUsed hmem
    have hpaying : ∀ id, id = federationId ∨ Gone s id → (if s.payFromFederationId = some federationId then
        (if (s.recentlyUsedFederationIds.filter fun id => decide (id ≠ federationId)) = [] then [first.id]
          else s.recentlyUsedFederationIds.filter fun id => decide (id ≠ federationId)).head?
        else s.payFromFederationId) ≠ some id := by
      intro id hid
      split
      · exact fun hhead => hrecent id hid (List.mem_of_mem_head? hhead)
      next hnot =>
        rcases hid with rfl | hgone
        · exact hnot
        · exact hgone.notPaying
    refine ⟨⟨fun hmem => (hids _ hmem).2 rfl, hpaying _ (.inl rfl), hrecent _ (.inl rfl), hselected⟩,
      fun id hgone => ⟨fun hmem => hgone.absent (hids _ hmem).1, hpaying _ (.inr hgone), hrecent _ (.inr hgone),
        hgone.notSelected⟩⟩

theorem leaveFulfilled_kept (s : System) (federationId : String) :
    (s.leaveFulfilled federationId).left = s.left ∧ (s.leaveFulfilled federationId).newest = s.newest ∧
      (s.leaveFulfilled federationId).federations = s.federations.filter fun fed => decide (fed.id ≠ federationId) := by
  unfold System.leaveFulfilled
  cases s.federations.filter fun fed => decide (fed.id ≠ federationId) with
  | nil => exact ⟨rfl, rfl, rfl⟩
  | cons first rest => exact ⟨rfl, rfl, rfl⟩

theorem Inv.leaveFulfilled {federationId : String} (h : Inv s (before ++ .left federationId :: after))
    (hselected : s.selectedFederationId ≠ some federationId)
    (hused : federationId ∈ s.recentlyUsedFederationIds → ∃ f ∈ s.federations, f.id ≠ federationId) :
    Inv (s.leaveFulfilled federationId) (before ++ [] ++ after) := by
  obtain ⟨hleft, hnewest, hfederations⟩ := leaveFulfilled_kept s federationId
  obtain ⟨hgone, hothers⟩ := gone_leaveFulfilled hselected hused
  refine ⟨forall_next_iff.mpr ⟨by simp, (forall_task_iff.mp h.fits).2⟩, ?_, fun id hid => ?_, fun x hx hready => ?_⟩
  · unfold System.ids
    rw [hfederations]
    exact nodup_ids_filter _ h.nodup
  · rw [hleft] at hid
    by_cases heq : id = federationId
    · exact .inl (heq ▸ hgone)
    · refine (h.gone id hid).imp (hothers id) fun hmem => ?_
      simp only [List.mem_append, List.mem_cons, Task.left.injEq, heq, false_or] at hmem
      exact mem_next (List.mem_append.mpr hmem)
  · rw [hfederations] at hx
    rw [hnewest]
    exact h.current x (List.mem_filter.mp hx).1 hready

theorem coerce_whole (id : String) (federation : RpcFederation) : (federation.coerce id).Whole := by
  unfold Federation.Whole RpcFederation.coerce
  split <;> simp

theorem Inv.changeFederation {federation : RpcFederation} {event : Bool}
    (h : Inv s (before ++ .bridgeFederation id federation event :: after)) :
    Inv (changeFederation s id federation event).1 (before ++ (changeFederation s id federation event).2 ++ after) := by
  refine ⟨forall_next_iff.mpr ⟨fun x hx => ?_, (forall_task_iff.mp h.fits).2⟩, h.nodup, fun other hother => ?_,
    h.current⟩
  · unfold FederationSlice.changeFederation at hx
    cases event with
    | false => cases hx
    | true =>
      rw [List.mem_singleton.mp hx]
      exact coerce_whole id federation
  · refine (h.others (by simp) other (List.mem_filter.mp hother).1).imp (fun hgone => ?_) mem_next
    exact ⟨hgone.absent, hgone.notPaying, hgone.notUsed, hgone.notSelected⟩

theorem Inv.changeBalance {balance : ℕ} (h : Inv s (before ++ .bridgeBalance id balance :: after)) :
    Inv (changeBalance s id balance).1 (before ++ (changeBalance s id balance).2 ++ after) := by
  unfold FederationSlice.changeBalance
  split
  · refine ⟨forall_next_iff.mpr ⟨by simp [Task.Fits], (forall_task_iff.mp h.fits).2⟩, h.nodup,
      fun other hother => ?_, h.current⟩
    refine (h.others (by simp) other hother).imp (fun hgone => ?_) mem_next
    exact ⟨hgone.absent, hgone.notPaying, hgone.notUsed, hgone.notSelected⟩
  · exact h.same (by simp) (by simp)

/-- The user picks a federation that the store has. -/
theorem Inv.pick (h : Inv s (before ++ task :: after)) (htask : ∀ id, task ≠ .left id) {f : System → System}
    (hkept : (f s).federations = s.federations ∧ (f s).left = s.left ∧ (f s).newest = s.newest)
    (hgone : ∀ other, other ≠ id → Gone s other → Gone (f s) other) :
    Inv (s.pick id f).1 (before ++ (s.pick id f).2 ++ after) := by
  obtain ⟨hfederations, hleft, hnewest⟩ := hkept
  unfold System.pick
  by_cases hmem : id ∈ ids Federation.id s.federations
  · rw [if_pos hmem]
    refine ⟨forall_next_iff.mpr ⟨by simp, (forall_task_iff.mp h.fits).2⟩, ?_, fun other hother => ?_,
      fun x hx hready => ?_⟩
    · unfold System.ids
      rw [hfederations]
      exact h.nodup
    · rw [hleft] at hother
      refine (h.others htask other hother).imp (fun hold => hgone other ?_ hold) mem_next
      rintro rfl
      exact hold.absent hmem
    · rw [hfederations] at hx
      rw [hnewest]
      exact h.current x hx hready
  · rw [if_neg hmem]
    exact h.same htask (by simp)

/-! ## Runs -/

theorem inv_run (s : System) (before : List Task) (task : Task) (after : List Task) (input : Input)
    (h : Inv s (before ++ task :: after)) (hlawful : Lawful s (before ++ after) task input) :
    Inv (run s task input).1 (before ++ (run s task input).2 ++ after) := by
  cases task with
  | listing =>
    refine h.same (by simp) fun x hx => ?_
    unfold run at hx
    dsimp only at hx
    split at hx
    · cases hx
    · rw [List.mem_singleton.mp hx]
      exact ⟨listFederations_nodup _, listFederations_whole _⟩
  | listed answer time => exact h.refresh hlawful
  | guardianStarting federation =>
    have hwhole : federation.Whole := h.fits (.guardianStarting federation) (by simp)
    refine h.same (by simp) fun x hx => ?_
    unfold run at hx
    dsimp only at hx
    split at hx
    · cases hx
    · rw [List.mem_singleton.mp hx]
      exact hwhole
  | guardianStatus federation => exact h.refreshGuardianStatus hlawful
  | federationEvent federation time => exact h.onFederation hlawful.1 hlawful.2
  | balanceEvent federationId balance time => exact h.onBalance hlawful
  | leaveStarting federationId =>
    unfold run startLeave
    dsimp only
    split
    · exact h.same (by simp) (by simp)
    · exact h.same (by simp) (by simp [Task.Fits])
  | leaving federationId => exact h.leave
  | left federationId => exact h.leaveFulfilled hlawful.1 hlawful.2
  | bridgeFederation id federation event => exact h.changeFederation
  | bridgeBalance id balance => exact h.changeBalance
  | payFrom id =>
    refine h.pick (by simp) ⟨rfl, rfl, rfl⟩ fun other hne hgone => ?_
    exact ⟨hgone.absent, fun heq => hne (Option.some.inj heq).symm, hgone.notUsed, hgone.notSelected⟩
  | lastUsed id => exact h.pick (by simp) ⟨rfl, rfl, rfl⟩ fun other hne hgone => hgone.lastUsed hne
  | select id =>
    refine h.pick (by simp) ⟨rfl, rfl, rfl⟩ fun other hne hgone => ?_
    exact ⟨hgone.absent, hgone.notPaying, hgone.notUsed, fun heq => hne (Option.some.inj heq).symm⟩

theorem inv_call (s : System) (tasks : List Task) (c : Call) (h : Inv s tasks) : Inv s (tasks ++ [start c]) where
  fits := fun task htask => by
    rcases List.mem_append.mp htask with hold | hnew
    · exact h.fits task hold
    · rw [List.mem_singleton.mp hnew]
      cases c <;> trivial
  nodup := h.nodup
  gone := fun id hid => (h.gone id hid).imp_right (List.mem_append_left _)
  current := h.current

theorem inv_initial : Inv System.initial [] :=
  ⟨by simp, by simp [System.initial, ids], by simp [System.initial], by simp [System.initial]⟩

/-- Once nothing is in flight, the store of a run that meets the conditions is fresh. -/
theorem fresh_of_run (es : List (Event Call Input)) (hlawful : Along start run Lawful ⟨System.initial, []⟩ es)
    (hrest : (federations es).tasks = []) : Fresh (federations es).state := by
  have hinv : Inv (federations es).state (federations es).tasks :=
    pool_induction (I := Inv) inv_initial inv_call inv_run hlawful
  refine ⟨fun id hid => ?_, hinv.current⟩
  refine (hinv.gone id hid).resolve_right fun hmem => ?_
  rw [hrest] at hmem
  cases hmem

def plainInput : Input := ⟨false, false, .online⟩

/-- A federation is joined, and its guardian status is asked for. -/
def joinedFederation : List (Event Call Input) :=
  [.call (.bridgeFederation "f" (.ready "federation" 1000 false .empty) true), .advance 0 plainInput,
    .advance 0 plainInput, .advance 0 plainInput]

/-- Another is joined, the list is refreshed, a payment changes a balance, and the first federation is left. -/
def joinedAndLeftFederation : List (Event Call Input) :=
  joinedFederation ++
    [ .advance 0 plainInput, .call (.bridgeFederation "g" (.ready "other" 5 false .empty) false), .advance 0 plainInput,
      .call .refreshFederations, .advance 0 plainInput, .call (.select "g"), .call (.bridgeBalance "f" 900),
      .advance 0 plainInput, .advance 0 plainInput, .advance 0 plainInput, .advance 0 plainInput,
      .advance 0 plainInput, .advance 0 plainInput, .advance 0 plainInput, .advance 0 plainInput,
      .call (.leaveFederation "f"), .advance 0 plainInput, .advance 0 plainInput, .advance 0 plainInput ]

theorem fresh_of_run_demo : Fresh (federations joinedAndLeftFederation).state :=
  fresh_of_run joinedAndLeftFederation (by decide +kernel) (by decide +kernel)

/-- The federation is left before its guardian status comes back. -/
def leftBeforeStatus : List (Event Call Input) :=
  joinedFederation ++
    [.call (.leaveFederation "f"), .advance 1 plainInput, .advance 1 plainInput, .advance 1 plainInput,
      .advance 0 plainInput]

/-- It is in the store again. -/
theorem guardianStatus_resurrects : ¬ ∀ es, (federations es).tasks = [] → Fresh (federations es).state := by
  intro h
  have hfresh := h leftBeforeStatus (by decide +kernel)
  exact (hfresh.gone "f" (by decide +kernel)).absent (by decide +kernel)

end FederationSlice
