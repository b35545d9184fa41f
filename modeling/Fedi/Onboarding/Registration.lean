import Fedi.Onboarding.Seed

/-!
# The device index of a restored seed

A restored seed takes an index that the device registration service has accepted for this seed
and this device, in every run in which no reset of the stage gets in between the registration
and the completion (`index_registered`).  The two are steps of one RPC, but it does not keep
the mutex in between: after a reset another seed may be restored, and take an index that was
registered for the first one (`registered_for_another_seed`).
-/

namespace Onboarding

open DeviceRegistration Tasks

section
variable {Mnemonic Social Secret Nonce : Type}

/-- The RPCs that hold the mutex over an await. -/
def Task.holds : Task Mnemonic Social → Bool
  | .fetching | .retrying _ _ _ _ | .loading => true
  | _ => false

/-- The RPC has registered an index and is about to complete with it. -/
def Task.completesWith : Task Mnemonic Social → Option ℕ
  | .completing (.gotDeviceIndex index) | .taking (.gotDeviceIndex index) => some index
  | _ => none

/-- A reset does not get in between. -/
def ResetsAlone (s : System Mnemonic Social) (others : List (Task Mnemonic Social)) (task : Task Mnemonic Social)
    (_ : Input Mnemonic Social Nonce) : Prop :=
  match task with
  | .resetting => s.locked = false → ∀ t ∈ others, t.completesWith = none
  | _ => True

instance (s : System Mnemonic Social) (others : List (Task Mnemonic Social)) (task : Task Mnemonic Social)
    (input : Input Mnemonic Social Nonce) : Decidable (ResetsAlone s others task input) := by
  unfold ResetsAlone
  split <;> infer_instance

/-- A committed seed that was restored has its index from the service. -/
def Entitled (a : AppStateJson Mnemonic Social) (registered : List (Mnemonic × ℕ × List Char)) : Prop :=
  ∀ rootMnemonic index encrypted, a.committed = some (rootMnemonic, index, encrypted, some .restored) →
    (rootMnemonic, index, encrypted) ∈ registered

/-- The stage is the selection of an index for this seed. -/
def System.Selects (s : System Mnemonic Social) (rootMnemonic : Mnemonic) (encrypted : List Char) : Prop :=
  ∃ social, s.appState = .onboarding (.deviceIndexSelection rootMnemonic social encrypted)

/-- An index can be completed with: it is registered for the seed that is selected, or a seed is committed by now. -/
def System.Ready (s : System Mnemonic Social) (index : ℕ) : Prop :=
  (∃ rootMnemonic encrypted, s.Selects rootMnemonic encrypted ∧ (rootMnemonic, index, encrypted) ∈ s.registered) ∨
    s.store = false

structure Registering (s : System Mnemonic Social) (tasks : List (Task Mnemonic Social)) : Prop where
  entitled : Entitled s.appState s.registered
  alone : tasks.countP Task.holds = s.locked.toNat
  retrying : ∀ index force rootMnemonic encrypted, Task.retrying index force rootMnemonic encrypted ∈ tasks →
    s.Selects rootMnemonic encrypted
  ready : ∀ t ∈ tasks, ∀ index, t.completesWith = some index → s.Ready index

end

/-! ## Steps -/

section
variable {Mnemonic Social Secret Nonce : Type} {S : Sealing Secret Nonce} {toRootSecret : Mnemonic → Secret}
  {identity : Identity} {earlier : Option (Mnemonic × ℕ × List Char × Option OnboardingMethod)}
  {s s' : System Mnemonic Social} {before after next : List (Task Mnemonic Social)} {task : Task Mnemonic Social}

theorem Registering.step (h : Registering s (before ++ task :: after)) (hentitled : Entitled s'.appState s'.registered)
    (halone : next.countP Task.holds + s.locked.toNat = task.holds.toNat + s'.locked.toNat)
    (hselects : ∀ index force m encrypted, Task.retrying index force m encrypted ∈ before ++ after →
      s.Selects m encrypted → s'.Selects m encrypted)
    (hready : ∀ t ∈ before ++ after, ∀ index, t.completesWith = some index → s.Ready index → s'.Ready index)
    (hretrying : ∀ index force m encrypted, Task.retrying index force m encrypted ∈ next → s'.Selects m encrypted)
    (hnext : ∀ t ∈ next, ∀ index, t.completesWith = some index → s'.Ready index) :
    Registering s' (before ++ next ++ after) := by
  refine ⟨hentitled, ?_, ?_, ?_⟩
  · have hbefore := h.alone
    rw [List.countP_append, List.countP_cons] at hbefore
    rw [List.countP_append, List.countP_append]
    have htask : (if task.holds = true then 1 else 0) = task.holds.toNat := by cases task.holds <;> rfl
    omega
  · intro index force m encrypted hmem
    rw [List.append_assoc] at hmem
    by_cases hin : Task.retrying index force m encrypted ∈ next
    · exact hretrying index force m encrypted hin
    · have hother : Task.retrying index force m encrypted ∈ before ++ after := by
        simp only [List.mem_append] at hmem ⊢
        tauto
      have hwas := h.retrying index force m encrypted (List.mem_append.mpr (by
        rcases List.mem_append.mp hother with hb | ha
        · exact .inl hb
        · exact .inr (List.mem_cons_of_mem _ ha)))
      exact hselects index force m encrypted hother hwas
  · refine forall_next_iff.mpr ⟨hnext, ?_⟩
    intro t ht index hindex
    exact hready t ht index hindex ((forall_task_iff.mp h.ready).2 t ht index hindex)

theorem Registering.locked_of_holds (h : Registering s (before ++ task :: after)) (htask : task.holds = true) :
    s.locked = true := by
  have halone := h.alone
  rw [List.countP_append, List.countP_cons, htask] at halone
  by_contra hfree
  rw [Bool.not_eq_true] at hfree
  rw [hfree] at halone
  simp at halone

/-- The RPC that holds the mutex is the only one. -/
theorem Registering.others_free (h : Registering s (before ++ task :: after))
    (halone : task.holds = true ∨ s.locked = false) : ∀ t ∈ before ++ after, t.holds = false := by
  have hcount := h.alone
  rw [List.countP_append, List.countP_cons] at hcount
  have hzero : (before ++ after).countP Task.holds = 0 := by
    rw [List.countP_append]
    rcases halone with hholds | hfree
    · have hle := Bool.toNat_le s.locked
      rw [hholds, if_pos rfl] at hcount
      omega
    · rw [hfree] at hcount
      have hfalse : Bool.toNat false = 0 := rfl
      omega
  intro t ht
  have hnot := List.countP_eq_zero.mp hzero t ht
  simpa using hnot

/-- A step that writes neither `AppState` nor the store, and does not touch the mutex. -/
theorem Registering.same (h : Registering s (before ++ task :: after)) (htask : task.holds = false)
    (happ : s'.appState = s.appState) (hstore : s'.store = s.store) (hlocked : s'.locked = s.locked)
    (hregistered : s'.registered = s.registered) (hfree : next.countP Task.holds = 0)
    (hnext : ∀ t ∈ next, ∀ index, t.completesWith = some index → s'.Ready index) :
    Registering s' (before ++ next ++ after) := by
  have hready : ∀ index, s.Ready index → s'.Ready index := by
    intro index
    unfold System.Ready System.Selects
    rw [happ, hstore, hregistered]
    exact id
  apply h.step
  · rw [happ, hregistered]
    exact h.entitled
  · rw [hfree, htask, hlocked]
    rfl
  · intro index force m encrypted _
    unfold System.Selects
    rw [happ]
    exact id
  · exact fun _ _ index _ hr => hready index hr
  · intro index force m encrypted hmem
    have hnone := List.countP_eq_zero.mp hfree _ hmem
    exact absurd rfl hnone
  · exact hnext

theorem ready_nil : ∀ t ∈ ([] : List (Task Mnemonic Social)), ∀ index, t.completesWith = some index → s.Ready index :=
  fun _ ht => absurd ht List.not_mem_nil

theorem ready_single {t : Task Mnemonic Social} (ht : t.completesWith = none) :
    ∀ t' ∈ [t], ∀ index, t'.completesWith = some index → s.Ready index := by
  intro t' ht' index hindex
  rw [List.mem_singleton.mp ht', ht] at hindex
  cases hindex

theorem Registering.lockStore (h : Registering s (before ++ task :: after)) (htask : task.holds = false)
    {f : System Mnemonic Social → System Mnemonic Social × List (Task Mnemonic Social)}
    (hf : s.locked = false → s.store = true → Registering (f s).1 (before ++ (f s).2 ++ after)) :
    Registering (s.lockStore task f).1 (before ++ (s.lockStore task f).2 ++ after) := by
  unfold System.lockStore
  split_ifs with hlocked hstore
  · apply h.same htask rfl rfl rfl rfl
    · rw [List.countP_singleton, htask]
      rfl
    · intro t ht index hindex
      rw [List.mem_singleton.mp ht] at hindex
      exact (forall_task_iff.mp h.ready).1 index hindex
  · exact hf (by simpa using hlocked) hstore
  · exact h.same htask rfl rfl rfl rfl rfl ready_nil

/-- A transition of the stages: only a reset leaves the selection of an index. -/
theorem Registering.writeStage (h : Registering s (before ++ task :: after)) (htask : task.holds = false)
    (hlocked : s.locked = false) (hstore : s.store = true)
    {closure : OnboardingStage Mnemonic Social → Option (OnboardingStage Mnemonic Social)}
    (hclosure : (∀ m social encrypted, closure (.deviceIndexSelection m social encrypted) = none) ∨
      ∀ t ∈ before ++ after, t.completesWith = none) :
    Registering (s.writeStage closure) (before ++ [] ++ after) := by
  unfold System.writeStage
  split
  · exact h.same htask rfl rfl rfl rfl rfl ready_nil
  · rename_i stage hstage
    split
    · exact h.same htask rfl rfl rfl rfl rfl ready_nil
    · rename_i stage' hwritten
      apply h.step
      · exact fun _ _ _ hc => absurd hc (Option.some_ne_none _).symm
      · rw [htask]
        rfl
      · intro index force m encrypted hmem
        cases h.others_free (.inr hlocked) _ hmem
      · intro t ht index hindex hready
        rcases hclosure with hleaves | hnone
        · rcases hready with ⟨m, encrypted, ⟨social, hselects⟩, -⟩ | hgone
          · rw [hstage] at hselects
            obtain rfl := AppStateJson.onboarding.inj hselects
            rw [hleaves] at hwritten
            cases hwritten
          · rw [hstore] at hgone
            cases hgone
        · rw [hnone t ht] at hindex
          cases hindex
      · exact fun _ _ _ _ hmem => absurd hmem List.not_mem_nil
      · exact ready_nil

/-- A step with the mutex, which it takes or gives back. -/
theorem Registering.relock (h : Registering s (before ++ task :: after)) (locked : Bool) (panics : List Panic)
    {registered : List (Mnemonic × ℕ × List Char)} (hregistered : s.registered ⊆ registered)
    (halone : next.countP Task.holds + s.locked.toNat = task.holds.toNat + locked.toNat)
    (hretrying : ∀ index force m encrypted, Task.retrying index force m encrypted ∈ next → s.Selects m encrypted)
    (hnext : ∀ t ∈ next, ∀ index, t.completesWith = some index →
      System.Ready { s with locked := locked, registered := registered, panics := panics } index) :
    Registering { s with locked := locked, registered := registered, panics := panics } (before ++ next ++ after) := by
  apply h.step
  · exact fun m index encrypted hc => hregistered (h.entitled m index encrypted hc)
  · exact halone
  · exact fun _ _ _ _ _ hselects => hselects
  · rintro t - index - (⟨m, encrypted, hselects, hin⟩ | hgone)
    · exact .inl ⟨m, encrypted, hselects, hregistered hin⟩
    · exact .inr hgone
  · exact hretrying
  · exact hnext

/-- A step with the mutex that begins neither a retry nor a completion. -/
theorem Registering.relock_plain (h : Registering s (before ++ task :: after)) (locked : Bool) (panics : List Panic)
    (halone : next.countP Task.holds + s.locked.toNat = task.holds.toNat + locked.toNat)
    (hretrying : ∀ index force m encrypted, Task.retrying index force m encrypted ∉ next)
    (hnone : ∀ t ∈ next, t.completesWith = none) :
    Registering { s with locked := locked, panics := panics } (before ++ next ++ after) := by
  apply h.relock locked panics (fun _ hin => hin) halone
  · intro index force m encrypted hmem
    exact absurd hmem (hretrying index force m encrypted)
  · intro t ht index hindex
    rw [hnone t ht] at hindex
    cases hindex

theorem Registering.take {method : OnboardingCompletionMethod} (input : Input Mnemonic Social Nonce)
    (hsound : Sound S toRootSecret identity earlier s (before ++ .taking method :: after))
    (h : Registering s (before ++ .taking method :: after)) :
    Registering (take S toRootSecret identity s method input).1
      (before ++ (take S toRootSecret identity s method input).2 ++ after) := by
  unfold Onboarding.take
  split_ifs with hlocked hgone
  · apply h.same rfl rfl rfl rfl rfl rfl
    intro t ht index hindex
    rw [List.mem_singleton.mp ht] at hindex
    exact (forall_task_iff.mp h.ready).1 index hindex
  · exact h.same rfl rfl rfl rfl rfl rfl ready_nil
  · have hfree : s.locked = false := by simpa using hlocked
    split
    · rename_i state honboarded
      exact absurd (by simpa using hgone) (hsound.store_of_onboarded honboarded)
    · rename_i stage hstage
      split
      · exact h.same rfl rfl rfl rfl rfl rfl ready_nil
      · rename_i state hcomplete
        apply h.step
        · intro m index encrypted hc
          show (m, index, encrypted) ∈ s.registered
          -- a seed that was restored is completed with an index that is registered for it
          cases stage with
          | init =>
            cases method with
            | newSeed =>
              cases hcomplete
              simp [AppStateJsonOnboarded.committed] at hc
            | gotDeviceIndex i => cases hcomplete
          | socialRecovery social => cases hcomplete
          | deviceIndexSelection m' social encrypted' =>
            cases method with
            | newSeed => cases hcomplete
            | gotDeviceIndex i =>
              cases hcomplete
              simp only [committed_onboarded, AppStateJsonOnboarded.committed, Option.some.injEq, Prod.mk.injEq] at hc
              obtain ⟨rfl, rfl, rfl, -⟩ := hc
              rcases (forall_task_iff.mp h.ready).1 _ rfl with ⟨m, encrypted, ⟨social', hselects⟩, hin⟩ | hstore
              · rw [hstage] at hselects
                simp only [AppStateJson.onboarding.injEq, OnboardingStage.deviceIndexSelection.injEq] at hselects
                obtain ⟨rfl, -, rfl⟩ := hselects
                exact hin
              · exact absurd hstore hgone
        · rw [hfree]
          rfl
        · intro index force m encrypted hmem
          cases h.others_free (.inr hfree) _ hmem
        · exact fun _ _ _ _ _ => .inr rfl
        · intro index force m encrypted hmem
          simp at hmem
        · exact ready_single rfl

theorem Registering.finishLoading (h : Registering s (before ++ .loading :: after)) :
    Registering (finishLoading S toRootSecret identity s).1
      (before ++ (finishLoading S toRootSecret identity s).2 ++ after) := by
  have hlocked := h.locked_of_holds rfl
  have hend : ∀ (panics : List Panic) {next : List (Task Mnemonic Social)}, next.countP Task.holds = 0 →
      (∀ t ∈ next, t.completesWith = none) →
      Registering { s with locked := false, panics := panics } (before ++ next ++ after) := by
    intro panics next hfree hnone
    apply h.relock_plain false panics
    · rw [hfree, hlocked]
      rfl
    · intro index force m encrypted hmem
      exact List.countP_eq_zero.mp hfree _ hmem rfl
    · exact hnone
  unfold Onboarding.finishLoading
  split
  · exact hend _ rfl fun _ ht => absurd ht List.not_mem_nil
  · split
    · refine hend s.panics rfl fun t ht => ?_
      rw [List.mem_singleton.mp ht]
      rfl
    · exact hend _ rfl fun _ ht => absurd ht List.not_mem_nil

theorem Registering.register {index : ℕ} {force : Bool} {m : Mnemonic} {encrypted : List Char} (fails : Bool)
    (h : Registering s (before ++ .retrying index force m encrypted :: after)) :
    Registering (register s index m encrypted fails).1 (before ++ (register s index m encrypted fails).2 ++ after) := by
  have hlocked := h.locked_of_holds rfl
  have hselects := h.retrying index force m encrypted (List.mem_append_right _ List.mem_cons_self)
  unfold Onboarding.register
  split_ifs
  · apply h.relock_plain false s.panics
    · rw [hlocked]
      rfl
    · exact fun _ _ _ _ => List.not_mem_nil
    · exact fun _ ht => absurd ht List.not_mem_nil
  · apply h.relock false s.panics (List.subset_cons_self _ _)
    · rw [hlocked]
      rfl
    · intro index' force' m' encrypted' hmem
      cases List.mem_singleton.mp hmem
    · intro t ht index' hindex
      rw [List.mem_singleton.mp ht] at hindex
      obtain rfl : index = index' := Option.some.inj hindex
      exact .inl ⟨m, encrypted, hselects, List.mem_cons_self⟩

/-- The flags of a committed state. -/
theorem Registering.writeOnboarded (h : Registering s (before ++ task :: after)) (htask : task.holds = false)
    {closure : AppStateJsonOnboarded Mnemonic Social → AppStateJsonOnboarded Mnemonic Social}
    (hclosure : ∀ state, (closure state).committed = state.committed)
    (hsound : Sound S toRootSecret identity earlier s (before ++ task :: after)) :
    Registering (s.writeOnboarded closure) (before ++ [] ++ after) := by
  unfold System.writeOnboarded
  split
  · rename_i state honboarded
    have hgone : s.store = false := by simpa using hsound.store_of_onboarded honboarded
    apply h.step
    · intro m index encrypted hc
      apply h.entitled m index encrypted
      rw [honboarded, committed_onboarded, ← hclosure]
      exact hc
    · rw [htask]
      rfl
    · rintro index force m encrypted - ⟨social, hselects⟩
      rw [honboarded] at hselects
      cases hselects
    · exact fun _ _ _ _ _ => .inr hgone
    · exact fun _ _ _ _ hmem => absurd hmem List.not_mem_nil
    · exact ready_nil
  · exact h.same htask rfl rfl rfl rfl rfl ready_nil

theorem Registering.run (input : Input Mnemonic Social Nonce)
    (hsound : Sound S toRootSecret identity earlier s (before ++ task :: after))
    (h : Registering s (before ++ task :: after)) (halone : ResetsAlone s (before ++ after) task input) :
    Registering (run S toRootSecret identity s task input).1
      (before ++ (run S toRootSecret identity s task input).2 ++ after) := by
  cases task with
  | restoring rootMnemonic =>
    exact h.lockStore rfl fun hfree hstore => h.writeStage rfl hfree hstore (.inl fun _ _ _ => rfl)
  | resetting => exact h.lockStore rfl fun hfree hstore => h.writeStage rfl hfree hstore (.inr (halone hfree))
  | uploading =>
    show Registering s (before ++ (if _ then _ else _) ++ after)
    split_ifs
    · exact h.same rfl rfl rfl rfl rfl rfl ready_nil
    · exact h.same rfl rfl rfl rfl rfl rfl (ready_single rfl)
  | recordingSocialRecovery state =>
    exact h.lockStore rfl fun hfree hstore => h.writeStage rfl hfree hstore (.inl fun _ _ _ => rfl)
  | continuing =>
    refine h.lockStore rfl fun hfree hstore => ?_
    split
    · exact h.same rfl rfl rfl rfl rfl rfl (ready_single rfl)
    · exact h.same rfl rfl rfl rfl rfl rfl ready_nil
    · exact h.same rfl rfl rfl rfl rfl rfl ready_nil
  | approving state =>
    show Registering s (before ++ (if _ then _ else _) ++ after)
    split_ifs
    · exact h.same rfl rfl rfl rfl rfl rfl ready_nil
    · exact h.same rfl rfl rfl rfl rfl rfl (ready_single rfl)
  | recordingApprovals state =>
    exact h.lockStore rfl fun hfree hstore => h.writeStage rfl hfree hstore (.inl fun _ _ _ => rfl)
  | cancelling => exact h.lockStore rfl fun hfree hstore => h.writeStage rfl hfree hstore (.inl fun _ _ _ => rfl)
  | combining =>
    refine h.lockStore rfl fun hfree hstore => ?_
    split
    · split_ifs
      · exact h.same rfl rfl rfl rfl rfl rfl ready_nil
      · exact h.same rfl rfl rfl rfl rfl rfl (ready_single rfl)
    · exact h.same rfl rfl rfl rfl rfl rfl ready_nil
    · exact h.same rfl rfl rfl rfl rfl rfl ready_nil
  | choosing =>
    refine h.lockStore rfl fun hfree hstore => ?_
    split
    · apply h.relock_plain true s.panics
      · rw [hfree]
        rfl
      · intro index force m encrypted hmem
        cases List.mem_singleton.mp hmem
      · intro t ht
        rw [List.mem_singleton.mp ht]
        rfl
    · exact h.same rfl rfl rfl rfl rfl rfl ready_nil
    · exact h.same rfl rfl rfl rfl rfl rfl ready_nil
  | fetching =>
    have hlocked := h.locked_of_holds rfl
    show Registering { s with locked := false } (before ++ (if _ then _ else _) ++ after)
    split_ifs
    · apply h.relock_plain false s.panics
      · rw [hlocked]
        rfl
      · exact fun _ _ _ _ => List.not_mem_nil
      · exact fun _ ht => absurd ht List.not_mem_nil
    · apply h.relock_plain false s.panics
      · rw [hlocked]
        rfl
      · intro index force m encrypted hmem
        cases List.mem_singleton.mp hmem
      · intro t ht
        rw [List.mem_singleton.mp ht]
        rfl
  | registering index force =>
    refine h.lockStore rfl fun hfree hstore => ?_
    split
    · rename_i rootMnemonic social encrypted hstage
      apply h.relock true s.panics (fun _ hin => hin)
      · rw [hfree]
        rfl
      · intro index' force' m encrypted' hmem
        obtain ⟨-, -, rfl, rfl⟩ := Task.retrying.inj (List.mem_singleton.mp hmem)
        exact ⟨social, hstage⟩
      · exact ready_single rfl
    · exact h.same rfl rfl rfl rfl rfl rfl ready_nil
    · exact h.same rfl rfl rfl rfl rfl rfl ready_nil
  | retrying index force m encrypted => exact h.register input.fails
  | completing method =>
    have hready := (forall_task_iff.mp h.ready).1
    unfold Onboarding.run
    dsimp only
    split
    · apply h.same rfl rfl rfl rfl rfl rfl
      intro t ht index hindex
      rw [List.mem_singleton.mp ht] at hindex
      apply hready index
      cases method <;> exact hindex
    · exact h.same rfl rfl rfl rfl rfl rfl ready_nil
  | taking method => exact h.take input hsound
  | loading => exact h.finishLoading
  | settling bridge => exact h.same rfl rfl rfl rfl rfl rfl ready_nil
  | settingDeviceIndexConflict value =>
    unfold Onboarding.run
    dsimp only
    split_ifs
    · exact h.writeOnboarded rfl (fun _ => rfl) hsound
    · exact h.same rfl rfl rfl rfl rfl rfl ready_nil
  | settingInternalBridgeExport enabled =>
    unfold Onboarding.run
    dsimp only
    split_ifs
    · exact h.same rfl rfl rfl rfl rfl rfl ready_nil
    · exact h.writeOnboarded rfl (fun _ => rfl) hsound

end

/-! ## Launches -/

section
variable {Mnemonic Social Secret Nonce : Type} (S : Sealing Secret Nonce) (toRootSecret : Mnemonic → Secret)

/-- The app when a launch begins. -/
def opened (p : Persisted Mnemonic Social) (l : Launch Mnemonic Social Nonce) :
    Pool (System Mnemonic Social) (Task Mnemonic Social) :=
  ⟨bridgeNew S toRootSecret l.identity (load S toRootSecret l.identity p.db p.v0 l.nonce) p.registered, []⟩

def ResetsAloneIn (p : Persisted Mnemonic Social) : List (Launch Mnemonic Social Nonce) → Prop
  | [] => True
  | l :: ls =>
    Along start (run S toRootSecret l.identity) ResetsAlone (opened S toRootSecret p l) l.events ∧
      ResetsAloneIn (afterLaunch S toRootSecret p l) ls

instance decidableResetsAloneIn (p : Persisted Mnemonic Social) :
    ∀ ls : List (Launch Mnemonic Social Nonce), Decidable (ResetsAloneIn S toRootSecret p ls)
  | [] => .isTrue trivial
  | l :: ls =>
    have := decidableResetsAloneIn (afterLaunch S toRootSecret p l) ls
    inferInstanceAs (Decidable (_ ∧ _))

/-- What is on disk is sealed, and an index that was restored with a seed is registered. -/
structure Persisted.Registered (p : Persisted Mnemonic Social) : Prop where
  sealed : p.Sealed S toRootSecret
  entitled : ∀ a, p.db = some a → Entitled a p.registered

end

section
variable {Mnemonic Social Secret Nonce : Type} {S : Sealing Secret Nonce} {toRootSecret : Mnemonic → Secret}
  {p : Persisted Mnemonic Social} {registered : List (Mnemonic × ℕ × List Char)}

/-- The first version does not say how its seed came about. -/
theorem entitled_fromV0 (value : AppStateJsonV0 Mnemonic Social) (identity : Identity) (nonce : Nonce) :
    Entitled (fromV0 S toRootSecret identity value nonce) registered := by
  intro m index encrypted hc
  unfold fromV0 at hc
  dsimp only at hc
  split at hc <;> simp [AppStateJsonOnboarded.committed] at hc

theorem entitled_load (h : p.Registered S toRootSecret) (identity : Identity) (nonce : Nonce) :
    Entitled (load S toRootSecret identity p.db p.v0 nonce) p.registered := by
  unfold load
  split
  · rename_i a hdb
    exact h.entitled a hdb
  · split
    · exact entitled_fromV0 _ identity nonce
    · exact fun _ _ _ hc => absurd hc (Option.some_ne_none _).symm

theorem registering_bridgeNew {a : AppStateJson Mnemonic Social} (h : Entitled a registered) (identity : Identity) :
    Registering (bridgeNew S toRootSecret identity a registered) [] := by
  have hat : ∀ s : System Mnemonic Social, s.appState = a → s.registered = registered → s.locked = false →
      Registering s [] := by
    rintro s rfl rfl hlocked
    refine ⟨h, ?_, fun _ _ _ _ hmem => absurd hmem List.not_mem_nil, ready_nil⟩
    rw [hlocked]
    rfl
  unfold bridgeNew
  split
  · exact hat _ rfl rfl rfl
  · split <;> exact hat _ rfl rfl rfl

theorem registering_call {s : System Mnemonic Social} {tasks : List (Task Mnemonic Social)} (c : Call Mnemonic)
    (h : Registering s tasks) : Registering s (tasks ++ [start c]) := by
  have hstart : (start c : Task Mnemonic Social).holds = false ∧ (start c : Task Mnemonic Social).completesWith = none := by
    cases c with
    | onboardRegisterAsNewDevice index => cases index <;> exact ⟨rfl, rfl⟩
    | _ => exact ⟨rfl, rfl⟩
  refine ⟨h.entitled, ?_, ?_, ?_⟩
  · rw [List.countP_append, h.alone, List.countP_singleton, hstart.1]
    rfl
  · intro index force m encrypted hmem
    rcases List.mem_append.mp hmem with hmem | hmem
    · exact h.retrying index force m encrypted hmem
    · rw [← List.mem_singleton.mp hmem] at hstart
      cases hstart.1
  · intro t ht
    rcases List.mem_append.mp ht with ht | ht
    · exact h.ready t ht
    · exact ready_single hstart.2 t ht

theorem registering_launch (h : p.Registered S toRootSecret) (l : Launch Mnemonic Social Nonce)
    (halone : Along start (run S toRootSecret l.identity) ResetsAlone (opened S toRootSecret p l) l.events) :
    Registering (launch S toRootSecret p l).state (launch S toRootSecret p l).tasks := by
  have hload := sealed_load h.sealed l.identity l.nonce
  apply (pool_induction (I := fun s tasks =>
    Sound S toRootSecret l.identity (load S toRootSecret l.identity p.db p.v0 l.nonce).committed s tasks ∧
      Registering s tasks) ⟨sound_bridgeNew hload l.identity p.registered, ?_⟩ ?_ ?_ halone).2
  · exact registering_bridgeNew (entitled_load h l.identity l.nonce) l.identity
  · exact fun s tasks c hinv => ⟨hinv.1.call c, registering_call c hinv.2⟩
  · exact fun s before task after input hinv hreset => ⟨hinv.1.run input, hinv.2.run input hinv.1 hreset⟩

theorem registered_launches (h : p.Registered S toRootSecret) (ls : List (Launch Mnemonic Social Nonce))
    (halone : ResetsAloneIn S toRootSecret p ls) : (launches S toRootSecret p ls).Registered S toRootSecret := by
  induction ls generalizing p with
  | nil => exact h
  | cons l ls ih =>
    obtain ⟨hfirst, hrest⟩ := halone
    refine ih ⟨sealed_launches h.sealed [l], ?_⟩ hrest
    intro a ha
    obtain rfl : (launch S toRootSecret p l).state.appState = a := Option.some.inj ha
    exact (registering_launch h l hfirst).entitled

/-- A restored seed is committed with an index that the service has accepted for it, and for this device. -/
theorem index_registered (h : p.Registered S toRootSecret) (ls : List (Launch Mnemonic Social Nonce))
    (halone : ResetsAloneIn S toRootSecret p ls) {m : Mnemonic} {index : ℕ} {encrypted : List Char}
    (hc : (launches S toRootSecret p ls).db.bind AppStateJson.committed = some (m, index, encrypted, some .restored)) :
    (m, index, encrypted) ∈ (launches S toRootSecret p ls).registered := by
  obtain ⟨a, ha, hac⟩ := Option.bind_eq_some_iff.mp hc
  exact (registered_launches h ls halone).entitled a ha m index encrypted hac

end

/-! ## A reset in between -/

theorem registered_fresh : fresh.Registered shiftCipher UInt8.ofNat :=
  ⟨sealed_fresh, fun _ ha => absurd ha (Option.some_ne_none _).symm⟩

theorem index_registered_demo :
    (7, 2, sealIdentity shiftCipher UInt8.ofNat phoneIdentity 7 5) ∈
      (launches shiftCipher UInt8.ofNat fresh [restoredOnPhone, movedToTablet]).registered :=
  index_registered registered_fresh [restoredOnPhone, movedToTablet] (by decide +kernel) (by decide +kernel)

/-- The index is registered for the seed 7; a reset, and the seed 8, come before the completion. -/
def resetInBetween : Launch ℕ Unit UInt8 where
  identity := phoneIdentity
  nonce := 1
  events :=
    [.call (.restoreMnemonic 7), .advance 0 plainInput, .call (.onboardTransferExistingDeviceRegistration 2),
      .advance 0 plainInput, .advance 0 plainInput, .call .resetUnrecognizedSeed, .advance 1 plainInput,
      .call (.restoreMnemonic 8), .advance 1 plainInput] ++
      List.replicate 4 (.advance 0 plainInput)

theorem registered_for_another_seed :
    (launches shiftCipher UInt8.ofNat fresh [resetInBetween]).db.bind AppStateJson.committed =
        some (8, 2, sealIdentity shiftCipher UInt8.ofNat phoneIdentity 8 5, some .restored) ∧
      ∀ encrypted, (8, 2, encrypted) ∉ (launches shiftCipher UInt8.ofNat fresh [resetInBetween]).registered := by
  have hregistered : (launches shiftCipher UInt8.ofNat fresh [resetInBetween]).registered =
      [(7, 2, sealIdentity shiftCipher UInt8.ofNat phoneIdentity 7 5)] := by decide +kernel
  refine ⟨by decide +kernel, ?_⟩
  intro encrypted hmem
  rw [hregistered] at hmem
  simp at hmem

end Onboarding
