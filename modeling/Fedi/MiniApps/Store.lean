import Fedi.Lib.Runs

/-!
# The mini app store (`ui/common/redux/mod.ts`)

The slice keeps the mods of the user under their ids, a visibility row for each id, the ids of new mods, and the order
in which mini apps are shown.  `addCustomMod` puts the URL of a mod into the order; the other actions know mods by
their ids.

    an order with one more name lists no mod twice iff the name is new and no mod it names is listed  (listsOnce_cons)
    one action is lawful iff its condition holds                                                      (lawful_iff_fits)
    a run is lawful iff each of its actions meets its condition                                       (store_lawful_iff)
-/

namespace MiniApps

open Runs

/-! ## The slice -/

structure FediMod where
  id : String
  title : String
  url : String
  dateAdded : Option ℕ
deriving DecidableEq

/-- A field is `none` where the object does not have it. -/
structure ModVisibility where
  isHiddenCommunity : Option Bool
  isHidden : Option Bool
  isGlobal : Option Bool
  isCommunity : Option Bool
  isCustom : Option Bool
  federationId : Option String
deriving DecidableEq

def ModVisibility.empty : ModVisibility := ⟨none, none, none, none, none, none⟩

/-- `{ ...row, ...entity }` -/
def ModVisibility.spread (row entity : ModVisibility) : ModVisibility where
  isHiddenCommunity := entity.isHiddenCommunity <|> row.isHiddenCommunity
  isHidden := entity.isHidden <|> row.isHidden
  isGlobal := entity.isGlobal <|> row.isGlobal
  isCommunity := entity.isCommunity <|> row.isCommunity
  isCustom := entity.isCustom <|> row.isCustom
  federationId := entity.federationId <|> row.federationId

/-- An object that is used as a map: its own entries. -/
abbrev Record (α : Type) := String → Option α

/-- The names that every object inherits. -/
def inherited : List String :=
  ["constructor", "hasOwnProperty", "isPrototypeOf", "propertyIsEnumerable", "toLocaleString", "toString", "valueOf",
    "__defineGetter__", "__defineSetter__", "__lookupGetter__", "__lookupSetter__", "__proto__"]

/-- `modVisibility[id]`: what is inherited has none of the fields. -/
def readRow (modVisibility : Record ModVisibility) (id : String) : Option ModVisibility :=
  modVisibility id <|> if id ∈ inherited then some .empty else none

structure ModState where
  customGlobalMods : Record FediMod
  modVisibility : Record ModVisibility
  newMods : List String
  miniAppOrder : List String

def initialState : ModState := ⟨fun _ => none, fun _ => none, [], []⟩

inductive Action where
  /-- `now` is what `Date.now` returns. -/
  | addCustomMod (fediMod : FediMod) (now : ℕ)
  | removeCustomMod (modId : String)
  | setMiniAppOrder (miniAppOrder : List String)
  | setModVisibility (modId : String) (isHidden isHiddenCommunity : Option Bool) (federationId : Option String)
  | setCommunityCustomFediMods (mods : Option (List FediMod))

inductive TypeError where
  /-- A field of `undefined` is read. -/
  | noVisibility (modId : String)
  /-- The prototype of a draft is set, by an assignment under `__proto__`. -/
  | setsPrototype
deriving DecidableEq

/-! ## The reducers -/

def without (list : List String) (value : String) : List String := list.filter fun x => decide (x ≠ value)

def upsertRecordEntityId (record : Record ModVisibility) (entity : ModVisibility) (entityId : String) :
    Record ModVisibility :=
  match readRow record entityId with
  | some row => if row = entity then record else Function.update record entityId (some (row.spread entity))
  | none => Function.update record entityId (some (ModVisibility.empty.spread entity))

def addCustomMod (state : ModState) (fediMod : FediMod) (now : ℕ) : Except TypeError ModState :=
  if fediMod.id = "__proto__" then .error .setsPrototype
  else
    .ok {
      customGlobalMods :=
        Function.update state.customGlobalMods fediMod.id (some { fediMod with dateAdded := some now })
      modVisibility :=
        upsertRecordEntityId state.modVisibility
          { (readRow state.modVisibility fediMod.id).getD .empty with isHidden := some false, isCustom := some true }
          fediMod.id
      newMods := state.newMods ++ [fediMod.id]
      miniAppOrder := fediMod.url :: state.miniAppOrder }

def removeCustomMod (state : ModState) (modId : String) : Except TypeError ModState :=
  match readRow state.modVisibility modId with
  | none => .error (.noVisibility modId)
  | some row =>
    .ok {
      customGlobalMods := Function.update state.customGlobalMods modId none
      newMods := if modId ∈ state.newMods then without state.newMods modId else state.newMods
      modVisibility :=
        if row.isCommunity = some true then
          Function.update state.modVisibility modId (some { row with isCustom := some false })
        else state.modVisibility
      miniAppOrder := if modId ∈ state.miniAppOrder then without state.miniAppOrder modId else state.miniAppOrder }

/-- The row that `setModVisibility` stores. -/
def newVisibility (row : ModVisibility) (isHidden isHiddenCommunity : Option Bool) (federationId : Option String) :
    ModVisibility :=
  match isHiddenCommunity, isHidden with
  | some hiddenCommunity, _ =>
    { row with isHiddenCommunity := some hiddenCommunity, federationId := federationId <|> row.federationId }
  | none, some hidden => { row with federationId := none, isHiddenCommunity := none, isHidden := some hidden }
  | none, none => row

def setModVisibility (state : ModState) (modId : String) (isHidden isHiddenCommunity : Option Bool)
    (federationId : Option String) : Except TypeError ModState :=
  if modId = "__proto__" then .error .setsPrototype
  else
    .ok { state with
      modVisibility :=
        Function.update state.modVisibility modId
          (some (newVisibility ((readRow state.modVisibility modId).getD .empty) isHidden isHiddenCommunity federationId))
      miniAppOrder :=
        if isHidden = some true ∨ isHiddenCommunity = some true then without state.miniAppOrder modId ++ [modId]
        else state.miniAppOrder }

/-- One round of the loop of `setCommunityCustomFediMods`. -/
def trackCommunityMod (modVisibility : Record ModVisibility) (mod : FediMod) : Record ModVisibility :=
  if (readRow modVisibility mod.id).bind (·.isCommunity) = some true then modVisibility
  else
    upsertRecordEntityId modVisibility
      { (readRow modVisibility mod.id).getD .empty with isHidden := some false, isCommunity := some true } mod.id

def setCommunityCustomFediMods (state : ModState) : Option (List FediMod) → ModState
  | none => state
  | some mods => { state with modVisibility := mods.foldl trackCommunityMod state.modVisibility }

def ModState.step (state : ModState) : Action → Except TypeError ModState
  | .addCustomMod fediMod now => addCustomMod state fediMod now
  | .removeCustomMod modId => removeCustomMod state modId
  | .setMiniAppOrder miniAppOrder => .ok { state with miniAppOrder := miniAppOrder }
  | .setModVisibility modId isHidden isHiddenCommunity federationId =>
    setModVisibility state modId isHidden isHiddenCommunity federationId
  | .setCommunityCustomFediMods mods => .ok (setCommunityCustomFediMods state mods)

/-! ## What is promised -/

/-- No mod is in the order twice: no name is, and no mod is under both of its names. -/
structure ListsOnce (mods : Record FediMod) (order : List String) : Prop where
  nodup : order.Nodup
  oneName : ∀ id mod, mods id = some mod → id ≠ mod.url → id ∈ order → mod.url ∉ order

/-- After a mod is removed nothing refers to it. -/
def Forgets (s : ModState) (e : Action) (s' : ModState) : Prop :=
  ∀ modId, e = .removeCustomMod modId →
    s'.customGlobalMods modId = none ∧ modId ∉ s'.newMods ∧ modId ∉ s'.miniAppOrder ∧
      ∀ mod, s.customGlobalMods modId = some mod → mod.url ∉ s'.miniAppOrder

/-- No action throws, removed mods are forgotten, and the order never lists a mod twice. -/
structure Lawful (actions : List Action) : Prop where
  succeeds : ∃ s, run ModState.step initialState actions = .ok s
  forgets : EveryStep ModState.step initialState Forgets actions
  listsOnce : ∀ before after, actions = before ++ after → ∀ s, run ModState.step initialState before = .ok s →
    ListsOnce s.customGlobalMods s.miniAppOrder

/-! ## When it is kept -/

/-- No mod that goes by `name` is in the order under its other name. -/
def NotListed (mods : Record FediMod) (order : List String) (name : String) : Prop :=
  ∀ id mod, mods id = some mod → id ≠ mod.url → (id = name → mod.url ∉ order) ∧ (mod.url = name → id ∉ order)

/-- What an action needs of the state before it. -/
def Fits (s : ModState) : Action → Prop
  | .addCustomMod fediMod now =>
    fediMod.id ≠ "__proto__" ∧ fediMod.url ∉ s.miniAppOrder ∧
      NotListed (Function.update s.customGlobalMods fediMod.id (some { fediMod with dateAdded := some now }))
        s.miniAppOrder fediMod.url
  | .removeCustomMod modId =>
    readRow s.modVisibility modId ≠ none ∧
      ∀ mod, s.customGlobalMods modId = some mod → mod.url ≠ modId → mod.url ∉ s.miniAppOrder
  | .setMiniAppOrder miniAppOrder => ListsOnce s.customGlobalMods miniAppOrder
  | .setModVisibility modId isHidden isHiddenCommunity _ =>
    modId ≠ "__proto__" ∧
      (isHidden = some true ∨ isHiddenCommunity = some true → NotListed s.customGlobalMods s.miniAppOrder modId)
  | .setCommunityCustomFediMods _ => True

/-! ## The order -/

section
variable {mods : Record FediMod} {order : List String} {name : String}

theorem mem_without {list : List String} {value x : String} : x ∈ without list value ↔ x ∈ list ∧ x ≠ value := by
  simp [without]

theorem not_mem_without {list : List String} {value : String} : value ∉ without list value := by
  simp [without]

/-- Where the value is not in the list there is nothing to leave out. -/
theorem without_of_not_mem {list : List String} {value : String} (h : value ∉ list) : without list value = list := by
  unfold without
  rw [List.filter_eq_self]
  intro x hx
  apply decide_eq_true
  rintro rfl
  exact h hx

theorem listsOnce_cons :
    ListsOnce mods (name :: order) ↔ name ∉ order ∧ ListsOnce mods order ∧ NotListed mods order name := by
  constructor
  · intro h
    have hnodup := List.nodup_cons.mp h.nodup
    refine ⟨hnodup.1, ⟨hnodup.2, ?_⟩, ?_⟩
    · intro id mod hmod hne hid hurl
      exact h.oneName id mod hmod hne (List.mem_cons_of_mem _ hid) (List.mem_cons_of_mem _ hurl)
    · intro id mod hmod hne
      constructor
      · rintro rfl hurl
        exact h.oneName id mod hmod hne List.mem_cons_self (List.mem_cons_of_mem _ hurl)
      · rintro rfl hid
        exact h.oneName id mod hmod hne (List.mem_cons_of_mem _ hid) List.mem_cons_self
  · rintro ⟨hname, honce, hfree⟩
    refine ⟨List.nodup_cons.mpr ⟨hname, honce.nodup⟩, ?_⟩
    intro id mod hmod hne hid hurl
    obtain ⟨hbyId, hbyUrl⟩ := hfree id mod hmod hne
    rcases List.mem_cons.mp hid with hidName | hid'
    · rcases List.mem_cons.mp hurl with hurlName | hurl'
      · exact hne (hidName.trans hurlName.symm)
      · exact hbyId hidName hurl'
    · rcases List.mem_cons.mp hurl with hurlName | hurl'
      · exact hbyUrl hurlName hid'
      · exact honce.oneName id mod hmod hne hid' hurl'

theorem ListsOnce.perm {order' : List String} (h : ListsOnce mods order) (hperm : order.Perm order') :
    ListsOnce mods order' := by
  refine ⟨hperm.nodup_iff.mp h.nodup, ?_⟩
  intro id mod hmod hne hid hurl
  exact h.oneName id mod hmod hne (hperm.mem_iff.mpr hid) (hperm.mem_iff.mpr hurl)

/-- Fewer mods and fewer names are listed once still. -/
theorem ListsOnce.without {mods' : Record FediMod} (h : ListsOnce mods order)
    (hmods : ∀ id mod, mods' id = some mod → mods id = some mod) (name : String) :
    ListsOnce mods' (without order name) := by
  refine ⟨h.nodup.filter _, ?_⟩
  intro id mod hmod hne hid hurl
  exact h.oneName id mod (hmods id mod hmod) hne (mem_without.mp hid).1 (mem_without.mp hurl).1

/-- The other name of a mod is not the name that is left out. -/
theorem notListed_without : NotListed mods (without order name) name ↔ NotListed mods order name := by
  constructor
  · intro h id mod hmod hne
    obtain ⟨hbyId, hbyUrl⟩ := h id mod hmod hne
    constructor
    · intro hname hurl
      refine hbyId hname (mem_without.mpr ⟨hurl, ?_⟩)
      rintro rfl
      exact hne hname
    · intro hname hid
      refine hbyUrl hname (mem_without.mpr ⟨hid, ?_⟩)
      rintro rfl
      exact hne hname.symm
  · intro h id mod hmod hne
    obtain ⟨hbyId, hbyUrl⟩ := h id mod hmod hne
    exact ⟨fun hname hurl => hbyId hname (mem_without.mp hurl).1, fun hname hid => hbyUrl hname (mem_without.mp hid).1⟩

/-- A name that moves to the end. -/
theorem listsOnce_moved (h : ListsOnce mods order) :
    ListsOnce mods (without order name ++ [name]) ↔ NotListed mods order name := by
  have hperm : (without order name ++ [name]).Perm (name :: without order name) := List.perm_append_singleton _ _
  have hiff : ListsOnce mods (without order name ++ [name]) ↔ ListsOnce mods (name :: without order name) :=
    ⟨fun honce => honce.perm hperm, fun honce => honce.perm hperm.symm⟩
  rw [hiff, listsOnce_cons, notListed_without]
  constructor
  · intro honce
    exact honce.2.2
  · intro hfree
    exact ⟨not_mem_without, h.without (fun _ _ hmod => hmod) name, hfree⟩

/-- A mod that is added leaves the order as it is while its URL is not in it. -/
theorem listsOnce_update (mod : FediMod) (h : ListsOnce mods order) (hurl : mod.url ∉ order) (id : String) :
    ListsOnce (Function.update mods id (some mod)) order := by
  refine ⟨h.nodup, ?_⟩
  intro id' mod' hmod hne hid
  by_cases heq : id' = id
  · rw [heq, Function.update_self] at hmod
    cases hmod
    exact hurl
  · rw [Function.update_of_ne heq] at hmod
    exact h.oneName id' mod' hmod hne hid

end

/-! ## One action -/

variable {s s' : ModState} {e : Action}

/-- One action succeeds, forgets what it removes and lists no mod twice. -/
def StepLawful (s : ModState) (e : Action) : Prop :=
  ∃ s', s.step e = .ok s' ∧ Forgets s e s' ∧ ListsOnce s'.customGlobalMods s'.miniAppOrder

/-- An action that removes nothing has nothing to forget. -/
theorem stepLawful_of_ok (hstep : s.step e = .ok s') (hkeeps : ∀ modId, e ≠ .removeCustomMod modId) :
    StepLawful s e ↔ ListsOnce s'.customGlobalMods s'.miniAppOrder := by
  unfold StepLawful
  rw [hstep]
  constructor
  · rintro ⟨_, hok, -, honce⟩
    cases hok
    exact honce
  · intro honce
    exact ⟨s', rfl, fun modId he => absurd he (hkeeps modId), honce⟩

/-- An action that throws is not lawful. -/
theorem not_stepLawful_of_error {error : TypeError} (hstep : s.step e = .error error) : ¬ StepLawful s e := by
  rintro ⟨_, hok, -⟩
  rw [hstep] at hok
  cases hok

/-- Removing leaves out the id wherever it is. -/
theorem removeCustomMod_cases (s : ModState) (modId : String) :
    (readRow s.modVisibility modId = none ∧ removeCustomMod s modId = .error (.noVisibility modId)) ∨
      (readRow s.modVisibility modId ≠ none ∧ ∃ s', removeCustomMod s modId = .ok s' ∧
        s'.customGlobalMods = Function.update s.customGlobalMods modId none ∧
        s'.newMods = without s.newMods modId ∧ s'.miniAppOrder = without s.miniAppOrder modId) := by
  have hleft : ∀ list : List String, (if modId ∈ list then without list modId else list) = without list modId := by
    intro list
    by_cases hmem : modId ∈ list
    · rw [if_pos hmem]
    · rw [if_neg hmem, without_of_not_mem hmem]
  unfold removeCustomMod
  cases hrow : readRow s.modVisibility modId with
  | none => exact .inl ⟨rfl, rfl⟩
  | some row => exact .inr ⟨by simp, _, rfl, rfl, hleft s.newMods, hleft s.miniAppOrder⟩

theorem remove_lawful_iff (h : ListsOnce s.customGlobalMods s.miniAppOrder) (modId : String) :
    StepLawful s (.removeCustomMod modId) ↔ Fits s (.removeCustomMod modId) := by
  unfold StepLawful Fits
  show (∃ s', removeCustomMod s modId = .ok s' ∧ _) ↔ _
  rcases removeCustomMod_cases s modId with ⟨hrow, herror⟩ | ⟨hrow, s1, hok, hmods, hnew, horder⟩
  · rw [herror]
    constructor
    · rintro ⟨_, hok, -⟩
      cases hok
    · rintro ⟨hsome, -⟩
      exact absurd hrow hsome
  · rw [hok]
    constructor
    · rintro ⟨_, heq, hforgets, -⟩
      cases heq
      refine ⟨hrow, ?_⟩
      intro mod hmod hne hurl
      obtain ⟨-, -, -, hforgotten⟩ := hforgets modId rfl
      rw [horder] at hforgotten
      exact hforgotten mod hmod (mem_without.mpr ⟨hurl, hne⟩)
    · rintro ⟨-, hunlisted⟩
      refine ⟨s1, rfl, ?_, ?_⟩
      · intro modId' heq
        cases heq
        rw [hmods, hnew, horder]
        refine ⟨Function.update_self _ _ _, not_mem_without, not_mem_without, ?_⟩
        intro mod hmod hurl
        obtain ⟨hlisted, hne⟩ := mem_without.mp hurl
        exact hunlisted mod hmod hne hlisted
      · rw [hmods, horder]
        refine h.without ?_ modId
        intro id mod hmod
        by_cases heq : id = modId
        · rw [heq, Function.update_self] at hmod
          cases hmod
        · rw [Function.update_of_ne heq] at hmod
          exact hmod

/-- From a state that lists every mod once, an action is lawful iff its condition holds. -/
theorem lawful_iff_fits (h : ListsOnce s.customGlobalMods s.miniAppOrder) (e : Action) :
    StepLawful s e ↔ Fits s e := by
  cases e with
  | addCustomMod fediMod now =>
    by_cases hproto : fediMod.id = "__proto__"
    · have herror : s.step (.addCustomMod fediMod now) = .error .setsPrototype := if_pos hproto
      exact ⟨fun hlawful => absurd hlawful (not_stepLawful_of_error herror), fun hfits => absurd hproto hfits.1⟩
    have hok : s.step (.addCustomMod fediMod now) = .ok _ := if_neg hproto
    rw [stepLawful_of_ok hok (by simp)]
    show ListsOnce _ (fediMod.url :: s.miniAppOrder) ↔ _
    rw [listsOnce_cons]
    constructor
    · rintro ⟨hurl, -, hfree⟩
      exact ⟨hproto, hurl, hfree⟩
    · rintro ⟨-, hurl, hfree⟩
      exact ⟨hurl, listsOnce_update { fediMod with dateAdded := some now } h hurl fediMod.id, hfree⟩
  | removeCustomMod modId => exact remove_lawful_iff h modId
  | setMiniAppOrder miniAppOrder =>
    rw [stepLawful_of_ok rfl (by simp)]
    rfl
  | setModVisibility modId isHidden isHiddenCommunity federationId =>
    by_cases hproto : modId = "__proto__"
    · have herror : s.step (.setModVisibility modId isHidden isHiddenCommunity federationId) = .error .setsPrototype :=
        if_pos hproto
      exact ⟨fun hlawful => absurd hlawful (not_stepLawful_of_error herror), fun hfits => absurd hproto hfits.1⟩
    have hok : s.step (.setModVisibility modId isHidden isHiddenCommunity federationId) = .ok _ := if_neg hproto
    rw [stepLawful_of_ok hok (by simp)]
    dsimp only
    split_ifs with hhides
    · rw [listsOnce_moved h]
      exact ⟨fun hfree => ⟨hproto, fun _ => hfree⟩, fun hfits => hfits.2 hhides⟩
    · exact ⟨fun _ => ⟨hproto, fun hhides' => absurd hhides' hhides⟩, fun _ => h⟩
  | setCommunityCustomFediMods mods =>
    rw [stepLawful_of_ok rfl (by simp)]
    cases mods with
    | none => exact ⟨fun _ => trivial, fun _ => h⟩
    | some mods => exact ⟨fun _ => trivial, fun _ => h⟩

/-! ## Main result -/

theorem initial_listsOnce : ListsOnce initialState.customGlobalMods initialState.miniAppOrder := by
  refine ⟨List.nodup_nil, ?_⟩
  intro id mod hmod
  cases hmod

/-- A run is lawful iff each of its actions is, from the state before it. -/
theorem lawful_iff_everyMoment (actions : List Action) :
    Lawful actions ↔ EveryMoment ModState.step initialState StepLawful actions := by
  constructor
  · intro h before e after hsplit s hrun
    obtain ⟨s', hstep⟩ := exists_run_iff.mp h.succeeds before e after hsplit s hrun
    refine ⟨s', hstep, h.forgets before e after hsplit s s' hrun hstep, ?_⟩
    refine h.listsOnce (before ++ [e]) after ?_ s' (run_snoc.mpr ⟨s, hrun, hstep⟩)
    rw [hsplit, List.append_assoc, List.singleton_append]
  · intro h
    refine ⟨exists_run_iff.mpr ?_, ?_, ?_⟩
    · intro before e after hsplit s hrun
      obtain ⟨s', hstep, -⟩ := h before e after hsplit s hrun
      exact ⟨s', hstep⟩
    · intro before e after hsplit s s' hrun hstep
      obtain ⟨s'', hstep', hforgets, -⟩ := h before e after hsplit s hrun
      rw [hstep] at hstep'
      cases hstep'
      exact hforgets
    · intro before after hsplit s hrun
      rcases List.eq_nil_or_concat before with rfl | ⟨before', e, rfl⟩
      · cases hrun
        exact initial_listsOnce
      · rw [List.concat_eq_append] at hrun hsplit
        obtain ⟨s1, hrun', hstep⟩ := run_snoc.mp hrun
        obtain ⟨s2, hstep', -, honce⟩ := h before' e after (by rw [hsplit, List.append_assoc]; rfl) s1 hrun'
        rw [hstep] at hstep'
        cases hstep'
        exact honce

/-- The store keeps its promises along a run iff each action meets its condition when it is made. -/
theorem store_lawful_iff (actions : List Action) :
    Lawful actions ↔ EveryMoment ModState.step initialState Fits actions := by
  rw [lawful_iff_everyMoment]
  apply everyMoment_congr_of_invariant (P := fun s => ListsOnce s.customGlobalMods s.miniAppOrder)
  · intro s e h
    exact lawful_iff_fits h e
  · intro s e s' _ hlawful hstep
    obtain ⟨s'', hstep', -, honce⟩ := hlawful
    rw [hstep] at hstep'
    cases hstep'
    exact honce
  · exact initial_listsOnce

/-- A mod that is added and removed leaves its URL in the order. -/
theorem url_stays_listed :
    ¬ ∀ actions : List Action, (∀ miniAppOrder, .setMiniAppOrder miniAppOrder ∉ actions) → Lawful actions := by
  intro hall
  let mod : FediMod := ⟨"custom-1", "A", "https://a.example.com", none⟩
  have hlawful := hall [.addCustomMod mod 1, .removeCustomMod "custom-1"] (by simp)
  obtain ⟨-, -, -, hforgotten⟩ := hlawful.forgets [.addCustomMod mod 1] (.removeCustomMod "custom-1") [] rfl _ _ rfl rfl
    "custom-1" rfl
  exact hforgotten { mod with dateAdded := some 1 } rfl (by decide)

end MiniApps
