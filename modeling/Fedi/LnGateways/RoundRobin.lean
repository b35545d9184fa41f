import Fedi.Lib.Rotation
import Mathlib.Algebra.Order.Ring.Nat
import Mathlib.Data.List.Sort

/-!
# Gateway selection (`federation_v2/ln_gateway_service.rs`)

Without an override a call sorts the gateways that can be selected by id and takes the first one whose id is greater
than the last id taken, or the first of all.  So the ids rotate, over lists that change from call to call.

    selectGatewayExcluding picks what follows the last id          (select_follows)
    a gateway that is in every list is taken once in every lap     (round_robin_fair)
-/

namespace LnGateways

open Rotation

/-! ## Gateways -/

structure LightningGateway (K : Type) where
  gatewayId : K
  apiScheme : String

/-- Durations are in nanoseconds. -/
structure LightningGatewayAnnouncement (K : Type) where
  info : LightningGateway K
  ttl : ℕ

def aboutToExpireDuration : ℕ := 30 * 10 ^ 9

/-- What a call reads of the client: the gateways in the cache and the meta field of the vetted ones, and both once
more after the cache was updated. -/
structure Client (K : Type) where
  hasLn : Bool
  listGateways : List (LightningGatewayAnnouncement K)
  vettedGateways : Option (List String)
  updatedGateways : List (LightningGatewayAnnouncement K)
  updatedVettedGateways : Option (List String)

inductive SelectError where
  | noLightningModule
  | overrideUnavailable
deriving DecidableEq

section

variable {K : Type} [LinearOrder K] (fromStr : String → Option K) (testSupport : Bool)

def maybeFilterVettedGateways (vettedGateways : Option (List String)) (gateways : List (LightningGatewayAnnouncement K)) :
    List (LightningGatewayAnnouncement K) :=
  let vettedGws := (vettedGateways.getD []).filterMap fromStr
  let (vetted, unvetted) := gateways.partition fun g => decide (g.info.gatewayId ∈ vettedGws)
  if !vetted.isEmpty then vetted else unvetted

def selectableGateways (vettedGateways : Option (List String)) (gateways : List (LightningGatewayAnnouncement K)) :
    List (LightningGatewayAnnouncement K) :=
  let gws := (maybeFilterVettedGateways fromStr vettedGateways gateways).filter fun g => aboutToExpireDuration < g.ttl
  if testSupport then gws.filter fun g => g.info.apiScheme != "iroh" else gws

/-- The gateways of a call, before the override is looked at. -/
def gatewaysExcluding (client : Client K) (excludedGatewayId : Option K) : List (LightningGatewayAnnouncement K) :=
  let gws := selectableGateways fromStr testSupport client.vettedGateways client.listGateways
  -- this should be rare, the background service should keep the gateways updated.
  let gws := if gws.isEmpty then
      selectableGateways fromStr testSupport client.updatedVettedGateways client.updatedGateways
    else gws
  match excludedGatewayId with
  | some excluded => gws.filter fun g => g.info.gatewayId != excluded
  | none => gws

def sortById (gws : List (LightningGatewayAnnouncement K)) : List (LightningGatewayAnnouncement K) :=
  gws.mergeSort fun a b => decide (a.info.gatewayId ≤ b.info.gatewayId)

/-- What is done under the lock, with what it leaves of `last_gateway`. -/
def roundRobin (gws : List (LightningGatewayAnnouncement K)) (last : Option K) :
    Option (LightningGateway K) × Option K :=
  let gws := sortById gws
  let idx := match last with
    | some prev => (gws.findIdx? fun (g : LightningGatewayAnnouncement K) => decide (prev < g.info.gatewayId)).getD 0
    | none => 0
  match gws[idx]? with
  | some chosen => (some chosen.info, some chosen.info.gatewayId)
  | none => (none, last)

def selectGatewayExcluding (client : Client K) (excludedGatewayId gatewayOverride last : Option K) :
    Except SelectError (Option (LightningGateway K)) × Option K :=
  if !client.hasLn then (.error .noLightningModule, last)
  else
    let gws := gatewaysExcluding fromStr testSupport client excludedGatewayId
    match gatewayOverride with
    | some overrideId =>
      match gws.find? fun g => g.info.gatewayId == overrideId with
      | some gw => (.ok (some gw.info), last)
      | none => (.error .overrideUnavailable, last)
    | none =>
      if gws.isEmpty then (.ok none, last)
      else
        let (chosen, last) := roundRobin gws last
        (.ok chosen, last)

/-! ## Calls -/

/-- A call without an override. -/
structure Call (K : Type) where
  client : Client K
  excludedGatewayId : Option K

/-- The ids that a call can select. -/
def Call.selectable (call : Call K) : List K :=
  if call.client.hasLn then (gatewaysExcluding fromStr testSupport call.client call.excludedGatewayId).map (·.info.gatewayId)
  else []

/-- Calls in the order in which they take the lock. -/
def selectAll : List (Call K) → Option K → List (Except SelectError (Option (LightningGateway K)))
  | [], _ => []
  | call :: calls, last =>
    let (result, last) := selectGatewayExcluding fromStr testSupport call.client call.excludedGatewayId none last
    result :: selectAll calls last

/-! ## Lemmas -/

variable {fromStr testSupport}

theorem sortById_pairwise (gws : List (LightningGatewayAnnouncement K)) :
    (sortById gws).Pairwise fun a b => a.info.gatewayId ≤ b.info.gatewayId := by
  have hsorted : (sortById gws).Pairwise fun a b => decide (a.info.gatewayId ≤ b.info.gatewayId) = true := by
    apply List.pairwise_mergeSort
    · intro a b c hab hbc
      exact decide_eq_true (le_trans (of_decide_eq_true hab) (of_decide_eq_true hbc))
    · intro a b
      rcases le_total a.info.gatewayId b.info.gatewayId with h | h
      · simp [h]
      · simp [h]
  exact hsorted.imp of_decide_eq_true

theorem mem_sortById (gws : List (LightningGatewayAnnouncement K)) (g : LightningGatewayAnnouncement K) :
    g ∈ sortById gws ↔ g ∈ gws := (List.mergeSort_perm gws _).mem_iff

theorem sortById_head {gws : List (LightningGatewayAnnouncement K)} (hne : gws ≠ []) :
    ∃ first, (sortById gws)[0]? = some first ∧ first ∈ gws ∧ ∀ g ∈ gws, first.info.gatewayId ≤ g.info.gatewayId := by
  have hsorted := sortById_pairwise gws
  cases hlist : sortById gws with
  | nil =>
    obtain ⟨g, hg⟩ := List.exists_mem_of_ne_nil gws hne
    rw [← mem_sortById, hlist] at hg
    exact absurd hg List.not_mem_nil
  | cons first rest =>
    rw [hlist, List.pairwise_cons] at hsorted
    refine ⟨first, rfl, ?_, ?_⟩
    · rw [← mem_sortById, hlist]
      exact List.mem_cons_self
    · intro g hg
      rw [← mem_sortById, hlist] at hg
      rcases List.mem_cons.mp hg with rfl | hg
      · exact le_refl _
      · exact hsorted.1 g hg

/-- What the lock protects picks the gateway that follows the last one. -/
theorem roundRobin_follows {gws : List (LightningGatewayAnnouncement K)} (hne : gws ≠ []) (last : Option K) :
    ∃ chosen, roundRobin gws last = (some chosen, some chosen.gatewayId) ∧
      Follows last (gws.map (·.info.gatewayId)) chosen.gatewayId := by
  obtain ⟨first, hfirst, hmem, hleast⟩ := sortById_head hne
  have hbelow : ∀ a ∈ gws.map (·.info.gatewayId), first.info.gatewayId ≤ a := by
    intro a ha
    obtain ⟨g, hg, rfl⟩ := List.mem_map.mp ha
    exact hleast g hg
  cases last with
  | none =>
    refine ⟨first.info, ?_, List.mem_map_of_mem hmem, .inr ⟨by simp, hbelow⟩⟩
    simp only [roundRobin, hfirst]
  | some prev =>
    cases hidx : (sortById gws).findIdx? fun g => decide (prev < g.info.gatewayId) with
    | none =>
      rw [List.findIdx?_eq_none_iff] at hidx
      refine ⟨first.info, ?_, List.mem_map_of_mem hmem, .inr ⟨?_, hbelow⟩⟩
      · have hnone := List.findIdx?_eq_none_iff.mpr hidx
        simp only [roundRobin, hnone, Option.getD_none, hfirst]
      · intro last hlast a ha
        obtain ⟨g, hg, rfl⟩ := List.mem_map.mp ha
        have hle := hidx g ((mem_sortById gws g).mpr hg)
        rw [← Option.some.inj hlast]
        exact not_lt.mp (of_decide_eq_false hle)
    | some i =>
      obtain ⟨hi, habove, hbefore⟩ := List.findIdx?_eq_some_iff_getElem.mp hidx
      refine ⟨((sortById gws)[i]).info, ?_, ?_, .inl ⟨prev, rfl, of_decide_eq_true habove, ?_⟩⟩
      · simp only [roundRobin, hidx, Option.getD_some, List.getElem?_eq_getElem hi]
      · exact List.mem_map_of_mem ((mem_sortById gws _).mp (List.getElem_mem hi))
      · intro a ha hlt
        obtain ⟨g, hg, rfl⟩ := List.mem_map.mp ha
        obtain ⟨j, hj, rfl⟩ := List.getElem_of_mem ((mem_sortById gws g).mpr hg)
        rcases Nat.lt_or_ge j i with hji | hij
        · exact absurd (decide_eq_true hlt) (hbefore j hji)
        · rcases Nat.eq_or_lt_of_le hij with rfl | hij
          · exact le_refl _
          · exact List.pairwise_iff_getElem.mp (sortById_pairwise gws) i j hi hj hij

/-- A call that can select something selects what follows the last gateway. -/
theorem select_follows {call : Call K} {g : K} (hg : g ∈ call.selectable fromStr testSupport) (last : Option K) :
    ∃ chosen, selectGatewayExcluding fromStr testSupport call.client call.excludedGatewayId none last =
        (.ok (some chosen), some chosen.gatewayId) ∧
      Follows last (call.selectable fromStr testSupport) chosen.gatewayId := by
  unfold Call.selectable at hg ⊢
  by_cases hln : call.client.hasLn = true
  · rw [if_pos hln] at hg ⊢
    have hne : gatewaysExcluding fromStr testSupport call.client call.excludedGatewayId ≠ [] := by
      intro hnil
      rw [hnil] at hg
      exact absurd hg List.not_mem_nil
    obtain ⟨chosen, hchosen, hfollows⟩ := roundRobin_follows hne last
    refine ⟨chosen, ?_, hfollows⟩
    simp only [selectGatewayExcluding, hln, Bool.not_true, Bool.false_eq_true, if_false, List.isEmpty_iff, hne, hchosen]
  · rw [if_neg hln] at hg
    exact absurd hg List.not_mem_nil

theorem selectAll_rotates {calls : List (Call K)} {g : K} (hg : ∀ call ∈ calls, g ∈ call.selectable fromStr testSupport) :
    ∀ last, ∃ chosen : List (LightningGateway K),
      selectAll fromStr testSupport calls last = chosen.map (fun gateway => .ok (some gateway)) ∧
      Rotates last (calls.map (·.selectable fromStr testSupport)) (chosen.map (·.gatewayId)) := by
  induction calls with
  | nil =>
    intro last
    exact ⟨[], rfl, .nil last⟩
  | cons call calls ih =>
    intro last
    obtain ⟨first, hfirst, hfollows⟩ := select_follows (hg call List.mem_cons_self) last
    obtain ⟨rest, hrest, hrotates⟩ := ih (fun call' h' => hg call' (List.mem_cons_of_mem call h')) (some first.gatewayId)
    refine ⟨first :: rest, ?_, .cons last _ first.gatewayId _ _ hfollows hrotates⟩
    simp only [selectAll, hfirst, hrest, List.map_cons]

/-! ## Main result -/

/-- The ids that some call can select. -/
def everSelectable (fromStr : String → Option K) (testSupport : Bool) (calls : List (Call K)) : Finset K :=
  (calls.flatMap (·.selectable fromStr testSupport)).toFinset

theorem round_robin_fair (fromStr : String → Option K) (testSupport : Bool) (calls : List (Call K)) (last : Option K) (g : K)
    (hg : ∀ call ∈ calls, g ∈ call.selectable fromStr testSupport) :
    ∃ chosen : List (LightningGateway K),
      selectAll fromStr testSupport calls last = chosen.map (fun gateway => .ok (some gateway)) ∧
      (∀ before between after, chosen.map (·.gatewayId) = before ++ g :: (between ++ g :: after) → g ∉ between →
        between.Nodup) ∧
      (∀ before window after, chosen.map (·.gatewayId) = before ++ (window ++ after) →
        (everSelectable fromStr testSupport calls).card ≤ window.length → window ≠ [] → g ∈ window) := by
  obtain ⟨chosen, hchosen, hrotates⟩ := selectAll_rotates hg last
  have hlists : ∀ there ∈ calls.map (·.selectable fromStr testSupport), g ∈ there := by
    intro there hthere
    obtain ⟨call, hcall, rfl⟩ := List.mem_map.mp hthere
    exact hg call hcall
  have hever : ∀ there ∈ calls.map (·.selectable fromStr testSupport), ∀ a ∈ there,
      a ∈ everSelectable fromStr testSupport calls := by
    intro there hthere a ha
    obtain ⟨call, hcall, rfl⟩ := List.mem_map.mp hthere
    exact List.mem_toFinset.mpr (List.mem_flatMap.mpr ⟨call, hcall, ha⟩)
  refine ⟨chosen, hchosen, ?_, ?_⟩
  · intro before between after hsplit hbetween
    rw [hsplit, ← List.singleton_append, ← List.append_assoc] at hrotates
    obtain ⟨prev, lists, hpart, hsub⟩ := hrotates.window
    exact hpart.nodup (fun there hthere => hlists there (hsub there hthere)) hbetween
  · intro before window after hsplit hcard hne
    rw [hsplit] at hrotates
    obtain ⟨prev, lists, hpart, hsub⟩ := hrotates.window
    have hgEver : g ∈ everSelectable fromStr testSupport calls := by
      obtain ⟨a, ha⟩ := List.exists_mem_of_ne_nil window hne
      obtain ⟨there, hthere, _⟩ := hpart.mem a ha
      exact hever there (hsub there hthere) g (hlists there (hsub there hthere))
    apply hpart.mem_of_card_le _ _ hgEver hcard
    · intro there hthere
      exact hever there (hsub there hthere)
    · intro there hthere
      exact hlists there (hsub there hthere)

/-- Gateway 2 is in every call, and the others come and go. -/
theorem round_robin_fair_two :
    let gateway : ℕ → LightningGatewayAnnouncement ℕ := fun id => ⟨⟨id, "https"⟩, 10 ^ 12⟩
    let call : List ℕ → Call ℕ := fun ids => ⟨⟨true, ids.map gateway, none, [], none⟩, none⟩
    let calls := [call [1, 2], call [3, 2], call [1, 2, 3], call [2, 3], call [3, 2, 1], call [2, 1], call [1, 2]]
    (∀ c ∈ calls, 2 ∈ c.selectable (fun _ => none) false) ∧
    ∃ chosen : List (LightningGateway ℕ),
      selectAll (fun _ => none) false calls none = chosen.map (fun gateway => .ok (some gateway)) ∧
      chosen.length = 7 ∧ (everSelectable (fun _ => none) false calls).card = 3 ∧
      (∀ before between after, chosen.map (·.gatewayId) = before ++ 2 :: (between ++ 2 :: after) → 2 ∉ between →
        between.Nodup) ∧
      (∀ before window after, chosen.map (·.gatewayId) = before ++ (window ++ after) →
        (everSelectable (fun _ => none) false calls).card ≤ window.length → window ≠ [] → 2 ∈ window) := by
  intro gateway call calls
  have hg : ∀ c ∈ calls, 2 ∈ c.selectable (fun _ => none) false := by decide
  obtain ⟨chosen, hchosen, hlaps⟩ := round_robin_fair (fun _ => none) false calls none 2 hg
  have hlength : (selectAll (fun _ => none) false calls none).length = 7 := by simp [selectAll, calls]
  rw [hchosen, List.length_map] at hlength
  exact ⟨hg, chosen, hchosen, hlength, by decide +kernel, hlaps⟩

end

end LnGateways
