import Fedi.StabilityPool.Votes

/-!
# Version votes

Each peer has one stored version vote, its greatest accepted one, and every accepted
vote is above version 2.0 (`VersionsInv`).  So the stored votes at or above `v` belong
to the peers with an accepted vote at or above `v` (`countP_values`), and the entry
`len - threshold` of the sorted votes is the greatest version a quorum supports:

    runEvents C cfg evs = .ok st →
      consensusModuleConsensusVersion cfg st.db = .ok active ∧ ActiveVersion cfg evs active

Supporters are only ever added, so the active version never decreases.
-/

namespace StabilityPool

open BTreeMaps Runs OrderStat

/-! ## Accepted votes -/

/-- A version vote, as an event. -/
def versionEvent (peerId : PeerId) (version : ModuleConsensusVersion) : Event :=
  .consensusItem peerId (.v1 version)

/-- The peer and the version of a version vote. -/
def versionVote? : Event → Option (PeerId × ModuleConsensusVersion)
  | .consensusItem peerId (.v1 version) => some (peerId, version)
  | _ => none

/-- The peers that voted for `version` or a later one in the events of a run. -/
def supporters (evs : List Event) (version : ModuleConsensusVersion) : Finset PeerId :=
  (((evs.filterMap versionVote?).filter fun vote => version ≤ vote.2).map Prod.fst).toFinset

/-- The greatest version supported by the threshold of peers, or 2.0 if there is none. -/
def ActiveVersion (cfg : StabilityPoolConfigConsensus) (evs : List Event)
    (active : ModuleConsensusVersion) : Prop :=
  IsGreatest {version | cfg.consensusThreshold ≤ (supporters evs version).card} active ∨
    (∀ version, (supporters evs version).card < cfg.consensusThreshold) ∧
      active = INITIAL_MODULE_CONSENSUS_VERSION

theorem versionVote?_eq_some {e : Event} {peerId : PeerId} {version : ModuleConsensusVersion} :
    versionVote? e = some (peerId, version) ↔ e = versionEvent peerId version := by
  constructor
  · intro h
    unfold versionVote? at h
    split at h
    · cases h
      rfl
    · cases h
  · rintro rfl
    rfl

theorem mem_supporters {evs : List Event} {version : ModuleConsensusVersion} {peerId : PeerId} :
    peerId ∈ supporters evs version ↔ ∃ v, version ≤ v ∧ versionEvent peerId v ∈ evs := by
  rw [supporters, List.mem_toFinset, List.mem_map]
  constructor
  · rintro ⟨⟨p, v⟩, hv, rfl⟩
    obtain ⟨hmem, hle⟩ := List.mem_filter.mp hv
    obtain ⟨e, he, hvote⟩ := List.mem_filterMap.mp hmem
    rw [versionVote?_eq_some] at hvote
    subst hvote
    exact ⟨v, of_decide_eq_true hle, he⟩
  · rintro ⟨v, hle, he⟩
    refine ⟨(peerId, v), List.mem_filter.mpr ⟨?_, decide_eq_true hle⟩, rfl⟩
    exact List.mem_filterMap.mpr ⟨_, he, versionVote?_eq_some.mpr rfl⟩

theorem supporters_mono {evs evs' : List Event} (h : evs ⊆ evs') (version : ModuleConsensusVersion) :
    supporters evs version ⊆ supporters evs' version := by
  intro peerId hp
  rw [mem_supporters] at hp ⊢
  obtain ⟨v, hle, he⟩ := hp
  exact ⟨v, hle, h he⟩

/-! ## Stored votes -/

/-- The stored version votes after a run: each is an accepted vote, and none is exceeded. -/
structure VersionsInv (evs : List Event) (votes : BTreeMap PeerId ModuleConsensusVersion) : Prop where
  cast : ∀ peerId version, votes.get? peerId = some version → versionEvent peerId version ∈ evs
  greatest : ∀ peerId version, versionEvent peerId version ∈ evs →
    INITIAL_MODULE_CONSENSUS_VERSION < version ∧
      ∃ stored, votes.get? peerId = some stored ∧ version ≤ stored

theorem VersionsInv.insert {evs : List Event} {votes : BTreeMap PeerId ModuleConsensusVersion}
    (h : VersionsInv evs votes) {peerId : PeerId} {version : ModuleConsensusVersion}
    (hnew : votes.getD peerId INITIAL_MODULE_CONSENSUS_VERSION < version) :
    VersionsInv (evs ++ [versionEvent peerId version]) (votes.insert peerId version) := by
  constructor
  · intro p v hv
    rw [BTreeMap.get?_insert] at hv
    split_ifs at hv with hp
    · cases hv
      subst hp
      exact List.mem_append_right _ List.mem_cons_self
    · exact List.mem_append_left _ (h.cast p v hv)
  · intro p v hv
    rw [BTreeMap.get?_insert]
    rcases List.mem_append.mp hv with hv | hv
    · obtain ⟨hpos, stored, hstored, hle⟩ := h.greatest p v hv
      refine ⟨hpos, ?_⟩
      split_ifs with hp
      · subst hp
        rw [BTreeMap.getD_of_get? hstored] at hnew
        exact ⟨version, rfl, hle.trans hnew.le⟩
      · exact ⟨stored, hstored, hle⟩
    · rw [List.mem_singleton] at hv
      cases hv
      rw [if_pos rfl]
      refine ⟨?_, version, rfl, le_rfl⟩
      cases hg : votes.get? peerId with
      | none =>
        rw [BTreeMap.getD_of_none hg] at hnew
        exact hnew
      | some stored =>
        rw [BTreeMap.getD_of_get? hg] at hnew
        exact (h.greatest peerId stored (h.cast peerId stored hg)).1.trans hnew

/-- An event that is no version vote and leaves the votes alone. -/
theorem VersionsInv.other {evs : List Event} {votes : BTreeMap PeerId ModuleConsensusVersion}
    (h : VersionsInv evs votes) {e : Event} (he : versionVote? e = none) :
    VersionsInv (evs ++ [e]) votes := by
  constructor
  · intro p v hv
    exact List.mem_append_left _ (h.cast p v hv)
  · intro p v hv
    rcases List.mem_append.mp hv with hv | hv
    · exact h.greatest p v hv
    · rw [List.mem_singleton] at hv
      rw [← hv, versionVote?_eq_some.mpr rfl] at he
      cases he

theorem processVersionVote_ok {cfg : StabilityPoolConfigConsensus} {db db' : Db}
    {version : ModuleConsensusVersion} {peerId : PeerId}
    (h : processVersionVote cfg db version peerId = .ok db') :
    db.consensusVersionVote.getD peerId INITIAL_MODULE_CONSENSUS_VERSION < version ∧
      db'.consensusVersionVote = db.consensusVersionVote.insert peerId version := by
  simp only [processVersionVote, ensure, bind_eq_ok] at h
  obtain ⟨_, hensure, active, -, h⟩ := h
  split_ifs at hensure h with hnew hactive
  rw [pure_eq_ok] at h
  subst h
  exact ⟨hnew, rfl⟩

/-- Only version votes touch the stored version votes. -/
theorem processConsensusItem_versions {cfg : StabilityPoolConfigConsensus} {db db' : Db}
    {item : StabilityPoolConsensusItem} {peerId : PeerId}
    (h : processConsensusItem cfg db item peerId = .ok db')
    (hvote : versionVote? (.consensusItem peerId item) = none) :
    db'.consensusVersionVote = db.consensusVersionVote := by
  cases processConsensusItem_ok h with
  | version version => cases hvote
  | vote vote _ _ _ _ => rfl
  | turnover vote _ info _ _ _ _ _ hturn =>
    obtain ⟨middle, remaining, log, seeks, charged, provides, feeRate, feePool, hstep⟩ := turnover_ok hturn
    have hwritten := congrArg Db.consensusVersionVote hstep.written.db_eq
    have hsettled := congrArg Db.consensusVersionVote hstep.settled.db_eq
    exact hwritten.trans hsettled

theorem processInput_versions {C : Crypto} {db : Db} {txid : TransactionId} {i : StabilityPoolInput}
    {r : Db × InputMeta} (h : processInput C db txid i = .ok r) :
    r.1.consensusVersionVote = db.consensusVersionVote := by
  rcases processInput_ok h with ⟨u, -, hu⟩ | ⟨w, -, hw⟩
  · obtain ⟨cycle, kept, drained, hmove, -⟩ := processUnlockInput_ok hu
    exact hmove.versions
  · obtain ⟨-, -, hr⟩ := processWithdrawalInput_ok hw
    rw [hr]

theorem processOutput_versions {C : Crypto} {cfg : StabilityPoolConfigConsensus} {db : Db}
    {txid : TransactionId} {o : StabilityPoolOutput} {r : OutputResult}
    (h : processOutput C cfg db txid o = .ok r) : r.1.consensusVersionVote = db.consensusVersionVote := by
  rcases processOutput_ok h with ⟨s, cycle, a, metadata, kind, -, -, -, hr⟩ | ⟨t, -, -, ht⟩
  · rw [hr, stageDeposit_eq]
    cases s <;> rfl
  · obtain ⟨-, -, cycle, s, metadata, staged, locked, -, -, -, hstep⟩ := processTransferOutput_ok ht
    exact hstep.move.versions

theorem versionsInv_of_run {C : Crypto} {cfg : StabilityPoolConfigConsensus} {evs : List Event}
    {st : Ledger} (h : runEvents C cfg evs = .ok st) : VersionsInv evs st.db.consensusVersionVote := by
  have h0 : VersionsInv [] Ledger.initial.db.consensusVersionVote :=
    ⟨fun p v hv => (by cases hv), fun p v hv => (by cases hv)⟩
  refine run_induction (P := fun evs st => VersionsInv evs st.db.consensusVersionVote) h0
    (fun evs st e st' _ hp hst => ?_) h
  cases e with
  | consensusItem peerId item =>
    simp only [applyEvent, bind_eq_ok, pure_eq_ok] at hst
    obtain ⟨db', h1, rfl⟩ := hst
    cases hvote : versionVote? (.consensusItem peerId item) with
    | none =>
      show VersionsInv _ db'.consensusVersionVote
      rw [processConsensusItem_versions h1 hvote]
      exact hp.other hvote
    | some vote =>
      have he := versionVote?_eq_some.mp hvote
      cases he
      obtain ⟨hnew, heq⟩ := processVersionVote_ok h1
      show VersionsInv _ db'.consensusVersionVote
      rw [heq]
      exact hp.insert hnew
  | input txid i =>
    simp only [applyEvent, bind_eq_ok, pure_eq_ok] at hst
    obtain ⟨r, h1, rfl⟩ := hst
    show VersionsInv _ r.1.consensusVersionVote
    rw [processInput_versions h1]
    exact hp.other rfl
  | output txid o =>
    simp only [applyEvent, bind_eq_ok, pure_eq_ok] at hst
    obtain ⟨r, h1, rfl⟩ := hst
    show VersionsInv _ r.1.consensusVersionVote
    rw [processOutput_versions h1]
    exact hp.other rfl

/-! ## The active version -/

/-- The stored votes at or above `version` are one for each supporter. -/
theorem countP_values {evs : List Event} {votes : BTreeMap PeerId ModuleConsensusVersion}
    (h : VersionsInv evs votes) (version : ModuleConsensusVersion) :
    votes.values.countP (version ≤ ·) = (supporters evs version).card := by
  have hnd : (votes.entries.map Prod.fst).Nodup := votes.keys_sorted.imp fun hlt => hlt.ne
  have hsub : ((votes.entries.filter fun e => version ≤ e.2).map Prod.fst).Nodup :=
    hnd.sublist (List.filter_sublist.map _)
  have hset : ((votes.entries.filter fun e => version ≤ e.2).map Prod.fst).toFinset =
      supporters evs version := by
    ext peerId
    rw [List.mem_toFinset, List.mem_map, mem_supporters]
    constructor
    · rintro ⟨⟨p, v⟩, hv, rfl⟩
      obtain ⟨hmem, hle⟩ := List.mem_filter.mp hv
      exact ⟨v, of_decide_eq_true hle, h.cast p v (BTreeMap.mem_entries.mp hmem)⟩
    · rintro ⟨v, hle, he⟩
      obtain ⟨-, stored, hstored, hvs⟩ := h.greatest peerId v he
      refine ⟨(peerId, stored), List.mem_filter.mpr ⟨BTreeMap.mem_entries.mpr hstored, ?_⟩, rfl⟩
      exact decide_eq_true (hle.trans hvs)
  rw [← hset, List.toFinset_card_of_nodup hsub, List.length_map, BTreeMap.values, List.countP_map,
    List.countP_eq_length_filter]
  rfl

theorem activeVersion_of_inv {cfg : StabilityPoolConfigConsensus} (hpos : 0 < cfg.consensusThreshold)
    {evs : List Event} {db : Db} (h : VersionsInv evs db.consensusVersionVote) :
    ∃ active, consensusModuleConsensusVersion cfg db = .ok active ∧ ActiveVersion cfg evs active := by
  unfold consensusModuleConsensusVersion
  by_cases hfew : db.consensusVersionVote.values.length < cfg.consensusThreshold
  · rw [if_pos hfew]
    refine ⟨_, rfl, Or.inr ⟨fun version => ?_, rfl⟩⟩
    rw [← countP_values h]
    exact lt_of_le_of_lt List.countP_le_length hfew
  · rw [if_neg hfew]
    have hmany := not_lt.mp hfew
    have hindex : db.consensusVersionVote.values.length - cfg.consensusThreshold <
        (db.consensusVersionVote.values.insertionSort (· ≤ ·)).length := by
      rw [List.length_insertionSort]
      omega
    have hget := List.getElem?_eq_getElem hindex
    have hgreatest := isGreatest_quorum hmany hget
    simp only [hget]
    refine ⟨_, rfl, Or.inl ?_⟩
    simp only [countP_values h] at hgreatest
    exact hgreatest

/-- A supported version makes 2.0 supported, as every accepted vote is above it. -/
theorem supporters_le_initial {evs : List Event} {votes : BTreeMap PeerId ModuleConsensusVersion}
    (h : VersionsInv evs votes) (version : ModuleConsensusVersion) :
    (supporters evs version).card ≤ (supporters evs INITIAL_MODULE_CONSENSUS_VERSION).card := by
  apply Finset.card_le_card
  intro peerId hp
  rw [mem_supporters] at hp ⊢
  obtain ⟨v, -, he⟩ := hp
  exact ⟨v, (h.greatest peerId v he).1.le, he⟩

theorem ActiveVersion.mono {cfg : StabilityPoolConfigConsensus} {evs evs' : List Event}
    {active active' : ModuleConsensusVersion} {votes : BTreeMap PeerId ModuleConsensusVersion}
    (h : ActiveVersion cfg evs active) (h' : ActiveVersion cfg evs' active') (hsub : evs ⊆ evs')
    (hinv : VersionsInv evs' votes) : active ≤ active' := by
  have hgrow : ∀ version, (supporters evs version).card ≤ (supporters evs' version).card :=
    fun version => Finset.card_le_card (supporters_mono hsub version)
  rcases h with hgreatest | ⟨-, rfl⟩
  · have hactive : cfg.consensusThreshold ≤ (supporters evs active).card := hgreatest.1
    rcases h' with hgreatest' | ⟨hnone, -⟩
    · exact hgreatest'.2 (hactive.trans (hgrow active))
    · exact absurd (hactive.trans (hgrow active)) (not_le.mpr (hnone active))
  · rcases h' with hgreatest' | ⟨-, rfl⟩
    · have hactive' : cfg.consensusThreshold ≤ (supporters evs' active').card := hgreatest'.1
      exact hgreatest'.2 (hactive'.trans (supporters_le_initial hinv active'))
    · exact le_rfl

/-- The active module consensus version is the greatest one that the threshold of peers
support with accepted votes, and no later event lowers it. -/
theorem module_version_activation {C : Crypto} {cfg : StabilityPoolConfigConsensus}
    (hpos : 0 < cfg.consensusThreshold) {evs : List Event} {st : Ledger}
    (hrun : runEvents C cfg evs = .ok st) :
    ∃ active, consensusModuleConsensusVersion cfg st.db = .ok active ∧ ActiveVersion cfg evs active ∧
      ∀ later st' active', runEvents C cfg (evs ++ later) = .ok st' →
        consensusModuleConsensusVersion cfg st'.db = .ok active' → active ≤ active' := by
  obtain ⟨active, hactive, hspec⟩ := activeVersion_of_inv hpos (versionsInv_of_run hrun)
  refine ⟨active, hactive, hspec, fun later st' active' hrun' hactive' => ?_⟩
  have hinv := versionsInv_of_run hrun'
  obtain ⟨active'', h1, h2⟩ := activeVersion_of_inv hpos hinv
  rw [hactive'] at h1
  cases h1
  exact hspec.mono h2 (List.subset_append_left _ _) hinv

theorem module_version_activation_demo : ∃ st active,
    runEvents demoCrypto demoConfig [versionEvent 0 ⟨2, 1⟩, versionEvent 1 ⟨3, 0⟩, versionEvent 2 ⟨2, 1⟩] =
      .ok st ∧ consensusModuleConsensusVersion demoConfig st.db = .ok active ∧
    ActiveVersion demoConfig [versionEvent 0 ⟨2, 1⟩, versionEvent 1 ⟨3, 0⟩, versionEvent 2 ⟨2, 1⟩] active := by
  obtain ⟨st, hst⟩ := exists_of_succeeds (show succeeds (runEvents demoCrypto demoConfig
    [versionEvent 0 ⟨2, 1⟩, versionEvent 1 ⟨3, 0⟩, versionEvent 2 ⟨2, 1⟩]) = true by decide +kernel)
  obtain ⟨active, h1, h2, -⟩ := module_version_activation (by decide) hst
  exact ⟨st, active, hst, h1, h2⟩

end StabilityPool
