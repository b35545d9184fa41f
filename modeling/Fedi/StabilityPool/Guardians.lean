import Fedi.StabilityPool.VersionVotes

/-!
# Guardians (`server/src/oracle.rs`, `consensus_proposal` of `server/src/lib.rs`)

A guardian fetches the price in a task of its own and proposes consensus items from its copy of the
database, which is the state after a prefix of the agreed events.  A federation is the guardians, the
items they submitted and the ledger after the agreed events: what is agreed of an honest guardian is
something it submitted, what is agreed of a faulty one is arbitrary.

    FedInv.step :  fedStep C cfg n faulty s e = .ok s' → FedInv s → FedInv s'

Times are nanoseconds.  The answers of the price sources, with the float arithmetic that turns them
into cents, are inputs.
-/

namespace StabilityPool

open Runs OrderStat

/-! ## The oracle -/

/-- What fetching from a source and `extract_price_from_json_value` gave: nothing when the request, its
body, its status or its JSON failed. -/
abbrev OracleResult := Option (Except String ℕ)

def sourcePrice : OracleResult → Option ℕ
  | some (.ok 0) => none
  | some (.ok price) => some price
  | some (.error _) => none
  | none => none

/-- The prices the sources returned, other than zero. -/
def quotes (results : List OracleResult) : List ℕ := results.filterMap sourcePrice

/-- `AggregateOracle::get_price`. -/
def getPrice (results : List OracleResult) : Res ℕ :=
  let sourcePrices := (quotes results).insertionSort (· ≤ ·)
  if sourcePrices = [] then .error (.bail "None of the oracle sources returned a non-zero price")
  else
    match sourcePrices[sourcePrices.length / 2]? with
    | none => .error (.panic .indexOutOfBounds)
    | some medianPrice => .ok medianPrice

theorem pos_of_mem_quotes {results : List OracleResult} {price : ℕ} (h : price ∈ quotes results) : 0 < price := by
  obtain ⟨result, -, hprice⟩ := List.mem_filterMap.mp h
  unfold sourcePrice at hprice
  split at hprice
  · cases hprice
  · next price' hne =>
    cases hprice
    apply Nat.pos_of_ne_zero
    rintro rfl
    exact hne rfl
  · cases hprice
  · cases hprice

theorem getPrice_ok {results : List OracleResult} {price : ℕ} (h : getPrice results = .ok price) :
    ((quotes results).insertionSort (· ≤ ·))[(quotes results).length / 2]? = some price := by
  unfold getPrice at h
  simp only [List.length_insertionSort] at h
  split_ifs at h
  split at h
  · cases h
  · next median hmedian =>
    cases h
    exact hmedian

theorem getPrice_mem {results : List OracleResult} {price : ℕ} (h : getPrice results = .ok price) :
    price ∈ quotes results := by
  have hmem := List.mem_of_getElem? (getPrice_ok h)
  exact (List.mem_insertionSort _).mp hmem

/-- The price is within the bounds that most of the answering sources keep. -/
theorem getPrice_within {results : List OracleResult} {price lo hi : ℕ} (h : getPrice results = .ok price)
    (hgood : 2 * (quotes results).countP (fun quote => decide (¬ (lo ≤ quote ∧ quote ≤ hi))) < (quotes results).length) :
    lo ≤ price ∧ price ≤ hi := by
  have hget := getPrice_ok h
  have hmap : (quotes results).map id = quotes results := List.map_id _
  rw [← hmap] at hget
  obtain ⟨x, -, y, -, hx, hy, hxp, hpy⟩ := median_between hget hgood
  have hlow : lo ≤ x ∧ x ≤ hi := by simpa using hx
  have hhigh : lo ≤ y ∧ y ≤ hi := by simpa using hy
  exact ⟨hlow.1.trans hxp, le_trans hpy hhigh.2⟩

/-! ## Proposals -/

structure PrefetchedPrice where
  time : ℕ
  price : ℕ

/-- `StabilityPoolConfig`: the part all guardians share, with the duration of a cycle. -/
structure GuardianConfig where
  consensus : StabilityPoolConfigConsensus
  cycleDuration : ℕ

/-- What a guardian keeps besides its copy of the database. -/
structure Guardian where
  prefetchedPrice : Option PrefetchedPrice
  lastConsensusProposal : Option StabilityPoolConsensusItem
  peerSupportedConsensusVersion : Option ModuleConsensusVersion
  /-- `ConsensusVersionVotingActivationKey`, which is no part of the agreed state. -/
  votingActivated : Bool

/-- `StabilityPool::new`, over a database whose administrator activated voting or did not. -/
def Guardian.new (votingActivated : Bool) : Guardian := ⟨none, none, none, votingActivated⟩

deriving instance DecidableEq for StabilityPoolConsensusItem

def NANOS_PER_SEC : ℕ := 1000000000

/-- `SystemTime::elapsed`: an error when the time is in the future. -/
def elapsed (now time : ℕ) : Option ℕ := if time ≤ now then some (now - time) else none

/-- More than the duration has passed. -/
def hasElapsed (now time duration : ℕ) : Bool :=
  match elapsed now time with
  | some d => decide (duration < d)
  | none => false

def GuardianConfig.enoughTimeDuration (cfg : GuardianConfig) : ℕ :=
  min 15 ((cfg.cycleDuration / NANOS_PER_SEC + 19) / 20) * NANOS_PER_SEC

/-- `maybe_v0_ref`. -/
def StabilityPoolConsensusItem.maybeV0Ref : StabilityPoolConsensusItem → Option StabilityPoolConsensusItemV0
  | .v0 vote => some vote
  | .v1 _ => none
  | .default _ => none

def shouldProposeNewCycle (cfg : GuardianConfig) (currentCycle : Option Cycle)
    (lastCpV0 : Option StabilityPoolConsensusItemV0) (now : ℕ) : Bool :=
  match currentCycle, lastCpV0 with
  | none, none => true
  | none, some lastCpV0 => hasElapsed now lastCpV0.time cfg.enoughTimeDuration
  | some currentCycle, none => hasElapsed now currentCycle.startTime cfg.cycleDuration
  | some currentCycle, some lastCpV0 =>
    if hasElapsed now currentCycle.startTime cfg.cycleDuration then
      if lastCpV0.nextCycleIndex = currentCycle.index + 1 then
        hasElapsed now lastCpV0.time cfg.enoughTimeDuration
      else true
    else false

/-- The index the next cycle will have. -/
def nextCycleIndex (currentCycle : Option Cycle) : ℕ :=
  match currentCycle with
  | some cycle => cycle.index + 1
  | none => 0

/-- The vote for the next cycle, if one is due and the price is known.  The clock is read before
(`now`) and for the item (`stamp`). -/
def cycleProposal (cfg : GuardianConfig) (g : Guardian) (currentCycle : Option Cycle) (now stamp : ℕ) :
    Option StabilityPoolConsensusItemV0 :=
  if shouldProposeNewCycle cfg currentCycle (g.lastConsensusProposal.bind (·.maybeV0Ref)) now then
    match g.prefetchedPrice with
    | none => none
    | some prefetched => some ⟨nextCycleIndex currentCycle, stamp, prefetched.price⟩
  else none

def versionProposal (g : Guardian) (activeConsensusVersion : ModuleConsensusVersion) : Option ModuleConsensusVersion :=
  let manualVote := if g.votingActivated then some CONSENSUS_VERSION else none
  let automaticVote := g.peerSupportedConsensusVersion.filter (activeConsensusVersion < ·)
  (automaticVote.or manualVote).filter (activeConsensusVersion < ·)

def consensusProposal (cfg : GuardianConfig) (g : Guardian) (db : Db) (now stamp : ℕ) :
    Res (Guardian × List StabilityPoolConsensusItem) := do
  let vote := cycleProposal cfg g db.currentCycle now stamp
  let activeConsensusVersion ← consensusModuleConsensusVersion cfg.consensus db
  return ({ g with lastConsensusProposal := (vote.map .v0).or g.lastConsensusProposal },
    (vote.map .v0).toList ++ ((versionProposal g activeConsensusVersion).map .v1).toList)

/-- The version that all peers support, from the answers of the others, when all of them answered. -/
def allPeersSupportedVersion (numPeers : ℕ) (answers : List (Option ModuleConsensusVersion)) :
    Option ModuleConsensusVersion :=
  let sortedConsensusVersions := (answers.reduceOption ++ [CONSENSUS_VERSION]).insertionSort (· ≤ ·)
  if sortedConsensusVersions.length = numPeers then sortedConsensusVersions.head? else none

theorem hasElapsed_iff {now time duration : ℕ} : hasElapsed now time duration = true ↔ time + duration < now := by
  unfold hasElapsed elapsed
  by_cases h : time ≤ now
  · rw [if_pos h]
    simp only [decide_eq_true_eq]
    omega
  · rw [if_neg h]
    simp only [Bool.false_eq_true, false_iff]
    omega

/-- A proposal is only due once the duration of the cycle is over. -/
theorem shouldProposeNewCycle_due {cfg : GuardianConfig} {cycle : Cycle}
    {lastCpV0 : Option StabilityPoolConsensusItemV0} {now : ℕ}
    (h : shouldProposeNewCycle cfg (some cycle) lastCpV0 now = true) : cycle.startTime + cfg.cycleDuration < now := by
  rw [← hasElapsed_iff]
  unfold shouldProposeNewCycle at h
  split at h
  · cases ‹some cycle = none›
  · cases ‹some cycle = none›
  · next heq =>
    cases heq
    exact h
  · next heq =>
    cases heq
    split_ifs at h with hdue
    all_goals exact hdue

theorem cycleProposal_eq_some {cfg : GuardianConfig} {g : Guardian} {currentCycle : Option Cycle} {now stamp : ℕ}
    {vote : StabilityPoolConsensusItemV0} (h : cycleProposal cfg g currentCycle now stamp = some vote) :
    vote.nextCycleIndex = nextCycleIndex currentCycle ∧ vote.time = stamp ∧
      (∀ cycle, currentCycle = some cycle → cycle.startTime + cfg.cycleDuration < now) ∧
      ∃ prefetched, g.prefetchedPrice = some prefetched ∧ vote.price = prefetched.price := by
  unfold cycleProposal at h
  split_ifs at h with hdue
  split at h
  · cases h
  · next prefetched hprice =>
    cases h
    refine ⟨rfl, rfl, ?_, prefetched, hprice, rfl⟩
    intro cycle hcycle
    rw [hcycle] at hdue
    exact shouldProposeNewCycle_due hdue

/-- A guardian only votes for a version it supports, and above the active one. -/
theorem versionProposal_eq_some {g : Guardian} {active version : ModuleConsensusVersion}
    (h : versionProposal g active = some version) : active < version ∧
      (g.peerSupportedConsensusVersion = some version ∨ version = CONSENSUS_VERSION) := by
  simp only [versionProposal, Option.filter_eq_some_iff, Option.or_eq_some_iff, decide_eq_true_eq] at h
  obtain ⟨hvote, hactive⟩ := h
  refine ⟨hactive, ?_⟩
  rcases hvote with ⟨hsupported, -⟩ | ⟨-, hmanual⟩
  · exact .inl hsupported
  · split_ifs at hmanual
    cases hmanual
    exact .inr rfl

theorem allPeersSupportedVersion_le {numPeers : ℕ} {answers : List (Option ModuleConsensusVersion)}
    {version : ModuleConsensusVersion} (h : allPeersSupportedVersion numPeers answers = some version) :
    version ≤ CONSENSUS_VERSION := by
  unfold allPeersSupportedVersion at h
  simp only at h
  split_ifs at h
  have hsorted := List.pairwise_insertionSort (· ≤ ·) (answers.reduceOption ++ [CONSENSUS_VERSION])
  have hmem : CONSENSUS_VERSION ∈ (answers.reduceOption ++ [CONSENSUS_VERSION]).insertionSort (· ≤ ·) := by
    rw [List.mem_insertionSort]
    exact List.mem_append_right _ List.mem_cons_self
  cases hl : (answers.reduceOption ++ [CONSENSUS_VERSION]).insertionSort (· ≤ ·) with
  | nil =>
    rw [hl] at h
    cases h
  | cons first rest =>
    rw [hl] at h hsorted hmem
    cases h
    rcases List.mem_cons.mp hmem with heq | hrest
    · exact heq.ge
    · exact (List.pairwise_cons.mp hsorted).1 _ hrest

theorem consensusProposal_ok {cfg : GuardianConfig} {g : Guardian} {db : Db} {now stamp : ℕ}
    {r : Guardian × List StabilityPoolConsensusItem} (h : consensusProposal cfg g db now stamp = .ok r) :
    r.1.prefetchedPrice = g.prefetchedPrice ∧
      r.1.peerSupportedConsensusVersion = g.peerSupportedConsensusVersion ∧
      ∀ item ∈ r.2, (∃ vote, cycleProposal cfg g db.currentCycle now stamp = some vote ∧ item = .v0 vote) ∨
        ∃ active version, versionProposal g active = some version ∧ item = .v1 version := by
  simp only [consensusProposal, bind_eq_ok, pure_eq_ok] at h
  obtain ⟨active, -, rfl⟩ := h
  refine ⟨rfl, rfl, ?_⟩
  intro item hitem
  simp only [List.mem_append, Option.mem_toList, Option.map_eq_some_iff] at hitem
  rcases hitem with ⟨vote, hvote, rfl⟩ | ⟨version, hversion, rfl⟩
  · exact .inl ⟨vote, hvote, rfl⟩
  · exact .inr ⟨active, version, hversion, rfl⟩

/-! ## Federations -/

inductive FedEvent where
  /-- One round of the price fetch task. -/
  | fetchPrice (peerId : PeerId) (now : ℕ) (results : List OracleResult)
  /-- One round of the task that asks the other peers for their versions. -/
  | fetchVersions (peerId : PeerId) (answers : List (Option ModuleConsensusVersion))
  | activateVoting (peerId : PeerId)
  /-- `consensus_proposal`, on the state after the first `processed` agreed events. -/
  | propose (peerId : PeerId) (processed now delay : ℕ)
  | restart (peerId : PeerId)
  | agree (event : Event)

structure Federation where
  ledger : Ledger
  agreed : List Event
  guardians : PeerId → Guardian
  submitted : List (PeerId × StabilityPoolConsensusItem)

def Federation.initial : Federation := ⟨.initial, [], fun _ => .new false, []⟩

def Federation.setGuardian (s : Federation) (peerId : PeerId) (g : Guardian) : Federation :=
  { s with guardians := Function.update s.guardians peerId g }

/-- Honest guardians only get items agreed that they submitted. -/
def mayAgree (faulty : Finset PeerId) (submitted : List (PeerId × StabilityPoolConsensusItem)) : Event → Bool
  | .consensusItem peerId item => decide (peerId ∈ faulty ∨ (peerId, item) ∈ submitted)
  | .input _ _ => true
  | .output _ _ => true

def fedStep (C : Crypto) (cfg : GuardianConfig) (numPeers : ℕ) (faulty : Finset PeerId) (s : Federation) :
    FedEvent → Res Federation
  | .fetchPrice peerId now results =>
    let prefetchedPrice := match getPrice results with
      | .ok price => some ⟨now, price⟩
      | .error _ => none
    .ok (s.setGuardian peerId { s.guardians peerId with prefetchedPrice := prefetchedPrice })
  | .fetchVersions peerId answers =>
    .ok (s.setGuardian peerId { s.guardians peerId with
      peerSupportedConsensusVersion := allPeersSupportedVersion numPeers answers })
  | .activateVoting peerId => .ok (s.setGuardian peerId { s.guardians peerId with votingActivated := true })
  | .propose peerId processed now delay => do
    let own ← runEvents C cfg.consensus (s.agreed.take processed)
    let r ← consensusProposal cfg (s.guardians peerId) own.db now (now + delay)
    return { s.setGuardian peerId r.1 with submitted := s.submitted ++ r.2.map (peerId, ·) }
  | .restart peerId => .ok (s.setGuardian peerId (.new (s.guardians peerId).votingActivated))
  | .agree event => do
    ensure (mayAgree faulty s.submitted event = true) "not submitted"
    let ledger ← applyEvent C cfg.consensus s.ledger event
    return { s with ledger := ledger, agreed := s.agreed ++ [event] }

def runFederation (C : Crypto) (cfg : GuardianConfig) (numPeers : ℕ) (faulty : Finset PeerId) (evs : List FedEvent) :
    Res Federation :=
  run (fedStep C cfg numPeers faulty) Federation.initial evs

section

variable {C : Crypto} {cfg : GuardianConfig} {numPeers : ℕ} {faulty : Finset PeerId} {Priced : ℕ → Prop}

/-- A vote made on a state the federation was in, once the duration of its cycle was over. -/
structure DueVote (C : Crypto) (cfg : GuardianConfig) (agreed : List Event) (vote : StabilityPoolConsensusItemV0) :
    Prop where
  seen : ∃ before own, before <+: agreed ∧ runEvents C cfg.consensus before = .ok own ∧
    vote.nextCycleIndex = nextCycleIndex own.db.currentCycle ∧
    ∀ cycle, own.db.currentCycle = some cycle → cycle.startTime + cfg.cycleDuration < vote.time

/-- What an honest guardian keeps between its tasks. -/
structure Guardian.Sound (Priced : ℕ → Prop) (g : Guardian) : Prop where
  price : ∀ prefetched, g.prefetchedPrice = some prefetched → Priced prefetched.price
  version : ∀ version, g.peerSupportedConsensusVersion = some version → version ≤ CONSENSUS_VERSION

/-- The states of a federation whose honest guardians fetch only prices with `Priced`. -/
structure FedInv (C : Crypto) (cfg : GuardianConfig) (faulty : Finset PeerId) (Priced : ℕ → Prop) (s : Federation) :
    Prop where
  ran : runEvents C cfg.consensus s.agreed = .ok s.ledger
  guardians : ∀ p, p ∉ faulty → (s.guardians p).Sound Priced
  votes : ∀ p vote, (p, .v0 vote) ∈ s.submitted → p ∉ faulty → Priced vote.price ∧ DueVote C cfg s.agreed vote
  versions : ∀ p version, (p, .v1 version) ∈ s.submitted → p ∉ faulty → version ≤ CONSENSUS_VERSION
  cast : ∀ p item, .consensusItem p item ∈ s.agreed → p ∉ faulty → (p, item) ∈ s.submitted

/-- An honest guardian that fetches a price fetches one with `Priced`. -/
def PricedFetch (faulty : Finset PeerId) (Priced : ℕ → Prop) : FedEvent → Prop
  | .fetchPrice peerId _ results => peerId ∉ faulty → ∀ price, getPrice results = .ok price → Priced price
  | _ => True

theorem Guardian.new_sound (votingActivated : Bool) : (Guardian.new votingActivated).Sound Priced where
  price := fun _ h => by cases h
  version := fun _ h => by cases h

theorem FedInv.initial : FedInv C cfg faulty Priced Federation.initial where
  ran := rfl
  guardians := fun _ _ => Guardian.new_sound false
  votes := fun _ _ h => by cases h
  versions := fun _ _ h => by cases h
  cast := fun _ _ h => by cases h

/-- A guardian may change to any sound state. -/
theorem FedInv.setGuardian {s : Federation} (h : FedInv C cfg faulty Priced s) {peerId : PeerId} {g : Guardian}
    (hg : peerId ∉ faulty → g.Sound Priced) : FedInv C cfg faulty Priced (s.setGuardian peerId g) where
  ran := h.ran
  guardians := by
    intro p hp
    by_cases heq : p = peerId
    · subst heq
      show (Function.update s.guardians p g p).Sound Priced
      rw [Function.update_self]
      exact hg hp
    · show (Function.update s.guardians peerId g p).Sound Priced
      rw [Function.update_of_ne heq]
      exact h.guardians p hp
  votes := h.votes
  versions := h.versions
  cast := h.cast

theorem DueVote.mono {agreed agreed' : List Event} {vote : StabilityPoolConsensusItemV0}
    (h : DueVote C cfg agreed vote) (hpre : agreed <+: agreed') : DueVote C cfg agreed' vote := by
  obtain ⟨before, own, hbefore, hrest⟩ := h.seen
  exact ⟨before, own, hbefore.trans hpre, hrest⟩

theorem FedInv.agree {s : Federation} (h : FedInv C cfg faulty Priced s) {event : Event} {ledger : Ledger}
    (hmay : mayAgree faulty s.submitted event = true) (happly : applyEvent C cfg.consensus s.ledger event = .ok ledger) :
    FedInv C cfg faulty Priced { s with ledger := ledger, agreed := s.agreed ++ [event] } where
  ran := run_snoc.mpr ⟨s.ledger, h.ran, happly⟩
  guardians := h.guardians
  votes := by
    intro p vote hvote hp
    obtain ⟨hprice, hdue⟩ := h.votes p vote hvote hp
    exact ⟨hprice, hdue.mono (List.prefix_append _ _)⟩
  versions := h.versions
  cast := by
    intro p item hitem hp
    rcases List.mem_append.mp hitem with hold | hnew
    · exact h.cast p item hold hp
    · rw [List.mem_singleton] at hnew
      subst hnew
      have := of_decide_eq_true hmay
      exact this.resolve_left hp

theorem FedInv.propose {s : Federation} (h : FedInv C cfg faulty Priced s) {peerId : PeerId} {processed now delay : ℕ}
    {own : Ledger} {r : Guardian × List StabilityPoolConsensusItem}
    (hown : runEvents C cfg.consensus (s.agreed.take processed) = .ok own)
    (hr : consensusProposal cfg (s.guardians peerId) own.db now (now + delay) = .ok r) :
    FedInv C cfg faulty Priced
      { s.setGuardian peerId r.1 with submitted := s.submitted ++ r.2.map (peerId, ·) } := by
  obtain ⟨hprice, hversion, hitems⟩ := consensusProposal_ok hr
  have hsound : peerId ∉ faulty → r.1.Sound Priced := by
    intro hp
    have hg := h.guardians peerId hp
    refine ⟨?_, ?_⟩
    · rw [hprice]
      exact hg.price
    · rw [hversion]
      exact hg.version
  have hset := h.setGuardian hsound
  -- what this call submitted is in the new part of the list
  have hmem : ∀ p item, (p, item) ∈ s.submitted ++ r.2.map (peerId, ·) →
      (p, item) ∈ s.submitted ∨ p = peerId ∧ item ∈ r.2 := by
    intro p item hitem
    rcases List.mem_append.mp hitem with hold | hnew
    · exact .inl hold
    · obtain ⟨item', hitem', heq⟩ := List.mem_map.mp hnew
      cases heq
      exact .inr ⟨rfl, hitem'⟩
  refine ⟨h.ran, hset.guardians, ?_, ?_, ?_⟩
  · intro p vote hvote hp
    rcases hmem p _ hvote with hold | ⟨rfl, hnew⟩
    · exact h.votes p vote hold hp
    · rcases hitems _ hnew with ⟨vote', hvote', heq⟩ | ⟨_, _, _, heq⟩
      · cases heq
        obtain ⟨hindex, htime, hdue, prefetched, hfetched, hvoteprice⟩ := cycleProposal_eq_some hvote'
        refine ⟨?_, ⟨_, own, List.take_prefix _ _, hown, hindex, ?_⟩⟩
        · rw [hvoteprice]
          exact (h.guardians p hp).price prefetched hfetched
        · intro cycle hcycle
          have := hdue cycle hcycle
          omega
      · cases heq
  · intro p version hv hp
    rcases hmem p _ hv with hold | ⟨rfl, hnew⟩
    · exact h.versions p version hold hp
    · rcases hitems _ hnew with ⟨_, _, heq⟩ | ⟨active, version', hversion', heq⟩
      · cases heq
      · cases heq
        rcases (versionProposal_eq_some hversion').2 with hsupported | hmanual
        · exact (h.guardians p hp).version version hsupported
        · exact hmanual.le
  · intro p item hitem hp
    exact List.mem_append_left _ (h.cast p item hitem hp)

/-- The step lemma. -/
theorem FedInv.step {s s' : Federation} {e : FedEvent} (h : FedInv C cfg faulty Priced s)
    (hpriced : PricedFetch faulty Priced e) (hstep : fedStep C cfg numPeers faulty s e = .ok s') :
    FedInv C cfg faulty Priced s' := by
  cases e with
  | fetchPrice peerId now results =>
    cases hstep
    refine h.setGuardian fun hp => ⟨?_, (h.guardians peerId hp).version⟩
    intro prefetched hfetched
    simp only at hfetched
    split at hfetched
    · next price hprice =>
      cases hfetched
      exact hpriced hp price hprice
    · cases hfetched
  | fetchVersions peerId answers =>
    cases hstep
    refine h.setGuardian fun hp => ⟨(h.guardians peerId hp).price, ?_⟩
    intro version hversion
    exact allPeersSupportedVersion_le hversion
  | activateVoting peerId =>
    cases hstep
    exact h.setGuardian fun hp => ⟨(h.guardians peerId hp).price, (h.guardians peerId hp).version⟩
  | propose peerId processed now delay =>
    simp only [fedStep, bind_eq_ok, pure_eq_ok] at hstep
    obtain ⟨own, hown, r, hr, rfl⟩ := hstep
    exact h.propose hown hr
  | restart peerId =>
    cases hstep
    exact h.setGuardian fun _ => Guardian.new_sound _
  | agree event =>
    simp only [fedStep, ensure, bind_eq_ok, pure_eq_ok] at hstep
    obtain ⟨_, hmay, ledger, happly, rfl⟩ := hstep
    split_ifs at hmay with hmay'
    exact h.agree hmay' happly

theorem fedInv_of_run {evs : List FedEvent} {s : Federation} (hpriced : ∀ e ∈ evs, PricedFetch faulty Priced e)
    (h : runFederation C cfg numPeers faulty evs = .ok s) : FedInv C cfg faulty Priced s := by
  refine run_induction (P := fun evs s => (∀ e ∈ evs, PricedFetch faulty Priced e) → FedInv C cfg faulty Priced s)
    (fun _ => .initial) ?_ h hpriced
  intro evs s e s' _ ih hstep hevs
  have hs := ih fun e he => hevs e (List.mem_append_left _ he)
  exact hs.step (hevs e (List.mem_append_right _ List.mem_cons_self)) hstep

/-- Any fetched price. -/
theorem pricedFetch_any (e : FedEvent) : PricedFetch faulty (fun _ => True) e := by
  cases e with
  | fetchPrice peerId now results => exact fun _ _ _ => trivial
  | _ => exact trivial

end

end StabilityPool
