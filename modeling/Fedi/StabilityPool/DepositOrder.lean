import Fedi.StabilityPool.Leftovers

/-!
# The order of an account's deposits

A deposit or a transfer appends the newest sequence, restaging sorts an account's deposits by
sequence, and a new cycle lists seeks by sequence but provides by their minimum fee rate first.
So in every list of a reachable database an older deposit stands behind a newer one only if it
asks for a higher fee, and never if it is a seek (`ordered_of_reachable`).
-/

namespace StabilityPool

open BTreeMaps KeyedLogs Runs

/-- Cheaper by the minimum fee rate, which seeks do not have. -/
def Cheaper : (s : Side) → s.Meta → s.Meta → Prop
  | .seek, _, _ => False
  | .provide, fee, fee' => fee.ppb < fee'.ppb

/-- Behind a newer deposit stand only older ones it is cheaper than. -/
def InOrder (s : Side) (hs : List (TransactionId × ℕ × s.Meta)) : Prop :=
  hs.Pairwise fun x y => y.2.1 < x.2.1 → Cheaper s x.2.2 y.2.2

structure Db.Ordered (db : Db) : Prop where
  staged : ∀ s a, InOrder s (heads ((db.staged s).getD a []))
  locked : ∀ s a, InOrder s (heads ((db.locked s).getD a []))

theorem ordered_initial : Db.initial.Ordered where
  staged := fun s a => by cases s <;> exact List.Pairwise.nil
  locked := fun s a => by cases s <;> exact List.Pairwise.nil

/-- Rising sequences are in order. -/
theorem inOrder_of_sorted {s : Side} {ds : List (Deposit s.Meta)} (h : (sequences ds).Pairwise (· < ·)) :
    InOrder s (heads ds) := by
  rw [sequences_eq_heads, List.pairwise_map] at h
  exact h.imp fun hlt hgt => absurd hgt (not_lt.mpr hlt.le)

/-! ## Moves -/

/-- An incoming deposit is newer than what the list has. -/
theorem Moved.inOrder {s : Side} {t t' : DepositTable s.Meta} {sender recipient : AccountId}
    {kept drained incoming : List (Deposit s.Meta)} {next : ℕ}
    (h : Moved t t' sender recipient kept drained incoming) (hold : ∀ a, InOrder s (heads (t.getD a [])))
    (hbelow : ∀ a, ∀ x ∈ heads (t.getD a []), x.2.1 < next) (hnew : ∀ d ∈ incoming, d.sequence = next)
    (a : AccountId) : InOrder s (heads (t'.getD a [])) := by
  have hsub : (heads (if a = sender then kept else t.getD a [])).Sublist (heads (t.getD a [])) := by
    by_cases ha : a = sender
    · rw [if_pos ha, ha]
      exact h.splits.kept_heads
    · rw [if_neg ha]
  have hnext : ∀ y ∈ heads (if a = recipient then incoming else []), y.2.1 = next := by
    intro y hy
    by_cases ha : a = recipient
    · rw [if_pos ha] at hy
      obtain ⟨d, hd, rfl⟩ := List.mem_map.mp hy
      exact hnew d hd
    · rw [if_neg ha] at hy
      cases hy
  rw [h.getD_eq, heads, List.map_append]
  refine List.pairwise_append.mpr ⟨(hold a).sublist hsub, ?_, ?_⟩
  · refine List.pairwise_of_forall_mem_list fun x hx y hy hlt => ?_
    rw [hnext x hx, hnext y hy] at hlt
    omega
  · intro x hx y hy hlt
    have hx := hbelow a x (hsub.subset hx)
    rw [hnext y hy] at hlt
    omega

theorem AccountMove.ordered {cfg : StabilityPoolConfigConsensus} {db db' : Db} {txid : TransactionId}
    {cycle : Cycle} {s : Side} {sender recipient : AccountId}
    {keptStaged drainedStaged newStaged keptLocked drainedLocked newLocked : List (Deposit s.Meta)}
    {credit : ℕ} {log : List Posting}
    (h : AccountMove db db' txid cycle s sender recipient keptStaged drainedStaged newStaged keptLocked
      drainedLocked newLocked credit log) (hwf : Wf cfg db) (hord : db.Ordered) : db'.Ordered := by
  obtain ⟨hlocked, hlockedSide⟩ := h.locked_eq
  constructor
  · intro s' a
    by_cases hs : s' = s
    · subst hs
      exact h.staged.inOrder (hord.staged s') (fun a x hx => hwf.below s' a x (.inl hx))
        (fun d hd => (h.fresh d (List.mem_append_left _ hd)).2) a
    · rw [h.staged_side s' hs]
      exact hord.staged s' a
  · intro s' a
    by_cases hs : s' = s
    · subst hs
      exact hlocked.inOrder (hord.locked s') (fun a x hx => hwf.below s' a x (.inr hx))
        (fun d hd => (h.fresh d (List.mem_append_right _ hd)).2) a
    · rw [hlockedSide s' hs]
      exact hord.locked s' a

/-- The order only reads the deposits. -/
theorem Db.Ordered.congr {db db' : Db} (h : db.Ordered) (hstaged : ∀ s, db'.staged s = db.staged s)
    (hcurrent : db'.currentCycle = db.currentCycle) : db'.Ordered where
  staged := fun s a => by
    rw [hstaged]
    exact h.staged s a
  locked := fun s a => by
    rw [Db.locked, hcurrent]
    exact h.locked s a

/-! ## A new cycle -/

/-- The same of a list of several accounts' deposits. -/
def PairsInOrder (s : Side) (hs : List (AccountId × TransactionId × ℕ × s.Meta)) : Prop :=
  hs.Pairwise fun x y => y.2.2.1 < x.2.2.1 → Cheaper s x.2.2.2 y.2.2.2

theorem heads_groupMap {M : Type} (l : List (AccountId × Deposit M)) (a : AccountId) :
    heads ((BTreeMap.groupMap l).getD a []) = ((pairHeads l).filter fun e => decide (e.1 = a)).map Prod.snd := by
  rw [BTreeMap.getD_groupMap, heads, pairHeads, List.map_map, List.filter_map, List.map_map]
  rfl

theorem PairsInOrder.group {s : Side} {l : List (AccountId × Deposit s.Meta)} (h : PairsInOrder s (pairHeads l))
    (a : AccountId) : InOrder s (heads ((BTreeMap.groupMap l).getD a [])) := by
  rw [heads_groupMap]
  exact List.pairwise_map.mpr (h.sublist List.filter_sublist)

theorem sortedStagedSeeks_inOrder (db : Db) : PairsInOrder .seek (pairHeads (sortedStagedSeeks db)) := by
  have : Std.Total fun a b : AccountSeek => a.2.sequence ≤ b.2.sequence := ⟨fun a b => by omega⟩
  have : IsTrans AccountSeek fun a b => a.2.sequence ≤ b.2.sequence := ⟨fun a b c => by omega⟩
  refine List.pairwise_map.mpr ((List.pairwise_insertionSort _ _).imp fun {e e'} hle hlt => ?_)
  exact absurd hlt (not_lt.mpr hle)

theorem sortedStagedProvides_inOrder (db : Db) : PairsInOrder .provide (pairHeads (sortedStagedProvides db)) := by
  have : Std.Total provideLe := ⟨fun a b => by unfold provideLe; omega⟩
  have : IsTrans AccountProvide provideLe := ⟨fun a b c => by unfold provideLe; omega⟩
  refine List.pairwise_map.mpr ((List.pairwise_insertionSort provideLe _).imp fun {e e'} hle hlt => ?_)
  rcases hle with hcheaper | ⟨-, hle⟩
  · exact hcheaper
  · exact absurd hlt (not_lt.mpr hle)

section
variable {ratio : CollateralRatio} {db db' : Db} {info : CycleInfo} {old : Locks}
  {seeks charged : List AccountSeek} {provides : List AccountProvide} {feeRate feePool : ℕ}

/-- Writing a new cycle regroups sorted lists; only btc depositors keep theirs. -/
theorem CycleWritten.ordered (h : CycleWritten ratio db info old db' seeks charged provides feeRate feePool)
    (hord : ∀ s a, InOrder s (heads ((db.staged s).getD a []))) : db'.Ordered := by
  obtain ⟨staged, hm, heq⟩ := h.seeks_matched
  obtain ⟨staged', hm', heq'⟩ := h.provides_matched
  constructor
  · intro s a
    cases s with
    | seek =>
      show InOrder .seek (heads (db'.stagedSeeks.getD a []))
      by_cases ha : a.accType = .btcDepositor
      · rw [h.staged_btc ha]
        exact hord .seek a
      · have hnone : (db.stagedSeeks.filterKeys fun a => !stabilizes a).getD a [] = [] :=
          BTreeMap.getD_of_none (filterKeys_get?_none _ ha) _
        rw [heq, (insertAll_groupMap fun e he =>
          filterKeys_get?_none _ (mem_sortedStagedSeeks.mp (hm.staged_mem he)).1).2 a, hnone, List.nil_append]
        exact PairsInOrder.group ((sortedStagedSeeks_inOrder db).sublist hm.staged_heads.sublist) a
    | provide =>
      show InOrder .provide (heads (db'.stagedProvides.getD a []))
      rw [heq', (insertAll_groupMap fun e _ => BTreeMap.get?_empty e.1).2 a]
      exact PairsInOrder.group ((sortedStagedProvides_inOrder db).sublist hm'.staged_heads.sublist) a
  · intro s a
    rw [locked_of_current h.current]
    cases s with
    | seek =>
      refine PairsInOrder.group ?_ a
      rw [h.charged_heads]
      exact (sortedStagedSeeks_inOrder db).sublist hm.locked_heads.sublist
    | provide => exact PairsInOrder.group ((sortedStagedProvides_inOrder db).sublist hm'.locked_heads.sublist) a

theorem TurnoverStep.ordered {middle : Db} {remaining : Locks} {log : List Posting}
    (h : TurnoverStep ratio db info db' middle remaining log seeks charged provides feeRate feePool)
    (hord : db.Ordered) : db'.Ordered := by
  have hmiddle : ∀ s a, InOrder s (heads ((middle.staged s).getD a [])) := by
    intro s a
    rw [h.settled.staged]
    cases (remaining.on s).get? a with
    | none => exact hord.staged s a
    | some ds => exact inOrder_of_sorted (mergeDeposits_sorted _ _)
  exact (h.written.ordered hmiddle).congr (fun s => by cases s <;> rfl) rfl

end

/-! ## Runs -/

theorem ordered_of_reachable {C : Crypto} {cfg : StabilityPoolConfigConsensus} {db : Db}
    (h : Reachable C cfg db) : db.Ordered := by
  refine (reachable_induction (P := fun db => Wf cfg db ∧ db.Ordered) ⟨wf_initial cfg, ordered_initial⟩ ?_ ?_ ?_ h).2
  · rintro db item peerId db' ⟨hwf, hord⟩ hstep
    refine ⟨processConsensusItem_wf hwf hstep, ?_⟩
    cases processConsensusItem_ok hstep with
    | version version => exact hord.congr (fun s => by cases s <;> rfl) rfl
    | vote vote => exact hord.congr (fun s => by cases s <;> rfl) rfl
    | turnover vote _ info _ hnext hfirst hmany hinfo hturn =>
      obtain ⟨_, _, _, _, _, _, _, _, hturnover⟩ := turnover_ok hturn
      exact hturnover.ordered (hord.congr (fun s => by cases s <;> rfl) rfl)
  · rintro db txid i r ⟨hwf, hord⟩ hstep
    refine ⟨processInput_wf hwf hstep, ?_⟩
    rcases processInput_ok hstep with ⟨u, -, hu⟩ | ⟨w, -, hw⟩
    · obtain ⟨cycle, kept, drained, hmove, -⟩ := processUnlockInput_ok hu
      exact hmove.ordered hwf hord
    · obtain ⟨-, -, hr⟩ := processWithdrawalInput_ok hw
      rw [hr]
      exact hord.congr (fun s => by cases s <;> rfl) rfl
  · rintro db txid o r ⟨hwf, hord⟩ hstep
    refine ⟨processOutput_wf hwf hstep, ?_⟩
    rcases processOutput_ok hstep with ⟨s, cycle, a, metadata, kind, hc, hallowed, -, hr⟩ | ⟨t, -, -, ht⟩
    · obtain ⟨hcredit, hdebit⟩ := hallowed.credit
      rw [hr]
      exact (stageDeposit_move hc txid a r.2 metadata hcredit hdebit).ordered hwf hord
    · obtain ⟨-, -, cycle, s, metadata, staged, locked, -, -, -, hmove⟩ := processTransferOutput_ok ht
      exact hmove.move.ordered hwf hord

end StabilityPool
