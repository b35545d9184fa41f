import Fedi.StabilityPool.SettledLocks

/-!
# Deposits left after the last cycle is settled

`DepositLeft db price randomness s a e`: deposit `e` of account `a` is staged, or is
left of its settled locks by its unlock request.  Restaging merges deposits of one
sequence, which have one metadata, so for `k ≤ 1`

    (∃ e staged after, p e.metadata ∧ k ≤ e.amount) ↔ ∃ e left, p e.metadata ∧ k ≤ e.amount

(`settleLastCycle_left`).  With `k = 0` this says which kinds of deposits there are,
with `k = 1` which of them hold any msats.
-/

namespace StabilityPool

open BTreeMaps KeyedLogs Runs

/-! ## Unlock requests -/

/-- The unlock amount requested for an account. -/
def Db.requested (db : Db) (a : AccountId) : Option FiatOrAll :=
  (db.unlockRequests.get? a).map (·.unlockAmount)

/-- A fiat amount converts to fewer than `2^64` msats. -/
def FiatOrAll.Fits (price : ℕ) (amount : FiatOrAll) : Prop :=
  ∀ fiat, amount = .fiat fiat → fiat * MSATS_PER_BTC / price < 2 ^ 64

section
variable {info : CycleInfo} {db : Db} {locks : Locks}

theorem processUnlockRequestsInner_succeeds_iff {M : Type} (hprice : info.startPrice ≠ 0)
    {a : AccountId} {req : UnlockRequest} {items : List (Deposit M)} :
    (∃ r, processUnlockRequestsInner db a req items info = .ok r) ↔
      req.unlockAmount.Fits info.startPrice :=
  (exists_ok_bind_total fun _ => ⟨_, rfl⟩).trans (drainForRequest_succeeds_iff hprice _)

theorem unlockFromMap_succeeds_iff {M : Type} (hprice : info.startPrice ≠ 0) {a : AccountId}
    {req : UnlockRequest} {locked : DepositTable M} :
    (∃ r, unlockFromMap db a req locked info = .ok r) ↔ req.unlockAmount.Fits info.startPrice := by
  unfold unlockFromMap
  cases locked.get? a with
  | none =>
    exact (exists_ok_bind_total fun _ => ⟨_, rfl⟩).trans (processUnlockRequestsInner_succeeds_iff hprice)
  | some ds =>
    exact (exists_ok_bind_total fun _ => ⟨_, rfl⟩).trans (processUnlockRequestsInner_succeeds_iff hprice)

theorem processUnlockRequest_succeeds_iff (hprice : info.startPrice ≠ 0) {a : AccountId}
    {req : UnlockRequest} (ha : a.accType ≠ .btcDepositor) :
    (∃ r, processUnlockRequest db locks info a req = .ok r) ↔ req.unlockAmount.Fits info.startPrice := by
  unfold processUnlockRequest
  cases htype : a.accType with
  | seeker => exact (exists_ok_bind_total fun _ => ⟨_, rfl⟩).trans (unlockFromMap_succeeds_iff hprice)
  | provider => exact (exists_ok_bind_total fun _ => ⟨_, rfl⟩).trans (unlockFromMap_succeeds_iff hprice)
  | btcDepositor => exact absurd htype ha

end

/-- The requests are served when all their fiat amounts fit. -/
theorem processUnlockRequestsLoop_succeeds_iff {info : CycleInfo} (hprice : info.startPrice ≠ 0) :
    ∀ {reqs : List (AccountId × UnlockRequest)} {db : Db} {locks : Locks},
      (∀ e ∈ reqs, e.1.accType ≠ .btcDepositor) →
        ((∃ r, processUnlockRequestsLoop info reqs db locks = .ok r) ↔
          ∀ e ∈ reqs, e.2.unlockAmount.Fits info.startPrice)
  | [], db, locks, _ => by
    constructor
    · intro _ e he
      cases he
    · intro _
      exact ⟨_, rfl⟩
  | (a, req) :: reqs, db, locks, hbtc => by
    have ha : a.accType ≠ .btcDepositor := hbtc (a, req) List.mem_cons_self
    have hrest : ∀ e ∈ reqs, e.1.accType ≠ .btcDepositor := fun e he => hbtc e (List.mem_cons_of_mem _ he)
    have hhead : (∃ r, processUnlockRequest db locks info a req = .ok r) ↔
        req.unlockAmount.Fits info.startPrice := processUnlockRequest_succeeds_iff hprice ha
    unfold processUnlockRequestsLoop
    rw [exists_ok_bind, List.forall_mem_cons, ← hhead]
    constructor
    · rintro ⟨r, hr, hloop⟩
      exact ⟨⟨r, hr⟩, (processUnlockRequestsLoop_succeeds_iff hprice hrest).mp hloop⟩
    · rintro ⟨⟨r, hr⟩, hfits⟩
      exact ⟨r, hr, (processUnlockRequestsLoop_succeeds_iff hprice hrest).mpr hfits⟩

/-- What the requests leave of each account's locks. -/
theorem processUnlockRequestsLoop_left {info : CycleInfo} (hprice : info.startPrice ≠ 0) :
    ∀ {reqs : List (AccountId × UnlockRequest)} {db : Db} {locks : Locks} {r : Db × Locks},
      (reqs.map Prod.fst).Nodup → processUnlockRequestsLoop info reqs db locks = .ok r →
        ∀ s a, s = a.accType.side → ∀ e, e ∈ (r.2.on s).getD a [] ↔
          LeftBy info.startPrice ((locks.on s).getD a []) e ((lookupEntry a reqs).map (·.unlockAmount))
  | [], db, locks, r, _, h => by
    intro s a hs e
    cases h
    exact Iff.rfl
  | (a', req) :: reqs, db, locks, r, hnd, h => by
    intro s a hs e
    obtain ⟨hnot, hnd⟩ := List.nodup_cons.mp hnd
    obtain ⟨u, hu, hloop⟩ := bind_eq_ok.mp h
    obtain ⟨s', drained, hdone⟩ := processUnlockRequest_ok hu
    have ih := processUnlockRequestsLoop_left hprice hnd hloop s a hs e
    rw [ih]
    by_cases ha : a = a'
    · subst ha
      have hside := hdone.side
      rw [← hs] at hside
      subst hside
      have hnone : lookupEntry a reqs = none := lookupEntry_eq_none.mpr fun e' he' hea =>
        hnot (List.mem_map.mpr ⟨e', he', hea⟩)
      rw [hnone, lookupEntry, if_pos rfl]
      exact mem_drainForRequest hprice hdone.drain
    · have hsame : (u.2.on s).getD a [] = (locks.on s).getD a [] := by
        by_cases hside : s = s'
        · subst hside
          exact hdone.locks_other a ha
        · rw [hdone.locks_side s hside]
      rw [hsame, lookupEntry, if_neg ha]

/-! ## Restaging -/

/-- Merging deposits of one sequence and metadata keeps which metadata occur, and
which of them with a positive amount. -/
theorem exists_coalesceFrom {M : Type} {p : M → Prop} {k : ℕ} (hk : k ≤ 1) :
    ∀ {ds : List (Deposit M)} {prev : Deposit M},
      (∀ d ∈ prev :: ds, ∀ d' ∈ prev :: ds, d.sequence = d'.sequence → d.metadata = d'.metadata) →
        ((∃ e ∈ coalesceFrom prev ds, p e.metadata ∧ k ≤ e.amount) ↔
          ∃ d ∈ prev :: ds, p d.metadata ∧ k ≤ d.amount)
  | [], prev, _ => Iff.rfl
  | curr :: ds, prev, hunique => by
    unfold coalesceFrom
    by_cases hseq : prev.sequence = curr.sequence
    · rw [if_pos hseq]
      have hmeta : prev.metadata = curr.metadata :=
        hunique prev List.mem_cons_self curr (List.mem_cons_of_mem _ List.mem_cons_self) hseq
      have hsub : ∀ d ∈ ({ prev with amount := prev.amount + curr.amount } : Deposit M) :: ds,
          ∃ d' ∈ prev :: curr :: ds, d'.sequence = d.sequence ∧ d'.metadata = d.metadata := by
        intro d hd
        rcases List.mem_cons.mp hd with rfl | hd
        · exact ⟨prev, List.mem_cons_self, rfl, rfl⟩
        · exact ⟨d, List.mem_cons_of_mem _ (List.mem_cons_of_mem _ hd), rfl, rfl⟩
      rw [exists_coalesceFrom hk fun d hd d' hd' hdd => by
        obtain ⟨x, hx, hxs, hxm⟩ := hsub d hd
        obtain ⟨y, hy, hys, hym⟩ := hsub d' hd'
        rw [← hxm, ← hym]
        exact hunique x hx y hy (by rw [hxs, hys, hdd])]
      simp only [List.exists_mem_cons_iff]
      rw [← hmeta, ← or_assoc]
      have hsum : k ≤ prev.amount + curr.amount ↔ k ≤ prev.amount ∨ k ≤ curr.amount := by omega
      rw [hsum, and_or_left]
    · rw [if_neg hseq, List.exists_mem_cons_iff, List.exists_mem_cons_iff (a := prev),
        exists_coalesceFrom hk fun d hd d' hd' =>
          hunique d (List.mem_cons_of_mem _ hd) d' (List.mem_cons_of_mem _ hd')]

theorem exists_mergeDeposits {M : Type} {p : M → Prop} {k : ℕ} (hk : k ≤ 1)
    {staged locked : List (Deposit M)}
    (hunique : ∀ d ∈ staged ++ locked, ∀ d' ∈ staged ++ locked,
      d.sequence = d'.sequence → d.metadata = d'.metadata) :
    (∃ e ∈ mergeDeposits staged locked, p e.metadata ∧ k ≤ e.amount) ↔
      ∃ d ∈ staged ++ locked, p d.metadata ∧ k ≤ d.amount := by
  have hperm := List.perm_insertionSort (fun a b : Deposit M => a.sequence ≤ b.sequence) (staged ++ locked)
  unfold mergeDeposits
  cases hsort : (staged ++ locked).insertionSort (fun a b => a.sequence ≤ b.sequence) with
  | nil =>
    rw [hsort] at hperm
    rw [hperm.symm.eq_nil]
    rfl
  | cons d ds =>
    rw [hsort] at hperm
    show (∃ e ∈ coalesceFrom d ds, _) ↔ _
    rw [exists_coalesceFrom hk fun x hx y hy => hunique x (hperm.subset hx) y (hperm.subset hy)]
    simp only [hperm.mem_iff]

/-! ## The last cycle -/

/-- Deposit `e` is staged, or left of the settled locks by its account's request. -/
def DepositLeft (db : Db) (price randomness : ℕ) (s : Side) (a : AccountId) (e : Deposit s.Meta) : Prop :=
  e ∈ (db.staged s).getD a [] ∨ ∃ cycle, db.currentCycle = some cycle ∧
    LeftBy price ((settledOn cycle price randomness s).getD a []) e (db.requested a)

theorem leftBy_nil {M : Type} (price : ℕ) (e : Deposit M) (amount : Option FiatOrAll) :
    ¬ LeftBy price [] e amount := by
  intro h
  match amount, h with
  | none, h => cases h
  | some (.fiat fiat), h =>
    obtain ⟨d, newer, hsuf, -⟩ := h
    have := hsuf.subset List.mem_cons_self
    cases this

theorem settledOn_heads (cycle : Cycle) (price randomness : ℕ) (s : Side) (a : AccountId) :
    heads ((settledOn cycle price randomness s).getD a []) = heads ((cycle.locked s).getD a []) := by
  have htable : ∀ {M : Type} (t : DepositTable M) (pool : ℕ),
      heads ((settledTable t pool randomness).getD a []) = heads (t.getD a []) := by
    intro M t pool
    refine heads_eq_of_forall₂ (BTreeMap.getD_refill (setAmounts_heads ?_) a)
    rw [ProRata.length_split, amounts, List.length_map]
  cases s with
  | seek => exact htable _ _
  | provide => exact htable _ _

/-- What remains of the locks is left by the request. -/
theorem settleCurrentCycle_remaining {db : Db} {cycle : Cycle} {info : CycleInfo} (hprice : info.startPrice ≠ 0) {randomness : ℕ} {r : Db × Locks}
    (h : settleCurrentCycle db cycle info randomness = .ok r) {s : Side} {a : AccountId}
    (hs : s = a.accType.side) (e : Deposit s.Meta) : e ∈ (r.2.on s).getD a [] ↔
      LeftBy info.startPrice ((settledOn cycle info.startPrice randomness s).getD a []) e
        (db.requested a) := by
  simp only [settleCurrentCycle, bind_eq_ok, pure_eq_ok] at h
  obtain ⟨settled, hsettled, u, hu, rfl⟩ := h
  have hnd : (db.unlockRequests.entries.map Prod.fst).Nodup :=
    db.unlockRequests.keys_sorted.imp fun h => h.ne
  have hleft := processUnlockRequestsLoop_left hprice hnd hu s a hs e
  rw [settleLocks_eq hsettled] at hleft
  exact hleft

/-- After settling the last cycle, the staged deposits of an account are those left,
merged by sequence. -/
theorem settleLastCycle_left {cfg : StabilityPoolConfigConsensus} {db : Db} (hwf : Wf cfg db)
    {info : CycleInfo} (hprice : info.startPrice ≠ 0) {randomness : ℕ} {r : Db × Locks}
    (h : settleLastCycle db info randomness = .ok r) {s : Side} {p : s.Meta → Prop} {k : ℕ}
    (hk : k ≤ 1) (a : AccountId) :
    (∃ e ∈ (r.1.staged s).getD a [], p e.metadata ∧ k ≤ e.amount) ↔
      ∃ e, DepositLeft db info.startPrice randomness s a e ∧ p e.metadata ∧ k ≤ e.amount := by
  obtain ⟨log, hsettled⟩ := settleLastCycle_ok h
  have hstaged := hsettled.staged s a
  unfold settleLastCycle at h
  cases hc : db.currentCycle with
  | none =>
    rw [hc] at h
    cases h
    constructor
    · rintro ⟨e, he, hpe⟩
      exact ⟨e, Or.inl he, hpe⟩
    · rintro ⟨e, he | ⟨cycle, hcycle, -⟩, hpe⟩
      · exact ⟨e, he, hpe⟩
      · rw [hc] at hcycle
        cases hcycle
  | some cycle =>
    rw [hc] at h
    have hleft : ∀ e, DepositLeft db info.startPrice randomness s a e ↔
        e ∈ (db.staged s).getD a [] ∨ e ∈ (r.2.on s).getD a [] := by
      intro e
      unfold DepositLeft
      by_cases hs : s = a.accType.side
      · rw [settleCurrentCycle_remaining hprice h hs e]
        simp only [hc, Option.some.injEq, exists_eq_left']
      · -- an account has no locks on the other side
        have hlocked := (hwf.other_side_nil hs).2
        have hremaining : (r.2.on s).getD a [] = [] := by
          have := hsettled.heads_sublist s a
          rw [hlocked] at this
          simpa [heads] using this
        have hnil : (settledOn cycle info.startPrice randomness s).getD a [] = [] := by
          have := settledOn_heads cycle info.startPrice randomness s a
          rw [← locked_of_current hc, hlocked] at this
          simpa [heads] using this
        constructor
        · rintro (he | ⟨c, hcc, he⟩)
          · exact Or.inl he
          · rw [hc] at hcc
            cases hcc
            rw [hnil] at he
            exact absurd he (leftBy_nil _ _ _)
        · rintro (he | he)
          · exact Or.inl he
          · rw [hremaining] at he
            cases he
    simp only [hleft]
    rw [hstaged]
    cases hget : (r.2.on s).get? a with
    | none =>
      rw [BTreeMap.getD_of_none hget]
      simp only [restaged, List.not_mem_nil, or_false]
    | some ds =>
      have hholds : ∀ d ∈ (db.staged s).getD a [] ++ ds, db.Holds s a d.head := by
        intro d hd
        rcases List.mem_append.mp hd with hd | hd
        · exact Or.inl (List.mem_map_of_mem hd)
        · refine Or.inr ((hsettled.heads_sublist s a).subset ?_)
          rw [BTreeMap.getD_of_get? hget]
          exact List.mem_map_of_mem hd
      have hunique : ∀ d ∈ (db.staged s).getD a [] ++ ds, ∀ d' ∈ (db.staged s).getD a [] ++ ds,
          d.sequence = d'.sequence → d.metadata = d'.metadata := by
        intro d hd d' hd' hseq
        have := hwf.unique s a d.head d'.head (hholds d hd) (hholds d' hd') hseq
        exact (Deposit.head_eq.mp this).2.2
      show (∃ e ∈ mergeDeposits ((db.staged s).getD a []) ds, _) ↔ _
      rw [exists_mergeDeposits hk hunique, BTreeMap.getD_of_get? hget]
      simp only [List.mem_append]

end StabilityPool
