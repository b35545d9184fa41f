import Fedi.StabilityPool.DepositOrder

/-!
# Draining newest first

A drain takes from the end of a list.  Of a deposit that has `amountSum back` msats behind it a
drain of `n` leaves `amount - (n - amountSum back)` (`amountAt_drainInReverse`), so it spares
newer deposits for an older one exactly where the older one stands behind them and the drain
ends in between (`newestFirst_drain_iff`).  Only provides stand that way, and only behind
cheaper ones: such a drain is what goes wrong, in any step of any run
(`everyStep_newestFirst_iff`).
-/

namespace StabilityPool

open BTreeMaps KeyedLogs Runs

/-! ## One drain -/

section
variable {M : Type}

/-- What a list holds under a sequence. -/
def amountAt (ds : List (Deposit M)) (sequence : ℕ) : ℕ := weigh (atSequence sequence) ds

/-- Nothing is taken from a deposit while a newer one of the list still has funds. -/
def NewestFirst (before after : List (Deposit M)) : Prop :=
  ∀ older ∈ before, ∀ newer ∈ before, older.sequence < newer.sequence →
    0 < amountAt after newer.sequence → amountAt before older.sequence ≤ amountAt after older.sequence

instance (before after : List (Deposit M)) : Decidable (NewestFirst before after) :=
  inferInstanceAs (Decidable (∀ older ∈ before, ∀ newer ∈ before, older.sequence < newer.sequence →
    0 < amountAt after newer.sequence → amountAt before older.sequence ≤ amountAt after older.sequence))

theorem newestFirst_refl (ds : List (Deposit M)) : NewestFirst ds ds := fun _ _ _ _ _ _ => le_rfl

theorem newestFirst_nil (ds : List (Deposit M)) : NewestFirst ds [] :=
  fun _ _ _ _ _ hpos => absurd hpos (lt_irrefl 0)

theorem amountAt_append (ds es : List (Deposit M)) (q : ℕ) :
    amountAt (ds ++ es) q = amountAt ds q + amountAt es q := weigh_append _ _ _

theorem amountAt_of_mem {ds : List (Deposit M)} {d : Deposit M} (hnd : (sequences ds).Nodup) (hd : d ∈ ds) :
    amountAt ds d.sequence = d.amount := weigh_atSequence hnd hd

theorem amountAt_of_not_mem {ds : List (Deposit M)} {q : ℕ} (h : q ∉ sequences ds) : amountAt ds q = 0 := by
  refine weigh_eq_zero fun d hd => if_neg ?_
  intro hq
  exact h (List.mem_map.mpr ⟨d, hd, hq⟩)

/-- What comes in under a new sequence changes nothing for the deposits of the list. -/
theorem newestFirst_append {before after incoming : List (Deposit M)}
    (hnew : ∀ d ∈ incoming, d.sequence ∉ sequences before) :
    NewestFirst before (after ++ incoming) ↔ NewestFirst before after := by
  have hsame : ∀ d ∈ before, amountAt (after ++ incoming) d.sequence = amountAt after d.sequence := by
    intro d hd
    rw [amountAt_append, @amountAt_of_not_mem _ incoming, Nat.add_zero]
    intro hq
    obtain ⟨e, he, heq⟩ := List.mem_map.mp hq
    exact hnew e he (List.mem_map.mpr ⟨d, hd, heq.symm⟩)
  constructor
  · intro h older holder newer hnewer hlt hpos
    rw [← hsame older holder]
    exact h older holder newer hnewer hlt (by rwa [hsame newer hnewer])
  · intro h older holder newer hnewer hlt hpos
    rw [hsame older holder]
    exact h older holder newer hnewer hlt (by rwa [hsame newer hnewer] at hpos)

theorem amountAt_drainLoop {d : Deposit M} {rest : List (Deposit M)} :
    ∀ {front : List (Deposit M)} {n : ℕ}, (sequences (front ++ d :: rest)).Nodup →
      amountAt (drainLoop (front ++ d :: rest) n).1 d.sequence = d.amount - (n - amountSum front)
  | [], n, hnd => by
    have hnot : d.sequence ∉ sequences rest := (List.nodup_cons.mp hnd).1
    rw [amountSum_nil, Nat.sub_zero, List.nil_append]
    rcases le_or_gt n d.amount with h | h
    · rw [drainLoop_of_le rest h]
      by_cases heq : d.amount = n
      · rw [if_pos heq, amountAt_of_not_mem hnot]
        omega
      · rw [if_neg heq]
        exact @amountAt_of_mem M ({ d with amount := d.amount - n } :: rest) { d with amount := d.amount - n }
          hnd List.mem_cons_self
    · rw [drainLoop_of_lt rest h, amountAt_of_not_mem]
      · omega
      · intro hq
        have hsub := (heads_drainLoop_kept rest (n - d.amount)).map fun x => x.2.1
        rw [← sequences_eq_heads, ← sequences_eq_heads] at hsub
        exact hnot (hsub.subset hq)
  | x :: front, n, hnd => by
    have hrest : (sequences (front ++ d :: rest)).Nodup := (List.nodup_cons.mp hnd).2
    have hd : d ∈ front ++ d :: rest := List.mem_append_right _ List.mem_cons_self
    have hne : x.sequence ≠ d.sequence := fun heq =>
      (List.nodup_cons.mp hnd).1 (List.mem_map.mpr ⟨d, hd, heq.symm⟩)
    rw [List.cons_append, amountSum_cons]
    rcases le_or_gt n x.amount with h | h
    · rw [drainLoop_of_le _ h]
      by_cases heq : x.amount = n
      · rw [if_pos heq, amountAt_of_mem hrest hd]
        omega
      · rw [if_neg heq]
        have hkept := @amountAt_of_mem M ({ x with amount := x.amount - n } :: (front ++ d :: rest)) d hnd
          (List.mem_cons_of_mem _ hd)
        rw [hkept]
        omega
    · rw [drainLoop_of_lt _ h, amountAt_drainLoop hrest]
      omega

/-- What a drain leaves of a deposit, by what stands behind it. -/
theorem amountAt_drainInReverse {front back : List (Deposit M)} {d : Deposit M} {n : ℕ}
    (hnd : (sequences (front ++ d :: back)).Nodup) :
    amountAt (drainInReverse (front ++ d :: back) n).1 d.sequence = d.amount - (n - amountSum back) := by
  unfold drainInReverse
  by_cases hn : n = 0
  · rw [if_pos hn, amountAt_of_mem hnd (List.mem_append_right _ List.mem_cons_self)]
    omega
  · rw [if_neg hn]
    have hrev : (front ++ d :: back).reverse = back.reverse ++ d :: front.reverse := by simp
    have hnd' : (sequences (back.reverse ++ d :: front.reverse)).Nodup := by
      rw [← hrev, sequences, List.map_reverse]
      exact List.nodup_reverse.mpr hnd
    have hloop := amountAt_drainLoop (n := n) hnd'
    rw [amountSum_reverse] at hloop
    rw [hrev]
    exact (weigh_reverse _ _).trans hloop

/-- Where an older deposit stands behind a newer one, a drain that reaches the older one must
take all of the newer one too. -/
theorem newestFirst_drain_iff {ds : List (Deposit M)} {n : ℕ} (hnd : (sequences ds).Nodup) :
    NewestFirst ds (drainInReverse ds n).1 ↔
      ∀ front newer mid older back, ds = front ++ newer :: (mid ++ older :: back) →
        older.sequence < newer.sequence → 0 < newer.amount → 0 < older.amount → amountSum back < n →
          amountSum (newer :: (mid ++ older :: back)) ≤ n := by
  constructor
  · rintro h front newer mid older back rfl hlt hnewer holder hreached
    have hmem : older ∈ front ++ newer :: (mid ++ older :: back) := by simp
    have hsplit : front ++ newer :: (mid ++ older :: back) = (front ++ newer :: mid) ++ older :: back := by simp
    have hleft := amountAt_drainInReverse (n := n) hnd
    have hleft' := amountAt_drainInReverse (n := n) (hsplit ▸ hnd)
    rw [← hsplit] at hleft'
    by_contra hmore
    rw [amountSum_cons] at hmore
    have htaken := h older hmem newer (by simp) hlt (by omega)
    rw [amountAt_of_mem hnd hmem, hleft'] at htaken
    omega
  · intro h older holder newer hnewer hlt hpos
    rw [amountAt_of_mem hnd holder]
    obtain ⟨front, back, rfl⟩ := List.append_of_mem hnewer
    rw [amountAt_drainInReverse hnd] at hpos
    rcases List.mem_append.mp holder with hfront | hback
    · -- the older one stands in front
      obtain ⟨first, mid, rfl⟩ := List.append_of_mem hfront
      have hsplit : (first ++ older :: mid) ++ newer :: back = first ++ older :: (mid ++ newer :: back) := by simp
      rw [hsplit] at hnd ⊢
      rw [amountAt_drainInReverse hnd]
      simp only [amountSum_append, amountSum_cons]
      omega
    · rcases List.mem_cons.mp hback with rfl | hback
      · exact absurd hlt (lt_irrefl _)
      · -- the older one stands behind
        obtain ⟨mid, last, rfl⟩ := List.append_of_mem hback
        have hcovered := h front newer mid older last rfl hlt (by omega)
        have hsplit : front ++ newer :: (mid ++ older :: last) = (front ++ newer :: mid) ++ older :: last := by simp
        rw [hsplit] at hnd ⊢
        rw [amountAt_drainInReverse hnd]
        by_contra hless
        have := hcovered (by omega) (by omega)
        rw [amountSum_cons] at this
        omega

end

/-! ## What a step drains -/

/-- A drain of `n` that reaches an older deposit behind a newer, cheaper one takes all of the
newer one. -/
def CoversCheaper (s : Side) (ds : List (Deposit s.Meta)) (n : ℕ) : Prop :=
  ∀ front newer mid older back, ds = front ++ newer :: (mid ++ older :: back) →
    older.sequence < newer.sequence → Cheaper s newer.metadata older.metadata → 0 < newer.amount →
      0 < older.amount → amountSum back < n → amountSum (newer :: (mid ++ older :: back)) ≤ n

theorem newestFirst_iff_coversCheaper {s : Side} {ds : List (Deposit s.Meta)} {n : ℕ}
    (hnd : (sequences ds).Nodup) (hord : InOrder s (heads ds)) :
    NewestFirst ds (drainInReverse ds n).1 ↔ CoversCheaper s ds n := by
  rw [newestFirst_drain_iff hnd]
  constructor
  · intro h front newer mid older back hds hlt _
    exact h front newer mid older back hds hlt
  · rintro h front newer mid older back rfl hlt
    refine h front newer mid older back rfl hlt ?_
    rw [heads, List.map_append, List.map_cons, List.map_append, List.map_cons] at hord
    have hbehind := (List.pairwise_cons.mp (List.pairwise_append.mp hord).2.1).1 older.head (by simp)
    exact hbehind hlt

/-- What an event drains: a list of an account's deposits, and how much of it. -/
inductive Drains (C : Crypto) (cfg : StabilityPoolConfigConsensus) (db : Db) :
    Event → (s : Side) → List (Deposit s.Meta) → ℕ → Prop where
  | unlock (cycle : Cycle) (txid : TransactionId) (u : UnlockForWithdrawalInput) (fiat n : ℕ)
    (hc : db.currentCycle = some cycle) (hfiat : u.amount = .fiat fiat)
    (hn : FiatAmount.toBtcAmount fiat cycle.startPrice = .ok n) :
    Drains C cfg db (.input txid (.v0 (.unlockForWithdrawal u))) u.account.accType.side
      ((db.staged u.account.accType.side).getD (u.account.id C) []) n
  | transferStaged (cycle : Cycle) (txid : TransactionId) (o : StabilityPoolOutput) (t : TransferOutput)
    (r : TransferRequest) (hc : db.currentCycle = some cycle) (hr : r = t.signedRequest.transferRequest)
    (ho : o = .v0 (.transfer t) ∨ o = .v1 (.transfer t)) :
    Drains C cfg db (.output txid o) r.sender.accType.side
      ((db.staged r.sender.accType.side).getD (r.sender.id C) []) (transferTotal r cycle)
  | transferLocked (cycle : Cycle) (txid : TransactionId) (o : StabilityPoolOutput) (t : TransferOutput)
    (r : TransferRequest) (hc : db.currentCycle = some cycle) (hr : r = t.signedRequest.transferRequest)
    (ho : o = .v0 (.transfer t) ∨ o = .v1 (.transfer t)) :
    Drains C cfg db (.output txid o) r.sender.accType.side
      ((cycle.locked r.sender.accType.side).getD (r.sender.id C) [])
      (transferTotal r cycle - amountSum ((db.staged r.sender.accType.side).getD (r.sender.id C) []))
  | turnover (cycle : Cycle) (peerId : PeerId) (vote : StabilityPoolConsensusItemV0) (info : CycleInfo)
    (a : AccountId) (req : UnlockRequest) (fiat n : ℕ) (hc : db.currentCycle = some cycle)
    (hmany : cfg.consensusThreshold ≤ (votesWith db vote peerId).length)
    (hinfo : NextCycle db vote (votesWith db vote peerId) info)
    (hreq : db.unlockRequests.get? a = some req) (hfiat : req.unlockAmount = .fiat fiat)
    (hn : FiatAmount.toBtcAmount fiat info.startPrice = .ok n) :
    Drains C cfg db (.consensusItem peerId (.v0 vote)) a.accType.side
      ((settledOn cycle info.startPrice (info.startTime % 1000000000) a.accType.side).getD a []) n

/-- The locks that `settleCurrentCycle` settles, and what the unlock requests leave of them. -/
def unlockedLocks (db : Db) (cycle : Cycle) (newCycleInfo : CycleInfo) (randomness : ℕ) : Res (Locks × Locks) := do
  let db := { db with pastCycle := db.pastCycle.insert cycle.index cycle }
  let locks ← settleLocks ⟨cycle.lockedSeeks, cycle.lockedProvides⟩ cycle.startPrice
    newCycleInfo.startPrice randomness
  let r ← processUnlockRequests db locks newCycleInfo
  return (locks, r.2)

/-- Inputs, outputs and the unlock requests of a turnover take from every account's deposits
newest first. -/
structure TakesNewestFirst (cfg : StabilityPoolConfigConsensus) (db : Db) (e : Event) (db' : Db) : Prop where
  staged : (∀ peerId item, e ≠ .consensusItem peerId item) →
    ∀ s a, NewestFirst ((db.staged s).getD a []) ((db'.staged s).getD a [])
  locked : (∀ peerId item, e ≠ .consensusItem peerId item) →
    ∀ s a, NewestFirst ((db.locked s).getD a []) ((db'.locked s).getD a [])
  unlocked : ∀ peerId vote cycle info locks, e = .consensusItem peerId (.v0 vote) →
    db.currentCycle = some cycle → cfg.consensusThreshold ≤ (votesWith db vote peerId).length →
    NextCycle db vote (votesWith db vote peerId) info →
    unlockedLocks (recordVote db peerId vote) cycle info (info.startTime % 1000000000) = .ok locks →
    ∀ s a, NewestFirst ((locks.1.on s).getD a []) ((locks.2.on s).getD a [])

/-! ## Inputs and outputs -/

theorem Moved.newestFirst_iff {M : Type} {t t' : DepositTable M} {sender recipient : AccountId}
    {kept drained incoming : List (Deposit M)} (h : Moved t t' sender recipient kept drained incoming)
    (hnew : ∀ a, ∀ d ∈ incoming, d.sequence ∉ sequences (t.getD a [])) :
    (∀ a, NewestFirst (t.getD a []) (t'.getD a [])) ↔ NewestFirst (t.getD sender []) kept := by
  have hincoming : ∀ a, ∀ d ∈ (if a = recipient then incoming else []), d.sequence ∉ sequences (t.getD a []) := by
    intro a d hd
    split_ifs at hd
    · exact hnew a d hd
    · cases hd
  constructor
  · intro hall
    have hsender := hall sender
    rw [h.getD_eq, newestFirst_append (hincoming sender), if_pos rfl] at hsender
    exact hsender
  · intro hsender a
    rw [h.getD_eq, newestFirst_append (hincoming a)]
    by_cases ha : a = sender
    · rw [if_pos ha, ha]
      exact hsender
    · rw [if_neg ha]
      exact newestFirst_refl _

theorem AccountMove.newestFirst_iff {cfg : StabilityPoolConfigConsensus} {db db' : Db} {txid : TransactionId}
    {cycle : Cycle} {s : Side} {sender recipient : AccountId}
    {keptStaged drainedStaged newStaged keptLocked drainedLocked newLocked : List (Deposit s.Meta)}
    {credit : ℕ} {log : List Posting}
    (h : AccountMove db db' txid cycle s sender recipient keptStaged drainedStaged newStaged keptLocked
      drainedLocked newLocked credit log) (hwf : Wf cfg db) :
    ((∀ s a, NewestFirst ((db.staged s).getD a []) ((db'.staged s).getD a [])) ∧
        ∀ s a, NewestFirst ((db.locked s).getD a []) ((db'.locked s).getD a [])) ↔
      NewestFirst ((db.staged s).getD sender []) keptStaged ∧
        NewestFirst ((db.locked s).getD sender []) keptLocked := by
  obtain ⟨hlocked, hlockedSide⟩ := h.locked_eq
  have hnewStaged : ∀ a, ∀ d ∈ newStaged, d.sequence ∉ sequences ((db.staged s).getD a []) := by
    intro a d hd hq
    rw [sequences_eq_heads] at hq
    obtain ⟨x, hx, hq⟩ := List.mem_map.mp hq
    have hbelow := hwf.below s a x (.inl hx)
    have hfresh := (h.fresh d (List.mem_append_left _ hd)).2
    omega
  have hnewLocked : ∀ a, ∀ d ∈ newLocked, d.sequence ∉ sequences ((db.locked s).getD a []) := by
    intro a d hd hq
    rw [sequences_eq_heads] at hq
    obtain ⟨x, hx, hq⟩ := List.mem_map.mp hq
    have hbelow := hwf.below s a x (.inr hx)
    have hfresh := (h.fresh d (List.mem_append_right _ hd)).2
    omega
  rw [← h.staged.newestFirst_iff hnewStaged, ← hlocked.newestFirst_iff hnewLocked]
  constructor
  · rintro ⟨hs, hl⟩
    exact ⟨hs s, hl s⟩
  · rintro ⟨hs, hl⟩
    constructor
    · intro s' a
      by_cases hside : s' = s
      · subst hside
        exact hs a
      · rw [h.staged_side s' hside]
        exact newestFirst_refl _
    · intro s' a
      by_cases hside : s' = s
      · subst hside
        exact hl a
      · rw [hlockedSide s' hside]
        exact newestFirst_refl _

theorem drainForRequest_fiat {M : Type} {ds : List (Deposit M)} {price fiat n : ℕ}
    (hn : FiatAmount.toBtcAmount fiat price = .ok n) : drainForRequest ds price (.fiat fiat) = .ok (drainInReverse ds n) :=
  bind_eq_ok.mpr ⟨n, hn, rfl⟩

theorem drainInReverse_nil {M : Type} (n : ℕ) : drainInReverse ([] : List (Deposit M)) n = ([], []) := by
  unfold drainInReverse
  split_ifs <;> rfl

/-- An unlock drains what is staged as a turnover drains what is locked. -/
theorem unlockStaged_drains {s : Side} {db : Db} {txid : TransactionId} {a : AccountId} {lockedSum price : ℕ}
    {amount : FiatOrAll} {r : Db × List (Deposit s.Meta)}
    (h : unlockStaged s db txid a lockedSum price amount = .ok r) :
    drainForRequest ((db.staged s).getD a []) price amount = .ok ((r.1.staged s).getD a [], r.2) := by
  cases amount with
  | fiat fiat =>
    simp only [unlockStaged, unlockFiat, bind_eq_ok, mapErr_eq_ok] at h
    obtain ⟨n, hn, h⟩ := h
    rw [drainForRequest_fiat hn]
    split_ifs at h with hlow hstaged
    · -- nothing is staged
      obtain ⟨needed, -, h⟩ := bind_eq_ok.mp h
      have hnil := List.isEmpty_iff.mp hstaged
      have hkept : ∀ reqs, (({ db with unlockRequests := reqs } : Db).staged s).getD a [] = [] := by
        intro reqs
        cases s <;> exact hnil
      split_ifs at h
      · obtain ⟨leftover, -, h⟩ := bind_eq_ok.mp h
        rw [pure_eq_ok] at h
        rw [← h, hnil, drainInReverse_nil]
        exact congrArg Except.ok (Prod.ext (hkept _).symm rfl)
      · rw [pure_eq_ok] at h
        rw [← h, hnil, drainInReverse_nil]
    · obtain ⟨needed, -, h⟩ := bind_eq_ok.mp h
      have hkept : ∀ reqs, (({ db.setStaged s ((db.staged s).insert a (drainInReverse ((db.staged s).getD a []) n).1)
          with unlockRequests := reqs } : Db).staged s).getD a [] = (drainInReverse ((db.staged s).getD a []) n).1 := by
        intro reqs
        cases s <;> exact BTreeMap.getD_insert_self _ _ _ _
      split_ifs at h
      · obtain ⟨leftover, -, h⟩ := bind_eq_ok.mp h
        rw [pure_eq_ok] at h
        rw [← h]
        exact congrArg Except.ok (Prod.ext (hkept _).symm rfl)
      · rw [pure_eq_ok] at h
        rw [← h]
        exact congrArg Except.ok (Prod.ext (hkept (db.setStaged s _).unlockRequests).symm rfl)
  | all =>
    simp only [unlockStaged, unlockAll] at h
    obtain ⟨db', hdb', hkept⟩ : ∃ db', (if ((db.staged s).getD a []).isEmpty then db
        else db.setStaged s ((db.staged s).erase a)) = db' ∧
          ∀ reqs, (({ db' with unlockRequests := reqs } : Db).staged s).getD a [] = [] := by
      refine ⟨_, rfl, fun reqs => ?_⟩
      by_cases hstaged : ((db.staged s).getD a []).isEmpty
      · have hnil := List.isEmpty_iff.mp hstaged
        rw [if_pos hstaged]
        cases s <;> exact hnil
      · rw [if_neg hstaged]
        have herased : ((db.staged s).erase a).getD a [] = [] := by
          rw [BTreeMap.getD_erase, if_pos rfl]
        cases s <;> exact herased
    rw [hdb'] at h
    split_ifs at h with hlow hlocked
    · obtain ⟨total, -, h⟩ := bind_eq_ok.mp h
      rw [pure_eq_ok] at h
      rw [← h]
      exact congrArg Except.ok (Prod.ext (hkept _).symm rfl)
    · rw [pure_eq_ok] at h
      rw [← h]
      exact congrArg Except.ok (Prod.ext (hkept db'.unlockRequests).symm rfl)

/-- The same, of the whole input. -/
theorem processUnlockInput_drains {C : Crypto} {db : Db} {txid : TransactionId} {u : UnlockForWithdrawalInput}
    {r : Db × InputMeta} (h : processUnlockInput C db txid u = .ok r) :
    ∃ cycle drained, db.currentCycle = some cycle ∧
      drainForRequest ((db.staged u.account.accType.side).getD (u.account.id C) []) cycle.startPrice u.amount =
        .ok ((r.1.staged u.account.accType.side).getD (u.account.id C) [], drained) := by
  unfold processUnlockInput at h
  cases hc : db.currentCycle with
  | none =>
    rw [hc] at h
    cases h
  | some cycle =>
    rw [hc] at h
    simp only [processUnlockInputInner] at h
    split_ifs at h with hreq
    obtain ⟨v, hv, h⟩ := bind_eq_ok.mp h
    obtain ⟨key, -, h⟩ := bind_eq_ok.mp h
    rw [pure_eq_ok] at h
    obtain ⟨idle, hcredit, -⟩ := creditIdleBalance_of_ne v.1 (u.account.id C) (amountSum v.2)
    rw [hcredit, addAccountHistoryItems_eq] at h
    have hsame : ∀ s, r.1.staged s = v.1.staged s := by
      intro s
      rw [← h]
      cases s <;> rfl
    rw [hsame]
    exact ⟨cycle, v.2, rfl, unlockStaged_drains hv⟩

/-! ## The requests of a turnover -/

theorem nextCycle_unique {db : Db} {vote : StabilityPoolConsensusItemV0} {votes : List StabilityPoolConsensusItemV0}
    {info info' : CycleInfo} (h : NextCycle db vote votes info) (h' : NextCycle db vote votes info') :
    info = info' := by
  obtain ⟨hidx, htime, price, hprice, hstart⟩ := h
  obtain ⟨hidx', htime', price', hprice', hstart'⟩ := h'
  rw [hprice] at hprice'
  cases hprice'
  rw [htime] at htime'
  rw [hstart] at hstart'
  obtain ⟨idx, startPrice, startTime⟩ := info
  obtain ⟨idx', startPrice', startTime'⟩ := info'
  cases htime'
  cases hstart'
  obtain rfl : idx = idx' := hidx.trans hidx'.symm
  rfl

/-- What the requests leave of an account's locks: all of them, or what its request does not drain. -/
structure LeftByRequests (reqs : List (AccountId × UnlockRequest)) (price : ℕ) (locks left : Locks) : Prop where
  other_side : ∀ a s, s ≠ a.accType.side → (left.on s).getD a [] = (locks.on s).getD a []
  unrequested : ∀ a s, lookupEntry a reqs = none → (left.on s).getD a [] = (locks.on s).getD a []
  requested : ∀ a req, lookupEntry a reqs = some req → ∃ drained,
    drainForRequest ((locks.on a.accType.side).getD a []) price req.unlockAmount =
      .ok ((left.on a.accType.side).getD a [], drained)

theorem processUnlockRequestsLoop_drains {info : CycleInfo} :
    ∀ {reqs : List (AccountId × UnlockRequest)} {db : Db} {locks : Locks} {r : Db × Locks},
      (reqs.map Prod.fst).Nodup → processUnlockRequestsLoop info reqs db locks = .ok r →
        LeftByRequests reqs info.startPrice locks r.2
  | [], db, locks, r, _, h => by
    cases h
    exact ⟨fun _ _ _ => rfl, fun _ _ _ => rfl, fun _ _ h => by cases h⟩
  | (a', req') :: reqs, db, locks, r, hnd, h => by
    obtain ⟨hnot, hnd⟩ := List.nodup_cons.mp hnd
    obtain ⟨u, hu, hloop⟩ := bind_eq_ok.mp h
    obtain ⟨s', drained', hdone⟩ := processUnlockRequest_ok hu
    obtain ⟨hother, hnone, hsome⟩ := processUnlockRequestsLoop_drains hnd hloop
    have hside := hdone.side
    subst hside
    have hmissing : lookupEntry a' reqs = none := lookupEntry_eq_none.mpr fun e he hea =>
      hnot (List.mem_map.mpr ⟨e, he, hea⟩)
    -- the first request only touches its own account on its side
    have hkept : ∀ a s, a ≠ a' ∨ s ≠ a'.accType.side → (u.2.on s).getD a [] = (locks.on s).getD a [] := by
      intro a s hne
      by_cases hs : s = a'.accType.side
      · subst hs
        exact hdone.locks_other a (hne.resolve_right (not_not.mpr rfl))
      · rw [hdone.locks_side s hs]
    refine ⟨fun a s hs => ?_, fun a s ha => ?_, fun a req ha => ?_⟩
    · rw [hother a s hs]
      refine hkept a s ?_
      by_cases ha : a = a'
      · exact .inr (ha ▸ hs)
      · exact .inl ha
    · rw [lookupEntry] at ha
      split_ifs at ha with hne
      rw [hnone a s ha]
      exact hkept a s (.inl hne)
    · rw [lookupEntry] at ha
      split_ifs at ha with heq
      · cases ha
        subst heq
        rw [hnone a _ hmissing]
        exact ⟨drained', hdone.drain⟩
      · rw [← hkept a _ (.inl heq)]
        exact hsome a req ha

theorem unlockedLocks_drains {db : Db} {cycle : Cycle} {info : CycleInfo} {randomness : ℕ} {locks : Locks × Locks}
    (h : unlockedLocks db cycle info randomness = .ok locks) :
    (∀ s, locks.1.on s = settledOn cycle info.startPrice randomness s) ∧
      LeftByRequests db.unlockRequests.entries info.startPrice locks.1 locks.2 := by
  simp only [unlockedLocks, bind_eq_ok, pure_eq_ok] at h
  obtain ⟨settled, hsettled, r, hr, rfl⟩ := h
  have hnd : (db.unlockRequests.entries.map Prod.fst).Nodup := db.unlockRequests.keys_sorted.imp fun h => h.ne
  exact ⟨settleLocks_eq hsettled, processUnlockRequestsLoop_drains hnd hr⟩

/-- A turnover computes them. -/
theorem exists_unlockedLocks {ratio : CollateralRatio} {db db' : Db} {cycle : Cycle} {info : CycleInfo}
    (hc : db.currentCycle = some cycle) (h : turnover ratio db info = .ok db') :
    ∃ locks, unlockedLocks db cycle info (info.startTime % 1000000000) = .ok locks := by
  obtain ⟨r, hr, -⟩ := bind_eq_ok.mp h
  unfold settleLastCycle at hr
  rw [hc] at hr
  simp only [settleCurrentCycle, bind_eq_ok, pure_eq_ok] at hr
  obtain ⟨settled, hsettled, u, hu, -⟩ := hr
  exact ⟨(settled, u.2), bind_eq_ok.mpr ⟨settled, hsettled, bind_eq_ok.mpr ⟨u, hu, rfl⟩⟩⟩

/-! ## Steps -/

section
variable {C : Crypto} {cfg : StabilityPoolConfigConsensus} {db db' : Db} {txid : TransactionId}

/-- A step that leaves all deposits as they are. -/
theorem takesNewestFirst_of_eq {e : Event} (hitem : ∀ peerId vote, e ≠ .consensusItem peerId (.v0 vote))
    (hstaged : ∀ s, db'.staged s = db.staged s) (hlocked : ∀ s, db'.locked s = db.locked s) :
    TakesNewestFirst cfg db e db' where
  staged := fun _ s a => by
    rw [hstaged]
    exact newestFirst_refl _
  locked := fun _ s a => by
    rw [hlocked]
    exact newestFirst_refl _
  unlocked := fun peerId vote _ _ _ he => absurd he (hitem peerId vote)

theorem transferPart_kept {M : Type} (items : List (Deposit M)) (amount sequence : ℕ) (metadata : M)
    (txid : TransactionId) :
    (transferPart items amount sequence metadata txid).kept = (drainInReverse items amount).1 := rfl

/-- For an input or an output it is the account's own two lists that matter. -/
theorem AccountMove.takesNewestFirst_iff {cycle : Cycle} {s : Side} {sender recipient : AccountId}
    {keptStaged drainedStaged newStaged keptLocked drainedLocked newLocked : List (Deposit s.Meta)}
    {credit : ℕ} {log : List Posting} {e : Event}
    (h : AccountMove db db' txid cycle s sender recipient keptStaged drainedStaged newStaged keptLocked
      drainedLocked newLocked credit log) (hwf : Wf cfg db) (he : ∀ peerId item, e ≠ .consensusItem peerId item) :
    TakesNewestFirst cfg db e db' ↔ NewestFirst ((db.staged s).getD sender []) keptStaged ∧
      NewestFirst ((db.locked s).getD sender []) keptLocked := by
  rw [← h.newestFirst_iff hwf]
  constructor
  · rintro ⟨hstaged, hlocked, -⟩
    exact ⟨hstaged he, hlocked he⟩
  · rintro ⟨hstaged, hlocked⟩
    exact ⟨fun _ => hstaged, fun _ => hlocked, fun peerId vote _ _ _ heq => absurd heq (he peerId _)⟩

theorem processUnlockInput_newestFirst_iff {u : UnlockForWithdrawalInput} {r : Db × InputMeta} (hwf : Wf cfg db)
    (hord : db.Ordered) (h : processUnlockInput C db txid u = .ok r) :
    TakesNewestFirst cfg db (.input txid (.v0 (.unlockForWithdrawal u))) r.1 ↔
      ∀ s ds n, Drains C cfg db (.input txid (.v0 (.unlockForWithdrawal u))) s ds n → CoversCheaper s ds n := by
  obtain ⟨cycle, drained, hc, hdrain⟩ := processUnlockInput_drains h
  obtain ⟨cycle', kept, drained', hmove, -⟩ := processUnlockInput_ok h
  have hkept : kept = (r.1.staged u.account.accType.side).getD (u.account.id C) [] := by
    rw [hmove.staged.getD_eq, if_pos rfl, if_pos rfl, List.append_nil]
  rw [hmove.takesNewestFirst_iff hwf (fun _ _ he => by cases he), hkept, locked_of_current hmove.current,
    and_iff_left (newestFirst_refl _)]
  have hiff := fun n => @newestFirst_iff_coversCheaper _ _ n
    (hwf.staged_nodup u.account.accType.side (u.account.id C)) (hord.staged _ _)
  cases hamount : u.amount with
  | fiat fiat =>
    rw [hamount] at hdrain
    obtain ⟨n, hn, hdrain⟩ := bind_eq_ok.mp hdrain
    rw [pure_eq_ok] at hdrain
    have hleft : (drainInReverse ((db.staged u.account.accType.side).getD (u.account.id C) []) n).1 =
        (r.1.staged u.account.accType.side).getD (u.account.id C) [] := congrArg Prod.fst hdrain
    rw [← hleft, hiff]
    constructor
    · intro hcovers s ds n' hdrains
      cases hdrains with
      | unlock cycle'' _ _ fiat' n' hc' hfiat' hn' =>
        rw [hc] at hc'
        cases hc'
        rw [hamount] at hfiat'
        cases hfiat'
        rw [hn] at hn'
        cases hn'
        exact hcovers
    · intro hall
      exact hall _ _ _ (.unlock cycle txid u fiat n hc hamount hn)
  | all =>
    rw [hamount] at hdrain
    have hnil : (r.1.staged u.account.accType.side).getD (u.account.id C) [] = [] := by
      have heq := Except.ok.inj hdrain
      exact (congrArg Prod.fst heq).symm
    rw [hnil]
    constructor
    · intro _ s ds n hdrains
      cases hdrains with
      | unlock cycle'' _ _ fiat' n' hc' hfiat' hn' =>
        rw [hamount] at hfiat'
        cases hfiat'
    · intro _
      exact newestFirst_nil _

theorem processTransferOutput_newestFirst_iff {o : StabilityPoolOutput} {t : TransferOutput} {r : OutputResult}
    (hwf : Wf cfg db) (hord : db.Ordered) (ho : o = .v0 (.transfer t) ∨ o = .v1 (.transfer t))
    (h : processTransferOutput C cfg db txid t = .ok r) :
    TakesNewestFirst cfg db (.output txid o) r.1 ↔
      ∀ s ds n, Drains C cfg db (.output txid o) s ds n → CoversCheaper s ds n := by
  obtain ⟨-, -, cycle, s, metadata, staged, locked, rfl, -, -, hstep⟩ := processTransferOutput_ok h
  have hc := hstep.move.current
  have hrest : transferTotal t.signedRequest.transferRequest cycle - amountSum staged.drained =
      transferTotal t.signedRequest.transferRequest cycle - amountSum
        ((db.staged t.signedRequest.transferRequest.sender.accType.side).getD
          (t.signedRequest.transferRequest.sender.id C) []) := by
    rw [hstep.staged_eq, transferPart_drained_sum]
    exact tsub_min
  have hstagedKept := congrArg TransferParts.kept hstep.staged_eq
  have hlockedKept := congrArg TransferParts.kept hstep.locked_eq
  rw [transferPart_kept] at hstagedKept hlockedKept
  rw [hrest] at hlockedKept
  rw [hstep.move.takesNewestFirst_iff hwf (fun _ _ he => by cases he), hstagedKept, hlockedKept,
    locked_of_current hc]
  have hlockedNd := hwf.locked_nodup t.signedRequest.transferRequest.sender.accType.side
    (t.signedRequest.transferRequest.sender.id C)
  have hlockedOrd := hord.locked t.signedRequest.transferRequest.sender.accType.side
    (t.signedRequest.transferRequest.sender.id C)
  rw [locked_of_current hc] at hlockedNd hlockedOrd
  rw [newestFirst_iff_coversCheaper (hwf.staged_nodup _ _) (hord.staged _ _),
    newestFirst_iff_coversCheaper hlockedNd hlockedOrd]
  constructor
  · rintro ⟨hstaged, hlocked⟩ s ds n hdrains
    cases hdrains with
    | transferStaged cycle' _ _ t' r' hc' hr' ho' =>
      obtain rfl : t' = t := by
        rcases ho with rfl | rfl <;> rcases ho' with ho' | ho' <;> cases ho' <;> rfl
      rw [hc] at hc'
      cases hc'
      subst hr'
      exact hstaged
    | transferLocked cycle' _ _ t' r' hc' hr' ho' =>
      obtain rfl : t' = t := by
        rcases ho with rfl | rfl <;> rcases ho' with ho' | ho' <;> cases ho' <;> rfl
      rw [hc] at hc'
      cases hc'
      subst hr'
      exact hlocked
  · intro hall
    exact ⟨hall _ _ _ (.transferStaged cycle txid o t _ hc rfl ho),
      hall _ _ _ (.transferLocked cycle txid o t _ hc rfl ho)⟩

/-- Deposits drain nothing. -/
theorem DepositStep.newestFirst_iff {o : StabilityPoolOutput} {r : OutputResult} (hwf : Wf cfg db)
    (h : DepositStep cfg db txid r) (ho : ∀ t, ¬ (o = .v0 (.transfer t) ∨ o = .v1 (.transfer t))) :
    TakesNewestFirst cfg db (.output txid o) r.1 ↔
      ∀ s ds n, Drains C cfg db (.output txid o) s ds n → CoversCheaper s ds n := by
  obtain ⟨s, cycle, a, metadata, kind, hc, hallowed, -, hr⟩ := h
  obtain ⟨hcredit, hdebit⟩ := hallowed.credit
  have hmove := stageDeposit_move hc txid a r.2 metadata hcredit hdebit
  rw [hr, hmove.takesNewestFirst_iff hwf (fun _ _ he => by cases he), locked_of_current hc]
  refine ⟨fun _ s ds n hdrains => ?_, fun _ => ⟨newestFirst_refl _, newestFirst_refl _⟩⟩
  cases hdrains with
  | transferStaged cycle' _ _ t' r' hc' hr' ho' => exact absurd ho' (ho t')
  | transferLocked cycle' _ _ t' r' hc' hr' ho' => exact absurd ho' (ho t')

theorem processOutput_newestFirst_iff {o : StabilityPoolOutput} {r : OutputResult} (hwf : Wf cfg db)
    (hord : db.Ordered) (h : processOutput C cfg db txid o = .ok r) :
    TakesNewestFirst cfg db (.output txid o) r.1 ↔
      ∀ s ds n, Drains C cfg db (.output txid o) s ds n → CoversCheaper s ds n := by
  by_cases ho : ∃ t, o = .v0 (.transfer t) ∨ o = .v1 (.transfer t)
  · obtain ⟨t, ho⟩ := ho
    exact processTransferOutput_newestFirst_iff hwf hord ho (processOutput_transfer_ok ho h).2
  · rw [not_exists] at ho
    rcases processOutput_ok h with hdeposit | ⟨t, ht, -⟩
    · exact hdeposit.newestFirst_iff hwf ho
    · exact absurd ht (ho t)

theorem processInput_newestFirst_iff {i : StabilityPoolInput} {r : Db × InputMeta} (hwf : Wf cfg db)
    (hord : db.Ordered) (h : processInput C db txid i = .ok r) :
    TakesNewestFirst cfg db (.input txid i) r.1 ↔
      ∀ s ds n, Drains C cfg db (.input txid i) s ds n → CoversCheaper s ds n := by
  rcases processInput_ok h with ⟨u, rfl, hu⟩ | ⟨w, rfl, hw⟩
  · exact processUnlockInput_newestFirst_iff hwf hord hu
  · -- a withdrawal pays from the idle balance
    obtain ⟨-, -, hr⟩ := processWithdrawalInput_ok hw
    rw [hr]
    constructor
    · intro _ s ds n hdrains
      cases hdrains
    · intro _
      exact takesNewestFirst_of_eq (fun _ _ he => by cases he) (fun s => by cases s <;> rfl)
        (fun s => by cases s <;> rfl)

/-- What the requests leave of the settled locks. -/
theorem LeftByRequests.newestFirst_iff {reqs : BTreeMap AccountId UnlockRequest} {price : ℕ} {locks left : Locks}
    (h : LeftByRequests reqs.entries price locks left)
    (hnd : ∀ s a, (sequences ((locks.on s).getD a [])).Nodup)
    (hord : ∀ s a, InOrder s (heads ((locks.on s).getD a []))) :
    (∀ s a, NewestFirst ((locks.on s).getD a []) ((left.on s).getD a [])) ↔
      ∀ a req fiat n, reqs.get? a = some req → req.unlockAmount = .fiat fiat →
        FiatAmount.toBtcAmount fiat price = .ok n →
          CoversCheaper a.accType.side ((locks.on a.accType.side).getD a []) n := by
  constructor
  · intro hall a req fiat n hreq hfiat hn
    obtain ⟨drained, hdrain⟩ := h.requested a req hreq
    rw [hfiat, drainForRequest_fiat hn] at hdrain
    have hleft := hall a.accType.side a
    have hkept := congrArg Prod.fst (Except.ok.inj hdrain)
    rw [← newestFirst_iff_coversCheaper (hnd _ a) (hord _ a), hkept]
    exact hleft
  · intro hall s a
    by_cases hs : s = a.accType.side
    · subst hs
      cases hreq : reqs.get? a with
      | none =>
        rw [h.unrequested a _ hreq]
        exact newestFirst_refl _
      | some req =>
        obtain ⟨drained, hdrain⟩ := h.requested a req hreq
        cases hamount : req.unlockAmount with
        | fiat fiat =>
          rw [hamount] at hdrain
          obtain ⟨n, hn, hdrain⟩ := bind_eq_ok.mp hdrain
          rw [pure_eq_ok] at hdrain
          have hkept : (drainInReverse ((locks.on a.accType.side).getD a []) n).1 =
              (left.on a.accType.side).getD a [] := congrArg Prod.fst hdrain
          rw [← hkept, newestFirst_iff_coversCheaper (hnd _ a) (hord _ a)]
          exact hall a req fiat n hreq hamount hn
        | all =>
          rw [hamount] at hdrain
          have hkept : [] = (left.on a.accType.side).getD a [] := congrArg Prod.fst (Except.ok.inj hdrain)
          rw [← hkept]
          exact newestFirst_nil _
    · rw [h.other_side a s hs]
      exact newestFirst_refl _

/-- What the requests of a turnover leave of the locks it settled. -/
theorem unlockedLocks_newestFirst_iff {cycle : Cycle} {info : CycleInfo} {locks : Locks × Locks} (hwf : Wf cfg db)
    (hord : db.Ordered) (hc : db.currentCycle = some cycle)
    (h : unlockedLocks db cycle info (info.startTime % 1000000000) = .ok locks) :
    (∀ s a, NewestFirst ((locks.1.on s).getD a []) ((locks.2.on s).getD a [])) ↔
      ∀ a req fiat n, db.unlockRequests.get? a = some req → req.unlockAmount = .fiat fiat →
        FiatAmount.toBtcAmount fiat info.startPrice = .ok n →
          CoversCheaper a.accType.side
            ((settledOn cycle info.startPrice (info.startTime % 1000000000) a.accType.side).getD a []) n := by
  obtain ⟨hsettled, hleft⟩ := unlockedLocks_drains h
  have hheads : ∀ s a, heads ((locks.1.on s).getD a []) = heads ((db.locked s).getD a []) := by
    intro s a
    rw [hsettled, settledOn_heads, locked_of_current hc]
  have hnd : ∀ s a, (sequences ((locks.1.on s).getD a [])).Nodup := by
    intro s a
    rw [sequences_eq_heads, hheads, ← sequences_eq_heads]
    exact hwf.locked_nodup s a
  have hordered : ∀ s a, InOrder s (heads ((locks.1.on s).getD a [])) := by
    intro s a
    rw [hheads]
    exact hord.locked s a
  rw [hleft.newestFirst_iff hnd hordered]
  constructor
  · intro hall a req fiat n hreq hfiat hn
    rw [← hsettled]
    exact hall a req fiat n hreq hfiat hn
  · intro hall a req fiat n hreq hfiat hn
    rw [hsettled]
    exact hall a req fiat n hreq hfiat hn

theorem processConsensusItem_newestFirst_iff {item : StabilityPoolConsensusItem} {peerId : PeerId} (hwf : Wf cfg db)
    (hord : db.Ordered) (h : processConsensusItem cfg db item peerId = .ok db') :
    TakesNewestFirst cfg db (.consensusItem peerId item) db' ↔
      ∀ s ds n, Drains C cfg db (.consensusItem peerId item) s ds n → CoversCheaper s ds n := by
  have hiff := fun vote cycle info locks => @unlockedLocks_newestFirst_iff cfg (recordVote db peerId vote) cycle info
    locks (hwf.congr (fun s => by cases s <;> rfl) rfl rfl rfl) (hord.congr (fun s => by cases s <;> rfl) rfl)
  constructor
  · intro htakes s ds n hdrains
    cases hdrains with
    | turnover cycle _ vote info a req fiat n hc hmany hinfo hreq hfiat hn =>
      cases processConsensusItem_ok h with
      | vote _ _ hnext hfirst hfew => omega
      | turnover _ _ info' _ hnext hfirst hmany' hinfo' hturn =>
        obtain rfl := nextCycle_unique hinfo' hinfo
        obtain ⟨locks, hlocks⟩ := @exists_unlockedLocks _ (recordVote db peerId vote) _ _ _ hc hturn
        have hall := htakes.unlocked peerId vote cycle info' locks rfl hc hmany hinfo hlocks
        exact (hiff vote cycle info' locks hc hlocks).mp hall a req fiat n hreq hfiat hn
  · intro hall
    refine ⟨fun hne => absurd rfl (hne peerId item), fun hne => absurd rfl (hne peerId item), ?_⟩
    intro peerId' vote cycle info locks he hc hmany hinfo hlocks
    cases he
    rw [hiff vote cycle info locks hc hlocks]
    intro a req fiat n hreq hfiat hn
    exact hall _ _ _ (.turnover cycle peerId vote info a req fiat n hc hmany hinfo hreq hfiat hn)

/-- A step takes newest first exactly where none of its drains ends between an older deposit
and a newer one in front of it. -/
theorem applyEvent_newestFirst_iff {st st' : Ledger} {e : Event} (hwf : Wf cfg st.db) (hord : st.db.Ordered)
    (h : applyEvent C cfg st e = .ok st') :
    TakesNewestFirst cfg st.db e st'.db ↔ ∀ s ds n, Drains C cfg st.db e s ds n → CoversCheaper s ds n := by
  cases e with
  | consensusItem peerId item =>
    simp only [applyEvent, bind_eq_ok, pure_eq_ok] at h
    obtain ⟨db', hitem, rfl⟩ := h
    exact processConsensusItem_newestFirst_iff hwf hord hitem
  | input txid i =>
    simp only [applyEvent, bind_eq_ok, pure_eq_ok] at h
    obtain ⟨r, hinput, rfl⟩ := h
    exact processInput_newestFirst_iff hwf hord hinput
  | output txid o =>
    simp only [applyEvent, bind_eq_ok, pure_eq_ok] at h
    obtain ⟨r, houtput, rfl⟩ := h
    exact processOutput_newestFirst_iff hwf hord houtput

end

/-! ## Runs -/

/-- Along any run of the server every unlock, transfer and turnover takes from an account's
deposits newest first, exactly where no drain that reaches an older deposit behind a newer,
cheaper one ends before it has covered the newer one. -/
theorem everyStep_newestFirst_iff (C : Crypto) (cfg : StabilityPoolConfigConsensus) (evs : List Event) :
    EveryStep (applyEvent C cfg) Ledger.initial (fun st e st' => TakesNewestFirst cfg st.db e st'.db) evs ↔
      EveryStep (applyEvent C cfg) Ledger.initial
        (fun st e _ => ∀ s ds n, Drains C cfg st.db e s ds n → CoversCheaper s ds n) evs := by
  refine everyStep_congr ?_ evs
  intro before st e st' hrun hstep
  have hreach : Reachable C cfg st.db := ⟨before, st, hrun, rfl⟩
  exact applyEvent_newestFirst_iff (wf_of_reachable hreach) (ordered_of_reachable hreach) hstep

/-- A provide at 1000 ppb, a newer one at 0 ppb, a turnover that sorts both back to staged, and
the unlock of ten cents. -/
def demoMixedRates : List Event :=
  demoVotes 0 1000 10000000 ++
    [.output 1 (.v0 (.depositToProvide ⟨demoProvider.id demoCrypto, 200000, ⟨1000⟩⟩)),
      .output 2 (.v0 (.depositToProvide ⟨demoProvider.id demoCrypto, 200000, ⟨0⟩⟩))] ++
    demoVotes 1 2000 10000000

def demoTenCents : Event := .input 3 (.v0 (.unlockForWithdrawal ⟨demoProvider, .fiat 10⟩))

/-- The unlock takes from the older deposit while the newer one keeps all its funds. -/
theorem older_drained_first :
    ¬ EveryStep (applyEvent demoCrypto demoConfig) Ledger.initial
      (fun st e st' => TakesNewestFirst demoConfig st.db e st'.db) (demoMixedRates ++ [demoTenCents]) := by
  intro h
  have hrun : ((runEvents demoCrypto demoConfig demoMixedRates).bind fun st =>
      (applyEvent demoCrypto demoConfig st demoTenCents).map fun st' =>
        decide (NewestFirst ((st.db.staged .provide).getD (demoProvider.id demoCrypto) [])
          ((st'.db.staged .provide).getD (demoProvider.id demoCrypto) []))).toOption = some false := by
    decide +kernel
  cases hst : runEvents demoCrypto demoConfig demoMixedRates with
  | error e =>
    rw [hst] at hrun
    cases hrun
  | ok st =>
    cases hunlock : applyEvent demoCrypto demoConfig st demoTenCents with
    | error e =>
      simp only [hst, Except.bind, hunlock] at hrun
      cases hrun
    | ok st' =>
      simp only [hst, Except.bind, hunlock, Except.map, Except.toOption, Option.some.injEq,
        decide_eq_false_iff_not] at hrun
      have htakes := h demoMixedRates demoTenCents [] rfl st st' hst hunlock
      exact hrun (htakes.staged (fun _ _ he => by cases he) .provide (demoProvider.id demoCrypto))

end StabilityPool
