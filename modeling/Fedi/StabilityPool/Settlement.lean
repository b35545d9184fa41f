import Fedi.StabilityPool.LockHistory

/-!
# Settling, unlocking and restaging the locks of the ending cycle

`settleLocks` moves msats between seekers and providers at the new price and
keeps their total and every deposit's head (`settleLocks_ok`).  Each unlock
request then drains its account's settled locks into the idle balance
(`processUnlockRequests_ok`), and what remains is merged into the staged lists
(`restageRemainingLocks_staged`).
-/

namespace StabilityPool

open BTreeMaps KeyedLogs Runs

/-- The lock map of a side. -/
def Locks.on (l : Locks) : (s : Side) → DepositTable s.Meta
  | .seek => l.seeks
  | .provide => l.provides

/-- Weight of both lock maps. -/
def Locks.weight (w : AccountId → ℕ → ℕ) (l : Locks) : ℕ := tableWeight w l.seeks + tableWeight w l.provides

/-! ## Settlement -/

section
variable {M : Type}

theorem heads_eq_of_forall₂ : ∀ {ds es : List (Deposit M)},
    List.Forall₂ (fun d e => e.head = d.head) ds es → heads es = heads ds
  | [], [], _ => rfl
  | d :: ds, e :: es, .cons h t => by
    show e.head :: heads es = d.head :: heads ds
    rw [h, heads_eq_of_forall₂ t]

/-- Overwriting the amounts of a table keeps its heads and sets its total. -/
theorem refill_distribute {t : DepositTable M} {pool i : ℕ} {ds : List (Deposit M)}
    (h : distributeFromPool t.flat pool i = .ok ds) :
    (∀ a, heads ((t.refill ds).getD a []) = heads (t.getD a [])) ∧
      tableWeight (fun _ _ => 1) (t.refill ds) = pool := by
  have hheads := distributeFromPool_heads h
  refine ⟨fun a => heads_eq_of_forall₂ (BTreeMap.getD_refill hheads a), ?_⟩
  rw [tableWeight_one, BTreeMap.flat_refill hheads.length_eq.symm, amountSum_distributeFromPool h]

end

theorem settleLocks_ok {locks settled : Locks} {startPrice newPrice randomness : ℕ}
    (h : settleLocks locks startPrice newPrice randomness = .ok settled) :
    (∀ s a, heads ((settled.on s).getD a []) = heads ((locks.on s).getD a [])) ∧
      settled.weight (fun _ _ => 1) = locks.weight fun _ _ => 1 := by
  simp only [settleLocks, bind_eq_ok, pure_eq_ok] at h
  obtain ⟨needed, -, seeks, hseeks, provides, hprovides, rfl⟩ := h
  obtain ⟨hs, hs'⟩ := refill_distribute hseeks
  obtain ⟨hp, hp'⟩ := refill_distribute hprovides
  refine ⟨fun s a => ?_, ?_⟩
  · cases s
    · exact hs a
    · exact hp a
  · simp only [Locks.weight, hs', hp', tableWeight_one]
    omega

/-! ## Unlock requests -/

theorem drainForRequest_splits {M : Type} {items : List (Deposit M)} {price : ℕ} {amount : FiatOrAll}
    {r : List (Deposit M) × List (Deposit M)} (h : drainForRequest items price amount = .ok r) :
    Splits items r.1 r.2 := by
  cases amount with
  | fiat fiat =>
    obtain ⟨n, -, h⟩ := bind_eq_ok.mp h
    rw [pure_eq_ok] at h
    rw [← h]
    exact drainInReverse_splits items n
  | all =>
    cases h
    exact splits_all items

/-- The postings of an account's request. -/
def unlockLog {M : Type} (info : CycleInfo) (a : AccountId) (txid : TransactionId)
    (drained : List (Deposit M)) : List Posting :=
  (drained.map (moveItem info txid .lockedToIdle)).map (a, ·)

theorem processUnlockRequestsInner_ok {M : Type} {db : Db} {a : AccountId} {req : UnlockRequest}
    {items : List (Deposit M)} {info : CycleInfo} {r : Db × List (Deposit M)}
    (h : processUnlockRequestsInner db a req items info = .ok r) :
    ∃ drained, drainForRequest items info.startPrice req.unlockAmount = .ok (r.2, drained) ∧
      r.1 = { db with
        idleBalance := db.idleBalance.insert a (db.idleBalance.getD a 0 + amountSum drained)
        unlockRequests := db.unlockRequests.erase a
        accountHistory := postAll db.accountHistory (unlockLog info a req.txid drained) } := by
  obtain ⟨d, hd, h⟩ := bind_eq_ok.mp h
  rw [pure_eq_ok, addAccountHistoryItems_eq] at h
  subst h
  exact ⟨d.2, hd, rfl⟩

theorem unlockFromMap_ok {M : Type} {db : Db} {a : AccountId} {req : UnlockRequest}
    {locked : DepositTable M} {info : CycleInfo} {r : Db × DepositTable M}
    (h : unlockFromMap db a req locked info = .ok r) :
    ∃ drained, drainForRequest (locked.getD a []) info.startPrice req.unlockAmount =
        .ok (r.2.getD a [], drained) ∧
      (∀ a', a' ≠ a → r.2.getD a' [] = locked.getD a' []) ∧
      r.1 = { db with
        idleBalance := db.idleBalance.insert a (db.idleBalance.getD a 0 + amountSum drained)
        unlockRequests := db.unlockRequests.erase a
        accountHistory := postAll db.accountHistory (unlockLog info a req.txid drained) } := by
  unfold unlockFromMap at h
  cases hg : locked.get? a with
  | none =>
    rw [hg] at h
    obtain ⟨u, hu, h⟩ := bind_eq_ok.mp h
    rw [pure_eq_ok] at h
    subst h
    obtain ⟨drained, hdrain, hdb⟩ := processUnlockRequestsInner_ok hu
    have hnil : u.2 = [] := by
      have := (drainForRequest_splits hdrain).kept_heads
      simpa [heads] using this
    rw [hnil] at hdrain
    exact ⟨drained, by rw [BTreeMap.getD_of_none hg]; exact hdrain, fun _ _ => rfl, hdb⟩
  | some items =>
    rw [hg] at h
    obtain ⟨u, hu, h⟩ := bind_eq_ok.mp h
    rw [pure_eq_ok] at h
    subst h
    obtain ⟨drained, hdrain, hdb⟩ := processUnlockRequestsInner_ok hu
    refine ⟨drained, ?_, fun a' hne => BTreeMap.getD_insert_ne _ _ _ hne, hdb⟩
    rw [BTreeMap.getD_of_get? hg, BTreeMap.getD_insert_self]
    exact hdrain

/-- What processing one account's request did: its settled locks are drained into
its idle balance, one posting per drained deposit. -/
structure RequestDone (info : CycleInfo) (a : AccountId) (req : UnlockRequest) (db : Db) (locks : Locks)
    (db' : Db) (locks' : Locks) (s : Side) (drained : List (Deposit s.Meta)) : Prop where
  side : s = a.accType.side
  notBtc : a.accType ≠ .btcDepositor
  drain : drainForRequest ((locks.on s).getD a []) info.startPrice req.unlockAmount =
    .ok ((locks'.on s).getD a [], drained)
  locks_other : ∀ a', a' ≠ a → (locks'.on s).getD a' [] = (locks.on s).getD a' []
  locks_side : ∀ s', s' ≠ s → locks'.on s' = locks.on s'
  db_eq : db' = { db with
    idleBalance := db.idleBalance.insert a (db.idleBalance.getD a 0 + amountSum drained)
    unlockRequests := db.unlockRequests.erase a
    accountHistory := postAll db.accountHistory (unlockLog info a req.txid drained) }

theorem processUnlockRequest_ok {db : Db} {locks : Locks} {info : CycleInfo} {a : AccountId}
    {req : UnlockRequest} {r : Db × Locks}
    (h : processUnlockRequest db locks info a req = .ok r) :
    ∃ s drained, RequestDone info a req db locks r.1 r.2 s drained := by
  unfold processUnlockRequest at h
  cases ha : a.accType with
  | seeker =>
    rw [ha] at h
    obtain ⟨u, hu, h⟩ := bind_eq_ok.mp h
    rw [pure_eq_ok] at h
    subst h
    obtain ⟨drained, hdrain, hother, hdb⟩ := unlockFromMap_ok hu
    exact ⟨.seek, drained, by rw [ha]; rfl, by rw [ha]; decide, hdrain, hother,
      fun s' hs' => by cases s' <;> first | rfl | exact absurd rfl hs', hdb⟩
  | provider =>
    rw [ha] at h
    obtain ⟨u, hu, h⟩ := bind_eq_ok.mp h
    rw [pure_eq_ok] at h
    subst h
    obtain ⟨drained, hdrain, hother, hdb⟩ := unlockFromMap_ok hu
    exact ⟨.provide, drained, by rw [ha]; rfl, by rw [ha]; decide, hdrain, hother,
      fun s' hs' => by cases s' <;> first | rfl | exact absurd rfl hs', hdb⟩
  | btcDepositor =>
    rw [ha] at h
    cases h

/-- Kind of an unlocked amount. -/
def AccountHistoryItemKind.isLockedToIdle : AccountHistoryItemKind → Bool
  | .lockedToIdle => true
  | _ => false

/-- The weight of one account. -/
def atAccount (a : AccountId) : AccountId → ℕ → ℕ := fun a' _ => if a' = a then 1 else 0

theorem weigh_atAccount_self {M : Type} (a : AccountId) (ds : List (Deposit M)) :
    weigh (atAccount a a) ds = amountSum ds := by
  rw [← weigh_one]
  congr 1
  funext q
  exact if_pos rfl

theorem weigh_atAccount_ne {M : Type} {a a' : AccountId} (h : a' ≠ a) (ds : List (Deposit M)) :
    weigh (atAccount a a') ds = 0 := weigh_eq_zero fun _ _ => if_neg h

/-- What processing a list of requests did. -/
structure RequestsDone (info : CycleInfo) (reqs : List (AccountId × UnlockRequest)) (db : Db)
    (locks : Locks) (db' : Db) (locks' : Locks) (log : List Posting) : Prop where
  weight : ∀ w, locks'.weight w + postedWeight AccountHistoryItemKind.isLockedToIdle w log = locks.weight w
  heads_sublist : ∀ s a, (heads ((locks'.on s).getD a [])).Sublist (heads ((locks.on s).getD a []))
  idle : ∀ a, db'.idleBalance.getD a 0 =
    db.idleBalance.getD a 0 + postedWeight AccountHistoryItemKind.isLockedToIdle (atAccount a) log
  idle_sum : db'.idleBalance.sumBy (fun _ x => x) =
    db.idleBalance.sumBy (fun _ x => x) + postedWeight AccountHistoryItemKind.isLockedToIdle (fun _ _ => 1) log
  log_mem : ∀ p ∈ log, p.2.kind = .lockedToIdle ∧ p.2.cycle = info ∧ p.1.accType ≠ .btcDepositor ∧
    ∃ req, (p.1, req) ∈ reqs ∧ p.2.txid = req.txid
  requests : ∀ a, db'.unlockRequests.get? a =
    if a ∈ reqs.map Prod.fst then none else db.unlockRequests.get? a
  db_eq : db' = { db with
    idleBalance := db'.idleBalance
    unlockRequests := db'.unlockRequests
    accountHistory := postAll db.accountHistory log }

theorem RequestDone.weight {info : CycleInfo} {a : AccountId} {req : UnlockRequest} {db db' : Db}
    {locks locks' : Locks} {s : Side} {drained : List (Deposit s.Meta)}
    (h : RequestDone info a req db locks db' locks' s drained) (w : AccountId → ℕ → ℕ) :
    locks'.weight w + weigh (w a) drained = locks.weight w := by
  have hmoved : Moved (locks.on s) (locks'.on s) a a ((locks'.on s).getD a []) drained [] := by
    refine ⟨drainForRequest_splits h.drain, fun a' => ?_⟩
    by_cases ha : a' = a
    · subst ha
      simp
    · simp [ha, h.locks_other a' ha]
  have hw := hmoved.weigh_eq w
  rw [weigh_nil, Nat.add_zero] at hw
  unfold Locks.weight
  have hside := h.side
  cases s with
  | seek =>
    have : locks'.provides = locks.provides := h.locks_side .provide (by decide)
    simp only [Locks.on] at hw
    rw [this]
    omega
  | provide =>
    have : locks'.seeks = locks.seeks := h.locks_side .seek (by decide)
    simp only [Locks.on] at hw
    rw [this]
    omega

theorem postedWeight_unlockLog {M : Type} (info : CycleInfo) (a : AccountId) (txid : TransactionId)
    (drained : List (Deposit M)) (w : AccountId → ℕ → ℕ) :
    postedWeight AccountHistoryItemKind.isLockedToIdle w (unlockLog info a txid drained) = weigh (w a) drained :=
  postedWeight_moveItem _ w a info txid .lockedToIdle drained

theorem requestsDone_nil (info : CycleInfo) (db : Db) (locks : Locks) :
    RequestsDone info [] db locks db locks [] where
  weight _ := rfl
  heads_sublist _ _ := List.Sublist.refl _
  idle _ := rfl
  idle_sum := rfl
  log_mem _ h := by cases h
  requests _ := by simp
  db_eq := rfl

theorem RequestDone.cons {info : CycleInfo} {a : AccountId} {req : UnlockRequest}
    {reqs : List (AccountId × UnlockRequest)} {db db1 db' : Db} {locks locks1 locks' : Locks} {s : Side}
    {drained : List (Deposit s.Meta)} {log : List Posting}
    (h : RequestDone info a req db locks db1 locks1 s drained)
    (ht : RequestsDone info reqs db1 locks1 db' locks' log) :
    RequestsDone info ((a, req) :: reqs) db locks db' locks' (unlockLog info a req.txid drained ++ log) where
  weight w := by
    have h1 := h.weight w
    have h2 := ht.weight w
    rw [postedWeight_append, postedWeight_unlockLog]
    omega
  heads_sublist s' a' := by
    refine (ht.heads_sublist s' a').trans ?_
    by_cases hs : s' = s
    · subst hs
      by_cases ha : a' = a
      · subst ha
        exact (drainForRequest_splits h.drain).kept_heads
      · rw [h.locks_other a' ha]
    · rw [h.locks_side s' hs]
  idle a' := by
    rw [ht.idle, h.db_eq, postedWeight_append, postedWeight_unlockLog, BTreeMap.getD_insert]
    by_cases ha : a' = a
    · subst ha
      simp only [if_true, weigh_atAccount_self]
      omega
    · simp only [if_neg ha, weigh_atAccount_ne (Ne.symm ha), Nat.zero_add]
  idle_sum := by
    have hins := BTreeMap.sumBy_insert_getD (f := fun _ x => x) (d := 0) db.idleBalance a
      (db.idleBalance.getD a 0 + amountSum drained) rfl
    rw [ht.idle_sum, h.db_eq, postedWeight_append, postedWeight_unlockLog, weigh_one]
    simp only at hins ⊢
    omega
  log_mem p hp := by
    rcases List.mem_append.mp hp with hp | hp
    · simp only [unlockLog, List.mem_map] at hp
      obtain ⟨_, ⟨d, -, rfl⟩, rfl⟩ := hp
      exact ⟨rfl, rfl, h.notBtc, req, List.mem_cons_self, rfl⟩
    · obtain ⟨h1, h2, h3, r, hr, h4⟩ := ht.log_mem p hp
      exact ⟨h1, h2, h3, r, List.mem_cons_of_mem _ hr, h4⟩
  requests a' := by
    rw [ht.requests, h.db_eq, BTreeMap.get?_erase]
    by_cases h1 : a' ∈ reqs.map Prod.fst
    · simp [h1]
    · by_cases h2 : a' = a <;> simp [h1, h2]
  db_eq := by
    conv_lhs => rw [ht.db_eq, h.db_eq]
    rw [postAll_append]

theorem processUnlockRequestsLoop_ok {info : CycleInfo} :
    ∀ {reqs : List (AccountId × UnlockRequest)} {db : Db} {locks : Locks} {r : Db × Locks},
      processUnlockRequestsLoop info reqs db locks = .ok r →
        ∃ log, RequestsDone info reqs db locks r.1 r.2 log
  | [], db, locks, r, h => by
    cases h
    exact ⟨[], requestsDone_nil info db locks⟩
  | (a, req) :: reqs, db, locks, r, h => by
    obtain ⟨u, hu, h⟩ := bind_eq_ok.mp h
    obtain ⟨s, drained, hdone⟩ := processUnlockRequest_ok hu
    obtain ⟨log, hlog⟩ := processUnlockRequestsLoop_ok h
    exact ⟨_, hdone.cons hlog⟩

/-! ## Restaging -/

/-- An account's staged list after restaging. -/
def restaged {M : Type} (staged : List (Deposit M)) : Option (List (Deposit M)) → List (Deposit M)
  | some ds => mergeDeposits staged ds
  | none => staged

/-- The fold of `restageRemainingLocks` on one side, account by account. -/
theorem foldl_restage (s : Side) :
    ∀ (l : List (AccountId × List (Deposit s.Meta))) (db : Db), (l.map Prod.fst).Nodup →
      (∀ a, ((l.foldl (restageRemainingLocksInner s) db).staged s).getD a [] =
        restaged ((db.staged s).getD a []) (lookupEntry a l)) ∧
      (∀ w, tableWeight w ((l.foldl (restageRemainingLocksInner s) db).staged s) =
        tableWeight w (db.staged s) + (l.map fun e => weigh (w e.1) e.2).sum) ∧
      ∃ t, l.foldl (restageRemainingLocksInner s) db = db.setStaged s t
  | [], db, _ => ⟨fun _ => rfl, fun _ => rfl, db.staged s, (setStaged_self db s).symm⟩
  | (a, ds) :: l, db, hnd => by
    obtain ⟨hnot, hnd⟩ := List.nodup_cons.mp hnd
    obtain ⟨ih1, ih2, t, ih3⟩ := foldl_restage s l (restageRemainingLocksInner s db (a, ds)) hnd
    have hstaged : (restageRemainingLocksInner s db (a, ds)).staged s =
        (db.staged s).insert a (mergeDeposits ((db.staged s).getD a []) ds) := staged_setStaged _ _ _
    rw [hstaged] at ih1 ih2
    refine ⟨fun a' => ?_, fun w => ?_, t, ?_⟩
    · rw [List.foldl_cons, ih1, BTreeMap.getD_insert]
      by_cases ha : a' = a
      · subst ha
        have hn : lookupEntry a' l = none := lookupEntry_eq_none.mpr fun e he hea =>
          hnot (List.mem_map.mpr ⟨e, he, hea⟩)
        simp [lookupEntry, hn, restaged]
      · simp [lookupEntry, ha]
    · have h1 := tableWeight_insert w (db.staged s) a (mergeDeposits ((db.staged s).getD a []) ds)
      rw [weigh_mergeDeposits] at h1
      rw [List.foldl_cons, ih2, List.map_cons, List.sum_cons]
      show _ = _ + (weigh (w a) ds + _)
      omega
    · rw [List.foldl_cons, ih3]
      cases s <;> rfl

theorem restageRemainingLocks_ok (db : Db) (locks : Locks) :
    (∀ s a, ((restageRemainingLocks db locks).staged s).getD a [] =
      restaged ((db.staged s).getD a []) ((locks.on s).get? a)) ∧
    (∀ s w, tableWeight w ((restageRemainingLocks db locks).staged s) =
      tableWeight w (db.staged s) + tableWeight w (locks.on s)) ∧
    ∃ seeks provides, restageRemainingLocks db locks =
      { db with stagedSeeks := seeks, stagedProvides := provides } := by
  have hnd : ∀ {M : Type} (t : DepositTable M), (t.entries.map Prod.fst).Nodup := fun t =>
    t.keys_sorted.imp fun h => h.ne
  obtain ⟨h1, h2, t, h3⟩ := foldl_restage .seek locks.seeks.entries db (hnd _)
  obtain ⟨h4, h5, t', h6⟩ := foldl_restage .provide locks.provides.entries
    (locks.seeks.entries.foldl (restageRemainingLocksInner .seek) db) (hnd _)
  have hseek : (restageRemainingLocks db locks).staged .seek =
      (locks.seeks.entries.foldl (restageRemainingLocksInner .seek) db).staged .seek := by
    rw [restageRemainingLocks, h6]
    rfl
  have hprovide : (locks.seeks.entries.foldl (restageRemainingLocksInner .seek) db).staged .provide =
      db.staged .provide := by rw [h3]; rfl
  refine ⟨fun s a => ?_, fun s w => ?_, t, t', ?_⟩
  · cases s with
    | seek =>
      rw [hseek, h1]
      rfl
    | provide =>
      have := h4 a
      rw [hprovide] at this
      exact this
  · cases s with
    | seek =>
      rw [hseek, h2]
      rfl
    | provide =>
      have := h5 w
      rw [hprovide] at this
      exact this
  · rw [restageRemainingLocks, h6, h3]
    rfl

end StabilityPool
