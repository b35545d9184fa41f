import Fedi.StabilityPool.OperationFamilies

/-!
# When the history service panics

On the server a lock is opened by a row of its transaction, and under the transaction of a pending
request only withdrawals are to come.  What is left to ask of a history is that any two rows of a
transaction go together:

    (∀ es, .. runService C cfg randomOpId cs a es ≠ .error (.panic p)) ↔
      (st.db.history a).Pairwise AccountHistoryItem.GoesWith        (never_panics_iff)
-/

namespace StabilityPool

open BTreeMaps KeyedLogs Runs

/-! ## Updates and the repair -/

section

variable {randomOpId : TransactionId → OperationId} {a : AccountId} {syncResponse : SyncResponse}
  {db db' : ClientDb} {item : AccountHistoryItem} {rows rest items : List AccountHistoryItem}
  {completed : List TransactionId}


/-- A pending withdrawal is registered where there is no operation. -/
theorem Tracks.ensureUnlockRequestRegistered (h : Tracks db a rows rest)
    (hresponse : syncResponse.currentCycle.startPrice ≠ 0)
    (hrequest : ∀ request, syncResponse.unlockRequest = some request → OnlyWithdraws rest request.txid) :
    ∃ db', ensureUnlockRequestRegistered db a syncResponse = .ok db' ∧ Tracks db' a rows rest := by
  unfold StabilityPool.ensureUnlockRequestRegistered
  cases hreq : syncResponse.unlockRequest with
  | none => exact ⟨db, rfl, h⟩
  | some request =>
    dsimp only
    cases hop : db.userOperation a request.txid with
    | some op => exact ⟨db, rfl, h⟩
    | none =>
      obtain ⟨amounts, hamounts⟩ := exists_unlockAmounts hresponse
      dsimp only
      rw [hamounts, ok_bind]
      refine ⟨_, rfl, ?_⟩
      have hnone : db.family? a request.txid = none := by
        unfold ClientDb.family?
        rw [hop]
        rfl
      constructor
      · intro row hrow f hf
        have hold := h.covers row hrow f hf
        rw [family?_insertUserOperationHistoryItem]
        split_ifs with htxid
        · rw [htxid, hnone] at hold
          cases hold
        · exact hold
      · intro txid f hf
        rw [family?_insertUserOperationHistoryItem] at hf
        split_ifs at hf with htxid
        · cases hf
          rw [htxid]
          exact .inr ⟨rfl, hrequest request hreq⟩
        · exact h.operations txid f hf

/-- The repair keeps the kinds. -/
theorem family?_repairWithdrawal (e : TransactionId × (ℕ × ℕ)) (txid : TransactionId) :
    (repairWithdrawal a db e).family? a txid = db.family? a txid := by
  unfold repairWithdrawal
  cases hop : db.userOperation a e.1 with
  | none => rfl
  | some op =>
    dsimp only
    split_ifs
    · rw [family?_insertUserOperationHistoryItem]
      split_ifs with htxid
      · unfold ClientDb.family?
        rw [htxid, hop]
        rfl
      · rfl
    · rfl

theorem foldl_repairWithdrawal_family (totals : List (TransactionId × (ℕ × ℕ))) (txid : TransactionId) :
    (totals.foldl (repairWithdrawal a) db).family? a txid = db.family? a txid := by
  induction totals generalizing db with
  | nil => rfl
  | cons e totals ih => rw [List.foldl_cons, ih, family?_repairWithdrawal]

theorem exists_withdrawalTotals (hprices : ∀ row ∈ items, row.cycle.startPrice ≠ 0)
    (totals : BTreeMap TransactionId (ℕ × ℕ)) : ∃ r, withdrawalTotals items totals = .ok r := by
  induction items generalizing totals with
  | nil => exact ⟨totals, rfl⟩
  | cons item items ih =>
    have hrest := fun totals => ih (fun row hrow => hprices row (List.mem_cons_of_mem _ hrow)) totals
    unfold withdrawalTotals
    split_ifs
    · obtain ⟨fiat, hfiat⟩ := exists_fiatAmount (hprices item List.mem_cons_self)
      rw [hfiat, ok_bind]
      exact hrest _
    · exact hrest _

/-- A history that the service can follow. -/
structure Followable (history : List AccountHistoryItem) : Prop where
  prices : ∀ row ∈ history, row.cycle.startPrice ≠ 0
  goes : history.Pairwise AccountHistoryItem.GoesWith
  locks : LocksOpened history

/-- The service follows the first rows of the history. -/
structure FollowsUpTo (db : ClientDb) (a : AccountId) (history : List AccountHistoryItem) (count : ℕ) : Prop where
  le : count ≤ history.length
  follows : Follows db a (history.take count)
  tracks : Tracks db a (history.take count) (history.drop count)

variable {history : List AccountHistoryItem} {count : ℕ}

theorem followsUpTo_initial (a : AccountId) (history : List AccountHistoryItem) :
    FollowsUpTo ClientDb.initial a history 0 := ⟨Nat.zero_le _, follows_initial a, tracks_initial history⟩

theorem FollowsUpTo.length_take (h : FollowsUpTo db a history count) : (history.take count).length = count := by
  rw [List.length_take]
  exact min_eq_left h.le

theorem FollowsUpTo.repair (h : FollowsUpTo db a history count) (hhistory : Followable history) :
    ∃ db', repairCompletedWithdrawalHistoryOnce db a = .ok db' ∧ FollowsUpTo db' a history count := by
  have hrepaired : ∃ db', repairCompletedWithdrawalHistoryOnce db a = .ok db' ∧
      Tracks db' a (history.take count) (history.drop count) := by
    unfold repairCompletedWithdrawalHistoryOnce
    cases db.completedWithdrawalHistoryRepair.get? a with
    | some u => exact ⟨db, rfl, h.tracks⟩
    | none =>
      dsimp only
      rw [h.follows.stored.values]
      obtain ⟨totals, htotals⟩ := exists_withdrawalTotals
        (fun row hrow => hhistory.prices row (List.mem_of_mem_take hrow)) (.empty : BTreeMap TransactionId (ℕ × ℕ))
      rw [htotals, ok_bind]
      have hfamily : ∀ txid, (totals.entries.foldl (repairWithdrawal a) db).family? a txid = db.family? a txid :=
        foldl_repairWithdrawal_family totals.entries
      refine ⟨_, rfl, fun row hrow f hf => ?_, fun txid f hf => ?_⟩
      · exact (hfamily row.txid).trans (h.tracks.covers row hrow f hf)
      · exact h.tracks.operations txid f ((hfamily txid).symm.trans hf)
  obtain ⟨db', hdb', htracks⟩ := hrepaired
  exact ⟨db', hdb', h.le, h.follows.congr (repairCompletedWithdrawalHistoryOnce_same hdb'), htracks⟩

/-- The rows between two counts. -/
theorem take_append_between (history : List AccountHistoryItem) {m n : ℕ} (hle : m ≤ n) :
    history.take m ++ (history.take n).drop m = history.take n ∧
      (history.take n).drop m ++ history.drop n = history.drop m := by
  have htake : (history.take n).take m = history.take m := by
    rw [List.take_take, min_eq_left hle]
  have hfirst : history.take m ++ (history.take n).drop m = history.take n := by
    rw [← htake]
    exact List.take_append_drop m (history.take n)
  refine ⟨hfirst, @List.append_cancel_left _ (history.take m) _ _ ?_⟩
  rw [← List.append_assoc, hfirst, List.take_append_drop, List.take_append_drop]

/-- An update with the answers of one moment takes the service there, or is refused. -/
theorem FollowsUpTo.updateOnce (randomOpId : TransactionId → OperationId) (h : FollowsUpTo db a history count)
    (hhistory : Followable history)
    (hresponse : syncResponse.currentCycle.startPrice ≠ 0)
    (hcount : syncResponse.accountHistoryCount ≤ history.length)
    (hrequest : ∀ request, syncResponse.unlockRequest = some request →
      OnlyWithdraws (history.drop syncResponse.accountHistoryCount) request.txid)
    {fetch : ℕ → ℕ → List AccountHistoryItem}
    (hfetch : ∀ first, fetch first syncResponse.accountHistoryCount =
      (history.take syncResponse.accountHistoryCount).drop first) :
    FailsOnly Overflows (updateOnce randomOpId db a syncResponse fetch) ∧
      ∀ db', updateOnce randomOpId db a syncResponse fetch = .ok db' →
        FollowsUpTo db' a history syncResponse.accountHistoryCount := by
  unfold StabilityPool.updateOnce
  dsimp only
  rw [h.follows.count, h.length_take]
  split_ifs with hless heq
  · exact ⟨failsOnly_error ⟨_, rfl⟩, fun db' hdb => by cases hdb⟩
  · rw [heq] at hrequest ⊢
    obtain ⟨db', hdb', htracks⟩ := h.tracks.ensureUnlockRequestRegistered hresponse hrequest
    rw [hdb']
    refine ⟨failsOnly_ok _, fun db'' hdb'' => ?_⟩
    cases hdb''
    exact ⟨h.le, h.follows.congr (ensureUnlockRequestRegistered_same hdb'), htracks⟩
  · generalize syncResponse.accountHistoryCount = m at hless heq hcount hrequest hfetch ⊢
    obtain ⟨hfirst, hrest⟩ := take_append_between history (show count ≤ m by omega)
    have hwhole : history.take count ++ ((history.take m).drop count ++ history.drop m) = history := by
      rw [hrest, List.take_append_drop]
    have htracks := h.tracks
    rw [← hrest] at htracks
    have hprices : ∀ row ∈ (history.take m).drop count, row.cycle.startPrice ≠ 0 :=
      fun row hrow => hhistory.prices row (List.mem_of_mem_take (List.mem_of_mem_drop hrow))
    obtain ⟨r, hr, hstored⟩ : ∃ r, storeItems randomOpId a syncResponse count ((history.take m).drop count) (db, []) =
        .ok r ∧ Tracks r.1 a (history.take count ++ (history.take m).drop count) (history.drop m) :=
      Tracks.storeItems hresponse hprices htracks (by rw [hwhole]; exact hhistory.goes)
        (by rw [hwhole]; exact hhistory.locks)
    rw [hfirst] at hstored
    obtain ⟨db', hdb', hregistered⟩ := hstored.ensureUnlockRequestRegistered hresponse hrequest
    have hfollows : Follows r.1 a (history.take m) := by
      have hrows := storeItems_follows (r := (db, [])) h.follows (by rw [h.length_take]; exact hr)
      rwa [hfirst] at hrows
    rw [hfetch count, hr, ok_bind, hdb']
    refine ⟨failsOnly_ok _, fun db'' hdb'' => ?_⟩
    cases hdb''
    exact ⟨hcount, hfollows.congr (ensureUnlockRequestRegistered_same hdb'), hregistered⟩

/-- An update of a fresh service fails by a panic only, and stores rows that go together. -/
theorem updateOnce_fresh (randomOpId : TransactionId → OperationId) (a : AccountId)
    (fetch : ℕ → ℕ → List AccountHistoryItem) (hpos : syncResponse.accountHistoryCount ≠ 0) :
    FailsOnly Panicked (updateOnce randomOpId ClientDb.initial a syncResponse fetch) ∧
      ∀ db', updateOnce randomOpId ClientDb.initial a syncResponse fetch = .ok db' →
        (fetch 0 syncResponse.accountHistoryCount).Pairwise AccountHistoryItem.GoesWith := by
  have hzero : getAccountHistoryCount ClientDb.initial a = 0 := rfl
  unfold StabilityPool.updateOnce
  dsimp only
  rw [hzero, if_neg (Nat.not_lt_zero _), if_neg hpos]
  constructor
  · refine (storeItems_panicked 0 _).bind fun r _ => ?_
    unfold StabilityPool.ensureUnlockRequestRegistered
    cases syncResponse.unlockRequest with
    | none => exact failsOnly_ok _
    | some request =>
      dsimp only
      cases r.1.userOperation a request.txid with
      | some op => exact failsOnly_ok _
      | none => exact (unlockAmounts_panicked _).bind fun _ _ => failsOnly_ok _
  · intro db' hdb'
    obtain ⟨r, hr, -⟩ := bind_eq_ok.mp hdb'
    exact CoversRows.storeItems (r := (ClientDb.initial, [])) (tracks_initial (a := a) []).covers List.Pairwise.nil hr

end

/-! ## Runs of the service -/

/-- The rows come with the response that announced them: they are fetched at that moment or later. -/
def ServiceEvent.Matching : ServiceEvent → Prop
  | .repair => True
  | .update synced fetched => synced ≤ fetched

section

variable {C : Crypto} {cfg : StabilityPoolConfigConsensus} {randomOpId : TransactionId → OperationId}
  {cs : List Commit} {a : AccountId}

theorem sync_currentCycle {db : Db} {response : SyncResponse} (h : sync db a = .ok response) :
    ∃ cycle, db.currentCycle = some cycle ∧ response.currentCycle = cycle.info := by
  unfold sync at h
  cases hc : db.currentCycle with
  | none =>
    rw [hc] at h
    cases h
  | some cycle =>
    rw [hc] at h
    dsimp only at h
    cases htype : a.accType <;> rw [htype] at h <;> cases h <;> exact ⟨cycle, rfl, rfl⟩

theorem exists_sync {db : Db} {cycle : Cycle} (hc : db.currentCycle = some cycle) :
    ∃ response, sync db a = .ok response := by
  unfold sync
  rw [hc]
  dsimp only
  cases a.accType <;> exact ⟨_, rfl⟩

/-- What is announced at a moment of a run. -/
theorem sync_moment (hids : (cs.filterMap Commit.txid?).Nodup) {st : Ledger} (hst : runCommits C cfg cs = .ok st)
    {n : ℕ} {syncedAt : Ledger} (hsynced : runCommits C cfg (cs.take n) = .ok syncedAt) {response : SyncResponse}
    (h : sync syncedAt.db a = .ok response) :
    response.currentCycle.startPrice ≠ 0 ∧
      (st.db.history a).take response.accountHistoryCount = syncedAt.db.history a ∧
      response.accountHistoryCount ≤ (st.db.history a).length ∧
      ∀ request, response.unlockRequest = some request →
        OnlyWithdraws ((st.db.history a).drop response.accountHistoryCount) request.txid := by
  have hposted := runCommits_posted hsynced
  have hcount := sync_accountHistoryCount hposted h
  obtain ⟨cycle, hcycle, hinfo⟩ := sync_currentCycle h
  rw [← List.take_append_drop n cs] at hids hst
  obtain ⟨mid, hmid, hafter⟩ := run_append.mp hst
  have heq : mid = syncedAt := Except.ok.inj (hmid.symm.trans hsynced)
  subst heq
  obtain ⟨news, hnews⟩ := run_commits_history hafter hposted a
  refine ⟨?_, ?_, ?_, fun request hrequest => ?_⟩
  · rw [hinfo]
    exact (runCommits_opened hsynced).price cycle hcycle
  · rw [hcount, ← hnews, List.take_left]
  · rw [hcount, ← hnews, List.length_append]
    omega
  · -- the transaction of the request is over
    rw [sync_unlockRequest h] at hrequest
    have hmem := runCommits_requested hsynced hrequest
    rw [List.filterMap_append] at hids
    have hother : request.txid ∉ (cs.drop n).filterMap Commit.txid? :=
      fun hlater => (List.nodup_append.mp hids).2.2 request.txid hmem request.txid hlater rfl
    obtain ⟨news', hnews', hreleases⟩ := (run_commits_releases hother hafter).history hposted a
    rw [hcount, hnews', List.drop_left]
    intro row hrow htxid f hf
    rcases hreleases row hrow htxid with (hkind | hkind) | hkind
    · rw [hkind] at hf
      cases hf
    · rw [hkind] at hf
      cases hf
    · rw [hkind] at hf
      cases hf
      rfl

theorem exists_runCommits_take {st : Ledger} (hst : runCommits C cfg cs = .ok st) (n : ℕ) :
    ∃ mid, runCommits C cfg (cs.take n) = .ok mid := by
  rw [← List.take_append_drop n cs] at hst
  obtain ⟨mid, hmid, -⟩ := run_append.mp hst
  exact ⟨mid, hmid⟩

/-- One event of the service. -/
theorem FollowsUpTo.serviceStep (hids : (cs.filterMap Commit.txid?).Nodup) {st : Ledger}
    (hst : runCommits C cfg cs = .ok st) (hhistory : Followable (st.db.history a)) {db : ClientDb} {count : ℕ}
    (h : FollowsUpTo db a (st.db.history a) count) {e : ServiceEvent} (he : e.Matching) :
    FailsOnly Overflows (serviceStep C cfg randomOpId cs a db e) ∧
      ∀ db', serviceStep C cfg randomOpId cs a db e = .ok db' →
        ∃ count', FollowsUpTo db' a (st.db.history a) count' := by
  cases e with
  | repair =>
    obtain ⟨db', hdb', hfollows⟩ := h.repair hhistory
    unfold StabilityPool.serviceStep
    dsimp only
    rw [hdb']
    refine ⟨failsOnly_ok _, fun db'' hdb'' => ?_⟩
    cases hdb''
    exact ⟨count, hfollows⟩
  | update synced fetched =>
    obtain ⟨syncedAt, hsynced⟩ := exists_runCommits_take hst synced
    obtain ⟨fetchedAt, hfetched⟩ := exists_runCommits_take hst fetched
    unfold StabilityPool.serviceStep
    dsimp only
    rw [hsynced, ok_bind, hfetched, ok_bind]
    cases hsync : sync syncedAt.db a with
    | error fault =>
      refine ⟨fun e he => ?_, fun db' hdb' => by cases hdb'⟩
      cases he
      cases hc : syncedAt.db.currentCycle with
      | none =>
        unfold sync at hsync
        rw [hc] at hsync
        cases hsync
        exact ⟨_, rfl⟩
      | some cycle =>
        obtain ⟨response, hresponse⟩ := exists_sync (a := a) hc
        rw [hresponse] at hsync
        cases hsync
    | ok response =>
      rw [ok_bind]
      obtain ⟨hprice, htake, hcount, hrequest⟩ := sync_moment hids hst hsynced hsync
      have hfetch : ∀ first, getAccountHistoryItems fetchedAt.db a first response.accountHistoryCount =
          ((st.db.history a).take response.accountHistoryCount).drop first := by
        intro first
        unfold getAccountHistoryItems
        rw [((runCommits_posted hfetched).numbered a).range]
        obtain ⟨news, hnews⟩ := history_take (a := a) he hsynced hfetched
        rw [← hnews, htake, sync_accountHistoryCount (runCommits_posted hsynced) hsync, List.take_left]
      obtain ⟨hfails, hnext⟩ := h.updateOnce randomOpId hhistory hprice hcount hrequest hfetch
      exact ⟨hfails, fun db' hdb' => ⟨_, hnext db' hdb'⟩⟩

/-- With answers that match, the service never panics on an account exactly when, lock changes
apart, any two rows of one transaction are withdrawals, or transfers in, or transfers out: no
transaction makes two deposits for the account, or does two kinds of things to it. -/
theorem never_panics_iff (hids : (cs.filterMap Commit.txid?).Nodup) {st : Ledger}
    (hst : runCommits C cfg cs = .ok st) (a : AccountId) (randomOpId : TransactionId → OperationId) :
    (∀ es : List ServiceEvent, (∀ e ∈ es, e.Matching) →
        ∀ p, runService C cfg randomOpId cs a es ≠ .error (.panic p)) ↔
      (st.db.history a).Pairwise AccountHistoryItem.GoesWith := by
  have hopened := runCommits_opened hst
  constructor
  · intro hnever
    by_cases hempty : st.db.history a = []
    · rw [hempty]
      exact List.Pairwise.nil
    · obtain ⟨row, hrow⟩ := List.exists_mem_of_ne_nil _ hempty
      obtain ⟨cycle, hcycle⟩ := Option.ne_none_iff_exists'.mp (hopened.rows a row hrow).2
      obtain ⟨response, hresponse⟩ := exists_sync (a := a) hcycle
      have hcount := sync_accountHistoryCount (runCommits_posted hst) hresponse
      -- all rows in one batch
      have hone : runService C cfg randomOpId cs a [.update cs.length cs.length] =
          updateOnce randomOpId ClientDb.initial a response (getAccountHistoryItems st.db a) >>= .ok := by
        unfold runService run StabilityPool.serviceStep
        dsimp only
        rw [List.take_length, hst, ok_bind, ok_bind, hresponse, ok_bind]
        rfl
      have hpos : response.accountHistoryCount ≠ 0 := by
        rw [hcount]
        exact fun hzero => hempty (List.length_eq_zero_iff.mp hzero)
      obtain ⟨hpanics, hstored⟩ := updateOnce_fresh randomOpId a (getAccountHistoryItems st.db a) hpos
      cases hupdate : updateOnce randomOpId ClientDb.initial a response (getAccountHistoryItems st.db a) with
      | error fault =>
        obtain ⟨p, rfl⟩ := hpanics fault hupdate
        refine absurd (hone.trans (by rw [hupdate]; rfl)) (hnever _ (fun e he => ?_) p)
        rw [List.mem_singleton.mp he]
        exact le_refl cs.length
      | ok db' =>
        have hrows := hstored db' hupdate
        unfold getAccountHistoryItems at hrows
        rwa [((runCommits_posted hst).numbered a).range, hcount, List.take_length, List.drop_zero] at hrows
  · intro hgoes es hes p hp
    have hhistory : Followable (st.db.history a) :=
      ⟨fun row hrow => (hopened.rows a row hrow).1, hgoes, hopened.locks a⟩
    have hfails : FailsOnly Overflows (runService C cfg randomOpId cs a es) :=
      run_failsOnly (P := fun db => ∃ count, FollowsUpTo db a (st.db.history a) count)
        (fun db e hdb he => (hdb.choose_spec.serviceStep hids hst hhistory he).1)
        (fun db e db' hdb he hstep => (hdb.choose_spec.serviceStep hids hst hhistory he).2 db' hstep)
        ⟨0, followsUpTo_initial a _⟩ hes
    obtain ⟨msg, hmsg⟩ := hfails _ hp
    cases hmsg

end

/-- Three guardians vote for the cycle. -/
def demoCycleCommits (index time price : ℕ) : List Commit :=
  [0, 1, 2].map fun peer => .consensusItem peer (.v0 ⟨index, time, price⟩)

/-- The seeker deposits, the deposit is locked, and all of it is unlocked again. -/
def demoLockedAndUnlocked : List Commit :=
  demoCycleCommits 0 1000 10000000 ++
    [.transaction 1 [] [.v0 (.depositToSeek ⟨demoSeeker.id demoCrypto, 100000⟩)],
      .transaction 2 [] [.v0 (.depositToProvide ⟨demoProvider.id demoCrypto, 100000, ⟨0⟩⟩)]] ++
    demoCycleCommits 1 2000 10000000 ++
    [.transaction 3 [.v0 (.unlockForWithdrawal ⟨demoSeeker, .all⟩)] []] ++ demoCycleCommits 2 3000 10000000

theorem never_panics_iff_demo : ∃ st, runCommits demoCrypto demoConfig demoLockedAndUnlocked = .ok st ∧
    ∀ es : List ServiceEvent, (∀ e ∈ es, e.Matching) →
      ∀ p, runService demoCrypto demoConfig id demoLockedAndUnlocked (demoSeeker.id demoCrypto) es ≠ .error (.panic p) := by
  have hrun : ((runCommits demoCrypto demoConfig demoLockedAndUnlocked).toOption.map fun st =>
      decide ((st.db.history (demoSeeker.id demoCrypto)).Pairwise AccountHistoryItem.GoesWith)) = some true := by
    decide +kernel
  cases h : runCommits demoCrypto demoConfig demoLockedAndUnlocked with
  | error fault =>
    rw [h] at hrun
    cases hrun
  | ok st =>
    rw [h] at hrun
    exact ⟨st, rfl, (never_panics_iff (by decide) h (demoSeeker.id demoCrypto) id).mpr
      (of_decide_eq_true (Option.some.inj hrun))⟩

/-- One transaction deposits twice for the seeker. -/
def demoTwoDeposits : List Commit :=
  demoCycleCommits 0 1000 10000000 ++
    [.transaction 1 [] [.v0 (.depositToSeek ⟨demoSeeker.id demoCrypto, 100000⟩),
      .v0 (.depositToSeek ⟨demoSeeker.id demoCrypto, 200000⟩)]]

/-- The server accepts it, and the seeker's service panics when it comes to the second deposit. -/
theorem two_deposits_panic : (demoTwoDeposits.filterMap Commit.txid?).Nodup ∧
    succeeds (runCommits demoCrypto demoConfig demoTwoDeposits) = true ∧
    ServiceEvent.Matching (.update 4 4) ∧
    runService demoCrypto demoConfig id demoTwoDeposits (demoSeeker.id demoCrypto) [.update 4 4] =
      historyPanic "DepositToStaged must create new user op history item" := by
  have hpanic : ((runService demoCrypto demoConfig id demoTwoDeposits (demoSeeker.id demoCrypto)
      [.update 4 4]).map fun _ => ()) = historyPanic "DepositToStaged must create new user op history item" := by
    decide +kernel
  refine ⟨by decide, by decide +kernel, le_refl 4, ?_⟩
  cases h : runService demoCrypto demoConfig id demoTwoDeposits (demoSeeker.id demoCrypto) [.update 4 4] with
  | ok db =>
    rw [h] at hpanic
    cases hpanic
  | error fault =>
    rw [h] at hpanic
    cases hpanic
    rfl

end StabilityPool
