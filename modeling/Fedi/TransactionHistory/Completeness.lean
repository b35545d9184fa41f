import Fedi.TransactionHistory.Entries

/-!
# Loading more shows every operation

The first page, and then more, shows every operation of the log exactly once as long as in every
state that is reached (`PagesOn`), with T the time of the last entry, each operation that is missing
was created in a second before T, and among as many of the newest operations up to T as a page has
there is one of an earlier second that shows (`complete_of_pagesOn`).  Unless something is dated to
second zero, this is necessary too (`pagesOn_of_complete`).

The time of the last entry is in whole seconds, so what was created in the second of the last entry
and is not on its page is never loaded (`sameSecond_loses`).
-/

namespace TransactionHistory

open BTreeMaps InsertionMaps FiFunding

/-! ## What is promised -/

section

variable (log : OperationLog) (reservations : List Reservation) (limit : ℕ) (deposits : Deposits)

/-- From some load on every operation that shows is there exactly once. -/
def Complete (random : ℕ → ℕ) : Prop :=
  ∃ n, ∀ m, n ≤ m → ∀ op ∈ log.operations, op.shown.isSome = true →
    ShownOnce (loads log reservations limit deposits random m) op

/-! ## The condition -/

def Missing (s : System) (op : Operation) : Prop :=
  op ∈ log.operations ∧ op.shown.isSome = true ∧ ¬ ShownOnce s op

/-- It shows, and was created before a second. -/
def Operation.CreatedBefore (t : ℕ) (op : Operation) : Prop := ∃ shown ∈ op.shown, shown.1 < t

instance (t : ℕ) (op : Operation) : Decidable (op.CreatedBefore t) :=
  inferInstanceAs (Decidable (∃ shown ∈ op.shown, _))

/-- As many operations as a page has, with what was created at the start of a second. -/
def newestUpTo (t : ℕ) : List Operation :=
  (log.operations.filter fun op => decide (op.key.creationTime ≤ (t : ℤ) * 10 ^ 9)).take limit

def PagesOn (s : System) : Prop :=
  ∀ op, Missing log s op → ∃ t ∈ paginationTimestamp s.transactions,
    t < 2 ^ 32 ∧ op.CreatedBefore t ∧ ∃ other ∈ newestUpTo log limit t, other.CreatedBefore t

/-- Nothing is dated to second zero. -/
structure Dated : Prop where
  operations : ∀ op ∈ log.operations, ∀ shown ∈ op.shown, shown.1 ≠ 0
  deposits : ∀ address createdAt, deposits.get? address = some (.awaiting createdAt) → createdAt ≠ 0
  reservations : ∀ reservation ∈ reservations, reservation.createdAtSecs ≠ 0

end

variable {log : OperationLog} {reservations : List Reservation} {limit newRandom n m t : ℕ} {initial deposits : Deposits}
  {random random' : ℕ → ℕ} {s s' : System} {op other : Operation} {e x : TransactionListEntry}
  {newTransactions : List TransactionListEntry}

/-! ### Times -/

theorem shown_time {shown : ℕ × ℕ × TransactionKind} (h : op.shown = some shown) :
    0 ≤ op.key.creationTime ∧ shown.1 = op.key.creationTime.toNat / 10 ^ 9 := by
  unfold Operation.shown toUnixTime at h
  by_cases htime : op.key.creationTime < 0
  · rw [if_pos htime] at h
    simp at h
  · rw [if_neg htime] at h
    rcases htransaction : op.transaction with _ | _ | ⟨amount, kind⟩
    · simp [htransaction] at h
    · simp [htransaction] at h
    · rw [htransaction] at h
      dsimp only at h
      split at h
      · rw [← Option.some.inj h]
        exact ⟨by omega, rfl⟩
      · simp at h

theorem createdBefore_iff {shown : ℕ × ℕ × TransactionKind} (h : op.shown = some shown) :
    op.CreatedBefore t ↔ shown.1 < t := by
  unfold Operation.CreatedBefore
  rw [h]
  simp

theorem shown_lt_iff {shown : ℕ × ℕ × TransactionKind} (h : op.shown = some shown) :
    shown.1 < t ↔ op.key.creationTime < t * 10 ^ 9 := by
  obtain ⟨htime, hshown⟩ := shown_time h
  rw [hshown]
  omega

theorem exists_entry (deposits : Deposits) (h : op.shown.isSome = true) : ∃ e, op.entry deposits = some e := by
  obtain ⟨shown, hshown⟩ := Option.isSome_iff_exists.mp h
  exact ⟨_, by rw [Operation.entry, hshown]; rfl⟩

theorem shown_of_entry (h : op.entry deposits = some e) : ∃ shown, op.shown = some shown ∧ e.createdAt = shown.1 := by
  unfold Operation.entry at h
  obtain ⟨shown, hshown, rfl⟩ := Option.map_eq_some_iff.mp h
  exact ⟨shown, hshown, rfl⟩

/-! ### The time of the last entry -/

theorem last_of_timestamp {l : List TransactionListEntry} (h : paginationTimestamp l = some t) :
    ∃ e, l.getLast? = some e ∧ e.createdAt = t ∧ t ≠ 0 := by
  unfold paginationTimestamp at h
  split at h
  · simp at h
  next e hlast =>
    split at h
    · simp at h
    next hzero => exact ⟨e, hlast, Option.some.inj h, Option.some.inj h ▸ hzero⟩

theorem last_le {l : List TransactionListEntry} (hsorted : l.Pairwise fun a b => b.createdAt ≤ a.createdAt)
    (hlast : l.getLast? = some e) (hx : x ∈ l) : e.createdAt ≤ x.createdAt := by
  obtain ⟨init, rfl⟩ := List.getLast?_eq_some_iff.mp hlast
  rw [List.pairwise_append] at hsorted
  rcases List.mem_append.mp hx with hinit | hsame
  · exact hsorted.2.2 x hinit e (List.mem_singleton_self e)
  · rw [List.mem_singleton.mp hsame]

theorem Inv.timestamp_le (h : Inv log reservations limit initial s) (ht : paginationTimestamp s.transactions = some t)
    (hx : x ∈ s.transactions) : t ≤ x.createdAt := by
  obtain ⟨e, hlast, rfl, -⟩ := last_of_timestamp ht
  exact last_le h.sorted hlast hx

theorem Inv.exists_timestamp (h : Inv log reservations limit initial s) (hx : x ∈ s.transactions)
    (hdated : ∀ e ∈ s.transactions, e.createdAt ≠ 0) :
    ∃ t, paginationTimestamp s.transactions = some t ∧ t ≤ x.createdAt ∧ ∃ e ∈ s.transactions, e.createdAt = t := by
  cases hlast : s.transactions.getLast? with
  | none =>
    rw [List.getLast?_eq_none_iff] at hlast
    simp [hlast] at hx
  | some e =>
    have he := List.mem_of_getLast? hlast
    refine ⟨e.createdAt, ?_, last_le h.sorted hlast hx, e, he, rfl⟩
    unfold paginationTimestamp
    rw [hlast]
    exact if_neg (hdated e he)

/-! ### Pages -/

theorem mem_take_filter {l : List Operation} {p : Operation → Bool} {k : ℕ} (h : op ∈ l.take k) (hp : p op = true) :
    op ∈ (l.filter p).take k := by
  induction l generalizing k with
  | nil => simp at h
  | cons first l ih =>
    cases k with
    | zero => simp at h
    | succ k =>
      rw [List.take_succ_cons, List.mem_cons] at h
      rw [List.filter_cons]
      by_cases hfirst : p first = true
      · rw [if_pos hfirst, List.take_succ_cons, List.mem_cons]
        exact h.imp_right fun hrest => ih hrest
      · rw [if_neg hfirst]
        rcases h with rfl | hrest
        · exact absurd hp hfirst
        · exact List.take_subset_take_left _ (Nat.le_succ k) (ih hrest)

theorem pageAfter_eq (log : OperationLog) (limit t newRandom : ℕ) :
    pageAfter log limit t newRandom =
      (log.operations.filter fun op => decide (op.key.Before ⟨t * 10 ^ 9, newRandom⟩)).take limit := by
  unfold pageAfter OperationLog.paginateOperationsRev
  simp

/-- The newest operations of earlier seconds are on the page, whatever the random id is. -/
theorem mem_pageAfter (hmem : op ∈ newestUpTo log limit t) (hbefore : op.CreatedBefore t) :
    op ∈ pageAfter log limit t newRandom := by
  obtain ⟨shown, hshown, hlt⟩ := hbefore
  have htime := (shown_lt_iff hshown).mp hlt
  have hfilter : (log.operations.filter fun op => decide (op.key.Before ⟨t * 10 ^ 9, newRandom⟩)) =
      (log.operations.filter fun op => decide (op.key.creationTime ≤ (t : ℤ) * 10 ^ 9)).filter fun op =>
        decide (op.key.Before ⟨t * 10 ^ 9, newRandom⟩) := by
    rw [List.filter_filter]
    refine List.filter_congr fun op _ => ?_
    rw [Bool.eq_iff_iff, Bool.and_eq_true, decide_eq_true_eq, decide_eq_true_eq]
    constructor
    · intro h
      refine ⟨h, ?_⟩
      rcases h with hearlier | ⟨hsame, -⟩
      · exact hearlier.le
      · exact hsame.le
    · exact And.left
  rw [pageAfter_eq, hfilter]
  exact mem_take_filter hmem (by simpa using .inl htime)

theorem before_of_mem_pageAfter (h : op ∈ pageAfter log limit t newRandom) :
    op.key.creationTime < (t : ℤ) * 10 ^ 9 ∨
      op.key.creationTime = (t : ℤ) * 10 ^ 9 ∧ op.key.operationId < newRandom := by
  rw [pageAfter_eq] at h
  have hbefore := (List.mem_filter.mp (List.mem_of_mem_take h)).2
  rwa [decide_eq_true_eq] at hbefore

/-- With an id above those of the log, the page has what was created at the start of the second too. -/
theorem pageAfter_of_large (hlarge : ∀ op ∈ log.operations, op.key.operationId < newRandom) :
    pageAfter log limit t newRandom = newestUpTo log limit t := by
  rw [pageAfter_eq]
  unfold newestUpTo
  congr 1
  refine List.filter_congr fun op hop => ?_
  rw [Bool.eq_iff_iff, decide_eq_true_eq, decide_eq_true_eq]
  have hid := hlarge op hop
  unfold OperationLogKey.Before
  dsimp only
  omega

/-! ## The condition is enough -/

theorem ShownOnce.fetch (hshown : ShownOnce s op) (h : Inv log reservations limit initial s) (hop : op ∈ log.operations)
    (hsome : op.shown.isSome = true) :
    ShownOnce (fetchTransactions log reservations limit true false s newRandom) op := by
  rcases fetch_cases h newRandom with hsame | ⟨newTransactions, hloaded⟩
  · rw [hsame]
    exact hshown
  · obtain ⟨e, hentry⟩ := exists_entry s.deposits hsome
    obtain ⟨hentry', hmem⟩ := hloaded.mem_of_old h hop hentry ((shownOnce_iff h hop hentry).mp hshown)
    exact (shownOnce_iff (hloaded.inv h) hop hentry').mpr hmem

/-- A page that pages on shows an operation that was missing. -/
theorem PagesOn.progress (hpages : PagesOn log limit s) (h : Inv log reservations limit initial s)
    (hmissing : Missing log s op) (newRandom : ℕ) :
    ∃ other, Missing log s other ∧
      ShownOnce (fetchTransactions log reservations limit true false s newRandom) other := by
  obtain ⟨t, ht, hfits, -, other, hnewest, hbefore⟩ := hpages op hmissing
  have hother : other ∈ log.operations := (List.mem_filter.mp (List.mem_of_mem_take hnewest)).1
  obtain ⟨shown, hshown, hlt⟩ := hbefore
  have hsome : other.shown.isSome = true := Option.isSome_of_mem hshown
  have hloaded : Loaded log reservations s (fetchTransactions log reservations limit true false s newRandom) _ :=
    loaded_page h ht hfits
  refine ⟨other, ⟨hother, hsome, fun honce => ?_⟩, ?_⟩
  · -- it is older than the last entry
    obtain ⟨e, hentry⟩ := exists_entry s.deposits hsome
    obtain ⟨shown', hshown', hcreated⟩ := shown_of_entry hentry
    have hle := h.timestamp_le ht ((shownOnce_iff h hother hentry).mp honce)
    rw [hshown] at hshown'
    obtain rfl := Option.some.inj hshown'
    omega
  · obtain ⟨e, hentry⟩ :=
      exists_entry (fetchTransactions log reservations limit true false s newRandom).deposits hsome
    refine (shownOnce_iff (hloaded.inv h) hother hentry).mpr (hloaded.mem_of_new hother hentry ?_)
    exact List.mem_filterMap.mpr ⟨other, mem_pageAfter hnewest ⟨shown, hshown, hlt⟩, hentry⟩

/-- The operations that are missing. -/
def missing (log : OperationLog) (s : System) : List Operation :=
  log.operations.filter fun op => decide (op.shown.isSome = true ∧ ¬ ShownOnce s op)

theorem mem_missing : op ∈ missing log s ↔ Missing log s op := by
  unfold missing Missing
  rw [List.mem_filter, decide_eq_true_eq]

/-- There are fewer of them after every load. -/
theorem missing_lt (hpages : PagesOn log limit s) (h : Inv log reservations limit initial s)
    (hmissing : Missing log s op) (newRandom : ℕ) :
    (missing log (fetchTransactions log reservations limit true false s newRandom)).length < (missing log s).length := by
  obtain ⟨other, hother, honce⟩ := hpages.progress h hmissing newRandom
  have hsub : (missing log (fetchTransactions log reservations limit true false s newRandom)).Sublist (missing log s) := by
    have heq : missing log (fetchTransactions log reservations limit true false s newRandom) =
        (missing log s).filter fun op => decide (¬ ShownOnce (fetchTransactions log reservations limit true false s newRandom) op) := by
      unfold missing
      rw [List.filter_filter]
      refine List.filter_congr fun op hop => ?_
      rw [Bool.eq_iff_iff, Bool.and_eq_true, decide_eq_true_eq, decide_eq_true_eq, decide_eq_true_eq]
      constructor
      · rintro ⟨hsome, hnot⟩
        exact ⟨hnot, hsome, fun hold => hnot (hold.fetch h hop hsome)⟩
      · rintro ⟨hnot, hsome, -⟩
        exact ⟨hsome, hnot⟩
    rw [heq]
    exact List.filter_sublist
  refine Nat.lt_of_le_of_ne hsub.length_le fun hlength => ?_
  have hmem := mem_missing.mpr hother
  rw [← hsub.eq_of_length hlength] at hmem
  exact (mem_missing.mp hmem).2.2 honce

theorem shownOnce_loads_mono (hop : op ∈ log.operations) (hsome : op.shown.isSome = true) (hle : n ≤ m)
    (h : ShownOnce (loads log reservations limit initial random n) op) :
    ShownOnce (loads log reservations limit initial random m) op := by
  induction m, hle using Nat.le_induction with
  | base => exact h
  | succ m _ ih => exact ih.fetch (inv_loads random m) hop hsome

theorem complete_of_pagesOn (h : ∀ n, PagesOn log limit (loads log reservations limit initial random n)) :
    Complete log reservations limit initial random := by
  have hnone : ∀ k n, (missing log (loads log reservations limit initial random n)).length ≤ k →
      ∃ m, ∀ op, ¬ Missing log (loads log reservations limit initial random m) op := by
    intro k
    induction k with
    | zero =>
      intro n hlength
      refine ⟨n, fun op hmissing => ?_⟩
      have hmem := mem_missing.mpr hmissing
      rw [List.length_eq_zero_iff.mp (Nat.le_zero.mp hlength)] at hmem
      simp at hmem
    | succ k ih =>
      intro n hlength
      by_cases hdone : ∀ op, ¬ Missing log (loads log reservations limit initial random n) op
      · exact ⟨n, hdone⟩
      · rw [not_forall] at hdone
        obtain ⟨op, hmissing⟩ := hdone
        have hlt := missing_lt (h n) (inv_loads random n) (not_not.mp hmissing) (random (n + 1))
        refine ih (n + 1) ?_
        show (missing log (fetchTransactions log reservations limit true false
          (loads log reservations limit initial random n) (random (n + 1)))).length ≤ k
        omega
  obtain ⟨n, hdone⟩ := hnone _ 0 le_rfl
  refine ⟨n, fun m hle op hop hsome => shownOnce_loads_mono hop hsome hle ?_⟩
  by_contra hnot
  exact hdone op ⟨hop, hsome, hnot⟩

/-! ## The condition is necessary -/

theorem Inv.dated (h : Inv log reservations limit initial s) (hdated : Dated log reservations initial)
    (he : e ∈ s.transactions) : e.createdAt ≠ 0 := by
  cases h.origin e he with
  | operation op hmem hsettled hentry =>
    obtain ⟨shown, hshown, hcreated⟩ := shown_of_entry hentry
    rw [hcreated]
    exact hdated.operations op hmem shown hshown
  | awaitingDeposit address createdAt hget heq =>
    rw [heq]
    exact hdated.deposits address createdAt (h.later.awaiting hget)
  | formation reservation hmem totals heq =>
    rw [heq]
    exact hdated.reservations reservation hmem

/-- A page keeps the entries of the operations that are not on it. -/
theorem entry_of_not_mem (hop : op ∈ log.operations) (hpage : op ∉ pageAfter log limit t newRandom) :
    op.entry (getTransactions deposits (pageAfter log limit t newRandom)).1 = op.entry deposits := by
  have hid : op.idIn (getTransactions deposits (pageAfter log limit t newRandom)).1 = op.idIn deposits := by
    unfold Operation.idIn
    cases haddress : op.address with
    | none => rfl
    | some address =>
      dsimp only
      rcases getTransactions_settles deposits (pageAfter log limit t newRandom) address with
        hkept | ⟨claim, hclaim, -, hclaimed⟩
      · rw [hkept]
      · have hother : claim.key.operationId ≠ op.key.operationId := by
          intro heq
          exact hpage (operation_eq hop (mem_log_of_page hclaim) heq ▸ hclaim)
        rcases (getTransactions_spec deposits (pageAfter log limit t newRandom)).1 address with
          hkept | ⟨⟨createdAt, hawaiting⟩, -⟩
        · rw [hkept]
        · rw [hclaimed, hawaiting]
          simp [hother]
  unfold Operation.entry
  rw [hid]

/-- Pages without the operation do not show it. -/
theorem Missing.page (hmissing : Missing log s op) (h : Inv log reservations limit initial s)
    (ht : paginationTimestamp s.transactions = some t) (hfits : t < 2 ^ 32) (hpage : op ∉ pageAfter log limit t newRandom) :
    Missing log (fetchTransactions log reservations limit true false s newRandom) op := by
  obtain ⟨hop, hsome, hnot⟩ := hmissing
  have hloaded : Loaded log reservations s (fetchTransactions log reservations limit true false s newRandom) _ :=
    loaded_page h ht hfits
  refine ⟨hop, hsome, fun honce => hnot ?_⟩
  obtain ⟨e, hentry⟩ := exists_entry (fetchTransactions log reservations limit true false s newRandom).deposits hsome
  have hmem := (shownOnce_iff (hloaded.inv h) hop hentry).mp honce
  rw [hloaded.transactions] at hmem
  rcases of_mem_updateTransactions hmem with hnew | ⟨hold, -⟩
  · obtain ⟨other, hother, hentry'⟩ := List.mem_filterMap.mp hnew
    have hsame := operation_eq_of_shows hop (mem_log_of_page hother) hentry' (shows_of_id hentry rfl)
    exact absurd (hsame ▸ hother) hpage
  · rw [fetch_page ht hfits, entry_of_not_mem hop hpage] at hentry
    exact (shownOnce_iff h hop hentry).mpr hold

/-- A page leaves the time of the last entry, or an earlier one. -/
theorem Inv.timestamp_page (h : Inv log reservations limit initial s) (hdated : Dated log reservations initial)
    (ht : paginationTimestamp s.transactions = some t) (hfits : t < 2 ^ 32) :
    ∃ t', paginationTimestamp (fetchTransactions log reservations limit true false s newRandom).transactions = some t' ∧
      t' ≤ t ∧
      (t' = t ∨ ∃ op ∈ pageAfter log limit t newRandom, ∃ shown, op.shown = some shown ∧ shown.1 < t) := by
  have hloaded : Loaded log reservations s (fetchTransactions log reservations limit true false s newRandom) _ :=
    loaded_page h ht hfits
  have hinv := hloaded.inv h
  have hpage : ∀ op ∈ pageAfter log limit t newRandom, ∀ shown, op.shown = some shown → shown.1 ≤ t := by
    intro op hop shown hshown
    have hbefore := before_of_mem_pageAfter hop
    have hlt := @shown_lt_iff (t + 1) op shown hshown
    push_cast at hlt
    omega
  obtain ⟨e, hlast, hcreated, -⟩ := last_of_timestamp ht
  have hold : ∃ x ∈ (fetchTransactions log reservations limit true false s newRandom).transactions, x.createdAt ≤ t := by
    by_cases hid : e.id ∈ ((pageAfter log limit t newRandom).filterMap
        (Operation.entry (fetchTransactions log reservations limit true false s newRandom).deposits)).map
          TransactionListEntry.id
    · obtain ⟨x, hx, -⟩ := List.mem_map.mp hid
      obtain ⟨op, hop, hentry⟩ := List.mem_filterMap.mp hx
      obtain ⟨shown, hshown, hx'⟩ := shown_of_entry hentry
      exact ⟨x, hloaded.mem_of_new (mem_log_of_page hop) hentry hx, hx' ▸ hpage op hop shown hshown⟩
    · refine ⟨e, ?_, hcreated.le⟩
      rw [hloaded.transactions]
      exact mem_updateTransactions_of_old h.nodup (List.mem_of_getLast? hlast) hid
  obtain ⟨x, hx, hle⟩ := hold
  obtain ⟨t', ht', hle', last, hmem, hlast'⟩ := hinv.exists_timestamp hx fun e he => hinv.dated hdated he
  refine ⟨t', ht', hle'.trans hle, ?_⟩
  rw [hloaded.transactions] at hmem
  rcases of_mem_updateTransactions hmem with hnew | ⟨hkept, -⟩
  · obtain ⟨op, hop, hentry⟩ := List.mem_filterMap.mp hnew
    obtain ⟨shown, hshown, hsecond⟩ := shown_of_entry hentry
    by_cases hearlier : shown.1 < t
    · exact .inr ⟨op, hop, shown, hshown, hearlier⟩
    · exact .inl (by omega)
  · have hge := h.timestamp_le ht hkept
    exact .inl (by omega)

theorem fetch_empty (h : Inv log reservations limit initial s)
    (hempty : (fetchTransactions log reservations limit true false s newRandom).transactions = []) :
    s.transactions = [] := by
  rcases fetch_cases h newRandom with hsame | ⟨newTransactions, hloaded⟩
  · rw [hsame] at hempty
    exact hempty
  · rw [List.eq_nil_iff_forall_not_mem]
    intro e he
    have hid : e.id ∈ (updateTransactions newTransactions s.transactions).map TransactionListEntry.id :=
      updateTransactions_ids.mpr (.inr (List.mem_map_of_mem he))
    rw [← hloaded.transactions, hempty] at hid
    simp at hid

/-- The first page is asked for again and again when it shows nothing. -/
theorem fetch_of_empty (h : (loads log reservations limit initial random 0).transactions = []) :
    fetchTransactions log reservations limit true false (loads log reservations limit initial random 0) newRandom =
      loads log reservations limit initial random 0 := by
  have hfirst : loads log reservations limit initial random 0 =
      ⟨(listTransactions log reservations limit initial none).1,
        updateTransactions ((listTransactions log reservations limit initial none).2.filterMap shownEntry) []⟩ :=
    fetch_firstPage rfl
  rw [fetch_firstPage (by rw [h]; rfl), if_neg Bool.false_ne_true, h, hfirst]
  dsimp only
  rw [listTransactions_again]

theorem loads_empty (h : (loads log reservations limit initial random n).transactions = []) :
    loads log reservations limit initial random n = loads log reservations limit initial random 0 := by
  induction n with
  | zero => rfl
  | succ n ih =>
    have hn := fetch_empty (inv_loads random n) h
    have hsame := ih hn
    show fetchTransactions log reservations limit true false (loads log reservations limit initial random n) _ = _
    rw [hsame] at hn ⊢
    exact fetch_of_empty hn

theorem loads_of_empty (h : (loads log reservations limit initial random n).transactions = []) :
    loads log reservations limit initial random (n + 1) = loads log reservations limit initial random n := by
  have hsame := loads_empty h
  show fetchTransactions log reservations limit true false (loads log reservations limit initial random n) _ = _
  rw [hsame] at h ⊢
  exact fetch_of_empty h

theorem loads_congr (h : ∀ k ≤ n, random' k = random k) :
    loads log reservations limit initial random' n = loads log reservations limit initial random n := by
  induction n with
  | zero =>
    unfold loads
    rw [h 0 le_rfl]
  | succ n ih =>
    unfold loads
    rw [ih fun k hk => h k (by omega), h (n + 1) le_rfl]

/-- What is missing from some load on is not shown. -/
theorem not_complete_of_stays {P : System → Prop} (hstart : P (loads log reservations limit initial random n))
    (hstep : ∀ k, n ≤ k → P (loads log reservations limit initial random k) →
      P (loads log reservations limit initial random (k + 1)))
    (hmissing : ∀ s, P s → Missing log s op) : ¬ Complete log reservations limit initial random := by
  rintro ⟨m, hcomplete⟩
  have hstays : ∀ k, n ≤ k → P (loads log reservations limit initial random k) := by
    intro k hk
    induction k, hk using Nat.le_induction with
    | base => exact hstart
    | succ k hk ih => exact hstep k hk ih
  obtain ⟨hop, hsome, hnot⟩ := hmissing _ (hstays (max n m) (le_max_left n m))
  exact hnot (hcomplete (max n m) (le_max_right n m) op hop hsome)

theorem exists_above (log : OperationLog) : ∃ large, ∀ op ∈ log.operations, op.key.operationId < large := by
  refine ⟨(log.operations.map fun op => op.key.operationId).sum + 1, fun op hop => ?_⟩
  have hle := List.le_sum_of_mem (List.mem_map_of_mem (f := fun op : Operation => op.key.operationId) hop)
  omega

/-- The ids drawn after some load, replaced. -/
def drawing (random : ℕ → ℕ) (n id k : ℕ) : ℕ := if k ≤ n then random k else id

theorem loads_drawing (random : ℕ → ℕ) (n id : ℕ) :
    loads log reservations limit initial (drawing random n id) n = loads log reservations limit initial random n :=
  loads_congr fun _ hk => if_pos hk

/-- A load after the replacement draws the new id. -/
theorem loads_drawing_succ {k id : ℕ} (hk : n ≤ k) :
    loads log reservations limit initial (drawing random n id) (k + 1) =
      fetchTransactions log reservations limit true false
        (loads log reservations limit initial (drawing random n id) k) id := by
  have hdrawn : drawing random n id (k + 1) = id := if_neg (by omega)
  show fetchTransactions log reservations limit true false _ (drawing random n id (k + 1)) = _
  rw [hdrawn]

/-- What was not created before the last entry's second is not loaded with small ids. -/
theorem not_complete_of_skipped (hdated : Dated log reservations initial)
    (hmissing : Missing log (loads log reservations limit initial random n) op)
    (ht : paginationTimestamp (loads log reservations limit initial random n).transactions = some t) (hfits : t < 2 ^ 32)
    (hskipped : ¬ op.CreatedBefore t) : ¬ Complete log reservations limit initial (drawing random n 0) := by
  refine @not_complete_of_stays log reservations limit n initial (drawing random n 0) op
    (fun s => Missing log s op ∧ ∃ t', paginationTimestamp s.transactions = some t' ∧ t' ≤ t) ?_ ?_ fun _ h => h.1
  · rw [loads_drawing]
    exact ⟨hmissing, t, ht, le_rfl⟩
  · rintro k hk ⟨hstill, t', ht', hle⟩
    have hinv := @inv_loads log reservations limit initial (drawing random n 0) k
    have hpage : op ∉ pageAfter log limit t' 0 := by
      intro hmem
      obtain ⟨shown, hshown⟩ := Option.isSome_iff_exists.mp hmissing.2.1
      refine hskipped ((createdBefore_iff hshown).mpr ((shown_lt_iff hshown).mpr ?_))
      have hbefore := before_of_mem_pageAfter hmem
      omega
    rw [loads_drawing_succ hk]
    obtain ⟨t'', ht'', hle'', -⟩ := @Inv.timestamp_page log reservations limit 0 t' initial _ hinv hdated ht' (by omega)
    exact ⟨hstill.page hinv ht' (by omega) hpage, t'', ht'', hle''.trans hle⟩

/-- With large ids the pages stop at a second without an earlier operation. -/
theorem not_complete_of_stuck (hdated : Dated log reservations initial)
    (hmissing : Missing log (loads log reservations limit initial random n) op)
    (ht : paginationTimestamp (loads log reservations limit initial random n).transactions = some t) (hfits : t < 2 ^ 32)
    (hbefore : op.CreatedBefore t) (hstuck : ∀ other ∈ newestUpTo log limit t, ¬ other.CreatedBefore t) :
    ∃ random', ¬ Complete log reservations limit initial random' := by
  obtain ⟨large, hlarge⟩ := exists_above log
  refine ⟨drawing random n large, @not_complete_of_stays log reservations limit n initial (drawing random n large) op
    (fun s => Missing log s op ∧ paginationTimestamp s.transactions = some t) ?_ ?_ fun _ h => h.1⟩
  · rw [loads_drawing]
    exact ⟨hmissing, ht⟩
  · rintro k hk ⟨hstill, ht'⟩
    have hinv := @inv_loads log reservations limit initial (drawing random n large) k
    have hpage : pageAfter log limit t large = newestUpTo log limit t := pageAfter_of_large hlarge
    rw [loads_drawing_succ hk]
    refine ⟨hstill.page hinv ht' hfits fun hmem => hstuck op (hpage ▸ hmem) hbefore, ?_⟩
    obtain ⟨t', hnext, -, hcases⟩ := @Inv.timestamp_page log reservations limit large t initial _ hinv hdated ht' hfits
    rcases hcases with rfl | ⟨other, hother, shown, hshown, hlt⟩
    · exact hnext
    · exact absurd ⟨shown, hshown, hlt⟩ (hstuck other (hpage ▸ hother))

theorem pagesOn_of_complete (hdated : Dated log reservations initial)
    (h : ∀ random, Complete log reservations limit initial random) (random : ℕ → ℕ) (n : ℕ) :
    PagesOn log limit (loads log reservations limit initial random n) := by
  intro op hmissing
  have hinv := @inv_loads log reservations limit initial random n
  -- a state that every load keeps would miss the operation for ever
  have hmoves : ¬ ∀ k, n ≤ k → loads log reservations limit initial random k = loads log reservations limit initial random n →
      loads log reservations limit initial random (k + 1) = loads log reservations limit initial random n := by
    intro hkeeps
    exact not_complete_of_stays (P := fun s => s = loads log reservations limit initial random n) rfl hkeeps
      (fun s hs => hs ▸ hmissing) (h random)
  cases ht : paginationTimestamp (loads log reservations limit initial random n).transactions with
  | none =>
    have hempty : (loads log reservations limit initial random n).transactions = [] := by
      rw [List.eq_nil_iff_forall_not_mem]
      intro e he
      obtain ⟨t, ht', -⟩ := hinv.exists_timestamp he fun e he => hinv.dated hdated he
      rw [ht] at ht'
      simp at ht'
    refine absurd (fun k _ hsame => ?_) hmoves
    rw [loads_of_empty (hsame ▸ hempty), hsame]
  | some t =>
    by_cases hfits : t < 2 ^ 32
    · by_cases hbefore : op.CreatedBefore t
      · refine ⟨t, rfl, hfits, hbefore, ?_⟩
        by_contra hnone
        have hstuck : ∀ other ∈ newestUpTo log limit t, ¬ other.CreatedBefore t :=
          fun other hother hcreated => hnone ⟨other, hother, hcreated⟩
        obtain ⟨random', hincomplete⟩ := not_complete_of_stuck hdated hmissing ht hfits hbefore hstuck
        exact hincomplete (h random')
      · exact absurd (h _) (not_complete_of_skipped hdated hmissing ht hfits hbefore)
    · refine absurd (fun k _ hsame => ?_) hmoves
      show fetchTransactions log reservations limit true false (loads log reservations limit initial random k) _ = _
      rw [hsame]
      exact fetch_refused ht (by omega)

/-- Loading more shows every operation exactly once if in every state that is reached the pages go on,
and only then unless something is dated to second zero. -/
theorem complete_of_pages (log : OperationLog) (reservations : List Reservation) (limit : ℕ) (deposits : Deposits) :
    ((∀ random n, PagesOn log limit (loads log reservations limit deposits random n)) →
      ∀ random, Complete log reservations limit deposits random) ∧
    (Dated log reservations deposits → (∀ random, Complete log reservations limit deposits random) →
      ∀ random n, PagesOn log limit (loads log reservations limit deposits random n)) :=
  ⟨fun h random => complete_of_pagesOn (h random), fun hdated h random n => pagesOn_of_complete hdated h random n⟩

/-- A payment at a time in nanoseconds. -/
def paymentAt (creationTime : ℤ) (operationId : ℕ) : Operation := ⟨⟨creationTime, operationId⟩, .ok (some (1000, .other "lnPay"))⟩

/-- Two payments a second apart, the newer first. -/
def secondApart : OperationLog where
  operations := [paymentAt 1700000001500000000 2, paymentAt 1700000000500000000 1]
  sorted := by decide
  unique := by decide

theorem secondApart_first (random : ℕ → ℕ) : loads secondApart [] 1 .empty random 0 =
    ⟨.empty, [⟨1700000001, .operation 2, 1000, .other "lnPay"⟩]⟩ := rfl

/-- The second page has the older payment, whatever the random id is. -/
theorem secondApart_second (random : ℕ → ℕ) : loads secondApart [] 1 .empty random 1 =
    ⟨.empty, [⟨1700000001, .operation 2, 1000, .other "lnPay"⟩, ⟨1700000000, .operation 1, 1000, .other "lnPay"⟩]⟩ := by
  unfold loads
  rw [secondApart_first]
  rfl

theorem complete_of_pages_demo : ∀ random, Complete secondApart [] 1 .empty random := by
  refine (complete_of_pages secondApart [] 1 .empty).1 fun random n => ?_
  rintro op ⟨hop, hsome, hnot⟩
  cases n with
  | zero =>
    rw [secondApart_first] at hnot ⊢
    obtain rfl | rfl : op = paymentAt 1700000001500000000 2 ∨ op = paymentAt 1700000000500000000 1 := by
      simpa [secondApart] using hop
    · exact absurd (by decide) hnot
    · exact ⟨1700000001, by decide, by decide, by decide, paymentAt 1700000000500000000 1,
        List.mem_singleton_self _, by decide⟩
  | succ n =>
    refine absurd (shownOnce_loads_mono hop hsome (Nat.succ_le_succ (Nat.zero_le n)) ?_) hnot
    rw [secondApart_second]
    obtain rfl | rfl : op = paymentAt 1700000001500000000 2 ∨ op = paymentAt 1700000000500000000 1 := by
      simpa [secondApart] using hop
    · decide
    · decide

/-- Two payments within a second, the newer first. -/
def sameSecond : OperationLog where
  operations := [paymentAt 1700000000700000000 2, paymentAt 1700000000200000000 1]
  sorted := by decide
  unique := by decide

/-- One is on the first page, and the other on none. -/
theorem sameSecond_loses : ¬ ∀ log reservations limit deposits, 1 ≤ limit →
    ∀ random, Complete log reservations limit deposits random := by
  intro h
  obtain ⟨n, hcomplete⟩ := h sameSecond [] 1 .empty le_rfl fun _ => 0
  have hkeeps : ∀ m, loads sameSecond [] 1 .empty (fun _ => 0) m =
      ⟨.empty, [⟨1700000000, .operation 2, 1000, .other "lnPay"⟩]⟩ := by
    intro m
    induction m with
    | zero => rfl
    | succ m ih =>
      unfold loads
      rw [ih]
      rfl
  have hshown := hcomplete n le_rfl (paymentAt 1700000000200000000 1) (by simp [sameSecond]) (by decide)
  rw [hkeeps n] at hshown
  revert hshown
  decide

end TransactionHistory
