import Fedi.TransactionHistory.Store

/-!
# What the list of transactions holds

An operation that shows has one id, and keeps it once its page was rendered: the address that it
claims is settled by then.  In every state of every run each entry of the list is the one of such
an operation, or the row of an address that is not settled, or the row of a formation payment
(`inv_loads`); so an operation whose entry is in the list is shown exactly once (`shownOnce_iff`).
-/

namespace TransactionHistory

open BTreeMaps InsertionMaps FiFunding

/-! ## What an operation shows -/

/-- When it was created, in seconds, with its amount and kind. -/
def Operation.shown (op : Operation) : Option (ℕ × ℕ × TransactionKind) :=
  match toUnixTime op.key.creationTime, op.transaction with
  | some createdAt, .ok (some (amount, kind)) => if kind.isShown then some (createdAt, amount, kind) else none
  | _, _ => none

/-- The address whose deposit it claims. -/
def Operation.address (op : Operation) : Option String :=
  match op.shown with
  | some (_, _, .onchainDeposit onchainAddress) => some onchainAddress
  | _ => none

/-- The claim that settled its address has the id of the address. -/
def Operation.idIn (deposits : Deposits) (op : Operation) : TransactionId :=
  match op.address with
  | some address =>
    if deposits.get? address = some (.claimedBy op.key.operationId) then .awaitingDeposit address
    else .operation op.key.operationId
  | none => .operation op.key.operationId

def Operation.entry (deposits : Deposits) (op : Operation) : Option TransactionListEntry :=
  op.shown.map fun shown => ⟨shown.1, op.idIn deposits, shown.2.1, shown.2.2⟩

/-- An entry under one of the ids of the operation. -/
def Operation.Shows (deposits : Deposits) (op : Operation) (e : TransactionListEntry) : Prop :=
  e.id = .operation op.key.operationId ∨
    ∃ address ∈ op.address,
      deposits.get? address = some (.claimedBy op.key.operationId) ∧ e.id = .awaitingDeposit address

instance (deposits : Deposits) (op : Operation) (e : TransactionListEntry) : Decidable (op.Shows deposits e) :=
  inferInstanceAs (Decidable (_ ∨ ∃ address ∈ op.address, _))

def ShownOnce (s : System) (op : Operation) : Prop :=
  s.transactions.filter (fun e => decide (op.Shows s.deposits e)) = (op.entry s.deposits).toList

instance (s : System) (op : Operation) : Decidable (ShownOnce s op) := inferInstanceAs (Decidable (_ = _))

/-- Its address does not await a deposit any more. -/
def Operation.Settled (deposits : Deposits) (op : Operation) : Prop :=
  ∀ address ∈ op.address, ∀ createdAt, deposits.get? address ≠ some (.awaiting createdAt)

/-- Addresses are only settled, and stay settled. -/
def Later (deposits deposits' : Deposits) : Prop :=
  ∀ address, deposits'.get? address = deposits.get? address ∨
    (∃ createdAt, deposits.get? address = some (.awaiting createdAt)) ∧
      ∃ id, deposits'.get? address = some (.claimedBy id)

variable {deposits deposits' deposits'' : Deposits} {op : Operation} {e : TransactionListEntry} {page : List Operation}

theorem Later.refl (deposits : Deposits) : Later deposits deposits := fun _ => .inl rfl

theorem Later.trans (h : Later deposits deposits') (h' : Later deposits' deposits'') : Later deposits deposits'' := by
  intro address
  rcases h' address with hsame' | ⟨⟨createdAt, hawaiting⟩, hclaimed⟩
  · rw [hsame']
    exact h address
  · rcases h address with hsame | ⟨-, id, hsettled⟩
    · exact .inr ⟨⟨createdAt, hsame ▸ hawaiting⟩, hclaimed⟩
    · rw [hsettled] at hawaiting
      simp at hawaiting

theorem Later.awaiting (h : Later deposits deposits') {address : String} {createdAt : ℕ}
    (hawaiting : deposits'.get? address = some (.awaiting createdAt)) :
    deposits.get? address = some (.awaiting createdAt) := by
  rcases h address with hsame | ⟨-, id, hsettled⟩
  · exact hsame ▸ hawaiting
  · rw [hsettled] at hawaiting
    simp at hawaiting

theorem Later.settled (h : Later deposits deposits') (hsettled : op.Settled deposits) : op.Settled deposits' :=
  fun address haddress createdAt hawaiting => hsettled address haddress createdAt (h.awaiting hawaiting)

theorem Later.idIn (h : Later deposits deposits') (hsettled : op.Settled deposits) : op.idIn deposits' = op.idIn deposits := by
  unfold Operation.idIn
  cases haddress : op.address with
  | none => rfl
  | some address =>
    rcases h address with hsame | ⟨⟨createdAt, hawaiting⟩, -⟩
    · dsimp only
      rw [hsame]
    · exact absurd hawaiting (hsettled address haddress createdAt)

theorem Later.entry (h : Later deposits deposits') (hsettled : op.Settled deposits) : op.entry deposits' = op.entry deposits := by
  unfold Operation.entry
  rw [h.idIn hsettled]

/-! ## A page -/

theorem settleAwaitingDeposit_spec (deposits : Deposits) (address : String) (claimId : ℕ) :
    Later deposits (settleAwaitingDeposit deposits address claimId).1 ∧
    (∀ createdAt, (settleAwaitingDeposit deposits address claimId).1.get? address ≠ some (.awaiting createdAt)) ∧
    (settleAwaitingDeposit deposits address claimId).2 =
      if (settleAwaitingDeposit deposits address claimId).1.get? address = some (.claimedBy claimId) then
        some (.awaitingDeposit address) else none := by
  unfold settleAwaitingDeposit
  cases hget : deposits.get? address with
  | none => simp [hget, Later.refl]
  | some deposit =>
    cases deposit with
    | awaiting createdAt =>
      refine ⟨fun other => ?_, by simp, by simp⟩
      by_cases hother : other = address
      · subst hother
        exact .inr ⟨⟨createdAt, hget⟩, claimId, by simp⟩
      · exact .inl (BTreeMap.get?_insert_ne _ _ hother)
    | claimed => simp [hget, Later.refl]
    | claimedBy id => simp [hget, Later.refl]

/-- What an operation renders as, once it is settled. -/
def Operation.listEntry (deposits : Deposits) (op : Operation) : Option ListEntry :=
  match toUnixTime op.key.creationTime, op.transaction with
  | none, _ => none
  | some _, .error e => some (.error e)
  | some _, .ok none => none
  | some createdAt, .ok (some (amount, kind)) => some (.ok ⟨createdAt, op.idIn deposits, amount, kind⟩)

theorem shownEntry_listEntry (deposits : Deposits) (op : Operation) :
    (op.listEntry deposits).bind shownEntry = op.entry deposits := by
  unfold Operation.listEntry Operation.entry Operation.shown
  cases toUnixTime op.key.creationTime with
  | none => rfl
  | some createdAt =>
    rcases op.transaction with _ | _ | ⟨amount, kind⟩
    · rfl
    · rfl
    · dsimp only [Option.bind_some, shownEntry]
      split <;> rfl

theorem getTransaction_spec (deposits : Deposits) (op : Operation) :
    Later deposits (getTransaction deposits op).1 ∧ op.Settled (getTransaction deposits op).1 ∧
      (getTransaction deposits op).2 = op.listEntry (getTransaction deposits op).1 := by
  unfold getTransaction Operation.listEntry Operation.Settled Operation.idIn Operation.address Operation.shown
  cases htime : toUnixTime op.key.creationTime with
  | none => simp [Later.refl]
  | some createdAt =>
    rcases htransaction : op.transaction with _ | _ | ⟨amount, kind⟩
    · simp [Later.refl]
    · simp [Later.refl]
    · cases kind with
      | onchainDeposit onchainAddress =>
        obtain ⟨hlater, hsettled, hid⟩ := settleAwaitingDeposit_spec deposits onchainAddress op.key.operationId
        refine ⟨hlater, ?_, ?_⟩
        · simpa [TransactionKind.isShown] using hsettled
        · dsimp only
          rw [hid]
          simp only [TransactionKind.isShown, if_true]
          split <;> rfl
      | lnRecurringdReceive state =>
        cases hshown : (TransactionKind.lnRecurringdReceive state).isShown <;> simp [hshown, Later.refl]
      | fiFormationPayment seatsPaid seatsTotal => simp [TransactionKind.isShown, Later.refl]
      | other kind => simp [TransactionKind.isShown, Later.refl]

theorem Later.listEntry (h : Later deposits deposits') (hsettled : op.Settled deposits) :
    op.listEntry deposits' = op.listEntry deposits := by
  unfold Operation.listEntry
  rw [h.idIn hsettled]

theorem getTransactions_spec (deposits : Deposits) (page : List Operation) :
    Later deposits (getTransactions deposits page).1 ∧ (∀ op ∈ page, op.Settled (getTransactions deposits page).1) ∧
      (getTransactions deposits page).2 = page.filterMap (Operation.listEntry (getTransactions deposits page).1) := by
  induction page generalizing deposits with
  | nil => exact ⟨Later.refl _, by simp, rfl⟩
  | cons op page ih =>
    obtain ⟨hlater, hsettled, hentry⟩ := getTransaction_spec deposits op
    obtain ⟨hlater', hsettled', hentries⟩ := ih (getTransaction deposits op).1
    unfold getTransactions
    dsimp only
    refine ⟨hlater.trans hlater', ?_, ?_⟩
    · intro other hother
      rcases List.mem_cons.mp hother with rfl | hpage
      · exact hlater'.settled hsettled
      · exact hsettled' other hpage
    · rw [List.filterMap_cons, hlater'.listEntry hsettled, ← hentry, hentries]
      cases (getTransaction deposits op).2 <;> rfl

/-- What is settled already is not settled again. -/
theorem getTransaction_of_settled (h : op.Settled deposits) : (getTransaction deposits op).1 = deposits := by
  unfold Operation.Settled Operation.address Operation.shown at h
  unfold getTransaction settleAwaitingDeposit
  cases htime : toUnixTime op.key.creationTime with
  | none => rfl
  | some createdAt =>
    rw [htime] at h
    rcases htransaction : op.transaction with _ | _ | ⟨amount, kind⟩
    · rfl
    · rfl
    · rw [htransaction] at h
      cases kind with
      | onchainDeposit onchainAddress =>
        have hsettled : ∀ createdAt, deposits.get? onchainAddress ≠ some (.awaiting createdAt) := by
          simpa [TransactionKind.isShown] using h
        dsimp only
        split
        next createdAt' hget => exact absurd hget (hsettled createdAt')
        all_goals rfl
      | lnRecurringdReceive state => rfl
      | fiFormationPayment seatsPaid seatsTotal => rfl
      | other kind => rfl

theorem getTransactions_of_settled (h : ∀ op ∈ page, op.Settled deposits) : (getTransactions deposits page).1 = deposits := by
  induction page with
  | nil => rfl
  | cons op page ih =>
    unfold getTransactions
    dsimp only
    rw [getTransaction_of_settled (h op List.mem_cons_self)]
    exact ih fun other hother => h other (List.mem_cons_of_mem _ hother)

/-- A page that is rendered again renders the same. -/
theorem getTransactions_again (deposits : Deposits) (page : List Operation) :
    getTransactions (getTransactions deposits page).1 page = getTransactions deposits page := by
  obtain ⟨-, hsettled, hentries⟩ := getTransactions_spec deposits page
  have hsame := getTransactions_of_settled hsettled
  refine Prod.ext hsame ?_
  rw [hentries, (getTransactions_spec _ page).2.2, hsame]

/-- An address changes when a claim of the page settles it. -/
theorem getTransaction_settles (deposits : Deposits) (op : Operation) (address : String) :
    (getTransaction deposits op).1.get? address = deposits.get? address ∨
      op.address = some address ∧
        (getTransaction deposits op).1.get? address = some (.claimedBy op.key.operationId) := by
  unfold getTransaction settleAwaitingDeposit Operation.address Operation.shown
  cases htime : toUnixTime op.key.creationTime with
  | none => exact .inl rfl
  | some createdAt =>
    rcases htransaction : op.transaction with _ | _ | ⟨amount, kind⟩
    · exact .inl rfl
    · exact .inl rfl
    · cases kind with
      | onchainDeposit onchainAddress =>
        dsimp only
        split
        · by_cases haddress : address = onchainAddress
          · subst haddress
            exact .inr ⟨rfl, by simp⟩
          · exact .inl (BTreeMap.get?_insert_ne _ _ haddress)
        all_goals exact .inl rfl
      | lnRecurringdReceive state => exact .inl rfl
      | fiFormationPayment seatsPaid seatsTotal => exact .inl rfl
      | other kind => exact .inl rfl

theorem getTransactions_settles (deposits : Deposits) (page : List Operation) (address : String) :
    (getTransactions deposits page).1.get? address = deposits.get? address ∨
      ∃ op ∈ page, op.address = some address ∧
        (getTransactions deposits page).1.get? address = some (.claimedBy op.key.operationId) := by
  induction page generalizing deposits with
  | nil => exact .inl rfl
  | cons op page ih =>
    unfold getTransactions
    dsimp only
    rcases ih (getTransaction deposits op).1 with hsame | ⟨other, hother, haddress, hclaimed⟩
    · rcases getTransaction_settles deposits op address with hkept | ⟨haddress, hclaimed⟩
      · exact .inl (hsame.trans hkept)
      · exact .inr ⟨op, List.mem_cons_self, haddress, hsame.trans hclaimed⟩
    · exact .inr ⟨other, List.mem_cons_of_mem _ hother, haddress, hclaimed⟩

/-! ## The entries of the list -/

section

variable (log : OperationLog) (reservations : List Reservation) (limit : ℕ) (initial : Deposits)

/-- Where an entry comes from. -/
inductive Origin (deposits : Deposits) (e : TransactionListEntry) : Prop
  | operation (op : Operation) (hmem : op ∈ log.operations) (hsettled : op.Settled deposits)
      (hentry : op.entry deposits = some e)
  | awaitingDeposit (address : String) (createdAt : ℕ) (hget : deposits.get? address = some (.awaiting createdAt))
      (heq : e = awaitingDepositEntry address createdAt)
  | formation (reservation : Reservation) (hmem : reservation ∈ reservations) (totals : FormationTotals)
      (heq : e = formationEntry reservation totals)

structure Inv (s : System) : Prop where
  later : Later initial s.deposits
  firstPage : ∀ op ∈ log.paginateOperationsRev limit none, op.Settled s.deposits
  origin : ∀ e ∈ s.transactions, Origin log reservations s.deposits e
  nodup : (s.transactions.map TransactionListEntry.id).Nodup
  sorted : s.transactions.Pairwise fun a b => b.createdAt ≤ a.createdAt

end

variable {log : OperationLog} {reservations : List Reservation} {limit newRandom t : ℕ} {initial : Deposits}
  {s : System} {x : TransactionListEntry}

theorem entry_id (h : op.entry deposits = some e) : e.id = op.idIn deposits := by
  unfold Operation.entry at h
  obtain ⟨shown, -, rfl⟩ := Option.map_eq_some_iff.mp h
  rfl

theorem entry_of_address {address : String} (haddress : op.address = some address)
    (hclaimed : deposits.get? address = some (.claimedBy op.key.operationId)) :
    ∃ e, op.entry deposits = some e ∧ e.id = .awaitingDeposit address := by
  have hid : op.idIn deposits = .awaitingDeposit address := by
    unfold Operation.idIn
    rw [haddress]
    exact if_pos hclaimed
  unfold Operation.address at haddress
  split at haddress
  next shown hshown => exact ⟨_, by rw [Operation.entry, hshown]; rfl, hid⟩
  · simp at haddress

theorem idIn_cases (deposits : Deposits) (op : Operation) :
    op.idIn deposits = .operation op.key.operationId ∨
      ∃ address ∈ op.address, deposits.get? address = some (.claimedBy op.key.operationId) ∧
        op.idIn deposits = .awaitingDeposit address := by
  unfold Operation.idIn
  cases haddress : op.address with
  | none => exact .inl rfl
  | some address =>
    dsimp only
    split
    next hclaimed => exact .inr ⟨address, rfl, hclaimed, rfl⟩
    · exact .inl rfl

theorem operation_eq (hop : op ∈ log.operations) {other : Operation} (hother : other ∈ log.operations)
    (h : other.key.operationId = op.key.operationId) : other = op :=
  List.inj_on_of_nodup_map log.unique hother hop h

/-- No other operation has an entry under an id of the operation. -/
theorem operation_eq_of_shows (hop : op ∈ log.operations) {other : Operation} (hother : other ∈ log.operations)
    (hentry : other.entry deposits = some x) (hshows : op.Shows deposits x) : other = op := by
  have hid := entry_id hentry
  refine operation_eq hop hother ?_
  rcases idIn_cases deposits other with hown | ⟨address, -, hclaimed, hown⟩
  · rcases hshows with hplain | ⟨address, -, -, hrow⟩
    · rw [hid, hown, TransactionId.operation.injEq] at hplain
      exact hplain
    · rw [hid, hown] at hrow
      simp at hrow
  · rcases hshows with hplain | ⟨address', -, hclaimed', hrow⟩
    · rw [hid, hown] at hplain
      simp at hplain
    · rw [hid, hown, TransactionId.awaitingDeposit.injEq] at hrow
      subst hrow
      rw [hclaimed] at hclaimed'
      simpa using hclaimed'

/-- An entry under an id of the operation is the operation's, which was rendered. -/
theorem Origin.of_shows (hop : op ∈ log.operations) (h : Origin log reservations deposits x)
    (hshows : op.Shows deposits x) : op.Settled deposits ∧ op.entry deposits = some x := by
  cases h with
  | operation other hmem hsettled hentry =>
    rw [← operation_eq_of_shows hop hmem hentry hshows]
    exact ⟨hsettled, hentry⟩
  | awaitingDeposit address createdAt hget heq =>
    subst heq
    rcases hshows with hplain | ⟨address', -, hclaimed, hrow⟩
    · simp [awaitingDepositEntry] at hplain
    · simp only [awaitingDepositEntry, TransactionId.awaitingDeposit.injEq] at hrow
      subst hrow
      rw [hget] at hclaimed
      simp at hclaimed
  | formation reservation hmem totals heq =>
    subst heq
    rcases hshows with hplain | ⟨address, -, -, hrow⟩
    · simp [formationEntry] at hplain
    · simp [formationEntry] at hrow

theorem Origin.eq_of_shows (hop : op ∈ log.operations) (hentry : op.entry deposits = some e)
    (h : Origin log reservations deposits x) (hshows : op.Shows deposits x) : x = e :=
  Option.some.inj ((h.of_shows hop hshows).2.symm.trans hentry)

theorem shows_of_id (hentry : op.entry deposits = some e) (hid : x.id = e.id) : op.Shows deposits x := by
  rw [entry_id hentry] at hid
  rcases idIn_cases deposits op with hown | ⟨address, haddress, hclaimed, hown⟩
  · exact .inl (hid.trans hown)
  · exact .inr ⟨address, haddress, hclaimed, hid.trans hown⟩

theorem eq_singleton {l : List TransactionListEntry} (hnodup : l.Nodup) (hmem : e ∈ l) (h : ∀ x ∈ l, x = e) : l = [e] := by
  have hlength : l.length ≤ 1 := by
    rw [List.eq_replicate_of_mem h] at hnodup
    exact List.nodup_replicate.mp hnodup
  match l, hmem, hlength with
  | [x], hmem, _ => rw [List.mem_singleton.mp hmem]

/-- An operation is shown exactly once if its entry is in the list. -/
theorem shownOnce_iff (h : Inv log reservations limit initial s) (hop : op ∈ log.operations)
    (hentry : op.entry s.deposits = some e) : ShownOnce s op ↔ e ∈ s.transactions := by
  unfold ShownOnce
  rw [hentry, Option.toList_some]
  constructor
  · intro hfilter
    have hmem : e ∈ s.transactions.filter fun x => decide (op.Shows s.deposits x) := by simp [hfilter]
    exact (List.mem_filter.mp hmem).1
  · intro hmem
    refine eq_singleton (h.nodup.of_map.filter _) ?_ fun x hx => ?_
    · exact List.mem_filter.mpr ⟨hmem, by simpa using shows_of_id hentry rfl⟩
    · rw [List.mem_filter, decide_eq_true_eq] at hx
      exact (h.origin x hx.1).eq_of_shows hop hentry hx.2

/-! ## Loading -/

theorem mem_of_mem_sortAndTruncate {entries : List ListEntry} {entry : ListEntry} {n : ℕ}
    (h : entry ∈ sortAndTruncate entries n) : entry ∈ entries :=
  (List.mem_insertionSort _).mp (List.mem_of_mem_take h)

theorem of_mem_mergeAwaitingDeposits {entries : List ListEntry} {oldest : Option ℕ}
    (h : .ok e ∈ mergeAwaitingDeposits deposits entries limit oldest) :
    .ok e ∈ entries ∨
      ∃ address createdAt, deposits.get? address = some (.awaiting createdAt) ∧ e = awaitingDepositEntry address createdAt := by
  unfold mergeAwaitingDeposits at h
  dsimp only at h
  split at h
  · exact .inl h
  · rcases List.mem_append.mp (mem_of_mem_sortAndTruncate h) with hold | hrow
    · exact .inl hold
    · obtain ⟨⟨address, createdAt⟩, hrow, heq⟩ := List.mem_map.mp hrow
      refine .inr ⟨address, createdAt, ?_, (Except.ok.inj heq).symm⟩
      have hlisted := (List.mem_filter.mp hrow).1
      unfold listAwaitingDeposits at hlisted
      obtain ⟨⟨address', deposit⟩, hmem, hdeposit⟩ := List.mem_filterMap.mp hlisted
      cases deposit with
      | awaiting createdAt' =>
        simp only [Option.some.injEq, Prod.mk.injEq] at hdeposit
        rw [← hdeposit.1, ← hdeposit.2]
        exact BTreeMap.mem_entries.mp hmem
      | claimed => simp at hdeposit
      | claimedBy id => simp at hdeposit

theorem of_mem_mergeFiFormationPayments {entries : List ListEntry} {oldest : Option ℕ}
    (h : .ok e ∈ mergeFiFormationPayments reservations entries limit oldest) :
    .ok e ∈ entries ∨ ∃ reservation ∈ reservations, ∃ totals, e = formationEntry reservation totals := by
  unfold mergeFiFormationPayments at h
  split at h
  · exact .inl h
  · rcases List.mem_append.mp (mem_of_mem_sortAndTruncate h) with hold | hrow
    · exact .inl hold
    · obtain ⟨reservation, hmem, hrow⟩ := List.mem_filterMap.mp hrow
      unfold formationRow at hrow
      dsimp only at hrow
      split at hrow
      · simp at hrow
      · split at hrow
        · simp at hrow
        · exact .inr ⟨reservation, hmem, _, (Except.ok.inj (Option.some.inj hrow)).symm⟩

theorem mem_log_of_page {startAfter : Option OperationLogKey}
    (h : op ∈ log.paginateOperationsRev limit startAfter) : op ∈ log.operations :=
  (List.mem_filter.mp (List.mem_of_mem_take h)).1

theorem mem_shown_iff {entries : List ListEntry} :
    e ∈ entries.filterMap shownEntry ↔ .ok e ∈ entries ∧ e.kind.isShown = true := by
  rw [List.mem_filterMap]
  constructor
  · rintro ⟨entry, hentry, hshown⟩
    cases entry with
    | error message => simp [shownEntry] at hshown
    | ok x =>
      simp only [shownEntry] at hshown
      by_cases hkind : x.kind.isShown = true
      · rw [if_pos hkind] at hshown
        obtain rfl := Option.some.inj hshown
        exact ⟨hentry, hkind⟩
      · rw [if_neg hkind] at hshown
        simp at hshown
  · rintro ⟨hmem, hkind⟩
    exact ⟨.ok e, hmem, by simp [shownEntry, hkind]⟩

/-- What a page shows. -/
theorem shown_getTransactions (deposits : Deposits) (page : List Operation) :
    (getTransactions deposits page).2.filterMap shownEntry =
      page.filterMap (Operation.entry (getTransactions deposits page).1) := by
  rw [(getTransactions_spec deposits page).2.2, List.filterMap_filterMap]
  simp only [shownEntry_listEntry]

theorem origin_of_page {startAfter : Option OperationLogKey}
    (h : e ∈ (log.paginateOperationsRev limit startAfter).filterMap
      (Operation.entry (getTransactions deposits (log.paginateOperationsRev limit startAfter)).1)) :
    Origin log reservations (getTransactions deposits (log.paginateOperationsRev limit startAfter)).1 e := by
  obtain ⟨op, hop, hentry⟩ := List.mem_filterMap.mp h
  have hsettled := (getTransactions_spec deposits (log.paginateOperationsRev limit startAfter)).2.1 op hop
  exact .operation op (mem_log_of_page hop) hsettled hentry

/-- The first page is rendered before its rows are listed. -/
theorem origin_of_firstPage
    (h : e ∈ (listTransactions log reservations limit deposits none).2.filterMap shownEntry) :
    Origin log reservations (listTransactions log reservations limit deposits none).1 e := by
  obtain ⟨hmem, hkind⟩ := mem_shown_iff.mp h
  rcases of_mem_mergeFiFormationPayments hmem with hmerged | ⟨reservation, hreservation, totals, heq⟩
  · rcases of_mem_mergeAwaitingDeposits hmerged with hpage | ⟨address, createdAt, hget, heq⟩
    · refine @origin_of_page deposits e log reservations limit none ?_
      rw [← shown_getTransactions]
      exact mem_shown_iff.mpr ⟨hpage, hkind⟩
    · exact .awaitingDeposit address createdAt hget heq
  · exact .formation reservation hreservation totals heq

theorem fetch_firstPage {more refresh : Bool} (h : (if more then paginationTimestamp s.transactions else none) = none) :
    fetchTransactions log reservations limit more refresh s newRandom =
      ⟨(listTransactions log reservations limit s.deposits none).1,
        updateTransactions ((listTransactions log reservations limit s.deposits none).2.filterMap shownEntry)
          (if refresh then [] else s.transactions)⟩ := by
  unfold fetchTransactions rpcListTransactions
  rw [h]
  simp

theorem fetch_refused {refresh : Bool} (h : paginationTimestamp s.transactions = some t) (ht : 2 ^ 32 ≤ t) :
    fetchTransactions log reservations limit true refresh s newRandom = s := by
  unfold fetchTransactions rpcListTransactions
  dsimp only
  rw [if_pos rfl, h, if_pos ⟨t, rfl, ht⟩]

/-- The operations of the page after the last entry. -/
def pageAfter (log : OperationLog) (limit t newRandom : ℕ) : List Operation :=
  log.paginateOperationsRev limit (some ⟨t * 10 ^ 9, newRandom⟩)

theorem fetch_page (h : paginationTimestamp s.transactions = some t) (ht : t < 2 ^ 32) :
    fetchTransactions log reservations limit true false s newRandom =
      ⟨(getTransactions s.deposits (pageAfter log limit t newRandom)).1,
        updateTransactions
          ((pageAfter log limit t newRandom).filterMap
            (Operation.entry (getTransactions s.deposits (pageAfter log limit t newRandom)).1))
          s.transactions⟩ := by
  have hfits : ¬ ∃ t' ∈ some t, 2 ^ 32 ≤ t' := by
    rintro ⟨t', ht', hlarge⟩
    obtain rfl := Option.mem_some_iff.mp ht'
    omega
  unfold fetchTransactions rpcListTransactions
  dsimp only
  rw [if_pos rfl, h, if_neg hfits, ← shown_getTransactions]
  rfl

/-! ## Steps -/

/-- A row that a page settles is replaced by the claim that settled it. -/
theorem Origin.later (h : Origin log reservations s.deposits x)
    (hid : x.id ∉ ((pageAfter log limit t newRandom).filterMap
      (Operation.entry (getTransactions s.deposits (pageAfter log limit t newRandom)).1)).map TransactionListEntry.id) :
    Origin log reservations (getTransactions s.deposits (pageAfter log limit t newRandom)).1 x := by
  obtain ⟨hlater, hsettled, -⟩ := getTransactions_spec s.deposits (pageAfter log limit t newRandom)
  cases h with
  | operation op hmem hop hentry => exact .operation op hmem (hlater.settled hop) (hlater.entry hop ▸ hentry)
  | awaitingDeposit address createdAt hget heq =>
    rcases getTransactions_settles s.deposits (pageAfter log limit t newRandom) address with
      hsame | ⟨op, hop, haddress, hclaimed⟩
    · exact .awaitingDeposit address createdAt (hsame.trans hget) heq
    · obtain ⟨claim, hentry, hclaim⟩ := entry_of_address haddress hclaimed
      have hmem := List.mem_map_of_mem (f := TransactionListEntry.id) (List.mem_filterMap.mpr ⟨op, hop, hentry⟩)
      rw [hclaim] at hmem
      exact absurd (heq ▸ hmem) hid
  | formation reservation hmem totals heq => exact .formation reservation hmem totals heq

/-- A page that is loaded into the list. -/
structure Loaded (log : OperationLog) (reservations : List Reservation) (s s' : System)
    (newTransactions : List TransactionListEntry) : Prop where
  transactions : s'.transactions = updateTransactions newTransactions s.transactions
  later : Later s.deposits s'.deposits
  origin : ∀ e ∈ newTransactions, Origin log reservations s'.deposits e
  kept : ∀ e ∈ s.transactions, e.id ∉ newTransactions.map TransactionListEntry.id →
    Origin log reservations s'.deposits e

variable {s' : System} {newTransactions : List TransactionListEntry}

theorem loaded_page (h : Inv log reservations limit initial s) (ht : paginationTimestamp s.transactions = some t)
    (hfits : t < 2 ^ 32) :
    Loaded log reservations s (fetchTransactions log reservations limit true false s newRandom)
      ((pageAfter log limit t newRandom).filterMap
        (Operation.entry (fetchTransactions log reservations limit true false s newRandom).deposits)) := by
  rw [fetch_page ht hfits]
  exact ⟨rfl, (getTransactions_spec _ _).1, fun _ he => origin_of_page he, fun x hx hid => (h.origin x hx).later hid⟩

theorem firstPage_deposits (deposits : Deposits) :
    (listTransactions log reservations limit deposits none).1 =
      (getTransactions deposits (log.paginateOperationsRev limit none)).1 := rfl

theorem listTransactions_again (deposits : Deposits) :
    listTransactions log reservations limit (listTransactions log reservations limit deposits none).1 none =
      listTransactions log reservations limit deposits none := by
  rw [firstPage_deposits]
  unfold listTransactions
  dsimp only
  rw [getTransactions_again]

theorem loaded_again (h : Inv log reservations limit initial s) (ht : paginationTimestamp s.transactions = none) :
    Loaded log reservations s (fetchTransactions log reservations limit true false s newRandom)
        ((listTransactions log reservations limit s.deposits none).2.filterMap shownEntry) ∧
      (fetchTransactions log reservations limit true false s newRandom).deposits = s.deposits := by
  have hsame : (listTransactions log reservations limit s.deposits none).1 = s.deposits := by
    rw [firstPage_deposits]
    exact getTransactions_of_settled h.firstPage
  rw [fetch_firstPage (by simpa using ht)]
  refine ⟨⟨rfl, ?_, fun _ he => origin_of_firstPage he, fun x hx _ => ?_⟩, hsame⟩
  · show Later s.deposits (listTransactions log reservations limit s.deposits none).1
    rw [hsame]
    exact Later.refl _
  · show Origin log reservations (listTransactions log reservations limit s.deposits none).1 x
    rw [hsame]
    exact h.origin x hx

/-- More is loaded, or the request is refused. -/
theorem fetch_cases (h : Inv log reservations limit initial s) (newRandom : ℕ) :
    fetchTransactions log reservations limit true false s newRandom = s ∨
      ∃ newTransactions,
        Loaded log reservations s (fetchTransactions log reservations limit true false s newRandom) newTransactions := by
  cases ht : paginationTimestamp s.transactions with
  | none => exact .inr ⟨_, (loaded_again h ht).1⟩
  | some t =>
    by_cases hfits : t < 2 ^ 32
    · exact .inr ⟨_, loaded_page h ht hfits⟩
    · exact .inl (fetch_refused ht (by omega))

theorem Loaded.inv (hloaded : Loaded log reservations s s' newTransactions) (h : Inv log reservations limit initial s) :
    Inv log reservations limit initial s' where
  later := h.later.trans hloaded.later
  firstPage := fun op hop => hloaded.later.settled (h.firstPage op hop)
  origin := by
    intro e he
    rw [hloaded.transactions] at he
    rcases of_mem_updateTransactions he with hnew | ⟨hold, hid⟩
    · exact hloaded.origin e hnew
    · exact hloaded.kept e hold hid
  nodup := hloaded.transactions ▸ updateTransactions_nodup
  sorted := hloaded.transactions ▸ updateTransactions_sorted

/-- An operation's entry that is loaded is in the list. -/
theorem Loaded.mem_of_new (hloaded : Loaded log reservations s s' newTransactions) (hop : op ∈ log.operations)
    (hentry : op.entry s'.deposits = some e) (h : e ∈ newTransactions) : e ∈ s'.transactions := by
  rw [hloaded.transactions]
  refine mem_updateTransactions_of_new h fun x hx hid => ?_
  exact (hloaded.origin x hx).eq_of_shows hop hentry (shows_of_id hentry hid)

/-- An operation's entry that is in the list stays there. -/
theorem Loaded.mem_of_old (hloaded : Loaded log reservations s s' newTransactions)
    (h : Inv log reservations limit initial s) (hop : op ∈ log.operations) (hentry : op.entry s.deposits = some e)
    (hmem : e ∈ s.transactions) : op.entry s'.deposits = some e ∧ e ∈ s'.transactions := by
  have hentry' : op.entry s'.deposits = some e :=
    (hloaded.later.entry ((h.origin e hmem).of_shows hop (shows_of_id hentry rfl)).1).trans hentry
  refine ⟨hentry', ?_⟩
  by_cases hid : e.id ∈ newTransactions.map TransactionListEntry.id
  · obtain ⟨x, hx, hid⟩ := List.mem_map.mp hid
    have hsame := (hloaded.origin x hx).eq_of_shows hop hentry' (shows_of_id hentry' hid)
    exact hloaded.mem_of_new hop hentry' (hsame ▸ hx)
  · rw [hloaded.transactions]
    exact mem_updateTransactions_of_old h.nodup hmem hid

/-- What the first page leaves, and every load keeps. -/
theorem inv_loads (random : ℕ → ℕ) (n : ℕ) : Inv log reservations limit initial (loads log reservations limit initial random n) := by
  induction n with
  | zero =>
    unfold loads
    rw [fetch_firstPage rfl]
    obtain ⟨hlater, hsettled, -⟩ := getTransactions_spec initial (log.paginateOperationsRev limit none)
    refine ⟨hlater, hsettled, fun e he => ?_, updateTransactions_nodup, updateTransactions_sorted⟩
    rcases of_mem_updateTransactions he with hnew | ⟨hold, -⟩
    · exact origin_of_firstPage hnew
    · simp at hold
  | succ n ih =>
    unfold loads
    rcases fetch_cases ih (random (n + 1)) with hsame | ⟨newTransactions, hloaded⟩
    · rw [hsame]
      exact ih
    · exact hloaded.inv ih

end TransactionHistory
