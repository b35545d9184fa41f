import Fedi.Lib.Optimistic
import Fedi.Lib.Runs
import Fedi.TransactionHistory.OperationLog

/-!
# Awaiting deposits under concurrent renders (`federation_v2/mod.rs`)

An address that is handed out gets a row, unless it has one.  A render of a claim looks at the row of
its address; only where it awaits its deposit does a transaction settle it, after looking again:

    render:  read → (awaiting) → transaction: awaiting → claimed by this operation, or keep the row

Calls and renders run in any order, and the process may stop.  A row that was settled never changes, so
one claim has the id of the address, from then on, and no other (`awaiting_identity`).
-/

namespace TransactionHistory.Awaiting

open BTreeMaps Optimistic Runs

/-! ## Transactions -/

def depositRows : Rows Deposits (String × AwaitingDeposit) where
  write w db := db.insert w.1 w.2
  Same w db db' := db'.get? w.1 = db.get? w.1
  decidableSame := fun _ _ _ => inferInstance

/-- The transaction of `write_walletv2_awaiting_deposit`; `now` may fail to be a unix time. -/
def writeAwaiting (address : String) (now : Option ℕ) (dbtx : Deposits) :
    Except Unit (Unit × List (String × AwaitingDeposit)) :=
  match dbtx.get? address with
  | some _ => .ok ((), [])
  | none =>
    match now with
    | none => .error ()
    | some now => .ok ((), [(address, .awaiting now)])

/-- The transaction of `settle_walletv2_awaiting_deposit`. -/
def settle (address : String) (claimId : ℕ) (dbtx : Deposits) :
    Except Unit (Option TransactionId × List (String × AwaitingDeposit)) :=
  match dbtx.get? address with
  | some (.awaiting _) => .ok (some (.awaitingDeposit address), [(address, .claimedBy claimId)])
  | some (.claimedBy id) => .ok (if id = claimId then some (.awaitingDeposit address) else none, [])
  | some .claimed | none => .ok (none, [])

/-! ## Calls -/

/-- A claim operation and the address that it claims. -/
structure Claim where
  claimId : ℕ
  address : String
deriving DecidableEq

inductive Call where
  | generating (address : String) (attempt : Attempt Deposits)
  /-- A render that read the row awaiting its deposit. -/
  | settling (claim : Claim)
  | transacting (claim : Claim) (attempt : Attempt Deposits)

/-- What a render shows of a claim, and whether its access to the database succeeded; and the row of
an address that a first page may add, when it lists the rows. -/
inductive Shown where
  | claim (claim : Claim) (id : TransactionId) (accessed : Bool)
  | awaiting (address : String)

structure System where
  deposits : Deposits
  calls : List Call
  log : List Shown

inductive Event where
  | generate (address : String)
  | render (claim : Claim)
  | firstPage
  | advance (call : ℕ) (now : Option ℕ) (refused : Bool)
  | stop

def maxAttempts : ℕ := 100

def System.shows (s : System) (claim : Claim) (pendingId : Option TransactionId) (accessed : Bool) : System :=
  { s with log := s.log ++ [.claim claim (pendingId.getD (.operation claim.claimId)) accessed] }

/-- The read before the transaction. -/
def System.read (s : System) (claim : Claim) : System :=
  match s.deposits.get? claim.address with
  | some (.awaiting _) => { s with calls := s.calls ++ [.settling claim] }
  | some (.claimedBy id) => s.shows claim (if id = claim.claimId then some (.awaitingDeposit claim.address) else none) true
  | some .claimed | none => s.shows claim none true

/-- One attempt of a transaction, or its start. -/
def System.advance (s : System) (i : ℕ) (now : Option ℕ) (refused : Bool) : Call → System
  | .generating address attempt =>
    match autocommit depositRows (writeAwaiting address now) refused attempt s.deposits with
    | .committed _ db => { s with deposits := db, calls := s.calls.eraseIdx i }
    | .retry attempt => { s with calls := s.calls.set i (.generating address attempt) }
    | .closureError _ | .commitFailed => { s with calls := s.calls.eraseIdx i }
  | .settling claim => { s with calls := s.calls.set i (.transacting claim ⟨s.deposits, maxAttempts⟩) }
  | .transacting claim attempt =>
    match autocommit depositRows (settle claim.address claim.claimId) refused attempt s.deposits with
    | .committed pendingId db =>
      System.shows { s with deposits := db, calls := s.calls.eraseIdx i } claim pendingId true
    | .retry attempt => { s with calls := s.calls.set i (.transacting claim attempt) }
    | .closureError _ | .commitFailed => System.shows { s with calls := s.calls.eraseIdx i } claim none false

def step (s : System) : Event → System
  | .generate address => { s with calls := s.calls ++ [.generating address ⟨s.deposits, maxAttempts⟩] }
  | .render claim => s.read claim
  | .firstPage => { s with log := s.log ++ (listAwaitingDeposits s.deposits).map fun row => .awaiting row.1 }
  | .advance i now refused =>
    match s.calls[i]? with
    | none => s
    | some call => s.advance i now refused call
  | .stop => { s with calls := [] }

/-- Rows of an earlier run, and no call yet. -/
def System.start (deposits : Deposits) : System := ⟨deposits, [], []⟩

/-- The system after `n` events. -/
def moment (deposits : Deposits) (es : List Event) (n : ℕ) : System := (es.take n).foldl step (.start deposits)

/-! ## The identity of a deposit -/

/-- The row does not await a deposit any more. -/
def Settled (deposits : Deposits) (address : String) : Prop :=
  deposits.get? address = some .claimed ∨ ∃ id, deposits.get? address = some (.claimedBy id)

def pendingId (claim : Claim) : TransactionId := .awaitingDeposit claim.address

structure AwaitingIdentity (deposits : Deposits) (es : List Event) : Prop where
  /-- One claim at most has the id of an address. -/
  one : ∀ n c c' a a', .claim c (pendingId c) a ∈ (moment deposits es n).log →
    .claim c' (pendingId c') a' ∈ (moment deposits es n).log → c.address = c'.address → c = c'
  /-- It is the one that settled it. -/
  settled : ∀ n c a, .claim c (pendingId c) a ∈ (moment deposits es n).log →
    (moment deposits es n).deposits.get? c.address = some (.claimedBy c.claimId)
  /-- Every other claim has its own. -/
  own : ∀ n c id a, .claim c id a ∈ (moment deposits es n).log → id = pendingId c ∨ id = .operation c.claimId
  /-- From the moment that it settled the address it is shown so, and no first page adds the row again. -/
  keeps : ∀ m n, m ≤ n → ∃ rest, (moment deposits es n).log = (moment deposits es m).log ++ rest ∧
    (∀ c id, (moment deposits es m).deposits.get? c.address = some (.claimedBy c.claimId) →
      .claim c id true ∈ rest → id = pendingId c) ∧
    ∀ address, Settled (moment deposits es m).deposits address → .awaiting address ∉ rest

/-! ## Rows only settle -/

/-- No row vanishes, and one that is settled stays as it is. -/
def Evolves (deposits deposits' : Deposits) : Prop :=
  ∀ address, (deposits.get? address ≠ none → deposits'.get? address ≠ none) ∧
    (Settled deposits address → deposits'.get? address = deposits.get? address)

section
variable {deposits deposits' deposits'' : Deposits} {address : String} {claimId : ℕ}

theorem evolves_refl (deposits : Deposits) : Evolves deposits deposits := fun _ => ⟨id, fun _ => rfl⟩

theorem Settled.of_evolves (h : Evolves deposits deposits') (hs : Settled deposits address) :
    Settled deposits' address := by
  unfold Settled at hs ⊢
  rw [(h address).2 hs]
  exact hs

theorem Evolves.trans (h : Evolves deposits deposits') (h' : Evolves deposits' deposits'') :
    Evolves deposits deposits'' := by
  intro address
  refine ⟨fun hrow => (h' address).1 ((h address).1 hrow), fun hs => ?_⟩
  rw [(h' address).2 (hs.of_evolves h), (h address).2 hs]

theorem settled_of_claimedBy (h : deposits.get? address = some (.claimedBy claimId)) : Settled deposits address :=
  .inr ⟨claimId, h⟩

theorem not_settled_of_awaiting {createdAt : ℕ} (h : deposits.get? address = some (.awaiting createdAt)) :
    ¬ Settled deposits address := by
  rintro (hclaimed | ⟨id, hclaimed⟩) <;> rw [h] at hclaimed <;> cases hclaimed

/-- A row that is not settled may be written. -/
theorem evolves_insert (hopen : ¬ Settled deposits address) (deposit : AwaitingDeposit) :
    Evolves deposits (deposits.insert address deposit) := by
  intro other
  by_cases heq : other = address
  · subst heq
    rw [BTreeMap.get?_insert_self]
    exact ⟨fun _ => by simp, fun hs => absurd hs hopen⟩
  · rw [BTreeMap.get?_insert_ne _ _ heq]
    exact ⟨id, fun _ => rfl⟩

/-- What a commit of a new address does. -/
theorem writeAwaiting_evolves {now : Option ℕ} {refused : Bool} {attempt : Attempt Deposits} {result : Unit}
    (h : autocommit depositRows (writeAwaiting address now) refused attempt deposits = .committed result deposits') :
    Evolves deposits deposits' := by
  obtain ⟨writes, hclosure, hunchanged, rfl⟩ := autocommit_committed h
  unfold writeAwaiting at hclosure
  cases hrow : attempt.snapshot.get? address with
  | some deposit =>
    rw [hrow] at hclosure
    cases hclosure
    exact evolves_refl _
  | none =>
    rw [hrow] at hclosure
    cases now with
    | none => cases hclosure
    | some now =>
      cases hclosure
      have hsame : deposits.get? address = attempt.snapshot.get? address := hunchanged _ List.mem_cons_self
      refine evolves_insert ?_ _
      rintro (hclaimed | ⟨id, hclaimed⟩) <;> rw [hsame, hrow] at hclaimed <;> cases hclaimed

/-- What a commit of a render does, and which id it shows: that of the address if the row is its own. -/
theorem settle_committed {refused : Bool} {attempt : Attempt Deposits} {result : Option TransactionId}
    (hevolves : Evolves attempt.snapshot deposits) (hrow : attempt.snapshot.get? address ≠ none)
    (h : autocommit depositRows (settle address claimId) refused attempt deposits = .committed result deposits') :
    Evolves deposits deposits' ∧
      (deposits'.get? address = some (.claimedBy claimId) ∧ result = some (.awaitingDeposit address) ∨
        deposits'.get? address ≠ some (.claimedBy claimId) ∧ result = none) := by
  obtain ⟨writes, hclosure, hunchanged, rfl⟩ := autocommit_committed h
  unfold settle at hclosure
  cases hget : attempt.snapshot.get? address with
  | none => exact absurd hget hrow
  | some deposit =>
    rw [hget] at hclosure
    cases deposit with
    | awaiting createdAt =>
      cases hclosure
      have hsame : deposits.get? address = attempt.snapshot.get? address := hunchanged _ List.mem_cons_self
      refine ⟨evolves_insert (not_settled_of_awaiting (hsame.trans hget)) _, .inl ⟨?_, rfl⟩⟩
      exact BTreeMap.get?_insert_self _ _ _
    | claimed =>
      cases hclosure
      have hkept : deposits.get? address = some .claimed := ((hevolves address).2 (.inl hget)).trans hget
      refine ⟨evolves_refl _, .inr ⟨?_, rfl⟩⟩
      show deposits.get? address ≠ _
      rw [hkept]
      simp
    | claimedBy id =>
      cases hclosure
      have hkept : deposits.get? address = some (.claimedBy id) :=
        ((hevolves address).2 (settled_of_claimedBy hget)).trans hget
      refine ⟨evolves_refl _, ?_⟩
      show deposits.get? address = _ ∧ _ ∨ deposits.get? address ≠ _ ∧ _
      rw [hkept]
      by_cases hid : id = claimId
      · exact .inl ⟨by rw [hid], if_pos hid⟩
      · exact .inr ⟨by simpa using hid, if_neg hid⟩

end

/-! ## Steps -/

/-- What a call under way has seen. -/
def Call.Agrees (deposits : Deposits) : Call → Prop
  | .generating _ attempt => Evolves attempt.snapshot deposits
  | .settling claim => deposits.get? claim.address ≠ none
  | .transacting claim attempt => Evolves attempt.snapshot deposits ∧ attempt.snapshot.get? claim.address ≠ none

/-- What is shown, and what the row is then. -/
def Shown.Agrees (deposits : Deposits) : Shown → Prop
  | .claim c id accessed =>
    (id = pendingId c ∧ deposits.get? c.address = some (.claimedBy c.claimId)) ∨
      (id = .operation c.claimId ∧ (accessed = true → deposits.get? c.address ≠ some (.claimedBy c.claimId)))
  | .awaiting address => ¬ Settled deposits address

theorem Call.Agrees.of_evolves {deposits deposits' : Deposits} (h : Evolves deposits deposits') {call : Call}
    (hcall : call.Agrees deposits) : call.Agrees deposits' := by
  cases call with
  | generating address attempt => exact Evolves.trans hcall h
  | settling claim => exact (h claim.address).1 hcall
  | transacting claim attempt => exact ⟨hcall.1.trans h, hcall.2⟩

/-- A step settles rows, and shows what the rows say. -/
structure Advances (s s' : System) : Prop where
  evolves : Evolves s.deposits s'.deposits
  shows : ∃ entries, s'.log = s.log ++ entries ∧ ∀ e ∈ entries, e.Agrees s'.deposits
  calls : ∀ call ∈ s'.calls, call.Agrees s'.deposits

section
variable {s : System} {i : ℕ} {now : Option ℕ} {refused : Bool}

/-- A step that shows nothing and leaves the rows alone. -/
theorem advances_of_calls (hcalls : ∀ call ∈ s.calls, call.Agrees s.deposits) {calls : List Call}
    (h : ∀ call ∈ calls, call ∈ s.calls ∨ call.Agrees s.deposits) :
    Advances s { s with calls := calls } where
  evolves := evolves_refl _
  shows := ⟨[], (List.append_nil _).symm, fun _ he => absurd he List.not_mem_nil⟩
  calls := by
    intro call hcall
    rcases h call hcall with hold | hnew
    · exact hcalls call hold
    · exact hnew

theorem advances_erase (hcalls : ∀ call ∈ s.calls, call.Agrees s.deposits) :
    Advances s { s with calls := s.calls.eraseIdx i } :=
  advances_of_calls hcalls fun _ hcall => .inl (List.mem_of_mem_eraseIdx hcall)

theorem advances_set (hcalls : ∀ call ∈ s.calls, call.Agrees s.deposits) {call : Call} (hnew : call.Agrees s.deposits) :
    Advances s { s with calls := s.calls.set i call } := by
  refine advances_of_calls hcalls fun call' hcall => ?_
  rcases List.mem_or_eq_of_mem_set hcall with hold | rfl
  · exact .inl hold
  · exact .inr hnew

theorem advances_append (hcalls : ∀ call ∈ s.calls, call.Agrees s.deposits) {call : Call} (hnew : call.Agrees s.deposits) :
    Advances s { s with calls := s.calls ++ [call] } := by
  refine advances_of_calls hcalls fun call' hcall => ?_
  rcases List.mem_append.mp hcall with hold | hlast
  · exact .inl hold
  · rw [List.mem_singleton.mp hlast]
    exact .inr hnew

/-- A render that ends. -/
theorem advances_shows {deposits' : Deposits} {calls : List Call} (hcalls : ∀ call ∈ s.calls, call.Agrees s.deposits)
    (hsub : ∀ call ∈ calls, call ∈ s.calls) (hevolves : Evolves s.deposits deposits') {claim : Claim}
    {result : Option TransactionId} {accessed : Bool}
    (hshown : (Shown.claim claim (result.getD (.operation claim.claimId)) accessed).Agrees deposits') :
    Advances s (System.shows { s with deposits := deposits', calls := calls } claim result accessed) where
  evolves := hevolves
  shows := by
    refine ⟨_, rfl, fun e he => ?_⟩
    rw [List.mem_singleton.mp he]
    exact hshown
  calls := fun call hcall => (hcalls call (hsub call hcall)).of_evolves hevolves

theorem read_advances (hcalls : ∀ call ∈ s.calls, call.Agrees s.deposits) (claim : Claim) :
    Advances s (s.read claim) := by
  have hown : ∀ hne : s.deposits.get? claim.address ≠ some (.claimedBy claim.claimId),
      (Shown.claim claim (.operation claim.claimId) true).Agrees s.deposits := fun hne => .inr ⟨rfl, fun _ => hne⟩
  unfold System.read
  cases hrow : s.deposits.get? claim.address with
  | none => exact advances_shows hcalls (fun _ hcall => hcall) (evolves_refl _) (hown (by rw [hrow]; simp))
  | some deposit =>
    cases deposit with
    | awaiting createdAt =>
      refine advances_append hcalls ?_
      show s.deposits.get? claim.address ≠ none
      rw [hrow]
      simp
    | claimed => exact advances_shows hcalls (fun _ hcall => hcall) (evolves_refl _) (hown (by rw [hrow]; simp))
    | claimedBy id =>
      dsimp only
      by_cases hid : id = claim.claimId
      · rw [if_pos hid]
        exact advances_shows hcalls (fun _ hcall => hcall) (evolves_refl _) (.inl ⟨rfl, hid ▸ hrow⟩)
      · rw [if_neg hid]
        exact advances_shows hcalls (fun _ hcall => hcall) (evolves_refl _) (hown (by rw [hrow]; simpa using hid))

theorem advance_advances (hcalls : ∀ call ∈ s.calls, call.Agrees s.deposits) {call : Call}
    (hcall : call.Agrees s.deposits) : Advances s (s.advance i now refused call) := by
  cases call with
  | generating address attempt =>
    dsimp only [System.advance]
    cases hcommit : autocommit depositRows (writeAwaiting address now) refused attempt s.deposits with
    | committed result db =>
      have hevolves := writeAwaiting_evolves hcommit
      refine ⟨hevolves, ⟨[], (List.append_nil _).symm, fun _ he => absurd he List.not_mem_nil⟩, fun call hmem => ?_⟩
      exact (hcalls call (List.mem_of_mem_eraseIdx hmem)).of_evolves hevolves
    | retry attempt' =>
      refine advances_set hcalls ?_
      show Evolves attempt'.snapshot s.deposits
      rw [autocommit_retry hcommit]
      exact evolves_refl _
    | closureError e => exact advances_erase hcalls
    | commitFailed => exact advances_erase hcalls
  | settling claim => exact advances_set hcalls ⟨evolves_refl _, hcall⟩
  | transacting claim attempt =>
    dsimp only [System.advance]
    have hfailed : Advances s (System.shows { s with calls := s.calls.eraseIdx i } claim none false) :=
      advances_shows hcalls (fun _ hmem => List.mem_of_mem_eraseIdx hmem) (evolves_refl _)
        (.inr ⟨rfl, fun haccessed => absurd haccessed (by decide)⟩)
    cases hcommit : autocommit depositRows (settle claim.address claim.claimId) refused attempt s.deposits with
    | committed result db =>
      obtain ⟨hevolves, hresult⟩ := settle_committed hcall.1 hcall.2 hcommit
      refine advances_shows hcalls (fun _ hmem => List.mem_of_mem_eraseIdx hmem) hevolves ?_
      rcases hresult with ⟨hrow, rfl⟩ | ⟨hrow, rfl⟩
      · exact .inl ⟨rfl, hrow⟩
      · exact .inr ⟨rfl, fun _ => hrow⟩
    | retry attempt' =>
      refine advances_set hcalls ?_
      have hsnapshot := autocommit_retry hcommit
      show Evolves attempt'.snapshot s.deposits ∧ attempt'.snapshot.get? claim.address ≠ none
      rw [hsnapshot]
      exact ⟨evolves_refl _, (hcall.1 claim.address).1 hcall.2⟩
    | closureError e => exact hfailed
    | commitFailed => exact hfailed

theorem step_advances (hcalls : ∀ call ∈ s.calls, call.Agrees s.deposits) (e : Event) : Advances s (step s e) := by
  cases e with
  | generate address => exact advances_append hcalls (evolves_refl _)
  | render claim => exact read_advances hcalls claim
  | firstPage =>
    refine ⟨evolves_refl _, ⟨_, rfl, fun e he => ?_⟩, hcalls⟩
    obtain ⟨row, hrow, rfl⟩ := List.mem_map.mp he
    obtain ⟨⟨address, deposit⟩, hmem, hawaiting⟩ := List.mem_filterMap.mp hrow
    have hget : s.deposits.get? address = some deposit := BTreeMap.mem_entries.mp hmem
    cases deposit with
    | awaiting createdAt =>
      cases hawaiting
      exact not_settled_of_awaiting hget
    | claimed => cases hawaiting
    | claimedBy id => cases hawaiting
  | advance i now refused =>
    show Advances s (match s.calls[i]? with | none => s | some call => s.advance i now refused call)
    cases hcall : s.calls[i]? with
    | none => exact ⟨evolves_refl _, ⟨[], (List.append_nil _).symm, fun _ he => absurd he List.not_mem_nil⟩, hcalls⟩
    | some call => exact advance_advances hcalls (hcalls call (List.mem_of_getElem? hcall))
  | stop => exact advances_of_calls hcalls fun _ hcall => absurd hcall List.not_mem_nil

end

/-! ## Runs -/

/-- What is shown under the id of an address is its claim, and every other claim has its own id. -/
structure Inv (s : System) : Prop where
  calls : ∀ call ∈ s.calls, call.Agrees s.deposits
  shown : ∀ c id a, .claim c id a ∈ s.log →
    (id = pendingId c ∧ s.deposits.get? c.address = some (.claimedBy c.claimId)) ∨ id = .operation c.claimId

theorem inv_start (deposits : Deposits) : Inv (.start deposits) where
  calls := fun _ h => absurd h List.not_mem_nil
  shown := fun _ _ _ h => absurd h List.not_mem_nil

theorem inv_step {s : System} (h : Inv s) (e : Event) : Inv (step s e) := by
  have hadvances := step_advances h.calls e
  obtain ⟨entries, hlog, hentries⟩ := hadvances.shows
  refine ⟨hadvances.calls, fun c id a hmem => ?_⟩
  rw [hlog, List.mem_append] at hmem
  rcases hmem with hold | hnew
  · rcases h.shown c id a hold with ⟨hid, hrow⟩ | hid
    · have hkept := (hadvances.evolves c.address).2 (settled_of_claimedBy hrow)
      exact .inl ⟨hid, hkept.trans hrow⟩
    · exact .inr hid
  · rcases hentries _ hnew with hpending | hown
    · exact .inl hpending
    · exact .inr hown.1

section
variable {deposits : Deposits} {es : List Event}

theorem inv_moment (n : ℕ) : Inv (moment deposits es n) :=
  moments_induction (P := Inv) (Q := fun _ _ => True) (inv_start deposits) (fun _ e hs _ => inv_step hs e)
    (fun _ _ _ => trivial) n

/-- What later steps show of the rows as they are now. -/
structure Keeps (s s' : System) : Prop where
  evolves : Evolves s.deposits s'.deposits
  log : ∃ rest, s'.log = s.log ++ rest ∧
    (∀ c id, s.deposits.get? c.address = some (.claimedBy c.claimId) → .claim c id true ∈ rest → id = pendingId c) ∧
    ∀ address, Settled s.deposits address → .awaiting address ∉ rest

theorem keeps_refl (s : System) : Keeps s s :=
  ⟨evolves_refl _, [], (List.append_nil _).symm, fun _ _ _ h => absurd h List.not_mem_nil,
    fun _ _ => List.not_mem_nil⟩

theorem Keeps.trans {s s' s'' : System} (h : Keeps s s') (h' : Keeps s' s'') : Keeps s s'' := by
  obtain ⟨rest, hlog, hclaims, hawaiting⟩ := h.log
  obtain ⟨rest', hlog', hclaims', hawaiting'⟩ := h'.log
  refine ⟨h.evolves.trans h'.evolves, rest ++ rest', ?_, fun c id hrow hmem => ?_, fun address hs hmem => ?_⟩
  · rw [hlog', hlog, List.append_assoc]
  · have hkept := (h.evolves c.address).2 (settled_of_claimedBy hrow)
    rcases List.mem_append.mp hmem with hmem | hmem
    · exact hclaims c id hrow hmem
    · exact hclaims' c id (hkept.trans hrow) hmem
  · rcases List.mem_append.mp hmem with hmem | hmem
    · exact hawaiting address hs hmem
    · exact hawaiting' address (hs.of_evolves h.evolves) hmem

theorem step_keeps {s : System} (h : Inv s) (e : Event) : Keeps s (step s e) := by
  have hadvances := step_advances h.calls e
  obtain ⟨entries, hlog, hentries⟩ := hadvances.shows
  refine ⟨hadvances.evolves, entries, hlog, fun c id hrow hmem => ?_, fun address hs hmem => ?_⟩
  · have hkept := (hadvances.evolves c.address).2 (settled_of_claimedBy hrow)
    rcases hentries _ hmem with hpending | ⟨-, hne⟩
    · exact hpending.1
    · exact absurd (hkept.trans hrow) (hne rfl)
  · exact hentries _ hmem (hs.of_evolves hadvances.evolves)

theorem moment_keeps {m n : ℕ} (h : m ≤ n) : Keeps (moment deposits es m) (moment deposits es n) := by
  induction n, h using Nat.le_induction with
  | base => exact keeps_refl _
  | succ n _ ih =>
    refine ih.trans ?_
    cases he : es[n]? with
    | none =>
      have hsame : moment deposits es (n + 1) = moment deposits es n := foldl_take_end he
      rw [hsame]
      exact keeps_refl _
    | some e =>
      have hnext : moment deposits es (n + 1) = step (moment deposits es n) e := foldl_take_succ he
      rw [hnext]
      exact step_keeps (inv_moment n) e

theorem shown_pending {n : ℕ} {c : Claim} {a : Bool} (h : .claim c (pendingId c) a ∈ (moment deposits es n).log) :
    (moment deposits es n).deposits.get? c.address = some (.claimedBy c.claimId) := by
  rcases (inv_moment n).shown c _ a h with ⟨-, hrow⟩ | hid
  · exact hrow
  · cases hid

end

/-- A render that nothing interleaves with settles as the pages do. -/
theorem render_alone (deposits : Deposits) (log : List Shown) (claim : Claim) :
    ∃ es : List Event, es.foldl step ⟨deposits, [], log⟩ =
      ⟨(settleAwaitingDeposit deposits claim.address claim.claimId).1, [],
        log ++ [.claim claim ((settleAwaitingDeposit deposits claim.address claim.claimId).2.getD
          (.operation claim.claimId)) true]⟩ := by
  refine ⟨[.render claim, .advance 0 none false, .advance 0 none false], ?_⟩
  unfold settleAwaitingDeposit
  cases hrow : deposits.get? claim.address with
  | none => simp [step, System.read, hrow, System.shows]
  | some deposit =>
    cases deposit with
    | awaiting createdAt =>
      simp [step, System.read, hrow, System.advance, autocommit, settle, Rows.Unchanged, depositRows, System.shows,
        Rows.writeAll]
    | claimed => simp [step, System.read, hrow, System.shows]
    | claimedBy id => simp [step, System.read, hrow, System.shows]

end TransactionHistory.Awaiting
