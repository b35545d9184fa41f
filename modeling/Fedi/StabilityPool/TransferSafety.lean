import Fedi.StabilityPool.StagedLedger

/-!
# Transfer safety

A transfer request takes effect at most once in a run, only when enough members
of its `from` account signed it and before it expires, and then moves exactly

    total = transferAmount * 10^11 / startPrice

msats from `from` to `to`: the staged part `min total staged` stays staged, the
rest stays locked, and nobody else's balances change (`TransferEffect`).
-/

namespace StabilityPool

open BTreeMaps KeyedLogs Runs

/-! ## Signatures -/

theorem forM_ok {A : Type} {f : A → Res Unit} :
    ∀ {l : List A}, l.forM f = .ok () → ∀ x ∈ l, f x = .ok ()
  | [], _, x, hx => by cases hx
  | y :: l, h, x, hx => by
    obtain ⟨_, hy, hl⟩ := bind_eq_ok.mp (show (f y >>= fun _ => l.forM f) = .ok () from h)
    rcases List.mem_cons.mp hx with rfl | hx
    · exact hy
    · exact forM_ok hl x hx

/-- The member key at the index of a signature. -/
def signerKey (s : SignedTransferRequest) (index : ℕ) : PublicKey :=
  (s.transferRequest.sender.pubKeys[index]?).getD 0

theorem checkSignature_ok {C : Crypto} {r : TransferRequest} {e : ℕ × Signature}
    (h : SignedTransferRequest.checkSignature C r e = .ok ()) :
    ∃ key, r.sender.pubKeys[e.1]? = some key ∧
      C.verify (r.id C) e.2 (C.xOnlyPublicKey key) = true := by
  unfold SignedTransferRequest.checkSignature at h
  cases hk : r.sender.pubKeys[e.1]? with
  | none =>
    rw [hk] at h
    cases h
  | some key =>
    rw [hk] at h
    simp only [ensure] at h
    split_ifs at h with hv
    exact ⟨key, rfl, hv⟩

/-- Valid signatures come from at least `threshold` distinct members. -/
theorem validateSignatures_ok {C : Crypto} {Signed : PublicKey → ℕ → Prop}
    (hsound : ∀ m s key, C.verify m s (C.xOnlyPublicKey key) = true → Signed key m)
    {s : SignedTransferRequest} (h : s.validateSignatures C = .ok ()) :
    ∃ keys : List PublicKey, keys.Nodup ∧ (∀ key ∈ keys, key ∈ s.transferRequest.sender.pubKeys) ∧
      s.transferRequest.sender.threshold ≤ keys.length ∧
      ∀ key ∈ keys, Signed key (s.transferRequest.id C) := by
  obtain ⟨_, hcount, hall⟩ := bind_eq_ok.mp h
  simp only [ensure] at hcount
  split_ifs at hcount with hlen
  have hkey : ∀ i ∈ s.signatures.keys, ∃ hi : i < s.transferRequest.sender.pubKeys.length,
      Signed s.transferRequest.sender.pubKeys[i] (s.transferRequest.id C) := by
    intro i hi
    obtain ⟨e, he, rfl⟩ := List.mem_map.mp hi
    obtain ⟨key, hk, hv⟩ := checkSignature_ok (forM_ok hall e he)
    obtain ⟨hlt, hget⟩ := List.getElem?_eq_some_iff.mp hk
    exact ⟨hlt, hget ▸ hsound _ _ _ hv⟩
  have hget : ∀ i ∈ s.signatures.keys, ∀ hi : i < s.transferRequest.sender.pubKeys.length,
      signerKey s i = s.transferRequest.sender.pubKeys[i] := by
    intro i _ hi
    rw [signerKey, List.getElem?_eq_getElem hi]
    rfl
  have hnodup : s.transferRequest.sender.pubKeys.Nodup :=
    s.transferRequest.sender.sorted.imp fun h => h.ne
  refine ⟨s.signatures.keys.map (signerKey s), ?_, ?_, ?_, ?_⟩
  · refine (List.nodup_map_iff_inj_on (s.signatures.keys_sorted.imp fun h => h.ne)).mpr ?_
    intro i hi j hj hij
    obtain ⟨hli, -⟩ := hkey i hi
    obtain ⟨hlj, -⟩ := hkey j hj
    rw [hget i hi hli, hget j hj hlj] at hij
    exact (hnodup.getElem_inj_iff).mp hij
  · intro key hmem
    obtain ⟨i, hi, rfl⟩ := List.mem_map.mp hmem
    obtain ⟨hlt, -⟩ := hkey i hi
    rw [hget i hi hlt]
    exact List.getElem_mem hlt
  · rw [List.length_map, BTreeMap.keys, List.length_map]
    exact hlen
  · intro key hmem
    obtain ⟨i, hi, rfl⟩ := List.mem_map.mp hmem
    obtain ⟨hlt, hs⟩ := hkey i hi
    rw [hget i hi hlt]
    exact hs

/-! ## Balances -/

/-- Staged msats of an account. -/
def Db.stagedOf (db : Db) (a : AccountId) : ℕ :=
  amountSum (db.stagedSeeks.getD a []) + amountSum (db.stagedProvides.getD a [])

/-- Locked msats of an account. -/
def Db.lockedOf (db : Db) (a : AccountId) : ℕ :=
  amountSum ((db.locked .seek).getD a []) + amountSum ((db.locked .provide).getD a [])

theorem Moved.amountSum_eq {M : Type} {t t' : DepositTable M} {sender recipient : AccountId}
    {kept drained incoming : List (Deposit M)} (h : Moved t t' sender recipient kept drained incoming)
    (a : AccountId) :
    amountSum (t'.getD a []) + (if a = sender then amountSum drained else 0) =
      amountSum (t.getD a []) + if a = recipient then amountSum incoming else 0 := by
  have hs := h.splits.amountSum_eq
  rw [h.getD_eq, amountSum_append]
  by_cases h1 : a = sender
  · subst h1
    by_cases h2 : a = recipient <;> simp only [h2, if_true, if_false, amountSum_nil] at hs ⊢ <;> omega
  · by_cases h2 : a = recipient
    · subst h2
      rw [if_neg h1, if_neg h1, if_pos rfl]
      simp
    · simp [h1, h2]

theorem stagedOf_move {db db' : Db} {s : Side} {sender recipient : AccountId}
    {kept drained incoming : List (Deposit s.Meta)}
    (h : Moved (db.staged s) (db'.staged s) sender recipient kept drained incoming)
    (hside : ∀ s', s' ≠ s → db'.staged s' = db.staged s') (a : AccountId) :
    db'.stagedOf a + (if a = sender then amountSum drained else 0) =
      db.stagedOf a + if a = recipient then amountSum incoming else 0 := by
  have hm := h.amountSum_eq a
  cases s with
  | seek =>
    have hp : db'.stagedProvides = db.stagedProvides := hside .provide (by decide)
    simp only [Db.stagedOf, hp, Db.staged] at hm ⊢
    omega
  | provide =>
    have hp : db'.stagedSeeks = db.stagedSeeks := hside .seek (by decide)
    simp only [Db.stagedOf, hp, Db.staged] at hm ⊢
    omega

theorem lockedOf_move {db db' : Db} {s : Side} {sender recipient : AccountId}
    {kept drained incoming : List (Deposit s.Meta)}
    (h : Moved (db.locked s) (db'.locked s) sender recipient kept drained incoming)
    (hside : ∀ s', s' ≠ s → db'.locked s' = db.locked s') (a : AccountId) :
    db'.lockedOf a + (if a = sender then amountSum drained else 0) =
      db.lockedOf a + if a = recipient then amountSum incoming else 0 := by
  have hm := h.amountSum_eq a
  cases s with
  | seek =>
    have hp : db'.locked .provide = db.locked .provide := hside .provide (by decide)
    simp only [Db.lockedOf, hp] at hm ⊢
    omega
  | provide =>
    have hp : db'.locked .seek = db.locked .seek := hside .seek (by decide)
    simp only [Db.lockedOf, hp] at hm ⊢
    omega

theorem Wf.stagedOf_eq {cfg : StabilityPoolConfigConsensus} {db : Db} (h : Wf cfg db) {s : Side}
    {a : AccountId} (hs : s = a.accType.side) :
    db.stagedOf a = amountSum ((db.staged s).getD a []) := by
  cases s with
  | seek =>
    have := (h.other_side_nil (s := .provide) (a := a) (by rw [← hs]; decide)).1
    simp only [Db.stagedOf, Db.staged] at this ⊢
    rw [this, amountSum_nil, Nat.add_zero]
  | provide =>
    have := (h.other_side_nil (s := .seek) (a := a) (by rw [← hs]; decide)).1
    simp only [Db.stagedOf, Db.staged] at this ⊢
    rw [this, amountSum_nil, Nat.zero_add]

/-- The effect of a transfer request on a database. -/
structure TransferEffect (C : Crypto) (Signed : PublicKey → ℕ → Prop) (r : TransferRequest)
    (db db' : Db) : Prop where
  signers : ∃ keys : List PublicKey, keys.Nodup ∧ (∀ key ∈ keys, key ∈ r.sender.pubKeys) ∧
    r.sender.threshold ≤ keys.length ∧ ∀ key ∈ keys, Signed key (r.id C)
  moved : ∃ cycle total, db.currentCycle = some cycle ∧ cycle.index ≤ r.validUntilCycle ∧
    total = r.transferAmount * MSATS_PER_BTC / cycle.startPrice ∧
    total - db.stagedOf (r.sender.id C) ≤ db.lockedOf (r.sender.id C) ∧
    ∀ a, db'.stagedOf a + (if a = r.sender.id C then min total (db.stagedOf (r.sender.id C)) else 0) =
        db.stagedOf a + (if a = r.recipient then min total (db.stagedOf (r.sender.id C)) else 0) ∧
      db'.lockedOf a + (if a = r.sender.id C then total - db.stagedOf (r.sender.id C) else 0) =
        db.lockedOf a + if a = r.recipient then total - db.stagedOf (r.sender.id C) else 0
  others : ∀ s a, a ≠ r.sender.id C → a ≠ r.recipient →
    (db'.staged s).getD a [] = (db.staged s).getD a [] ∧
      (db'.locked s).getD a [] = (db.locked s).getD a []
  idle : db'.idleBalance = db.idleBalance

theorem TransferDone.effect {C : Crypto} {cfg : StabilityPoolConfigConsensus} {db db' : Db}
    {txid : TransactionId} {signed : SignedTransferRequest} {Signed : PublicKey → ℕ → Prop}
    (hsound : ∀ m s key, C.verify m s (C.xOnlyPublicKey key) = true → Signed key m) (hwf : Wf cfg db)
    (h : TransferDone C cfg db txid signed db') :
    TransferEffect C Signed signed.transferRequest db db' := by
  obtain ⟨cycle, s, metadata, staged, locked, hs, -, hexp, hstep⟩ := h
  have hside : s = (signed.transferRequest.sender.id C).accType.side := hs
  have hc := hstep.move.current
  obtain ⟨hlm, hls⟩ := hstep.move.locked_eq
  have hstagedOf := hwf.stagedOf_eq hside
  have hlockedEq : db.lockedOf (signed.transferRequest.sender.id C) =
      amountSum ((cycle.locked s).getD (signed.transferRequest.sender.id C) []) := by
    rw [← locked_of_current hc]
    cases s with
    | seek =>
      have := (hwf.other_side_nil (s := .provide) (a := signed.transferRequest.sender.id C)
        (by rw [← hside]; decide)).2
      rw [Db.lockedOf, this, amountSum_nil, Nat.add_zero]
    | provide =>
      have := (hwf.other_side_nil (s := .seek) (a := signed.transferRequest.sender.id C)
        (by rw [← hside]; decide)).2
      rw [Db.lockedOf, this, amountSum_nil, Nat.zero_add]
  obtain ⟨total, htotal⟩ : ∃ total, transferTotal signed.transferRequest cycle = total := ⟨_, rfl⟩
  have hcovered := hstep.covered
  have hstaged := hstep.staged_eq
  have hlocked := hstep.locked_eq
  rw [htotal] at hcovered hstaged hlocked
  rw [← hstagedOf, ← hlockedEq] at hcovered
  have hdrained : amountSum staged.drained = min total
      (db.stagedOf (signed.transferRequest.sender.id C)) := by
    rw [hstagedOf, hstaged, transferPart_drained_sum]
  have hdrained' : amountSum locked.drained =
      total - db.stagedOf (signed.transferRequest.sender.id C) := by
    rw [hlocked, transferPart_drained_sum, ← hlockedEq, hdrained]
    omega
  have hin : amountSum staged.incoming = amountSum staged.drained := by
    rw [hstaged, transferPart_amountSum]
  have hin' : amountSum locked.incoming = amountSum locked.drained := by
    rw [hlocked, transferPart_amountSum]
  refine {
    signers := validateSignatures_ok hsound hstep.signatures
    moved := ⟨cycle, total, hc, hexp, by rw [← htotal, transferTotal], by omega, fun a => ⟨?_, ?_⟩⟩
    others := fun s' a h1 h2 => ?_
    idle := hstep.idle }
  · have := stagedOf_move hstep.move.staged hstep.move.staged_side a
    rwa [hin, hdrained] at this
  · have := lockedOf_move hlm hls a
    rwa [hin', hdrained'] at this
  · by_cases hs' : s' = s
    · subst hs'
      rw [hstep.move.staged.getD_eq, hlm.getD_eq]
      simp [h1, h2]
    · rw [hstep.move.staged_side s' hs', hls s' hs']
      exact ⟨rfl, rfl⟩

/-! ## Replay -/

/-- The request a transfer output carries. -/
def StabilityPoolOutput.transfer? : StabilityPoolOutput → Option SignedTransferRequest
  | .v0 (.transfer t) | .v1 (.transfer t) => some t.signedRequest
  | _ => none

/-- The id of the transfer request of an event. -/
def Event.transferId? (C : Crypto) : Event → Option ℕ
  | .output _ o => (o.transfer?).map fun s => s.transferRequest.id C
  | _ => none

theorem transfer?_eq_some {o : StabilityPoolOutput} {s : SignedTransferRequest}
    (h : o.transfer? = some s) : ∃ t, t.signedRequest = s ∧ (o = .v0 (.transfer t) ∨ o = .v1 (.transfer t)) := by
  rcases o with v0 | v1 | variant
  · rcases v0 with d | d | t <;> cases h
    exact ⟨t, rfl, Or.inl rfl⟩
  · rcases v1 with d | d | t | d <;> cases h
    exact ⟨t, rfl, Or.inr rfl⟩
  · cases h

/-- The log of used requests grows by the transfer's id, if the event is one. -/
theorem applyEvent_transferRequests {C : Crypto} {cfg : StabilityPoolConfigConsensus} {st st' : Ledger}
    {e : Event} (h : applyEvent C cfg st e = .ok st') :
    match e.transferId? C with
    | none => st'.db.transferRequests = st.db.transferRequests
    | some id => st.db.transferRequests.get? id = none ∧
        st'.db.transferRequests = st.db.transferRequests.insert id () := by
  cases e with
  | consensusItem peerId item =>
    simp only [applyEvent, bind_eq_ok, pure_eq_ok] at h
    obtain ⟨db', h1, rfl⟩ := h
    show db'.transferRequests = _
    cases processConsensusItem_ok h1 with
    | version version => rfl
    | vote vote => rfl
    | turnover vote _ info _ hnext hfirst hmany hinfo hturn =>
      obtain ⟨middle, _, _, _, _, _, _, _, hstep⟩ := turnover_ok hturn
      have h2 := congrArg Db.transferRequests hstep.written.db_eq
      have h3 := congrArg Db.transferRequests hstep.settled.db_eq
      exact h2.trans h3
  | input txid i =>
    simp only [applyEvent, bind_eq_ok, pure_eq_ok] at h
    obtain ⟨r, h1, rfl⟩ := h
    show r.1.transferRequests = _
    rcases processInput_ok h1 with ⟨u, -, hu⟩ | ⟨w, -, hw⟩
    · obtain ⟨cycle, kept, drained, -, -, -, htr, -⟩ := processUnlockInput_ok hu
      exact htr
    · obtain ⟨-, -, hr⟩ := processWithdrawalInput_ok hw
      rw [hr]
  | output txid o =>
    simp only [applyEvent, bind_eq_ok, pure_eq_ok] at h
    obtain ⟨r, h1, rfl⟩ := h
    cases ho : o.transfer? with
    | none =>
      simp only [Event.transferId?, ho, Option.map_none]
      rcases processOutput_ok h1 with ⟨s, cycle, a, metadata, kind, hc, hallowed, -, hr⟩ | ⟨t, ht, -, -⟩
      · rw [hr, stageDeposit_eq]
        simp
      · rcases ht with rfl | rfl <;> cases ho
    | some s =>
      simp only [Event.transferId?, ho, Option.map_some]
      obtain ⟨t, rfl, ht⟩ := transfer?_eq_some ho
      obtain ⟨-, -, cycle, s, metadata, staged, locked, -, -, -, hstep⟩ :=
        processTransferOutput_ok (processOutput_transfer_ok ht h1).2
      exact ⟨hstep.unused, hstep.logged⟩

/-- Ids used in a run are distinct and logged. -/
theorem runEvents_transferIds {C : Crypto} {cfg : StabilityPoolConfigConsensus} {evs : List Event}
    {st : Ledger} (h : runEvents C cfg evs = .ok st) :
    (evs.filterMap (Event.transferId? C)).Nodup ∧
      ∀ id ∈ evs.filterMap (Event.transferId? C), st.db.transferRequests.get? id ≠ none := by
  refine run_induction (P := fun evs st => (evs.filterMap (Event.transferId? C)).Nodup ∧
    ∀ id ∈ evs.filterMap (Event.transferId? C), st.db.transferRequests.get? id ≠ none)
    ⟨List.nodup_nil, fun id hid => by cases hid⟩ (fun evs st e st' _ hp hst => ?_) h
  obtain ⟨hnd, hlogged⟩ := hp
  have hstep := applyEvent_transferRequests hst
  rw [List.filterMap_append]
  cases he : e.transferId? C with
  | none =>
    rw [he] at hstep
    simp only at hstep
    have hnil : [e].filterMap (Event.transferId? C) = [] := by simp [he]
    rw [hnil, List.append_nil, hstep]
    exact ⟨hnd, hlogged⟩
  | some id =>
    rw [he] at hstep
    obtain ⟨hunused, hlog⟩ := hstep
    have hone : [e].filterMap (Event.transferId? C) = [id] := by simp [he]
    rw [hone, hlog]
    refine ⟨?_, fun id' hid' => ?_⟩
    · rw [List.nodup_append]
      refine ⟨hnd, List.nodup_singleton _, fun x hx y hy => ?_⟩
      rw [List.mem_singleton.mp hy]
      rintro rfl
      exact hlogged x hx hunused
    · rw [BTreeMap.get?_insert]
      split_ifs with heq
      · simp
      · rcases List.mem_append.mp hid' with hid' | hid'
        · exact hlogged id' hid'
        · exact absurd (List.mem_singleton.mp hid') heq

/-- After any run, a transfer only succeeds for a request that was not used in the
run, and then has exactly its effect; no run uses a request twice. -/
theorem transfer_safety {C : Crypto} {cfg : StabilityPoolConfigConsensus} {Signed : PublicKey → ℕ → Prop}
    (hsound : ∀ m s key, C.verify m s (C.xOnlyPublicKey key) = true → Signed key m)
    {evs : List Event} {st : Ledger} (h : runEvents C cfg evs = .ok st) :
    (evs.filterMap (Event.transferId? C)).Nodup ∧
      ∀ txid o signed r, o.transfer? = some signed → processOutput C cfg st.db txid o = .ok r →
        signed.transferRequest.id C ∉ evs.filterMap (Event.transferId? C) ∧
          TransferEffect C Signed signed.transferRequest st.db r.1 := by
  obtain ⟨hnd, hlogged⟩ := runEvents_transferIds h
  refine ⟨hnd, fun txid o signed r ho hr => ?_⟩
  obtain ⟨t, rfl, ht⟩ := transfer?_eq_some ho
  obtain ⟨-, -, hdone⟩ := processTransferOutput_ok (processOutput_transfer_ok ht hr).2
  refine ⟨fun hmem => ?_, hdone.effect hsound (wf_of_reachable ⟨_, st, h, rfl⟩)⟩
  obtain ⟨cycle, s, metadata, staged, locked, -, -, -, hstep⟩ := hdone
  exact hlogged _ hmem hstep.unused

/-- A transfer of 5 cents, 50000 msats at the price of cycle 1, signed by key 7. -/
def demoTransfer : SignedTransferRequest where
  signatures := BTreeMap.empty.insert 0 57
  transferRequest := {
    nonce := 50
    sender := demoSeeker
    transferAmount := 5
    recipient := (Account.single 9 .seeker).id demoCrypto
    metadata := []
    validUntilCycle := 1
    newFeeRate := none }

theorem transfer_safety_demo : ∃ st r, runEvents demoCrypto demoConfig demoOpening = .ok st ∧
    processOutput demoCrypto demoConfig st.db 3 (.v0 (.transfer ⟨demoTransfer⟩)) = .ok r ∧
    TransferEffect demoCrypto (fun key m => ∃ s, demoCrypto.verify m s (demoCrypto.xOnlyPublicKey key) = true)
      demoTransfer.transferRequest st.db r.1 := by
  have hrun : succeeds ((runEvents demoCrypto demoConfig demoOpening).bind fun st =>
      processOutput demoCrypto demoConfig st.db 3 (.v0 (.transfer ⟨demoTransfer⟩))) = true := by
    decide +kernel
  obtain ⟨r, hr⟩ := exists_of_succeeds hrun
  obtain ⟨st, h, hr⟩ := bind_eq_ok.mp hr
  exact ⟨st, r, h, hr, ((transfer_safety (fun _ s _ hs => ⟨s, hs⟩) h).2 3 _ demoTransfer r rfl hr).2⟩

end StabilityPool
