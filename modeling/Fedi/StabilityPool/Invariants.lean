import Fedi.StabilityPool.TurnoverSteps

/-!
# Structural invariants of reachable databases

`Db.Holds db s a x` says that account `a` has a deposit with head `x` on side `s`,
staged or locked.  A step only adds heads with the next deposit sequence, so in
every reachable database (`wf_of_reachable`)

- sequences of a list are distinct and below the counter, and a sequence belongs
  to one account and one head;
- deposits are on the side of their account's type, with an allowed fee;
- btc depositors have no locks and no unlock requests.
-/

namespace StabilityPool

open BTreeMaps KeyedLogs Runs

/-- A deposit of `a` on side `s`, staged or locked. -/
def Db.Holds (db : Db) (s : Side) (a : AccountId) (x : TransactionId × ℕ × s.Meta) : Prop :=
  x ∈ heads ((db.staged s).getD a []) ∨ x ∈ heads ((db.locked s).getD a [])

structure Wf (cfg : StabilityPoolConfigConsensus) (db : Db) : Prop where
  staged_nodup : ∀ s a, (sequences ((db.staged s).getD a [])).Nodup
  locked_nodup : ∀ s a, (sequences ((db.locked s).getD a [])).Nodup
  below : ∀ s a x, db.Holds s a x → x.2.1 < db.depositSequence.getD 0
  side : ∀ s a x, db.Holds s a x → s = a.accType.side
  allowed : ∀ s a x, db.Holds s a x → metadataAllowed cfg s x.2.2
  unique : ∀ s a x y, db.Holds s a x → db.Holds s a y → x.2.1 = y.2.1 → x = y
  account : ∀ s a x s' a' x', db.Holds s a x → db.Holds s' a' x' → x.2.1 = x'.2.1 → a = a'
  locked_btc : ∀ a, a.accType = .btcDepositor → (db.locked .seek).getD a [] = []
  request_btc : ∀ a req, db.unlockRequests.get? a = some req → a.accType ≠ .btcDepositor
  request_cycle : ∀ a req, db.unlockRequests.get? a = some req → db.currentCycle.isSome

theorem wf_initial (cfg : StabilityPoolConfigConsensus) : Wf cfg Db.initial := by
  have hnone : ∀ s a x, ¬ Db.initial.Holds s a x := by
    intro s a x h
    rcases h with h | h <;> cases s <;> cases h
  have hlocked : ∀ s a, (Db.initial.locked s).getD a [] = [] := fun s a => by cases s <;> rfl
  have hstaged : ∀ s a, (Db.initial.staged s).getD a [] = [] := fun s a => by cases s <;> rfl
  exact {
    staged_nodup := fun s a => by
      rw [hstaged]
      exact List.nodup_nil
    locked_nodup := fun s a => by
      rw [hlocked]
      exact List.nodup_nil
    below := fun s a x h => absurd h (hnone s a x)
    side := fun s a x h => absurd h (hnone s a x)
    allowed := fun s a x h => absurd h (hnone s a x)
    unique := fun s a x _ h => absurd h (hnone s a x)
    account := fun s a x _ _ _ h => absurd h (hnone s a x)
    locked_btc := fun a _ => hlocked .seek a
    request_btc := fun a req h => by cases h
    request_cycle := fun a req h => by cases h }

/-- The invariant only reads the deposits, the counter, the requests and the cycle. -/
theorem Wf.congr {cfg : StabilityPoolConfigConsensus} {db db' : Db} (h : Wf cfg db)
    (hstaged : ∀ s, db'.staged s = db.staged s) (hcurrent : db'.currentCycle = db.currentCycle)
    (hseq : db'.depositSequence = db.depositSequence) (hreq : db'.unlockRequests = db.unlockRequests) :
    Wf cfg db' := by
  have hlocked : ∀ s, db'.locked s = db.locked s := fun s => by rw [Db.locked, Db.locked, hcurrent]
  have hholds : ∀ {s a x}, db'.Holds s a x ↔ db.Holds s a x := by
    intro s a x
    rw [Db.Holds, Db.Holds, hstaged, hlocked]
  exact {
    staged_nodup := fun s a => by
      rw [hstaged]
      exact h.staged_nodup s a
    locked_nodup := fun s a => by
      rw [hlocked]
      exact h.locked_nodup s a
    below := fun s a x hx => by
      rw [hseq]
      exact h.below s a x (hholds.mp hx)
    side := fun s a x hx => h.side s a x (hholds.mp hx)
    allowed := fun s a x hx => h.allowed s a x (hholds.mp hx)
    unique := fun s a x y hx hy => h.unique s a x y (hholds.mp hx) (hholds.mp hy)
    account := fun s a x s' a' x' hx hy => h.account s a x s' a' x' (hholds.mp hx) (hholds.mp hy)
    locked_btc := fun a ha => by
      rw [hlocked]
      exact h.locked_btc a ha
    request_btc := fun a req hr => h.request_btc a req (hreq ▸ hr)
    request_cycle := fun a req hr => by
      rw [hcurrent]
      exact h.request_cycle a req (hreq ▸ hr) }

/-- An account has nothing staged or locked on the other side. -/
theorem Wf.other_side_nil {cfg : StabilityPoolConfigConsensus} {db : Db} (h : Wf cfg db) {s : Side}
    {a : AccountId} (hs : s ≠ a.accType.side) :
    (db.staged s).getD a [] = [] ∧ (db.locked s).getD a [] = [] := by
  constructor <;> by_contra hne <;> obtain ⟨d, hd⟩ := List.exists_mem_of_ne_nil _ hne
  · exact hs (h.side s a d.head (Or.inl (List.mem_map_of_mem hd)))
  · exact hs (h.side s a d.head (Or.inr (List.mem_map_of_mem hd)))

/-! ## Moves -/

section
variable {db db' : Db} {txid : TransactionId} {cycle : Cycle} {s : Side} {sender recipient : AccountId}
  {keptStaged drainedStaged newStaged keptLocked drainedLocked newLocked : List (Deposit s.Meta)}
  {credit : ℕ} {log : List Posting}

theorem AccountMove.locked_eq (h : AccountMove db db' txid cycle s sender recipient keptStaged
      drainedStaged newStaged keptLocked drainedLocked newLocked credit log) :
    Moved (db.locked s) (db'.locked s) sender recipient keptLocked drainedLocked newLocked ∧
      ∀ s', s' ≠ s → db'.locked s' = db.locked s' := by
  obtain ⟨t, ht, hm⟩ := h.locked
  refine ⟨?_, fun s' hs => ?_⟩
  · rw [locked_of_current h.current, locked_of_current ht, locked_setLocked]
    exact hm
  · rw [locked_of_current h.current, locked_of_current ht, locked_setLocked_ne _ _ _ hs]

theorem AccountMove.holds (h : AccountMove db db' txid cycle s sender recipient keptStaged
      drainedStaged newStaged keptLocked drainedLocked newLocked credit log) {s' : Side} {a : AccountId}
    {x : TransactionId × ℕ × s'.Meta} (hx : db'.Holds s' a x) :
    db.Holds s' a x ∨
      a = recipient ∧ ∃ hs : s' = s, ∃ d ∈ newStaged ++ newLocked, d.head = hs ▸ x := by
  obtain ⟨hl, hls⟩ := h.locked_eq
  by_cases hs : s' = s
  · subst hs
    rcases hx with hx | hx
    · rcases h.staged.heads_of_mem hx with hx | ⟨ha, hx⟩
      · exact Or.inl (Or.inl hx)
      · obtain ⟨d, hd, hdx⟩ := List.mem_map.mp hx
        exact Or.inr ⟨ha, rfl, d, List.mem_append_left _ hd, hdx⟩
    · rcases hl.heads_of_mem hx with hx | ⟨ha, hx⟩
      · exact Or.inl (Or.inr hx)
      · obtain ⟨d, hd, hdx⟩ := List.mem_map.mp hx
        exact Or.inr ⟨ha, rfl, d, List.mem_append_right _ hd, hdx⟩
  · left
    rw [Db.Holds, h.staged_side s' hs, hls s' hs] at hx
    exact hx

theorem nodup_of_length_le_one {A : Type} {l : List A} (h : l.length ≤ 1) : l.Nodup := by
  match l, h with
  | [], _ => exact List.nodup_nil
  | [x], _ => exact List.nodup_singleton x

/-- A move keeps the invariant when its new deposits suit their account. -/
theorem AccountMove.wf {cfg : StabilityPoolConfigConsensus} (h : AccountMove db db' txid cycle s sender
      recipient keptStaged drainedStaged newStaged keptLocked drainedLocked newLocked credit log)
    (hwf : Wf cfg db) (hside : newStaged ++ newLocked ≠ [] → s = recipient.accType.side)
    (hallowed : ∀ d ∈ newStaged ++ newLocked, metadataAllowed cfg s d.metadata)
    (hsame : ∀ d ∈ newStaged ++ newLocked, ∀ e ∈ newStaged ++ newLocked, d.metadata = e.metadata)
    (hbtc : recipient.accType = .btcDepositor → newLocked = [])
    (hreq : ∀ a req, db'.unlockRequests.get? a = some req → a.accType ≠ .btcDepositor) :
    Wf cfg db' := by
  obtain ⟨hl, hls⟩ := h.locked_eq
  obtain ⟨t, ht, -⟩ := h.locked
  have hcounter : db.depositSequence.getD 0 ≤ db'.depositSequence.getD 0 := by
    rcases h.counter with ⟨-, hc⟩ | hc <;> omega
  have hbelow : ∀ s' a x, db'.Holds s' a x → db.Holds s' a x ∨ x.2.1 = db.depositSequence.getD 0 := by
    intro s' a x hx
    rcases h.holds hx with hx | ⟨-, rfl, d, hd, rfl⟩
    · exact Or.inl hx
    · exact Or.inr (h.fresh d hd).2
  have hfresh : ∀ q ∈ sequences newStaged ++ sequences newLocked, ∀ a,
      q ∉ sequences ((db.staged s).getD a []) ∧ q ∉ sequences ((db.locked s).getD a []) := by
    intro q hq a
    rw [sequences, sequences, ← List.map_append, List.mem_map] at hq
    obtain ⟨d, hd, rfl⟩ := hq
    have hdseq := (h.fresh d hd).2
    constructor <;> intro hm <;> rw [sequences_eq_heads, List.mem_map] at hm <;>
      obtain ⟨x, hx, hxq⟩ := hm
    · have := hwf.below s a x (Or.inl hx)
      omega
    · have := hwf.below s a x (Or.inr hx)
      omega
  refine {
    staged_nodup := fun s' a => ?_
    locked_nodup := fun s' a => ?_
    below := fun s' a x hx => ?_
    side := fun s' a x hx => ?_
    allowed := fun s' a x hx => ?_
    unique := fun s' a x y hx hy hxy => ?_
    account := fun s' a x s'' a' x' hx hy hxy => ?_
    locked_btc := fun a ha => ?_
    request_btc := hreq
    request_cycle := fun a req _ => by rw [ht]; rfl }
  · by_cases hs : s' = s
    · subst hs
      exact h.staged.nodup (hwf.staged_nodup s')
        (nodup_of_length_le_one (by rw [sequences, List.length_map]; exact h.newStaged_length))
        (fun q hq => (hfresh q (List.mem_append_left _ hq) _).1) a
    · rw [h.staged_side s' hs]
      exact hwf.staged_nodup s' a
  · by_cases hs : s' = s
    · subst hs
      exact hl.nodup (hwf.locked_nodup s')
        (nodup_of_length_le_one (by rw [sequences, List.length_map]; exact h.newLocked_length))
        (fun q hq => (hfresh q (List.mem_append_right _ hq) _).2) a
    · rw [hls s' hs]
      exact hwf.locked_nodup s' a
  · rcases h.holds hx with hx | ⟨-, rfl, d, hd, rfl⟩
    · exact (hwf.below s' a x hx).trans_le hcounter
    · rcases h.counter with ⟨hnil, -⟩ | hc
      · rw [hnil] at hd
        cases hd
      · show d.sequence < _
        rw [(h.fresh d hd).2]
        omega
  · rcases h.holds hx with hx | ⟨rfl, rfl, d, hd, rfl⟩
    · exact hwf.side s' a x hx
    · exact hside (List.ne_nil_of_mem hd)
  · rcases h.holds hx with hx | ⟨rfl, rfl, d, hd, rfl⟩
    · exact hwf.allowed s' a x hx
    · exact hallowed d hd
  · rcases h.holds hx with hx' | ⟨rfl, rfl, d, hd, rfl⟩
    · rcases h.holds hy with hy' | ⟨-, rfl, e, he, rfl⟩
      · exact hwf.unique s' a x y hx' hy' hxy
      · have h1 := hwf.below s' a x hx'
        have h2 := (h.fresh e he).2
        simp only [Deposit.head] at hxy
        omega
    · rcases h.holds hy with hy' | ⟨-, -, e, he, rfl⟩
      · have h1 := hwf.below s' a y hy'
        have h2 := (h.fresh d hd).2
        simp only [Deposit.head] at hxy
        omega
      · exact Deposit.head_eq.mpr
          ⟨(h.fresh d hd).1.trans (h.fresh e he).1.symm, hxy, hsame d hd e he⟩
  · rcases h.holds hx with hx' | ⟨rfl, rfl, d, hd, rfl⟩
    · rcases h.holds hy with hy' | ⟨-, rfl, e, he, rfl⟩
      · exact hwf.account s' a x s'' a' x' hx' hy' hxy
      · have h1 := hwf.below s' a x hx'
        have h2 := (h.fresh e he).2
        simp only [Deposit.head] at hxy
        omega
    · rcases h.holds hy with hy' | ⟨rfl, -⟩
      · have h1 := hwf.below s'' a' x' hy'
        have h2 := (h.fresh d hd).2
        simp only [Deposit.head] at hxy
        omega
      · rfl
  · by_cases hs : Side.seek = s
    · subst hs
      have hold := hwf.locked_btc
      rw [hl.getD_eq]
      have hkept : (if a = sender then keptLocked else (db.locked .seek).getD a []) = [] := by
        split_ifs with hsender
        · have := hl.splits.kept_heads
          rw [← hsender, hold a ha] at this
          simpa [heads] using this
        · exact hold a ha
      rw [hkept, List.nil_append]
      split_ifs with hr
      · exact hbtc (hr ▸ ha)
      · rfl
    · rw [hls _ hs]
      exact hwf.locked_btc a ha

end

/-! ## Turnover -/

theorem Settled.current {db db' : Db} {info : CycleInfo} {remaining : Locks} {log : List Posting}
    (h : Settled db info db' remaining log) : db'.currentCycle = db.currentCycle := by rw [h.db_eq]

theorem Settled.depositSequence {db db' : Db} {info : CycleInfo} {remaining : Locks} {log : List Posting}
    (h : Settled db info db' remaining log) : db'.depositSequence = db.depositSequence := by rw [h.db_eq]

section
variable {ratio : CollateralRatio} {db db' middle : Db} {info : CycleInfo} {remaining : Locks}
  {log : List Posting} {seeks charged : List AccountSeek} {provides : List AccountProvide}
  {feeRate feePool : ℕ}

/-- A turnover adds no heads. -/
theorem TurnoverStep.holds (h : TurnoverStep ratio db info db' middle remaining log seeks charged
      provides feeRate feePool) {s : Side} {a : AccountId} {x : TransactionId × ℕ × s.Meta}
    (hx : db'.Holds s a x) : db.Holds s a x := by
  have hmiddle : x ∈ heads ((middle.staged s).getD a []) := by
    rcases hx with hx | hx
    · exact h.written.mem_staged (s := s) (by cases s <;> exact hx)
    · have hx : x ∈ heads (({ db' with cycleChangeVote := middle.cycleChangeVote } : Db).locked s
          |>.getD a []) := by cases s <;> exact hx
      rcases h.written.mem_locked hx with ⟨hx, -⟩ | ⟨-, hx⟩
      · exact hx
      · exact hx
  exact h.settled.mem_staged hmiddle

theorem TurnoverStep.wf {cfg : StabilityPoolConfigConsensus} (h : TurnoverStep ratio db info db' middle
      remaining log seeks charged provides feeRate feePool) (hwf : Wf cfg db) : Wf cfg db' := by
  have hnd : ∀ s a, (sequences ((middle.staged s).getD a [])).Nodup := fun s a =>
    h.settled.staged_nodup (hwf.staged_nodup s a)
  have hseq : db'.depositSequence = db.depositSequence := by
    have := congrArg Db.depositSequence h.written.db_eq
    rw [← h.settled.depositSequence]
    exact this
  have hreq : ∀ a, db'.unlockRequests.get? a = none := by
    intro a
    have heq := congrArg Db.unlockRequests h.written.db_eq
    have heq : db'.unlockRequests = middle.unlockRequests := heq
    rw [heq, h.settled.requests]
    split_ifs with hc
    · rfl
    · cases hg : db.unlockRequests.get? a with
      | none => rfl
      | some req => exact absurd (hwf.request_cycle a req hg) hc
  exact {
    staged_nodup := fun s a => by
      have := h.written.staged_nodup hnd s a
      cases s <;> exact this
    locked_nodup := fun s a => by
      have := h.written.locked_nodup hnd s a
      cases s <;> exact this
    below := fun s a x hx => by
      rw [hseq]
      exact hwf.below s a x (h.holds hx)
    side := fun s a x hx => hwf.side s a x (h.holds hx)
    allowed := fun s a x hx => hwf.allowed s a x (h.holds hx)
    unique := fun s a x y hx hy => hwf.unique s a x y (h.holds hx) (h.holds hy)
    account := fun s a x s' a' x' hx hy => hwf.account s a x s' a' x' (h.holds hx) (h.holds hy)
    locked_btc := fun a ha => by
      by_contra hne
      obtain ⟨d, l, hd⟩ := List.exists_cons_of_ne_nil hne
      have hmem : d.head ∈ heads ((db'.locked .seek).getD a []) := by
        rw [hd]
        exact List.mem_cons_self
      rcases h.written.mem_locked (s := .seek) hmem with ⟨-, hna⟩ | ⟨hs, -⟩
      · exact hna ha
      · cases hs
    request_btc := fun a req hr => by
      rw [hreq] at hr
      cases hr
    request_cycle := fun a req hr => by
      rw [hreq] at hr
      cases hr }

end

/-! ## Steps -/

theorem processUnlockInput_wf {C : Crypto} {cfg : StabilityPoolConfigConsensus} {db : Db}
    {txid : TransactionId} {input : UnlockForWithdrawalInput} {r : Db × InputMeta} (hwf : Wf cfg db)
    (h : processUnlockInput C db txid input = .ok r) : Wf cfg r.1 := by
  obtain ⟨cycle, kept, drained, hm, hnone, hreq, -⟩ := processUnlockInput_ok h
  refine hm.wf hwf (fun h => absurd rfl h) (by simp) (by simp) (fun _ => rfl) fun a req hr hbtc => ?_
  generalize hnew : r.1.unlockRequests = reqs at hreq hr
  cases hreq with
  | settled => exact hwf.request_btc a req hr hbtc
  | pending req' htxid hlocked =>
    rw [BTreeMap.get?_insert] at hr
    split_ifs at hr with ha
    · -- a btc depositor has no locks to request
      subst ha
      have hside : input.account.accType.side = .seek := by
        rw [show input.account.accType = .btcDepositor from hbtc]
        rfl
      have hnil := hwf.locked_btc _ hbtc
      rw [locked_of_current hm.current] at hnil
      apply hlocked
      rw [hside]
      rw [hnil]
      rfl
    · exact hwf.request_btc a req hr hbtc

theorem DepositStep.wf {cfg : StabilityPoolConfigConsensus} {db : Db} {txid : TransactionId}
    {r : OutputResult} (h : DepositStep cfg db txid r) (hwf : Wf cfg db) : Wf cfg r.1 := by
  obtain ⟨s, cycle, a, metadata, kind, hc, hallowed, -, hr⟩ := h
  obtain ⟨hcredit, hdebit⟩ := hallowed.credit
  have hreq : r.1.unlockRequests = db.unlockRequests := by
    rw [hr, stageDeposit_eq]
    simp
  rw [hr] at hreq ⊢
  refine (stageDeposit_move hc txid a r.2 metadata hcredit hdebit).wf hwf (fun _ => ?_) (fun d hd => ?_)
    (fun d hd e he => ?_) (fun _ => rfl) fun a' req hreq' => ?_
  · cases hallowed with
    | seek ha => rw [ha]; rfl
    | btcBalance ha => rw [ha]; rfl
    | provide ha => rw [ha]; rfl
  · rw [List.append_nil, List.mem_singleton] at hd
    subst hd
    cases hallowed with
    | seek => trivial
    | btcBalance => trivial
    | provide ha hfee => exact hfee
  · rw [List.append_nil, List.mem_singleton] at hd he
    rw [hd, he]
  · rw [hreq] at hreq'
    exact hwf.request_btc a' req hreq'

theorem transferPart_nil {M : Type} (amount sequence : ℕ) (metadata : M) (txid : TransactionId) :
    (transferPart [] amount sequence metadata txid).incoming = [] := by
  have hnil : (drainInReverse ([] : List (Deposit M)) amount).2 = [] := by
    unfold drainInReverse
    split_ifs <;> rfl
  simp [transferPart, hnil]

/-- Nothing is left to transfer from a sender's locks when it has none. -/
theorem TransferStep.locked_nil {C : Crypto} {db db' : Db} {txid : TransactionId}
    {signed : SignedTransferRequest} {s : Side} {cycle : Cycle} {metadata : s.Meta}
    {staged locked : TransferParts s.Meta}
    (h : TransferStep C db txid signed s cycle metadata staged locked db')
    (hnil : (cycle.locked s).getD (signed.transferRequest.sender.id C) [] = []) :
    locked.incoming = [] := by
  rw [h.locked_eq, hnil]
  exact transferPart_nil _ _ _ _

theorem TransferDone.wf {C : Crypto} {cfg : StabilityPoolConfigConsensus} {db db' : Db}
    {txid : TransactionId} {signed : SignedTransferRequest}
    (h : TransferDone C cfg db txid signed db') (hwf : Wf cfg db)
    (htype : signed.transferRequest.sender.accType = signed.transferRequest.recipient.accType) :
    Wf cfg db' := by
  obtain ⟨cycle, s, metadata, staged, locked, hs, hallowed, -, hstep⟩ := h
  have hmeta : ∀ d ∈ staged.incoming ++ locked.incoming, d.metadata = metadata := by
    intro d hd
    rw [hstep.staged_eq, hstep.locked_eq] at hd
    rcases List.mem_append.mp hd with hd | hd
    · exact (transferPart_fresh _ _ _ _ _ hd).2.2
    · exact (transferPart_fresh _ _ _ _ _ hd).2.2
  refine hstep.move.wf hwf (fun _ => by rw [hs, htype]) (fun d hd => by rw [hmeta d hd]; exact hallowed)
    (fun d hd e he => by rw [hmeta d hd, hmeta e he]) (fun hbtc => ?_) fun a req hr => ?_
  · have hsender : (signed.transferRequest.sender.id C).accType = .btcDepositor := htype.trans hbtc
    have hseek : s = .seek := by
      rw [hs, htype, hbtc]
      rfl
    subst hseek
    have hnil := hwf.locked_btc _ hsender
    rw [locked_of_current hstep.move.current] at hnil
    exact hstep.locked_nil hnil
  · rw [hstep.requests] at hr
    exact hwf.request_btc a req hr

theorem processConsensusItem_wf {cfg : StabilityPoolConfigConsensus} {db db' : Db}
    {item : StabilityPoolConsensusItem} {peerId : PeerId} (hwf : Wf cfg db)
    (h : processConsensusItem cfg db item peerId = .ok db') : Wf cfg db' := by
  cases processConsensusItem_ok h with
  | version version => exact hwf.congr (fun s => by cases s <;> rfl) rfl rfl rfl
  | vote vote => exact hwf.congr (fun s => by cases s <;> rfl) rfl rfl rfl
  | turnover vote _ info _ hnext hfirst hmany hinfo hturn =>
    obtain ⟨_, _, _, _, _, _, _, _, hstep⟩ := turnover_ok hturn
    exact hstep.wf (hwf.congr (fun s => by cases s <;> rfl) rfl rfl rfl)

theorem processInput_wf {C : Crypto} {cfg : StabilityPoolConfigConsensus} {db : Db}
    {txid : TransactionId} {i : StabilityPoolInput} {r : Db × InputMeta} (hwf : Wf cfg db)
    (h : processInput C db txid i = .ok r) : Wf cfg r.1 := by
  rcases processInput_ok h with ⟨u, -, hu⟩ | ⟨w, -, hw⟩
  · exact processUnlockInput_wf hwf hu
  · obtain ⟨-, -, hr⟩ := processWithdrawalInput_ok hw
    rw [hr]
    exact hwf.congr (fun s => by cases s <;> rfl) rfl rfl rfl

theorem processOutput_wf {C : Crypto} {cfg : StabilityPoolConfigConsensus} {db : Db}
    {txid : TransactionId} {o : StabilityPoolOutput} {r : OutputResult} (hwf : Wf cfg db)
    (h : processOutput C cfg db txid o = .ok r) : Wf cfg r.1 := by
  rcases processOutput_ok h with hd | ⟨t, -, -, ht⟩
  · exact hd.wf hwf
  · obtain ⟨-, htype, hdone⟩ := processTransferOutput_ok ht
    exact hdone.wf hwf htype

theorem wf_of_reachable {C : Crypto} {cfg : StabilityPoolConfigConsensus} {db : Db}
    (h : Reachable C cfg db) : Wf cfg db :=
  reachable_induction (P := Wf cfg) (wf_initial cfg)
    (fun _ _ _ _ hp h => processConsensusItem_wf hp h) (fun _ _ _ _ hp h => processInput_wf hp h)
    (fun _ _ _ _ hp h => processOutput_wf hp h) h

end StabilityPool
