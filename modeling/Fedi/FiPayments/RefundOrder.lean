import Fedi.FiPayments.SeatPayments

/-!
# Refunds of a rejected payment in any order (`fi_payments/funding.rs`)

The stream of an operation tells of a transaction and of its acceptance apart, in any order and more
than once.  What the wait has counted depends on the updates that it has seen, not on their order:

    payment seen → counted = accepted siblings whose body was seen   (Follows)

so a history whose refunds return every input restores them at its last update at the latest, and
always by the same outpoints (`rejected_inputs_recovered`).
-/

namespace FiPayments

open BTreeMaps

inductive RecoveryError where
  | update (e : RefundError)
  | streamEnded
  | outputs
deriving DecidableEq

section

variable (txHash : Transaction ↪ TransactionId) (operationId : OperationId) (originalTxid : TransactionId)
  (mintModule : ModuleInstanceId)

/-- `await_rejected_input_refunds` over a whole stream, with the outpoints that it awaited. -/
def awaitRefundOutputs (awaitOutputs : List OutPoint → Bool) (updates : List (OperationId × TxSubmissionState)) :
    Except RecoveryError (List OutPoint) :=
  match awaitRejectedInputRefunds txHash operationId originalTxid mintModule .empty updates with
  | .error e => .error (.update e)
  | .ok none => .error .streamEnded
  | .ok (some outpoints) => if awaitOutputs outpoints then .ok outpoints else .error .outputs

/-- A history of the operation: the rejected payment, and accepted siblings that are refunds and return
each of its inputs once. -/
structure RefundedBy (updates : List (OperationId × TxSubmissionState)) (payment : Transaction)
    (refunds : List Transaction) : Prop where
  operation : ∀ u ∈ updates, u.1 = operationId
  /-- No transaction is both accepted and rejected. -/
  terminal : ∀ txid, (operationId, .accepted txid) ∈ updates → (operationId, .rejected txid) ∉ updates
  created : (operationId, .created payment) ∈ updates
  txid : txHash payment = originalTxid
  notes : countPayerNotes payment mintModule = .ok payment.inputs
  inputs : payment.inputs ≠ []
  /-- The accepted siblings, and the transactions that the stream has for them. -/
  siblings : ∀ txid, ((operationId, .accepted txid) ∈ updates ∧ txid ≠ originalTxid) ↔ ∃ r ∈ refunds, txHash r = txid
  bodies : ∀ r ∈ refunds, (operationId, .created r) ∈ updates
  nodup : refunds.Nodup
  spend : ∀ r ∈ refunds, r.inputs ≠ []
  outputs : ∀ r ∈ refunds, r.outputs ≠ [] ∧ ∀ output ∈ r.outputs, output.moduleInstanceId = mintModule
  partition : (refunds.map fun r => (r.inputs : Multiset TransactionItem)).sum = payment.inputs

end

section

variable {txHash : Transaction ↪ TransactionId} {operationId : OperationId} {originalTxid : TransactionId}
  {mintModule : ModuleInstanceId} {updates updates' seen : List (OperationId × TxSubmissionState)}
  {payment : Transaction} {refunds : List Transaction} {t t' : RefundTracker}
  {done : List (TransactionId × Transaction)}

theorem RefundedBy.congr (h : RefundedBy txHash operationId originalTxid mintModule updates payment refunds)
    (hsame : ∀ u, u ∈ updates' ↔ u ∈ updates) :
    RefundedBy txHash operationId originalTxid mintModule updates' payment refunds where
  operation := fun u hu => h.operation u ((hsame u).mp hu)
  terminal := by
    intro txid haccepted hrejected
    exact h.terminal txid ((hsame _).mp haccepted) ((hsame _).mp hrejected)
  created := (hsame _).mpr h.created
  txid := h.txid
  notes := h.notes
  inputs := h.inputs
  siblings := by
    intro txid
    rw [hsame]
    exact h.siblings txid
  bodies := fun r hr => (hsame _).mpr (h.bodies r hr)
  nodup := h.nodup
  spend := h.spend
  outputs := h.outputs
  partition := h.partition

/-! ## Inputs of some of the refunds -/

def inputsOf (refunds : List Transaction) : Multiset TransactionItem :=
  (refunds.map fun r => (r.inputs : Multiset TransactionItem)).sum

/-- Some of the transactions spend some of the inputs. -/
theorem inputsOf_le {some all : List Transaction} (hnodup : some.Nodup) (hsub : some ⊆ all) :
    inputsOf some ≤ inputsOf all := by
  obtain ⟨l, hperm, hl⟩ := hnodup.subperm hsub
  have hsame : inputsOf l = inputsOf some := (hperm.map _).sum_eq
  rw [← hsame]
  exact (hl.map _).sum_le_sum fun _ _ => Multiset.zero_le _

/-- Where each spends something, all the inputs are those of all the transactions. -/
theorem subset_of_inputsOf {some all : List Transaction} (hnodup : some.Nodup) (hsub : some ⊆ all)
    (hspend : ∀ r ∈ all, r.inputs ≠ []) (hsum : inputsOf some = inputsOf all) : all ⊆ some := by
  intro r hr
  by_contra hnot
  have hle : inputsOf (r :: some) ≤ inputsOf all := by
    refine inputsOf_le (List.nodup_cons.mpr ⟨hnot, hnodup⟩) fun r' hr' => ?_
    rcases List.mem_cons.mp hr' with rfl | hr'
    · exact hr
    · exact hsub hr'
  have hcons : inputsOf (r :: some) = (r.inputs : Multiset TransactionItem) + inputsOf some := by
    unfold inputsOf
    rw [List.map_cons, List.sum_cons]
  rw [hcons, hsum] at hle
  have hcard := Multiset.card_le_card hle
  rw [Multiset.card_add, Multiset.coe_card] at hcard
  have hpos := List.length_pos_iff.mpr (hspend r hr)
  omega

/-! ## What the tracker has counted -/

theorem countPayerNotes_eq {transaction : Transaction} (hmodule : ∀ i ∈ transaction.inputs, i.moduleInstanceId = mintModule)
    (hcount : ∀ i ∈ transaction.inputs, transaction.inputs.count i < 2 ^ 64) :
    countPayerNotes transaction mintModule = .ok transaction.inputs := by
  unfold countPayerNotes
  rw [if_pos hmodule, if_pos hcount]

theorem countPayerNotes_ok {transaction : Transaction} {inputs : Multiset TransactionItem}
    (h : countPayerNotes transaction mintModule = .ok inputs) :
    (∀ i ∈ transaction.inputs, i.moduleInstanceId = mintModule) ∧
      ∀ i ∈ transaction.inputs, transaction.inputs.count i < 2 ^ 64 := by
  unfold countPayerNotes at h
  split at h
  next hmodule =>
    split at h
    next hcount => exact ⟨hmodule, hcount⟩
    next => cases h
  next => cases h

/-- The notes of a transaction that spends no other notes than the payment. -/
theorem countPayerNotes_of_le {transaction : Transaction}
    (hle : (transaction.inputs : Multiset TransactionItem) ≤ payment.inputs)
    (h : countPayerNotes payment mintModule = .ok payment.inputs) :
    countPayerNotes transaction mintModule = .ok transaction.inputs := by
  obtain ⟨hmodule, hcount⟩ := countPayerNotes_ok h
  have hmem : ∀ i ∈ transaction.inputs, i ∈ payment.inputs := fun i hi =>
    Multiset.mem_coe.mp (Multiset.mem_of_le hle (Multiset.mem_coe.mpr hi))
  refine countPayerNotes_eq (fun i hi => hmodule i (hmem i hi)) fun i hi => ?_
  have hless := Multiset.count_le_of_le i hle
  rw [Multiset.coe_count, Multiset.coe_count] at hless
  have hbound := hcount i (hmem i hi)
  omega

/-- The tracker knows all that it saw, and has not finished. -/
structure Follows (txHash : Transaction ↪ TransactionId) (operationId : OperationId) (originalTxid : TransactionId)
    (mintModule : ModuleInstanceId) (payment : Transaction) (seen : List (OperationId × TxSubmissionState))
    (t : RefundTracker) (done : List (TransactionId × Transaction)) : Prop where
  tracks : Tracks txHash operationId originalTxid mintModule seen t done
  bodies : ∀ r, (operationId, .created r) ∈ seen → t.transactions.get? (txHash r) = some r
  accepted : ∀ txid, (operationId, .accepted txid) ∈ seen → t.accepted.get? txid = some ()
  rejected : ∀ txid, t.rejected.get? txid = some () → (operationId, .rejected txid) ∈ seen
  original : (operationId, .created payment) ∈ seen → t.originalInputs = some (payment.inputs : Multiset TransactionItem)
  counted : ∀ txid, t.counted.get? txid = some () → txid ∈ done.map Prod.fst
  unfinished : t.recovered ≠ payment.inputs

/-- Once the payment is known, nothing that is ready is left. -/
def CountedAll (txHash : Transaction ↪ TransactionId) (operationId : OperationId) (originalTxid : TransactionId)
    (seen : List (OperationId × TxSubmissionState)) (t : RefundTracker) (done : List (TransactionId × Transaction)) : Prop :=
  t.originalInputs ≠ none → ∀ r, IsSibling txHash operationId originalTxid seen r → r.1 ∈ done.map Prod.fst

theorem follows_empty (hinputs : payment.inputs ≠ []) :
    Follows txHash operationId originalTxid mintModule payment [] .empty [] where
  tracks := tracks_empty
  bodies := fun _ h => absurd h List.not_mem_nil
  accepted := fun _ h => absurd h List.not_mem_nil
  rejected := fun _ h => by cases h
  original := fun h => absurd h List.not_mem_nil
  counted := fun _ h => by cases h
  unfinished := by
    intro h
    exact hinputs (Multiset.coe_eq_zero _ |>.mp h.symm)

/-- The counted refunds are refunds of the history. -/
theorem RefundedBy.siblings_of_seen
    (h : RefundedBy txHash operationId originalTxid mintModule updates payment refunds) (hseen : seen ⊆ updates)
    {r : TransactionId × Transaction} (hr : IsSibling txHash operationId originalTxid seen r) : r.2 ∈ refunds := by
  obtain ⟨r', hr', htxid⟩ := (h.siblings r.1).mp ⟨hseen hr.accepted, hr.other⟩
  have hsame : r' = r.2 := txHash.injective (htxid.trans hr.txid.symm)
  rw [← hsame]
  exact hr'

theorem nodup_bodies {rs : List (TransactionId × Transaction)} (hnodup : (rs.map Prod.fst).Nodup)
    (hsiblings : ∀ r ∈ rs, txHash r.2 = r.1) : (rs.map Prod.snd).Nodup := by
  have hids : rs.map Prod.fst = (rs.map Prod.snd).map txHash := by
    rw [List.map_map]
    exact List.map_congr_left fun r hr => (hsiblings r hr).symm
  rw [hids] at hnodup
  exact hnodup.of_map

theorem Follows.recovered (h : Follows txHash operationId originalTxid mintModule payment seen t done) :
    t.recovered = inputsOf (done.map Prod.snd) := by
  rw [h.tracks.recovered]
  unfold inputsOf
  rw [List.map_map]
  rfl

/-- A refund that is counted next spends what is left of the payment. -/
theorem Follows.next_le (h : Follows txHash operationId originalTxid mintModule payment seen t done)
    (hhistory : RefundedBy txHash operationId originalTxid mintModule updates payment refunds) (hseen : seen ⊆ updates)
    {r : TransactionId × Transaction} (hr : IsSibling txHash operationId originalTxid seen r)
    (hnew : r.1 ∉ done.map Prod.fst) : t.recovered + r.2.inputs ≤ payment.inputs := by
  have hids : ∀ r' ∈ r :: done, txHash r'.2 = r'.1 := by
    intro r' hr'
    rcases List.mem_cons.mp hr' with rfl | hr'
    · exact hr.txid
    · exact (h.tracks.areRefunds r' hr').txid
  have hnodup : ((r :: done).map Prod.snd).Nodup := by
    refine nodup_bodies ?_ hids
    rw [List.map_cons, List.nodup_cons]
    exact ⟨hnew, h.tracks.nodup⟩
  have hsub : (r :: done).map Prod.snd ⊆ refunds := by
    intro body hbody
    obtain ⟨r', hr', rfl⟩ := List.mem_map.mp hbody
    rcases List.mem_cons.mp hr' with rfl | hr'
    · exact hhistory.siblings_of_seen hseen hr
    · exact hhistory.siblings_of_seen hseen (h.tracks.areRefunds r' hr').toIsSibling
  have hle := inputsOf_le hnodup hsub
  have hall : inputsOf refunds = payment.inputs := hhistory.partition
  rw [hall, List.map_cons] at hle
  rw [h.recovered, add_comm]
  exact hle

/-- Refunds are left to count as long as the wait has not finished. -/
theorem Follows.not_all (h : Follows txHash operationId originalTxid mintModule payment seen t done)
    (hhistory : RefundedBy txHash operationId originalTxid mintModule updates payment refunds)
    (hall : ∀ r ∈ refunds, txHash r ∈ done.map Prod.fst) (hseen : seen ⊆ updates) : False := by
  have hids : ∀ r ∈ done, txHash r.2 = r.1 := fun r hr => (h.tracks.areRefunds r hr).txid
  have hsub : done.map Prod.snd ⊆ refunds := by
    intro body hbody
    obtain ⟨r, hr, rfl⟩ := List.mem_map.mp hbody
    exact hhistory.siblings_of_seen hseen (h.tracks.areRefunds r hr).toIsSibling
  have hsup : refunds ⊆ done.map Prod.snd := by
    intro r hr
    obtain ⟨r', hr', htxid⟩ := List.mem_map.mp (hall r hr)
    have hsame : r'.2 = r := txHash.injective ((hids r' hr').trans htxid)
    exact List.mem_map.mpr ⟨r', hr', hsame⟩
  have hperm := (List.perm_ext_iff_of_nodup (nodup_bodies h.tracks.nodup hids) hhistory.nodup).mpr
    fun r => ⟨fun hr => hsub hr, fun hr => hsup hr⟩
  apply h.unfinished
  rw [h.recovered, ← hhistory.partition]
  exact (hperm.map _).sum_eq

/-! ## One update -/

theorem record_created (hhistory : RefundedBy txHash operationId originalTxid mintModule updates payment refunds)
    (transaction : Transaction) :
    t.record txHash originalTxid mintModule (.created transaction) =
      .ok { t with
        transactions := t.transactions.insert (txHash transaction) transaction
        originalInputs := if txHash transaction = originalTxid then some (payment.inputs : Multiset TransactionItem)
          else t.originalInputs } := by
  unfold RefundTracker.record
  dsimp only
  by_cases htxid : txHash transaction = originalTxid
  · have hsame : transaction = payment := txHash.injective (htxid.trans hhistory.txid.symm)
    subst hsame
    have hne : (transaction.inputs : Multiset TransactionItem) ≠ 0 := fun heq =>
      hhistory.inputs ((Multiset.coe_eq_zero _).mp heq)
    rw [if_pos htxid, if_pos htxid, hhistory.notes]
    exact if_neg hne
  · rw [if_neg htxid, if_neg htxid]

theorem Follows.record (h : Follows txHash operationId originalTxid mintModule payment seen t done)
    (hhistory : RefundedBy txHash operationId originalTxid mintModule updates payment refunds)
    {state : TxSubmissionState} (hseen : seen ++ [(operationId, state)] ⊆ updates) :
    ∃ t', t.record txHash originalTxid mintModule state = .ok t' ∧
      Follows txHash operationId originalTxid mintModule payment (seen ++ [(operationId, state)]) t' done := by
  have hmem : (operationId, state) ∈ seen ++ [(operationId, state)] := List.mem_append_right seen List.mem_cons_self
  have hmono := h.tracks.mono (List.subset_append_left seen [(operationId, state)])
  cases state with
  | created transaction =>
    have hrecord := record_created (t := t) hhistory transaction
    refine ⟨_, hrecord, hmono.record hmem hrecord, fun r hr => ?_, fun txid hacc => ?_, fun txid hget => ?_,
      fun hcreated => ?_, h.counted, h.unfinished⟩
    · show (t.transactions.insert (txHash transaction) transaction).get? (txHash r) = some r
      by_cases heq : r = transaction
      · rw [heq, BTreeMap.get?_insert_self]
      · rw [BTreeMap.get?_insert_ne _ _ fun htxid => heq (txHash.injective htxid)]
        exact h.bodies r (by simpa [heq] using hr)
    · exact h.accepted txid (by simpa using hacc)
    · exact List.mem_append_left _ (h.rejected txid hget)
    · show (if txHash transaction = originalTxid then _ else _) = _
      by_cases htxid : txHash transaction = originalTxid
      · rw [if_pos htxid]
      · have hne : payment ≠ transaction := fun heq => htxid (by rw [← heq, hhistory.txid])
        rw [if_neg htxid]
        exact h.original (by simpa [hne] using hcreated)
  | accepted txid =>
    have hnot : t.rejected.get? txid = none := by
      by_contra hne
      obtain ⟨⟨⟩, hget⟩ := Option.ne_none_iff_exists'.mp hne
      exact hhistory.terminal txid (hseen hmem) (hseen (List.mem_append_left _ (h.rejected txid hget)))
    have hrecord : t.record txHash originalTxid mintModule (.accepted txid) =
        .ok { t with accepted := t.accepted.insert txid () } := if_pos hnot
    refine ⟨_, hrecord, hmono.record hmem hrecord, fun r hr => ?_, fun txid' hacc => ?_, fun txid' hget => ?_,
      fun hcreated => ?_, h.counted, h.unfinished⟩
    · exact h.bodies r (by simpa using hr)
    · show (t.accepted.insert txid ()).get? txid' = some ()
      by_cases heq : txid' = txid
      · rw [heq, BTreeMap.get?_insert_self]
      · rw [BTreeMap.get?_insert_ne _ _ heq]
        exact h.accepted txid' (by simpa [heq] using hacc)
    · exact List.mem_append_left _ (h.rejected txid' hget)
    · exact h.original (by simpa using hcreated)
  | rejected txid =>
    have hnot : t.accepted.get? txid = none := by
      by_contra hne
      obtain ⟨⟨⟩, hget⟩ := Option.ne_none_iff_exists'.mp hne
      exact hhistory.terminal txid (hseen (List.mem_append_left _ (h.tracks.accepted txid hget))) (hseen hmem)
    have hrecord : t.record txHash originalTxid mintModule (.rejected txid) =
        .ok { t with rejected := t.rejected.insert txid () } := if_pos hnot
    refine ⟨_, hrecord, hmono.record hmem hrecord, fun r hr => ?_, fun txid' hacc => ?_, fun txid' hget => ?_,
      fun hcreated => ?_, h.counted, h.unfinished⟩
    · exact h.bodies r (by simpa using hr)
    · exact h.accepted txid' (by simpa using hacc)
    · by_cases heq : txid' = txid
      · rw [heq]
        exact hmem
      · have hold : t.rejected.get? txid' = some () := (BTreeMap.get?_insert_ne _ _ heq).symm.trans hget
        exact List.mem_append_left _ (h.rejected txid' hold)
    · exact h.original (by simpa using hcreated)
  | nonRetryableError =>
    refine ⟨t, rfl, hmono, fun r hr => ?_, fun txid hacc => ?_, fun txid hget => ?_, fun hcreated => ?_, h.counted,
      h.unfinished⟩
    · exact h.bodies r (by simpa using hr)
    · exact h.accepted txid (by simpa using hacc)
    · exact List.mem_append_left _ (h.rejected txid hget)
    · exact h.original (by simpa using hcreated)

/-- The ready refunds are counted, or the wait finishes. -/
theorem Follows.countRefunds (h : Follows txHash operationId originalTxid mintModule payment seen t done)
    (hhistory : RefundedBy txHash operationId originalTxid mintModule updates payment refunds) (hseen : seen ⊆ updates)
    {ready : List (TransactionId × Transaction)} (hready : ∀ r ∈ ready, IsSibling txHash operationId originalTxid seen r)
    (hnew : ∀ r ∈ ready, t.counted.get? r.1 = none) (hnodup : (ready.map Prod.fst).Nodup) :
    (∃ t' done', t.countRefunds mintModule payment.inputs ready = .ok (.more t') ∧
        Follows txHash operationId originalTxid mintModule payment seen t' done' ∧
        t'.originalInputs = t.originalInputs ∧
        ∀ txid, txid ∈ done.map Prod.fst ∨ txid ∈ ready.map Prod.fst → txid ∈ done'.map Prod.fst) ∨
      ∃ outpoints, t.countRefunds mintModule payment.inputs ready = .ok (.restored outpoints) := by
  induction ready generalizing t done with
  | nil => exact .inl ⟨t, done, rfl, h, rfl, fun txid hor => hor.resolve_right List.not_mem_nil⟩
  | cons r ready ih =>
    have hsibling := hready r List.mem_cons_self
    have hmem := hhistory.siblings_of_seen hseen hsibling
    have huncounted := h.tracks.counted r.1 (hnew r List.mem_cons_self)
    have hle := h.next_le hhistory hseen hsibling huncounted
    have hown : (r.2.inputs : Multiset TransactionItem) ≤ payment.inputs := le_trans (Multiset.le_add_left _ _) hle
    have hne : (r.2.inputs : Multiset TransactionItem) ≠ 0 := fun heq =>
      hhistory.spend r.2 hmem ((Multiset.coe_eq_zero _).mp heq)
    have hcount := h.tracks.count ⟨hsibling, hhistory.outputs r.2 hmem⟩ (hnew r List.mem_cons_self)
    unfold RefundTracker.countRefunds
    rw [countPayerNotes_of_le hown hhistory.notes]
    dsimp only
    rw [if_pos ⟨hne, hown⟩, if_pos (hhistory.outputs r.2 hmem), if_pos hle]
    by_cases hcomplete : t.recovered + (r.2.inputs : Multiset TransactionItem) = payment.inputs
    · rw [if_pos hcomplete]
      exact .inr ⟨_, rfl⟩
    · rw [if_neg hcomplete]
      rw [List.map_cons, List.nodup_cons] at hnodup
      have hnext : Follows txHash operationId originalTxid mintModule payment seen (t.count r.1 r.2) (done ++ [r]) := by
        refine ⟨hcount, h.bodies, h.accepted, h.rejected, h.original, fun txid hget => ?_, hcomplete⟩
        rw [List.map_append, List.mem_append]
        by_cases heq : txid = r.1
        · exact .inr (by simp [heq])
        · exact .inl (h.counted txid ((BTreeMap.get?_insert_ne _ _ heq).symm.trans hget))
      have hstill : ∀ r' ∈ ready, (t.count r.1 r.2).counted.get? r'.1 = none := by
        intro r' hr'
        have hother : r'.1 ≠ r.1 := fun heq => hnodup.1 (heq ▸ List.mem_map_of_mem hr')
        show (t.counted.insert r.1 ()).get? r'.1 = none
        rw [BTreeMap.get?_insert_ne _ _ hother]
        exact hnew r' (List.mem_cons_of_mem _ hr')
      rcases ih hnext (fun r' hr' => hready r' (List.mem_cons_of_mem _ hr')) hstill hnodup.2 with
        ⟨t', done', hmore, hfollows, hsame, hall⟩ | hrestored
      · refine .inl ⟨t', done', hmore, hfollows, hsame, fun txid hor => hall txid ?_⟩
        rw [List.map_append, List.mem_append]
        rcases hor with hdone | hready'
        · exact .inl (.inl hdone)
        · rcases List.mem_cons.mp hready' with rfl | hrest
          · exact .inl (.inr (by simp))
          · exact .inr hrest
      · exact .inr hrestored

/-- One update is counted with what it makes ready, or the wait finishes. -/
theorem Follows.trackRefund (h : Follows txHash operationId originalTxid mintModule payment seen t done)
    (hhistory : RefundedBy txHash operationId originalTxid mintModule updates payment refunds)
    {u : OperationId × TxSubmissionState} (hseen : seen ++ [u] ⊆ updates) :
    (∃ t' done', FiPayments.trackRefund txHash operationId originalTxid mintModule t u = .ok (.more t') ∧
        Follows txHash operationId originalTxid mintModule payment (seen ++ [u]) t' done' ∧
        CountedAll txHash operationId originalTxid (seen ++ [u]) t' done') ∨
      ∃ outpoints, FiPayments.trackRefund txHash operationId originalTxid mintModule t u = .ok (.restored outpoints) := by
  obtain ⟨operationId', state⟩ := u
  have hoperation : operationId' = operationId :=
    hhistory.operation _ (hseen (List.mem_append_right seen List.mem_cons_self))
  subst hoperation
  obtain ⟨t', hrecord, hfollows⟩ := h.record hhistory hseen
  unfold FiPayments.trackRefund
  rw [if_pos rfl, hrecord]
  dsimp only
  cases horiginal : t'.originalInputs with
  | none => exact .inl ⟨t', done, rfl, hfollows, fun hknown => absurd horiginal hknown⟩
  | some originalInputs =>
    have hinputs : originalInputs = payment.inputs := by
      obtain ⟨transaction, -, htxid, hinputs⟩ := hfollows.tracks.original originalInputs horiginal
      rw [hinputs, txHash.injective (htxid.trans hhistory.txid.symm)]
    subst hinputs
    have hready : ∀ r ∈ t'.ready originalTxid, IsSibling txHash operationId' originalTxid (seen ++ [(operationId', state)]) r := by
      intro r hr
      obtain ⟨haccepted, hother, -, hbody⟩ := mem_ready_iff.mp hr
      obtain ⟨htxid, hcreated⟩ := hfollows.tracks.transactions r.1 r.2 hbody
      exact ⟨hother, htxid, hcreated, hfollows.tracks.accepted r.1 haccepted⟩
    rcases hfollows.countRefunds hhistory hseen hready (fun r hr => (mem_ready_iff.mp hr).2.2.1) (ready_nodup t' originalTxid)
      with ⟨t'', done', hmore, hnext, -, hall⟩ | hrestored
    · refine .inl ⟨t'', done', hmore, hnext, fun _ r hr => hall r.1 ?_⟩
      cases hcounted : t'.counted.get? r.1 with
      | some _ => exact .inl (hfollows.counted r.1 hcounted)
      | none =>
        have hbody : t'.transactions.get? r.1 = some r.2 := by
          rw [← hr.txid]
          exact hfollows.bodies r.2 hr.created
        exact .inr (List.mem_map_of_mem (mem_ready_iff.mpr ⟨hfollows.accepted r.1 hr.accepted, hr.other, hcounted, hbody⟩))
    · exact .inr hrestored

/-! ## A whole stream -/

theorem restores_all (h : Follows txHash operationId originalTxid mintModule payment seen t done)
    (hcounted : CountedAll txHash operationId originalTxid seen t done) {rest : List (OperationId × TxSubmissionState)}
    (hhistory : RefundedBy txHash operationId originalTxid mintModule (seen ++ rest) payment refunds) :
    ∃ outpoints, awaitRejectedInputRefunds txHash operationId originalTxid mintModule t rest = .ok (some outpoints) := by
  induction rest generalizing seen t done with
  | nil =>
    rw [List.append_nil] at hhistory
    refine absurd (h.not_all hhistory (fun r hr => ?_) (List.Subset.refl _)) id
    obtain ⟨haccepted, hother⟩ := (hhistory.siblings (txHash r)).mpr ⟨r, hr, rfl⟩
    refine hcounted (by rw [h.original hhistory.created]; simp) (txHash r, r) ⟨hother, rfl, hhistory.bodies r hr, haccepted⟩
  | cons u rest ih =>
    have happend : seen ++ u :: rest = (seen ++ [u]) ++ rest := by simp
    rw [happend] at hhistory
    unfold awaitRejectedInputRefunds
    rcases h.trackRefund hhistory (List.subset_append_left _ rest) with ⟨t', done', hmore, hnext, hall⟩ | ⟨outpoints, hrestored⟩
    · rw [hmore]
      exact ih hnext hall hhistory
    · rw [hrestored]
      exact ⟨outpoints, rfl⟩

/-- What restores the inputs of the history are the outputs of its refunds. -/
theorem mem_outpoints (hhistory : RefundedBy txHash operationId originalTxid mintModule updates payment refunds)
    {outpoints : List OutPoint} (h : Restores txHash operationId originalTxid mintModule updates outpoints) (o : OutPoint) :
    o ∈ outpoints ↔ ∃ r ∈ refunds, o ∈ RefundTracker.outpoints (txHash r) r := by
  obtain ⟨transaction, rs, -, htxid, hnodup, hrefunds, hsum, rfl⟩ := h
  have hsame : transaction = payment := txHash.injective (htxid.trans hhistory.txid.symm)
  subst hsame
  have hids : ∀ r ∈ rs, txHash r.2 = r.1 := fun r hr => (hrefunds r hr).txid
  have hsub : rs.map Prod.snd ⊆ refunds := by
    intro body hbody
    obtain ⟨r, hr, rfl⟩ := List.mem_map.mp hbody
    exact hhistory.siblings_of_seen (List.Subset.refl _) (hrefunds r hr).toIsSibling
  have hinputs : inputsOf (rs.map Prod.snd) = inputsOf refunds := by
    have hall : inputsOf refunds = transaction.inputs := hhistory.partition
    rw [hall, ← hsum]
    unfold inputsOf
    rw [List.map_map]
    rfl
  have hsup := subset_of_inputsOf (nodup_bodies hnodup hids) hsub hhistory.spend hinputs
  rw [List.mem_flatMap]
  constructor
  · rintro ⟨r, hr, ho⟩
    exact ⟨r.2, hsub (List.mem_map_of_mem hr), by rw [hids r hr]; exact ho⟩
  · rintro ⟨r, hr, ho⟩
    obtain ⟨r', hr', rfl⟩ := List.mem_map.mp (hsup hr)
    exact ⟨r', hr', by rw [← hids r' hr']; exact ho⟩

end

/-- A finished wait has counted each input of the payment once and awaited all that its refunds pay; and
where the refunds of a history return every input, it finishes by the same outpoints for the updates in any
order and number, if their outputs come. -/
theorem rejected_inputs_recovered (txHash : Transaction ↪ TransactionId) (operationId : OperationId)
    (originalTxid : TransactionId) (mintModule : ModuleInstanceId) (awaitOutputs : List OutPoint → Bool) :
    (∀ updates outpoints,
      awaitRefundOutputs txHash operationId originalTxid mintModule awaitOutputs updates = .ok outpoints →
      Restores txHash operationId originalTxid mintModule updates outpoints ∧ awaitOutputs outpoints = true) ∧
    ∀ updates payment refunds, RefundedBy txHash operationId originalTxid mintModule updates payment refunds →
      ∀ updates', (∀ u, u ∈ updates' ↔ u ∈ updates) →
      ∃ outpoints, (∀ o, o ∈ outpoints ↔ ∃ r ∈ refunds, o ∈ RefundTracker.outpoints (txHash r) r) ∧
        awaitRefundOutputs txHash operationId originalTxid mintModule awaitOutputs updates' =
          if awaitOutputs outpoints then .ok outpoints else .error .outputs := by
  constructor
  · intro updates outpoints h
    unfold awaitRefundOutputs at h
    split at h
    · cases h
    · cases h
    next outpoints' hrestored =>
      split at h
      next hawaited =>
        cases h
        exact ⟨restored_spec hrestored, hawaited⟩
      next => cases h
  · intro updates payment refunds hhistory updates' hsame
    have hhistory' := hhistory.congr hsame
    obtain ⟨outpoints, hrestored⟩ := restores_all (follows_empty hhistory.inputs) (fun hknown => absurd rfl hknown)
      hhistory'
    refine ⟨outpoints, mem_outpoints hhistory' (restored_spec hrestored), ?_⟩
    unfold awaitRefundOutputs
    rw [hrestored]

/-- A bundle is rejected, and its two notes come back apart, the first accepted before it is created. -/
theorem rejected_inputs_recovered_per_note :
    let txHash : Transaction ↪ TransactionId := ⟨Encodable.encode, Encodable.encode_injective⟩
    let payment : Transaction := ⟨[⟨1, .v1 1024 1⟩, ⟨1, .v1 2048 2⟩], [⟨1, .v1 2900 3⟩], 3⟩
    let first : Transaction := ⟨[⟨1, .v1 1024 1⟩], [⟨1, .v1 924 4⟩], 5⟩
    let second : Transaction := ⟨[⟨1, .v1 2048 2⟩], [⟨1, .v1 1948 5⟩], 6⟩
    ∃ outpoints, awaitRefundOutputs txHash 32 (txHash payment) 1 (fun _ => true)
      [(32, .accepted (txHash first)), (32, .created payment), (32, .created second), (32, .created first),
        (32, .accepted (txHash second)), (32, .accepted (txHash first))] = .ok outpoints := by
  intro txHash payment first second
  have hfirst : txHash first ≠ txHash payment := txHash.injective.ne (by decide)
  have hsecond : txHash second ≠ txHash payment := txHash.injective.ne (by decide)
  have hhistory : RefundedBy txHash 32 (txHash payment) 1
      [(32, .accepted (txHash second)), (32, .created second), (32, .accepted (txHash first)), (32, .created first),
        (32, .created payment)] payment [first, second] := {
    operation := by simp
    terminal := by simp
    created := by simp
    txid := rfl
    notes := by decide
    inputs := by decide
    siblings := by
      intro txid
      simp only [List.mem_cons, Prod.mk.injEq, reduceCtorEq, and_false, TxSubmissionState.accepted.injEq,
        List.not_mem_nil, or_false, true_and, false_or, exists_eq_or_imp, ↓existsAndEq]
      constructor
      · rintro ⟨rfl | rfl, -⟩
        · exact .inr rfl
        · exact .inl rfl
      · rintro (rfl | rfl)
        · exact ⟨.inr rfl, hfirst⟩
        · exact ⟨.inl rfl, hsecond⟩
    bodies := by simp
    nodup := by decide
    spend := by decide
    outputs := by decide
    partition := by decide }
  obtain ⟨outpoints, -, hok⟩ := (rejected_inputs_recovered txHash 32 (txHash payment) 1 (fun _ => true)).2 _ _ _ hhistory
    [(32, .accepted (txHash first)), (32, .created payment), (32, .created second), (32, .created first),
      (32, .accepted (txHash second)), (32, .accepted (txHash first))] (by simp only [List.mem_cons]; tauto)
  exact ⟨outpoints, hok⟩

end FiPayments
