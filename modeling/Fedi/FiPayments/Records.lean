import Fedi.FiPayments.Funding
import Fedi.FiFunding.Coverage

/-!
# Records of the seat payments

What the rows of a quote say together: its journal, its operation and one consumed hold exist
together or not at all, and the refund claims of both tables agree.  Every writer keeps this whatever
commits between its snapshot and its own commit:

    Keeps paymentRows (RecordsAgree operationIdOf txHash) Later closure
-/

namespace FiPayments

open BTreeMaps Optimistic Runs FiFunding

/-! ## Consumed holds -/

def ConsumedAt (r : Reservation) (quoteId : QuoteId) : Prop :=
  ∃ m debitMsats, r.find quoteId = some m ∧ m.state = .consumed debitMsats

/-- The hold of a quote in a reservation was consumed. -/
def ConsumedIn (db : FundingDb) (token : Token) (quoteId : QuoteId) : Prop :=
  ∃ r, db.reservations.get? token = some r ∧ ConsumedAt r quoteId

section

variable {db db' : FundingDb} {token : Token} {quoteId : QuoteId} {r : Reservation} {m new : Member}

theorem consumedAt_update (hnew : new.quoteId = quoteId) (h : r.find quoteId = some m) (quoteId' : QuoteId) :
    ConsumedAt (r.update quoteId new hnew) quoteId' ↔
      if quoteId' = quoteId then ∃ debitMsats, new.state = .consumed debitMsats else ConsumedAt r quoteId' := by
  unfold ConsumedAt
  rw [find_update hnew h]
  split
  · exact ⟨fun ⟨m, debitMsats, hm, hstate⟩ => ⟨debitMsats, by cases hm; exact hstate⟩,
      fun ⟨debitMsats, hstate⟩ => ⟨new, debitMsats, rfl, hstate⟩⟩
  · rfl

theorem consumedAt_release (r : Reservation) (quoteId : QuoteId) : ConsumedAt r.release quoteId ↔ ConsumedAt r quoteId := by
  unfold ConsumedAt
  rw [find_release]
  constructor
  · rintro ⟨m, debitMsats, hm, hstate⟩
    obtain ⟨m', hm', rfl⟩ := Option.map_eq_some_iff.mp hm
    split at hstate
    · cases hstate
    · exact ⟨m', debitMsats, hm', hstate⟩
  · rintro ⟨m, debitMsats, hm, hstate⟩
    refine ⟨m, debitMsats, ?_, hstate⟩
    rw [hm, Option.map_some, if_neg (by rw [hstate]; simp)]

theorem consumedIn_of_rows (h : db'.reservations = db.reservations) (token : Token) (quoteId : QuoteId) :
    ConsumedIn db' token quoteId ↔ ConsumedIn db token quoteId := by
  unfold ConsumedIn
  rw [h]

theorem consumedIn_insert (h : db'.reservations = db.reservations.insert token r) (token' : Token) (quoteId : QuoteId) :
    ConsumedIn db' token' quoteId ↔ if token' = token then ConsumedAt r quoteId else ConsumedIn db token' quoteId := by
  unfold ConsumedIn
  rw [h, BTreeMap.get?_insert]
  split
  · exact ⟨fun ⟨r', hr', hconsumed⟩ => by cases hr'; exact hconsumed, fun hconsumed => ⟨r, rfl, hconsumed⟩⟩
  · rfl

/-- A row that is replaced by one with the same consumed members. -/
theorem consumedIn_replace {r' : Reservation} (hget : db.reservations.get? token = some r)
    (h : db'.reservations = db.reservations.insert token r')
    (hsame : ∀ quoteId, ConsumedAt r' quoteId ↔ ConsumedAt r quoteId) (token' : Token) (quoteId : QuoteId) :
    ConsumedIn db' token' quoteId ↔ ConsumedIn db token' quoteId := by
  rw [consumedIn_insert h]
  split
  next heq =>
    subst heq
    rw [hsame]
    exact ⟨fun hconsumed => ⟨r, hget, hconsumed⟩, fun ⟨r', hr', hconsumed⟩ => by
      rw [hget] at hr'
      cases hr'
      exact hconsumed⟩
  next => rfl

theorem decrementActiveTotal_rows (amountMsats : ℕ) (db : FundingDb) :
    (decrementActiveTotal amountMsats db).2.reservations = db.reservations := by
  unfold decrementActiveTotal
  split
  · rfl
  · split <;> rfl

theorem leaveHeld_rows {h : m.quoteId = quoteId} {state : MemberState} {changed : Bool}
    (hleave : leaveHeld token r quoteId m h state db = (.ok changed, db')) :
    changed = true ∧ db'.reservations = db.reservations.insert token
      (r.update quoteId (m.setState state) ((m.setState_quoteId state).trans h)) := by
  unfold leaveHeld at hleave
  have hrows := decrementActiveTotal_rows m.reservedMsats db
  split at hleave
  · cases hleave
  next dbtx hdecrement =>
    rw [hdecrement] at hrows
    cases hleave
    refine ⟨rfl, ?_⟩
    unfold FundingDb.insertReservation
    dsimp only at hrows ⊢
    rw [hrows]

theorem leaveHeld_failed {h : m.quoteId = quoteId} {state : MemberState} {e : FundingError}
    (hleave : leaveHeld token r quoteId m h state db = (.error e, db')) : db'.reservations = db.reservations := by
  unfold leaveHeld at hleave
  have hrows := decrementActiveTotal_rows m.reservedMsats db
  split at hleave
  next dbtx hdecrement =>
    rw [hdecrement] at hrows
    cases hleave
    exact hrows
  · cases hleave

/-- A payment consumes a held member, or finds it consumed and writes nothing. -/
theorem consumeMember_spec {exactDebit : ℕ} {changed : Bool}
    (h : consumeMemberDbtx token quoteId exactDebit db = (.ok changed, db')) :
    (changed = false ∧ ConsumedIn db token quoteId) ∨
      (changed = true ∧ ∃ r m, ∃ hm : (m.setState (.consumed exactDebit)).quoteId = quoteId,
        db.reservations.get? token = some r ∧
        r.find quoteId = some m ∧ m.state = .held ∧
        db'.reservations = db.reservations.insert token (r.update quoteId (m.setState (.consumed exactDebit)) hm)) := by
  unfold consumeMemberDbtx at h
  split at h
  · split at h
    · cases h
    next r hget =>
      split at h
      · cases h
      next m hm =>
        split at h
        · split at h
          · cases h
          next debitMsats hstate =>
            split at h
            · cases h
              exact .inl ⟨rfl, r, hget, m, debitMsats, hm, hstate⟩
            · cases h
          next hheld =>
            obtain ⟨hchanged, hrows⟩ := leaveHeld_rows h
            exact .inr ⟨hchanged, r, m, (m.setState_quoteId _).trans (r.quoteId_of_find hm), hget, hm, hheld, hrows⟩
        · cases h
  · cases h

theorem consumedIn_leaveHeld {h : m.quoteId = quoteId} (hget : db.reservations.get? token = some r)
    (hm : r.find quoteId = some m) (hheld : m.state = .held) (token' : Token) (quoteId' : QuoteId) :
    ConsumedIn (leaveHeld token r quoteId m h .releasedUnstarted db).2 token' quoteId' ↔
      ConsumedIn db token' quoteId' := by
  rcases hleave : leaveHeld token r quoteId m h .releasedUnstarted db with ⟨result, db'⟩
  cases result with
  | error e => exact consumedIn_of_rows (leaveHeld_failed hleave) token' quoteId'
  | ok changed =>
    refine consumedIn_replace hget (leaveHeld_rows hleave).2 (fun quoteId'' => ?_) token' quoteId'
    rw [consumedAt_update _ hm]
    split
    next heq =>
      subst heq
      refine ⟨fun ⟨_, hstate⟩ => (by cases hstate), fun ⟨m', debitMsats, hm', hstate⟩ => ?_⟩
      rw [hm] at hm'
      cases hm'
      rw [hheld] at hstate
      cases hstate
    next => rfl

theorem consumedIn_reserve (availableBalance : ℕ) (fingerprint : Fingerprint) (createdAtSecs : ℕ)
    (members : List Member) (token' : Token) (quoteId' : QuoteId) :
    ConsumedIn (reserve availableBalance token fingerprint createdAtSecs members db).2 token' quoteId' ↔
      ConsumedIn db token' quoteId' := by
  have hinsert {r : Reservation} (hheld : ∀ m ∈ r.members, m.state = .held) :
      ConsumedIn (insertReservationDbtx token r db).2 token' quoteId' ↔ ConsumedIn db token' quoteId' := by
    unfold insertReservationDbtx
    split
    · split <;> rfl
    next hnone =>
      split
      · rfl
      · split
        · split
          · rw [@consumedIn_insert db _ token r rfl]
            split
            next heq =>
              subst heq
              refine ⟨fun ⟨m, debitMsats, hm, hstate⟩ => ?_, fun ⟨r', hr', _⟩ => ?_⟩
              · rw [hheld m (mem_of_find hm)] at hstate
                cases hstate
              · rw [hnone] at hr'
                cases hr'
            next => rfl
          · rfl
        · rfl
  unfold reserve
  split
  · rfl
  next r hr =>
    obtain ⟨rfl, hheld⟩ := Reservation.new_spec hr
    split
    · rfl
    · split
      · split <;> rfl
      · split
        · rw [← hinsert hheld]
          split
          next heq => rw [heq]
          next heq => rw [heq]
        · rfl

theorem consumedIn_recordRefund (refundedMsats : ℕ) (token' : Token) (quoteId' : QuoteId) :
    ConsumedIn (recordMemberRefundDbtx token quoteId refundedMsats db).2 token' quoteId' ↔
      ConsumedIn db token' quoteId' := by
  unfold recordMemberRefundDbtx
  split
  · rfl
  next r hget =>
    split
    · rfl
    next m hm =>
      split
      · rfl
      next m' hm' =>
        refine consumedIn_replace hget rfl (fun quoteId'' => ?_) token' quoteId'
        rw [consumedAt_update _ hm]
        split
        next heq =>
          subst heq
          obtain ⟨rfl, hpaid, -⟩ := Member.setRefundedMsats_spec hm'
          obtain ⟨debitMsats, hstate, -⟩ := hpaid
          exact ⟨fun _ => ⟨m, debitMsats, hm, hstate⟩, fun _ => ⟨debitMsats, hstate⟩⟩
        next => rfl

theorem consumedIn_releaseAggregate (token' : Token) (quoteId' : QuoteId) :
    ConsumedIn (releaseUnstartedAggregateDbtx token db).2 token' quoteId' ↔ ConsumedIn db token' quoteId' := by
  unfold releaseUnstartedAggregateDbtx
  split
  · rfl
  next r hget =>
    split
    · split
      · rfl
      next releasedHoldMsats _ =>
        split
        · rfl
        · have hrows := decrementActiveTotal_rows releasedHoldMsats db
          split
          next e dbtx hdecrement =>
            rw [hdecrement] at hrows
            exact consumedIn_of_rows hrows token' quoteId'
          next dbtx hdecrement =>
            rw [hdecrement] at hrows
            refine consumedIn_replace hget ?_ (consumedAt_release r) token' quoteId'
            unfold FundingDb.insertReservation
            dsimp only at hrows ⊢
            rw [hrows]
    · rfl

theorem consumedIn_releaseMember (token' : Token) (quoteId' : QuoteId) :
    ConsumedIn (releaseUnstartedMemberDbtx token quoteId db).2 token' quoteId' ↔ ConsumedIn db token' quoteId' := by
  unfold releaseUnstartedMemberDbtx
  split
  · rfl
  next r hget =>
    split
    · rfl
    next m hm =>
      split
      next hheld => exact consumedIn_leaveHeld hget hm hheld token' quoteId'
      · rfl
      · rfl

theorem discard_snd {α : Type} (x : Outcome α) : x.discard.2 = x.2 := by
  unfold Outcome.discard
  split <;> rfl

/-- Only a payment consumes a hold. -/
theorem consumedIn_hold (call : HoldCall) (availableBalance : ℕ) (commits : Bool) (db : FundingDb) (token : Token)
    (quoteId : QuoteId) :
    ConsumedIn (fundingStep db ⟨[call.toCall availableBalance], commits⟩) token quoteId ↔
      ConsumedIn db token quoteId := by
  unfold fundingStep
  split
  · rw [List.foldl_cons, List.foldl_nil]
    cases call with
    | reserve token' fingerprint createdAtSecs seats =>
      unfold HoldCall.toCall FundingCall.run
      dsimp only
      split
      · rfl
      · exact consumedIn_reserve ..
    | releaseMember token' quoteId' =>
      show ConsumedIn (releaseUnstartedMemberDbtx token' quoteId' db).discard.2 token quoteId ↔ _
      rw [discard_snd]
      exact consumedIn_releaseMember token quoteId
    | releaseAggregate token' =>
      show ConsumedIn (releaseUnstartedAggregateDbtx token' db).discard.2 token quoteId ↔ _
      rw [discard_snd]
      exact consumedIn_releaseAggregate token quoteId
    | recordRefund token' quoteId' refundedMsats => exact consumedIn_recordRefund refundedMsats token quoteId
  · rfl

end

/-! ## Agreement of the rows -/

section

variable (operationIdOf : QuoteId → OperationId) (txHash : Transaction ↪ TransactionId)

/-- The operation log has the seat payment of a quote. -/
def HasOperation (db : PaymentDb) (quoteId : QuoteId) : Prop :=
  ∃ metadata, db.operations.get? (operationIdOf quoteId) = some ⟨FI_SEAT_PAYMENT_OPERATION_TYPE, some metadata⟩ ∧
    metadata.quoteId = quoteId

/-- The operation of a journaled payment, and the transaction that it submits. -/
structure Funds (db : PaymentDb) (quoteId : QuoteId) (journal : FiSeatPaymentJournal) : Prop where
  operation : ∃ metadata, db.operations.get? (operationIdOf quoteId) = some ⟨FI_SEAT_PAYMENT_OPERATION_TYPE, some metadata⟩ ∧
    metadata.version = FI_SEAT_PAYMENT_OPERATION_META_VERSION ∧ metadata.quoteId = quoteId ∧
    metadata.txid = journal.txid ∧ metadata.changeRange.txid = journal.txid
  submission : ∃ transaction, (operationIdOf quoteId, .created transaction) ∈ db.submissions ∧
    txHash transaction = journal.txid

structure RecordsAgree (db : PaymentDb) : Prop where
  funds : ∀ quoteId journal, db.journals.get? quoteId = some journal → Funds operationIdOf txHash db quoteId journal
  journaled : ∀ quoteId, HasOperation operationIdOf db quoteId → db.journals.get? quoteId ≠ none
  consumed : ∀ quoteId journal, db.journals.get? quoteId = some journal → ∃ token, ConsumedIn db.funding token quoteId
  paid : ∀ token quoteId, ConsumedIn db.funding token quoteId → db.journals.get? quoteId ≠ none
  once : ∀ token token' quoteId, ConsumedIn db.funding token quoteId → ConsumedIn db.funding token' quoteId → token = token'
  claim : ∀ hash quoteId, db.claims.get? hash = some quoteId ↔
    ∃ journal, db.journals.get? quoteId = some journal ∧ journal.claimedRefundIssuanceHash = some hash
  credit : ∀ quoteId journal hash, db.journals.get? quoteId = some journal →
    journal.creditedRefundIssuanceHash = some hash → journal.claimedRefundIssuanceHash = some hash

end

/-- A journal keeps its payment, and what was once recorded of it. -/
structure JournalKeeps (journal journal' : FiSeatPaymentJournal) : Prop where
  txid : journal'.txid = journal.txid
  signatures : ∀ signatures, journal.paymentSignatures = some signatures → journal'.paymentSignatures = some signatures
  claimed : ∀ hash, journal.claimedRefundIssuanceHash = some hash → journal'.claimedRefundIssuanceHash = some hash
  credited : ∀ hash, journal.creditedRefundIssuanceHash = some hash → journal'.creditedRefundIssuanceHash = some hash

/-- Journals, claims and submission states are kept. -/
structure Later (db db' : PaymentDb) : Prop where
  journals : ∀ quoteId journal, db.journals.get? quoteId = some journal →
    ∃ journal', db'.journals.get? quoteId = some journal' ∧ JournalKeeps journal journal'
  claims : ∀ hash quoteId, db.claims.get? hash = some quoteId → db'.claims.get? hash = some quoteId
  submissions : db.submissions ⊆ db'.submissions

theorem JournalKeeps.refl (journal : FiSeatPaymentJournal) : JournalKeeps journal journal :=
  ⟨rfl, fun _ h => h, fun _ h => h, fun _ h => h⟩

theorem JournalKeeps.trans {journal journal' journal'' : FiSeatPaymentJournal} (h : JournalKeeps journal journal')
    (h' : JournalKeeps journal' journal'') : JournalKeeps journal journal'' where
  txid := h'.txid.trans h.txid
  signatures signatures hsignatures := h'.signatures signatures (h.signatures signatures hsignatures)
  claimed hash hclaimed := h'.claimed hash (h.claimed hash hclaimed)
  credited hash hcredited := h'.credited hash (h.credited hash hcredited)

theorem Later.refl (db : PaymentDb) : Later db db :=
  ⟨fun _ journal h => ⟨journal, h, .refl journal⟩, fun _ _ h => h, List.Subset.refl _⟩

theorem Later.trans {db db' db'' : PaymentDb} (h : Later db db') (h' : Later db' db'') : Later db db'' where
  journals quoteId journal hget := by
    obtain ⟨journal', hget', hkeeps⟩ := h.journals quoteId journal hget
    obtain ⟨journal'', hget'', hkeeps'⟩ := h'.journals quoteId journal' hget'
    exact ⟨journal'', hget'', hkeeps.trans hkeeps'⟩
  claims hash quoteId hget := h'.claims hash quoteId (h.claims hash quoteId hget)
  submissions := fun _ hmem => h'.submissions (h.submissions hmem)

section

variable {operationIdOf : QuoteId → OperationId} {txHash : Transaction ↪ TransactionId}
  {db db' snapshot : PaymentDb} {quoteId : QuoteId} {journal journal' : FiSeatPaymentJournal}

theorem Funds.hasOperation (h : Funds operationIdOf txHash db quoteId journal) :
    HasOperation operationIdOf db quoteId := by
  obtain ⟨metadata, hget, -, hquote, -⟩ := h.operation
  exact ⟨metadata, hget, hquote⟩

theorem RecordsAgree.no_journal (h : RecordsAgree operationIdOf txHash db)
    (hnone : db.operations.get? (operationIdOf quoteId) = none) : db.journals.get? quoteId = none := by
  rcases hget : db.journals.get? quoteId with _ | journal
  · rfl
  · obtain ⟨metadata, hsome, -⟩ := (h.funds quoteId journal hget).operation
    rw [hnone] at hsome
    cases hsome

/-! ## Writers of other rows -/

/-- Steps that touch neither table of the journal, nor a row of a seat payment. -/
structure Frames (db db' : PaymentDb) : Prop where
  journals : db'.journals = db.journals
  claims : db'.claims = db.claims
  consumed : ∀ token quoteId, ConsumedIn db'.funding token quoteId ↔ ConsumedIn db.funding token quoteId
  operations : ∀ operationId entry, db.operations.get? operationId = some entry → db'.operations.get? operationId = some entry
  seats : ∀ operationId metadata, db'.operations.get? operationId = some ⟨FI_SEAT_PAYMENT_OPERATION_TYPE, some metadata⟩ →
    db.operations.get? operationId = some ⟨FI_SEAT_PAYMENT_OPERATION_TYPE, some metadata⟩
  submissions : db.submissions ⊆ db'.submissions

theorem Frames.later (h : Frames db db') : Later db db' where
  journals quoteId journal hget := ⟨journal, by rw [h.journals]; exact hget, .refl journal⟩
  claims hash quoteId hget := by
    rw [h.claims]
    exact hget
  submissions := h.submissions

theorem RecordsAgree.frame (h : RecordsAgree operationIdOf txHash db) (hframes : Frames db db') :
    RecordsAgree operationIdOf txHash db' where
  funds quoteId journal hget := by
    rw [hframes.journals] at hget
    obtain ⟨⟨metadata, hoperation, hmeta⟩, transaction, hcreated, htxid⟩ := h.funds quoteId journal hget
    exact ⟨⟨metadata, hframes.operations _ _ hoperation, hmeta⟩, transaction, hframes.submissions hcreated, htxid⟩
  journaled quoteId hoperation := by
    obtain ⟨metadata, hget, hquote⟩ := hoperation
    rw [hframes.journals]
    exact h.journaled quoteId ⟨metadata, hframes.seats _ _ hget, hquote⟩
  consumed quoteId journal hget := by
    rw [hframes.journals] at hget
    obtain ⟨token, hconsumed⟩ := h.consumed quoteId journal hget
    exact ⟨token, (hframes.consumed token quoteId).mpr hconsumed⟩
  paid token quoteId hconsumed := by
    rw [hframes.journals]
    exact h.paid token quoteId ((hframes.consumed token quoteId).mp hconsumed)
  once token token' quoteId hconsumed hconsumed' :=
    h.once token token' quoteId ((hframes.consumed _ _).mp hconsumed) ((hframes.consumed _ _).mp hconsumed')
  claim hash quoteId := by
    rw [hframes.journals, hframes.claims]
    exact h.claim hash quoteId
  credit quoteId journal hash hget := by
    rw [hframes.journals] at hget
    exact h.credit quoteId journal hash hget

/-! ## Writers of a journal -/

/-- A journal is replaced, and the claim that it holds is the one in the other table. -/
structure Rewrites (db db' : PaymentDb) (quoteId : QuoteId) (journal journal' : FiSeatPaymentJournal) : Prop where
  old : db.journals.get? quoteId = some journal
  journals : db'.journals = db.journals.insert quoteId journal'
  keeps : JournalKeeps journal journal'
  claims : ∀ hash, db'.claims.get? hash =
    if journal'.claimedRefundIssuanceHash = some hash then some quoteId else db.claims.get? hash
  free : ∀ hash, journal'.claimedRefundIssuanceHash = some hash →
    db.claims.get? hash = none ∨ db.claims.get? hash = some quoteId
  credit : ∀ hash, journal'.creditedRefundIssuanceHash = some hash → journal'.claimedRefundIssuanceHash = some hash
  funding : db'.funding = db.funding
  operations : db'.operations = db.operations
  submissions : db'.submissions = db.submissions

theorem Rewrites.later (h : Rewrites db db' quoteId journal journal') : Later db db' where
  journals quoteId' journal₁ hget := by
    rw [h.journals, BTreeMap.get?_insert]
    split
    next heq =>
      subst heq
      rw [h.old] at hget
      cases hget
      exact ⟨journal', rfl, h.keeps⟩
    next => exact ⟨journal₁, hget, .refl journal₁⟩
  claims hash quoteId' hget := by
    rw [h.claims]
    split
    next hclaimed =>
      rcases h.free hash hclaimed with hnone | hsome
      · rw [hnone] at hget
        cases hget
      · rw [← hsome]
        exact hget
    next => exact hget
  submissions := by rw [h.submissions]; exact List.Subset.refl _

theorem RecordsAgree.rewrite (h : RecordsAgree operationIdOf txHash db)
    (hrewrites : Rewrites db db' quoteId journal journal') : RecordsAgree operationIdOf txHash db' := by
  have hjournal (quoteId' : QuoteId) (journal₁ : FiSeatPaymentJournal) (hget : db'.journals.get? quoteId' = some journal₁) :
      ∃ journal₀, db.journals.get? quoteId' = some journal₀ ∧ JournalKeeps journal₀ journal₁ := by
    rw [hrewrites.journals, BTreeMap.get?_insert] at hget
    split at hget
    next heq =>
      subst heq
      cases hget
      exact ⟨journal, hrewrites.old, hrewrites.keeps⟩
    next => exact ⟨journal₁, hget, .refl journal₁⟩
  have hpresent (quoteId' : QuoteId) (hget : db.journals.get? quoteId' ≠ none) : db'.journals.get? quoteId' ≠ none := by
    rw [hrewrites.journals, BTreeMap.get?_insert]
    split
    · simp
    · exact hget
  refine ⟨fun quoteId' journal₁ hget => ?_, fun quoteId' hoperation => ?_, fun quoteId' journal₁ hget => ?_,
    fun token quoteId' hconsumed => ?_, fun token token' quoteId' hconsumed hconsumed' => ?_,
    fun hash quoteId' => ?_, fun quoteId' journal₁ hash hget hcredited => ?_⟩
  · obtain ⟨journal₀, hget₀, hkeeps⟩ := hjournal quoteId' journal₁ hget
    obtain ⟨⟨metadata, hoperation, hversion, hquote, htxid, hchange⟩, transaction, hcreated, hhash⟩ :=
      h.funds quoteId' journal₀ hget₀
    rw [← hkeeps.txid] at htxid hchange hhash
    rw [← hrewrites.operations] at hoperation
    rw [← hrewrites.submissions] at hcreated
    exact ⟨⟨metadata, hoperation, hversion, hquote, htxid, hchange⟩, transaction, hcreated, hhash⟩
  · unfold HasOperation at hoperation
    rw [hrewrites.operations] at hoperation
    exact hpresent quoteId' (h.journaled quoteId' hoperation)
  · obtain ⟨journal₀, hget₀, -⟩ := hjournal quoteId' journal₁ hget
    rw [hrewrites.funding]
    exact h.consumed quoteId' journal₀ hget₀
  · rw [hrewrites.funding] at hconsumed
    exact hpresent quoteId' (h.paid token quoteId' hconsumed)
  · rw [hrewrites.funding] at hconsumed hconsumed'
    exact h.once token token' quoteId' hconsumed hconsumed'
  · -- The hash of the rewritten journal belongs to its quote; every other hash is where it was.
    rw [hrewrites.claims, hrewrites.journals, BTreeMap.get?_insert]
    by_cases hquote : quoteId' = quoteId
    · subst hquote
      rw [if_pos rfl]
      constructor
      · intro hclaim
        refine ⟨journal', rfl, ?_⟩
        split at hclaim
        next hclaimed => exact hclaimed
        next =>
          obtain ⟨journal₀, hget₀, hclaimed⟩ := (h.claim hash quoteId').mp hclaim
          rw [hrewrites.old] at hget₀
          cases hget₀
          exact hrewrites.keeps.claimed hash hclaimed
      · rintro ⟨journal₁, hget, hclaimed⟩
        cases hget
        rw [if_pos hclaimed]
    · rw [if_neg hquote, ← h.claim hash quoteId']
      split
      next hclaimed =>
        refine ⟨fun heq => absurd (Option.some.inj heq).symm hquote, fun hclaim => ?_⟩
        rcases hrewrites.free hash hclaimed with hnone | hsome
        · rw [hnone] at hclaim
          cases hclaim
        · rw [← hsome]
          exact hclaim
      next => rfl
  · rw [hrewrites.journals, BTreeMap.get?_insert] at hget
    split at hget
    · cases hget
      exact hrewrites.credit hash hcredited
    · exact h.credit quoteId' journal₁ hash hget hcredited

end

/-! ## The closures -/

section

variable {operationIdOf : QuoteId → OperationId} {txHash : Transaction ↪ TransactionId}
  {db snapshot : PaymentDb} {quoteId : QuoteId} {issuanceHash : RefundIssuanceHash} {writes : List RowWrite}

theorem ensure_eq_ok {p : Prop} [Decidable p] {e : PaymentError} {u : Unit} : ensure p e = .ok u ↔ p := by
  unfold ensure
  split
  next h => exact ⟨fun _ => h, fun _ => rfl⟩
  next h => exact ⟨fun heq => (by cases heq), fun hp => absurd hp h⟩

theorem claimInJournal_spec {journal' : FiSeatPaymentJournal}
    (h : guardRefundSettlement.claimInJournal quoteId issuanceHash snapshot = .ok journal') :
    ∃ journal, snapshot.journals.get? quoteId = some journal ∧
      (∀ existing, journal.claimedRefundIssuanceHash = some existing → existing = issuanceHash) ∧
      journal' = { journal with claimedRefundIssuanceHash := some issuanceHash } := by
  unfold guardRefundSettlement.claimInJournal at h
  split at h
  · cases h
  next journal hget =>
    split at h
    next hsame =>
      cases h
      exact ⟨journal, hget, hsame, rfl⟩
    · cases h

/-- A settlement claims the issuance for its quote, or finds it claimed by it. -/
theorem guard_cases (h : guardRefundSettlement quoteId issuanceHash snapshot = .ok ((), writes)) :
    ∃ journal, snapshot.journals.get? quoteId = some journal ∧
      (∀ existing, journal.claimedRefundIssuanceHash = some existing → existing = issuanceHash) ∧
      ((snapshot.claims.get? issuanceHash = some quoteId ∧
          writes = [.journal quoteId { journal with claimedRefundIssuanceHash := some issuanceHash }]) ∨
        (snapshot.claims.get? issuanceHash = none ∧ writes = [.claim issuanceHash quoteId,
          .journal quoteId { journal with claimedRefundIssuanceHash := some issuanceHash }])) := by
  unfold guardRefundSettlement at h
  split at h
  next claimant hclaim =>
    obtain ⟨_, hsame, h⟩ := bind_eq_ok.mp h
    obtain ⟨journal', hjournal, h⟩ := bind_eq_ok.mp h
    obtain ⟨journal, hget, hexisting, rfl⟩ := claimInJournal_spec hjournal
    cases h
    rw [ensure_eq_ok.mp hsame] at hclaim
    exact ⟨journal, hget, hexisting, .inl ⟨hclaim, rfl⟩⟩
  next hclaim =>
    obtain ⟨journal', hjournal, h⟩ := bind_eq_ok.mp h
    obtain ⟨journal, hget, hexisting, rfl⟩ := claimInJournal_spec hjournal
    cases h
    exact ⟨journal, hget, hexisting, .inr ⟨hclaim, rfl⟩⟩

theorem credit_cases (h : recordRefundCreditCompleted quoteId issuanceHash snapshot = .ok ((), writes)) :
    writes = [] ∨ ∃ journal, snapshot.journals.get? quoteId = some journal ∧
      journal.claimedRefundIssuanceHash = some issuanceHash ∧ journal.creditedRefundIssuanceHash = none ∧
      writes = [.journal quoteId { journal with creditedRefundIssuanceHash := some issuanceHash }] := by
  unfold recordRefundCreditCompleted at h
  split at h
  · cases h
  next journal hget =>
    split at h
    next hclaimed =>
      split at h
      · split at h
        · cases h
          exact .inl rfl
        · cases h
      next hnone =>
        cases h
        exact .inr ⟨journal, hget, hclaimed, hnone, rfl⟩
    · cases h

theorem signatures_cases {paymentSignatures : List (List UInt8)}
    (h : persistJournalSignatures quoteId paymentSignatures snapshot = .ok ((), writes)) :
    writes = [] ∨ ∃ journal, snapshot.journals.get? quoteId = some journal ∧ journal.paymentSignatures = none ∧
      writes = [.journal quoteId { journal with paymentSignatures := some paymentSignatures }] := by
  unfold persistJournalSignatures at h
  split at h
  · cases h
  next journal hget =>
    split at h
    · cases h
    · cases h
      exact .inl rfl
    next journal' hmerge =>
      cases h
      unfold mergeJournalSignatures at hmerge
      split at hmerge
      · split at hmerge <;> cases hmerge
      next hnone =>
        cases hmerge
        exact .inr ⟨journal, hget, hnone, rfl⟩

/-- A journal that is rewritten alone keeps its claim. -/
theorem RecordsAgree.rewriteJournal (h : RecordsAgree operationIdOf txHash db)
    {journal journal' : FiSeatPaymentJournal} (hget : db.journals.get? quoteId = some journal)
    (hkeeps : JournalKeeps journal journal')
    (hclaimed : journal'.claimedRefundIssuanceHash = journal.claimedRefundIssuanceHash)
    (hcredited : ∀ hash, journal'.creditedRefundIssuanceHash = some hash →
      journal'.claimedRefundIssuanceHash = some hash) :
    RecordsAgree operationIdOf txHash (paymentRows.writeAll [.journal quoteId journal'] db) ∧
      Later db (paymentRows.writeAll [.journal quoteId journal'] db) := by
  have hclaim (hash : RefundIssuanceHash) (hhash : journal'.claimedRefundIssuanceHash = some hash) :
      db.claims.get? hash = some quoteId :=
    (h.claim hash quoteId).mpr ⟨journal, hget, hclaimed ▸ hhash⟩
  have hrewrites : Rewrites db (paymentRows.writeAll [.journal quoteId journal'] db) quoteId journal journal' := by
    refine ⟨hget, rfl, hkeeps, fun hash => ?_, fun hash hhash => .inr (hclaim hash hhash), hcredited, rfl, rfl, rfl⟩
    split
    next hhash => exact hclaim hash hhash
    next => rfl
  exact ⟨h.rewrite hrewrites, hrewrites.later⟩

theorem keeps_guard (operationIdOf : QuoteId → OperationId) (txHash : Transaction ↪ TransactionId)
    (quoteId : QuoteId) (issuanceHash : RefundIssuanceHash) :
    Keeps paymentRows (RecordsAgree operationIdOf txHash) Later (guardRefundSettlement quoteId issuanceHash) := by
  intro snapshot db _ writes hsnapshot hdb hlater hclosure hunchanged
  obtain ⟨journal, hget, hexisting, hwrites⟩ := guard_cases hclosure
  have hcredited (hash : RefundIssuanceHash) (hhash : journal.creditedRefundIssuanceHash = some hash) :
      some issuanceHash = some hash := by
    have hclaimed := hsnapshot.credit quoteId journal hash hget hhash
    rw [hexisting hash hclaimed]
  have hkeeps : JournalKeeps journal { journal with claimedRefundIssuanceHash := some issuanceHash } :=
    ⟨rfl, fun _ h => h, fun hash h => by rw [hexisting hash h], fun _ h => h⟩
  rcases hwrites with ⟨hclaim, rfl⟩ | ⟨hclaim, rfl⟩
  · have hrow : db.journals.get? quoteId = some journal := by
      rw [← hget]
      exact hunchanged _ List.mem_cons_self
    have hpresent := hlater.claims issuanceHash quoteId hclaim
    have hrewrites : Rewrites db (paymentRows.writeAll [.journal quoteId { journal with
        claimedRefundIssuanceHash := some issuanceHash }] db) quoteId journal
        { journal with claimedRefundIssuanceHash := some issuanceHash } := by
      refine ⟨hrow, rfl, hkeeps, fun hash => ?_, fun hash hhash => ?_, hcredited, rfl, rfl, rfl⟩
      · split
        next hhash =>
          cases hhash
          exact hpresent
        next => rfl
      · cases hhash
        exact .inr hpresent
    exact ⟨hdb.rewrite hrewrites, hrewrites.later⟩
  · have hrow : db.journals.get? quoteId = some journal := by
      rw [← hget]
      exact hunchanged (.journal quoteId _) (List.mem_cons_of_mem _ List.mem_cons_self)
    have hfree : db.claims.get? issuanceHash = none := by
      rw [← hclaim]
      exact hunchanged (.claim issuanceHash quoteId) List.mem_cons_self
    have hrewrites : Rewrites db (paymentRows.writeAll [.claim issuanceHash quoteId, .journal quoteId { journal with
        claimedRefundIssuanceHash := some issuanceHash }] db) quoteId journal
        { journal with claimedRefundIssuanceHash := some issuanceHash } := by
      refine ⟨hrow, rfl, hkeeps, fun hash => ?_, fun hash hhash => ?_, hcredited, rfl, rfl, rfl⟩
      · show (db.claims.insert issuanceHash quoteId).get? hash = _
        rw [BTreeMap.get?_insert]
        simp only [Option.some.injEq, eq_comm]
      · cases hhash
        exact .inl hfree
    exact ⟨hdb.rewrite hrewrites, hrewrites.later⟩

theorem keeps_credit (operationIdOf : QuoteId → OperationId) (txHash : Transaction ↪ TransactionId)
    (quoteId : QuoteId) (issuanceHash : RefundIssuanceHash) :
    Keeps paymentRows (RecordsAgree operationIdOf txHash) Later (recordRefundCreditCompleted quoteId issuanceHash) := by
  intro snapshot db _ writes _ hdb _ hclosure hunchanged
  rcases credit_cases hclosure with rfl | ⟨journal, hget, hclaimed, hnone, rfl⟩
  · exact ⟨hdb, .refl db⟩
  · have hrow : db.journals.get? quoteId = some journal := by
      rw [← hget]
      exact hunchanged _ List.mem_cons_self
    refine hdb.rewriteJournal hrow ⟨rfl, fun _ h => h, fun _ h => h, fun hash h => ?_⟩ rfl fun hash h => ?_
    · rw [hnone] at h
      cases h
    · rw [← h]
      exact hclaimed

theorem keeps_signatures (operationIdOf : QuoteId → OperationId) (txHash : Transaction ↪ TransactionId)
    (quoteId : QuoteId) (paymentSignatures : List (List UInt8)) :
    Keeps paymentRows (RecordsAgree operationIdOf txHash) Later
      (persistJournalSignatures quoteId paymentSignatures) := by
  intro snapshot db _ writes _ hdb _ hclosure hunchanged
  rcases signatures_cases hclosure with rfl | ⟨journal, hget, hnone, rfl⟩
  · exact ⟨hdb, .refl db⟩
  · have hrow : db.journals.get? quoteId = some journal := by
      rw [← hget]
      exact hunchanged _ List.mem_cons_self
    refine hdb.rewriteJournal hrow ⟨rfl, fun signatures h => ?_, fun _ h => h, fun _ h => h⟩ rfl fun hash h =>
      hdb.credit quoteId journal hash hrow h
    rw [hnone] at h
    cases h

/-- Writes of journals that exist, and of claims. -/
def RewritesOnly (snapshot : PaymentDb) (writes : List RowWrite) : Prop :=
  ∀ w ∈ writes, (∃ quoteId journal, w = .journal quoteId journal ∧ snapshot.journals.get? quoteId ≠ none) ∨
    ∃ hash quoteId, w = .claim hash quoteId

/-- Such writes add no journal, and no submission. -/
theorem RewritesOnly.journals (h : RewritesOnly snapshot writes) (hunchanged : paymentRows.Unchanged writes snapshot db) :
    (∀ quoteId, (paymentRows.writeAll writes db).journals.get? quoteId ≠ none → db.journals.get? quoteId ≠ none) ∧
      (paymentRows.writeAll writes db).submissions = db.submissions := by
  have hpresent (quoteId : QuoteId) (journal : FiSeatPaymentJournal) (hmem : .journal quoteId journal ∈ writes) :
      db.journals.get? quoteId ≠ none := by
    have hrow : db.journals.get? quoteId = snapshot.journals.get? quoteId := hunchanged _ hmem
    rw [hrow]
    rcases h _ hmem with ⟨_, _, heq, hget⟩ | ⟨_, _, heq⟩
    · cases heq
      exact hget
    · cases heq
  clear hunchanged
  induction writes generalizing db with
  | nil => exact ⟨fun _ hget => hget, rfl⟩
  | cons w writes ih =>
    have hrest : RewritesOnly snapshot writes := fun w' hw' => h w' (List.mem_cons_of_mem _ hw')
    rcases h w List.mem_cons_self with ⟨quoteId, journal, rfl, -⟩ | ⟨hash, quoteId, rfl⟩
    · have hold := hpresent quoteId journal List.mem_cons_self
      obtain ⟨hjournals, hsubmissions⟩ := @ih (paymentRows.write (.journal quoteId journal) db) hrest
        fun quoteId' journal' hmem => by
          show (db.journals.insert quoteId journal).get? quoteId' ≠ none
          rw [BTreeMap.get?_insert]
          split
          · simp
          · exact hpresent quoteId' journal' (List.mem_cons_of_mem _ hmem)
      refine ⟨fun quoteId' hget => ?_, hsubmissions⟩
      have hwritten : (db.journals.insert quoteId journal).get? quoteId' ≠ none := hjournals quoteId' hget
      rw [BTreeMap.get?_insert] at hwritten
      split at hwritten
      next heq =>
        rw [heq]
        exact hold
      next => exact hwritten
    · exact @ih (paymentRows.write (.claim hash quoteId) db) hrest
        fun quoteId' journal' hmem => hpresent quoteId' journal' (List.mem_cons_of_mem _ hmem)

theorem rewritesOnly_guard (h : guardRefundSettlement quoteId issuanceHash snapshot = .ok ((), writes)) :
    RewritesOnly snapshot writes := by
  obtain ⟨journal, hget, -, ⟨-, rfl⟩ | ⟨-, rfl⟩⟩ := guard_cases h
  · exact List.forall_mem_singleton.mpr (.inl ⟨quoteId, _, rfl, by rw [hget]; simp⟩)
  · exact List.forall_mem_cons.mpr ⟨.inr ⟨issuanceHash, quoteId, rfl⟩,
      List.forall_mem_singleton.mpr (.inl ⟨quoteId, _, rfl, by rw [hget]; simp⟩)⟩

theorem rewritesOnly_credit (h : recordRefundCreditCompleted quoteId issuanceHash snapshot = .ok ((), writes)) :
    RewritesOnly snapshot writes := by
  rcases credit_cases h with rfl | ⟨journal, hget, -, -, rfl⟩
  · exact fun _ hmem => by cases hmem
  · exact List.forall_mem_singleton.mpr (.inl ⟨quoteId, _, rfl, by rw [hget]; simp⟩)

theorem rewritesOnly_signatures {paymentSignatures : List (List UInt8)}
    (h : persistJournalSignatures quoteId paymentSignatures snapshot = .ok ((), writes)) :
    RewritesOnly snapshot writes := by
  rcases signatures_cases h with rfl | ⟨journal, hget, -, rfl⟩
  · exact fun _ hmem => by cases hmem
  · exact List.forall_mem_singleton.mpr (.inl ⟨quoteId, _, rfl, by rw [hget]; simp⟩)

/-- A submission starts the operation of its quote, consumes the hold and writes the journal. -/
theorem submit_cases {token : Token} {plan : SeatFundingPlan} {virtualBalance : ℕ} {finalized : Option Finalized}
    {journal : FiSeatPaymentJournal}
    (h : submitSeatPayment operationIdOf txHash token quoteId plan virtualBalance finalized snapshot =
      .ok (journal, writes)) :
    ∃ tx metadata exactDebit changed funding, finalized = some tx ∧
      snapshot.operations.get? (operationIdOf quoteId) = none ∧
      metadata.version = FI_SEAT_PAYMENT_OPERATION_META_VERSION ∧ metadata.quoteId = quoteId ∧
      metadata.txid = txHash tx.transaction ∧ metadata.changeRange.txid = txHash tx.transaction ∧
      exactDebit ≤ virtualBalance ∧ consumeMemberDbtx token quoteId exactDebit snapshot.funding = (.ok changed, funding) ∧
      journal = newJournal plan (txHash tx.transaction) ∧
      writes = [.operation (operationIdOf quoteId) ⟨FI_SEAT_PAYMENT_OPERATION_TYPE, some metadata⟩,
          .submission (operationIdOf quoteId) (.created tx.transaction)] ++ consumedWrites token (changed, funding) ++
        [.journal quoteId journal] := by
  unfold submitSeatPayment at h
  obtain ⟨⟨changeRange, started⟩, hfinalize, h⟩ := bind_eq_ok.mp h
  unfold finalizeAndSubmit at hfinalize
  split at hfinalize
  · cases hfinalize
  next hnone =>
    split at hfinalize
    · cases hfinalize
    next tx =>
      cases hfinalize
      dsimp only at h
      split at h
      · cases h
      · split at h
        · cases h
        next exactDebit _ =>
          split at h
          next hle =>
            split at h
            · cases h
            next changed funding hconsume =>
              cases h
              exact ⟨tx, _, exactDebit, changed, funding, rfl, hnone, rfl, rfl, rfl, rfl, hle, hconsume, rfl, rfl⟩
          · cases h

/-- What a submission leaves, over the database that it commits to. -/
structure Submitted (operationIdOf : QuoteId → OperationId) (db db' : PaymentDb) (token : Token) (quoteId : QuoteId)
    (transaction : Transaction) (metadata : FiSeatPaymentOperationMeta) (journal : FiSeatPaymentJournal) : Prop where
  operations : db'.operations =
    db.operations.insert (operationIdOf quoteId) ⟨FI_SEAT_PAYMENT_OPERATION_TYPE, some metadata⟩
  submissions : db'.submissions = db.submissions ++ [(operationIdOf quoteId, .created transaction)]
  journals : db'.journals = db.journals.insert quoteId journal
  claims : db'.claims = db.claims
  consumed : ∀ token' quoteId', ConsumedIn db'.funding token' quoteId' ↔
    (token' = token ∧ quoteId' = quoteId) ∨ ConsumedIn db.funding token' quoteId'

theorem writeAll_append (writes writes' : List RowWrite) (db : PaymentDb) :
    paymentRows.writeAll (writes ++ writes') db = paymentRows.writeAll writes' (paymentRows.writeAll writes db) :=
  List.foldl_append

/-- The rows of a consumed hold. -/
theorem consumedWrites_spec {token : Token} {funding : FundingDb} {r : Reservation}
    (h : funding.reservations.get? token = some r) (db : PaymentDb) :
    RowWrite.reservation token r ∈ consumedWrites token (true, funding) ∧
      ∃ total, paymentRows.writeAll (consumedWrites token (true, funding)) db =
        { db with funding := ⟨db.funding.reservations.insert token r, total⟩ } := by
  unfold consumedWrites
  dsimp only
  rw [h]
  refine ⟨List.mem_append_left _ List.mem_cons_self, ?_⟩
  cases funding.reservedTotal with
  | none => exact ⟨db.funding.reservedTotal, rfl⟩
  | some total => exact ⟨some total, rfl⟩

/-- A submission commits only when its operation is new, and then its hold was held. -/
theorem submitted_of_commit {token : Token} {plan : SeatFundingPlan} {virtualBalance : ℕ}
    {finalized : Option Finalized} {journal : FiSeatPaymentJournal}
    (hsnapshot : RecordsAgree operationIdOf txHash snapshot)
    (hclosure : submitSeatPayment operationIdOf txHash token quoteId plan virtualBalance finalized snapshot =
      .ok (journal, writes))
    (hunchanged : paymentRows.Unchanged writes snapshot db) :
    ∃ tx metadata, finalized = some tx ∧ db.operations.get? (operationIdOf quoteId) = none ∧
      metadata.version = FI_SEAT_PAYMENT_OPERATION_META_VERSION ∧ metadata.quoteId = quoteId ∧
      metadata.txid = txHash tx.transaction ∧ metadata.changeRange.txid = txHash tx.transaction ∧
      journal = newJournal plan (txHash tx.transaction) ∧
      Submitted operationIdOf db (paymentRows.writeAll writes db) token quoteId tx.transaction metadata journal := by
  obtain ⟨tx, metadata, exactDebit, changed, funding, hfinalized, hnone, hversion, hquote, htxid, hchange, -, hconsume,
    hjournal, rfl⟩ := submit_cases hclosure
  have hnew : db.operations.get? (operationIdOf quoteId) = none := by
    rw [← hnone]
    exact hunchanged _ (List.mem_append_left _ (List.mem_append_left _ List.mem_cons_self))
  refine ⟨tx, metadata, hfinalized, hnew, hversion, hquote, htxid, hchange, hjournal, ?_⟩
  rcases consumeMember_spec hconsume with ⟨-, hconsumed⟩ | ⟨rfl, r, m, hm, hget, hfind, hheld, hrows⟩
  · exact absurd (hsnapshot.no_journal hnone) (hsnapshot.paid token quoteId hconsumed)
  · have hrow : funding.reservations.get? token = some (r.update quoteId (m.setState (.consumed exactDebit)) hm) := by
      rw [hrows, BTreeMap.get?_insert_self]
    obtain ⟨hmem, total, hwritten⟩ := consumedWrites_spec hrow
      (paymentRows.writeAll [.operation (operationIdOf quoteId) ⟨FI_SEAT_PAYMENT_OPERATION_TYPE, some metadata⟩,
        .submission (operationIdOf quoteId) (.created tx.transaction)] db)
    have hsame : db.funding.reservations.get? token = some r := by
      rw [← hget]
      exact hunchanged _ (List.mem_append_left _ (List.mem_append_right _ hmem))
    rw [writeAll_append, writeAll_append, hwritten]
    refine ⟨rfl, rfl, rfl, rfl, fun token' quoteId' => ?_⟩
    rw [@consumedIn_insert db.funding _ token _ rfl, consumedAt_update hm hfind]
    by_cases htoken : token' = token
    · subst htoken
      rw [if_pos rfl]
      split
      next hquote' => exact ⟨fun _ => .inl ⟨rfl, hquote'⟩, fun _ => ⟨exactDebit, rfl⟩⟩
      next hquote' =>
        refine ⟨fun hconsumed => .inr ⟨r, hsame, hconsumed⟩, fun hor => ?_⟩
        rcases hor with ⟨-, heq⟩ | ⟨r', hr', hconsumed⟩
        · exact absurd heq hquote'
        · rw [hsame] at hr'
          cases hr'
          exact hconsumed
    · rw [if_neg htoken]
      exact ⟨.inr, fun hor => hor.resolve_left fun hand => htoken hand.1⟩

theorem RecordsAgree.submit {token : Token} {transaction : Transaction} {metadata : FiSeatPaymentOperationMeta}
    {journal : FiSeatPaymentJournal} {db' : PaymentDb} (h : RecordsAgree operationIdOf txHash db)
    (hnone : db.operations.get? (operationIdOf quoteId) = none)
    (hversion : metadata.version = FI_SEAT_PAYMENT_OPERATION_META_VERSION) (hquote : metadata.quoteId = quoteId)
    (htxid : metadata.txid = txHash transaction) (hchange : metadata.changeRange.txid = txHash transaction)
    (hjournal : journal.txid = txHash transaction) (hclaimed : journal.claimedRefundIssuanceHash = none)
    (hcredited : journal.creditedRefundIssuanceHash = none)
    (hsubmitted : Submitted operationIdOf db db' token quoteId transaction metadata journal) :
    RecordsAgree operationIdOf txHash db' ∧ Later db db' := by
  have hfresh := h.no_journal hnone
  have hfree (token' : Token) : ¬ ConsumedIn db.funding token' quoteId := fun hconsumed =>
    h.paid token' quoteId hconsumed hfresh
  have hpresent (quoteId' : QuoteId) (hget : quoteId' = quoteId ∨ db.journals.get? quoteId' ≠ none) :
      db'.journals.get? quoteId' ≠ none := by
    rw [hsubmitted.journals, BTreeMap.get?_insert]
    split
    · simp
    next hne => exact hget.resolve_left hne
  refine ⟨⟨fun quoteId' journal' hget => ?_, fun quoteId' hoperation => ?_, fun quoteId' journal' hget => ?_,
    fun token' quoteId' hconsumed => ?_, fun token' token'' quoteId' hconsumed hconsumed' => ?_,
    fun hash quoteId' => ?_, fun quoteId' journal' hash hget hhash => ?_⟩, ⟨fun quoteId' journal' hget => ?_,
    fun hash quoteId' hget => ?_, ?_⟩⟩
  · rw [hsubmitted.journals, BTreeMap.get?_insert] at hget
    split at hget
    next heq =>
      subst heq
      cases hget
      refine ⟨⟨metadata, ?_, hversion, hquote, htxid.trans hjournal.symm, hchange.trans hjournal.symm⟩,
        transaction, ?_, hjournal.symm⟩
      · rw [hsubmitted.operations, BTreeMap.get?_insert_self]
      · rw [hsubmitted.submissions]
        exact List.mem_append_right _ List.mem_cons_self
    next =>
      obtain ⟨⟨metadata', hoperation, hmeta⟩, transaction', hcreated, hhash⟩ := h.funds quoteId' journal' hget
      refine ⟨⟨metadata', ?_, hmeta⟩, transaction', ?_, hhash⟩
      · rw [hsubmitted.operations, BTreeMap.get?_insert_ne]
        · exact hoperation
        · intro heq
          rw [heq, hnone] at hoperation
          cases hoperation
      · rw [hsubmitted.submissions]
        exact List.mem_append_left _ hcreated
  · obtain ⟨metadata', hget, hquote'⟩ := hoperation
    rw [hsubmitted.operations, BTreeMap.get?_insert] at hget
    split at hget
    · cases hget
      exact hpresent quoteId' (.inl (hquote'.symm.trans hquote))
    · exact hpresent quoteId' (.inr (h.journaled quoteId' ⟨metadata', hget, hquote'⟩))
  · rw [hsubmitted.journals, BTreeMap.get?_insert] at hget
    split at hget
    next heq => exact ⟨token, (hsubmitted.consumed token quoteId').mpr (.inl ⟨rfl, heq⟩)⟩
    next =>
      obtain ⟨token', hconsumed⟩ := h.consumed quoteId' journal' hget
      exact ⟨token', (hsubmitted.consumed token' quoteId').mpr (.inr hconsumed)⟩
  · rcases (hsubmitted.consumed token' quoteId').mp hconsumed with ⟨-, rfl⟩ | hconsumed
    · exact hpresent quoteId' (.inl rfl)
    · exact hpresent quoteId' (.inr (h.paid token' quoteId' hconsumed))
  · rcases (hsubmitted.consumed token' quoteId').mp hconsumed with ⟨rfl, rfl⟩ | hconsumed
    · rcases (hsubmitted.consumed token'' quoteId').mp hconsumed' with ⟨rfl, -⟩ | hconsumed'
      · rfl
      · exact absurd hconsumed' (hfree token'')
    · rcases (hsubmitted.consumed token'' quoteId').mp hconsumed' with ⟨rfl, rfl⟩ | hconsumed'
      · exact absurd hconsumed (hfree token')
      · exact h.once token' token'' quoteId' hconsumed hconsumed'
  · rw [hsubmitted.claims, hsubmitted.journals, BTreeMap.get?_insert, h.claim hash quoteId']
    split
    next heq =>
      subst heq
      rw [hfresh]
      refine ⟨fun ⟨_, hget, _⟩ => (by cases hget), fun ⟨journal', hget, hhash⟩ => ?_⟩
      cases hget
      rw [hclaimed] at hhash
      cases hhash
    next => rfl
  · rw [hsubmitted.journals, BTreeMap.get?_insert] at hget
    split at hget
    · cases hget
      rw [hcredited] at hhash
      cases hhash
    · exact h.credit quoteId' journal' hash hget hhash
  · rw [hsubmitted.journals, BTreeMap.get?_insert_ne]
    · exact ⟨journal', hget, .refl journal'⟩
    · rintro rfl
      rw [hfresh] at hget
      cases hget
  · rw [hsubmitted.claims]
    exact hget
  · rw [hsubmitted.submissions]
    exact List.subset_append_left _ _

theorem keeps_submit (operationIdOf : QuoteId → OperationId) (txHash : Transaction ↪ TransactionId) (token : Token)
    (quoteId : QuoteId) (plan : SeatFundingPlan) (virtualBalance : ℕ) (finalized : Option Finalized) :
    Keeps paymentRows (RecordsAgree operationIdOf txHash) Later
      (submitSeatPayment operationIdOf txHash token quoteId plan virtualBalance finalized) := by
  intro snapshot db journal writes hsnapshot hdb _ hclosure hunchanged
  obtain ⟨tx, metadata, -, hnone, hversion, hquote, htxid, hchange, rfl, hsubmitted⟩ :=
    submitted_of_commit hsnapshot hclosure hunchanged
  exact hdb.submit hnone hversion hquote htxid hchange rfl rfl rfl hsubmitted

end

end FiPayments
