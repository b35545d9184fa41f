import Fedi.Lib.Runs
import Fedi.Lib.BTreeMap

/-!
# Durable holds for formation payments (`federation_v2/fi_funding.rs`, `federation_v2/db.rs`)

A reservation holds an amount for each of its seats until the seat is paid or released; one row
keeps the total that the wallet may not spend.  In every state of every run

    reserved total = Σ reserved_msats over the members in state held      (holdsAgree_of_run)

and a member that left `held` stays what it is.
-/

namespace FiFunding

open BTreeMaps Runs

abbrev QuoteId := ℕ
abbrev Fingerprint := ℕ
abbrev Token := ℕ

inductive FundingError where
  | memberReservesNoValue
  | noSeats
  | newMemberNotHeld
  | repeatsQuote
  | amountOverflowed
  | replayedWithDifferentTerms
  | holdsNoValue
  | totalOverflowed
  | insufficientBalance
  | debitNotPositive
  | reservationMissing
  | quoteNotInReservation
  | debitExceedsReservation
  | memberReleased
  | replayedWithDifferentDebit
  | totalMissing
  | totalUnderflowed
  | memberStarted
  | aggregateStarted
  | refundNeverPaid
  | refundExceedsDebit
  | refundReplayedWithDifferentAmount
  | balanceOverflowed
deriving DecidableEq

def FundingError.message : FundingError → String
  | .memberReservesNoValue => "FI funding member reserves no value"
  | .noSeats => "FI funding reservation has no seats"
  | .newMemberNotHeld => "new FI funding reservation member is not held"
  | .repeatsQuote => "FI funding reservation repeats a quote"
  | .amountOverflowed => "FI funding reservation amount overflowed"
  | .replayedWithDifferentTerms => "FI funding reservation token was replayed with different terms"
  | .holdsNoValue => "FI funding reservation holds no value"
  | .totalOverflowed => "FI active reservation total overflowed"
  | .insufficientBalance => "insufficient virtual balance for FI funding reservation"
  | .debitNotPositive => "FI payment debit must be positive"
  | .reservationMissing => "FI funding reservation is missing"
  | .quoteNotInReservation => "FI funding reservation does not contain this quote"
  | .debitExceedsReservation => "finalized FI payment debit exceeds its per-seat durable reservation"
  | .memberReleased => "cannot consume a released FI payment reservation member"
  | .replayedWithDifferentDebit => "FI payment reservation member was replayed with a different debit"
  | .totalMissing => "FI active reservation total is missing"
  | .totalUnderflowed => "FI active reservation total underflowed"
  | .memberStarted => "cannot release an FI member after its payment output started"
  | .aggregateStarted => "cannot release an FI aggregate after a payment output started"
  | .refundNeverPaid => "cannot record a refund for a seat that was never paid"
  | .refundExceedsDebit => "FI seat refund exceeds what the seat paid"
  | .refundReplayedWithDifferentAmount => "FI seat refund was replayed with a different amount"
  | .balanceOverflowed => "FI funding reservation balance overflowed"

/-! ## Reservations -/

inductive MemberState where
  | held
  | consumed (debitMsats : ℕ)
  | releasedUnstarted
deriving DecidableEq

/-- `FiFundingReservationMember`. -/
structure Member where
  quoteId : QuoteId
  reservedMsats : ℕ
  refundedMsats : Option ℕ
  state : MemberState
deriving DecidableEq

namespace Member

def new (quoteId : QuoteId) (reservedMsats : ℕ) : Except FundingError Member :=
  if 0 < reservedMsats then .ok ⟨quoteId, reservedMsats, none, .held⟩ else .error .memberReservesNoValue

def setState (m : Member) (state : MemberState) : Member := { m with state := state }

@[simp] theorem setState_quoteId (m : Member) (state : MemberState) : (m.setState state).quoteId = m.quoteId := rfl

def setRefundedMsats (m : Member) (refundedMsats : ℕ) : Except FundingError Member :=
  match m.state with
  | .consumed debitMsats =>
    if refundedMsats ≤ debitMsats then
      if ∀ existing ∈ m.refundedMsats, existing = refundedMsats then
        .ok { m with refundedMsats := some refundedMsats }
      else .error .refundReplayedWithDifferentAmount
    else .error .refundExceedsDebit
  | _ => .error .refundNeverPaid

/-- What the member keeps out of the wallet's balance. -/
def heldMsats (m : Member) : ℕ := if m.state = .held then m.reservedMsats else 0

end Member

/-- Replace the first member of a quote. -/
def updateMember (quoteId : QuoteId) (m : Member) : List Member → List Member
  | [] => []
  | m' :: members => if m'.quoteId = quoteId then m :: members else m' :: updateMember quoteId m members

theorem updateMember_quoteIds {quoteId : QuoteId} {m : Member} (h : m.quoteId = quoteId) (members : List Member) :
    (updateMember quoteId m members).map Member.quoteId = members.map Member.quoteId := by
  induction members with
  | nil => rfl
  | cons m' members ih =>
    unfold updateMember
    split
    next heq => rw [List.map_cons, List.map_cons, h, heq]
    next => rw [List.map_cons, List.map_cons, ih]

/-- `FiFundingReservation`: the one constructor refuses a repeated quote. -/
structure Reservation where
  fingerprint : Fingerprint
  createdAtSecs : ℕ
  members : List Member
  unique : (members.map Member.quoteId).Nodup

namespace Reservation

def new (fingerprint : Fingerprint) (createdAtSecs : ℕ) (members : List Member) : Except FundingError Reservation :=
  if members = [] then .error .noSeats
  else if ∀ m ∈ members, m.state = .held then
    if h : (members.map Member.quoteId).Nodup then .ok ⟨fingerprint, createdAtSecs, members, h⟩
    else .error .repeatsQuote
  else .error .newMemberNotHeld

def find (r : Reservation) (quoteId : QuoteId) : Option Member :=
  r.members.find? fun m => decide (m.quoteId = quoteId)

/-- The reservation with the member of a quote replaced by one of that quote. -/
def update (r : Reservation) (quoteId : QuoteId) (m : Member) (h : m.quoteId = quoteId) : Reservation where
  fingerprint := r.fingerprint
  createdAtSecs := r.createdAtSecs
  members := updateMember quoteId m r.members
  unique := by
    rw [updateMember_quoteIds h]
    exact r.unique

/-- Every held member is released. -/
def release (r : Reservation) : Reservation where
  fingerprint := r.fingerprint
  createdAtSecs := r.createdAtSecs
  members := r.members.map fun m => if m.state = .held then m.setState .releasedUnstarted else m
  unique := by
    have hmap : (r.members.map fun m => if m.state = .held then m.setState .releasedUnstarted else m).map
        Member.quoteId = r.members.map Member.quoteId := by
      rw [List.map_map]
      refine List.map_congr_left fun m _ => ?_
      simp only [Function.comp_apply]
      split <;> rfl
    rw [hmap]
    exact r.unique

theorem quoteId_of_find {r : Reservation} {quoteId : QuoteId} {m : Member} (h : r.find quoteId = some m) :
    m.quoteId = quoteId := by
  have hfound := List.find?_some (show r.members.find? (fun m => decide (m.quoteId = quoteId)) = some m from h)
  exact of_decide_eq_true hfound

/-- `try_fold` with `checked_add`. -/
def checkedSum : ℕ → List ℕ → Except FundingError ℕ
  | sum, [] => .ok sum
  | sum, amount :: amounts => if sum + amount < 2 ^ 64 then checkedSum (sum + amount) amounts else .error .amountOverflowed

def heldAmount (r : Reservation) : Except FundingError ℕ :=
  checkedSum 0 ((r.members.filter fun m => decide (m.state = .held)).map Member.reservedMsats)

/-- The same signed payment plan; hold amounts are not compared. -/
def matchesPlan (existing : Reservation) (fingerprint : Fingerprint) (quoteIds : List QuoteId) : Prop :=
  existing.fingerprint = fingerprint ∧ existing.members.length = quoteIds.length ∧
    ∀ e ∈ existing.members.zip quoteIds, e.1.quoteId = e.2

instance (existing : Reservation) (fingerprint : Fingerprint) (quoteIds : List QuoteId) :
    Decidable (existing.matchesPlan fingerprint quoteIds) := by
  unfold matchesPlan
  infer_instance

end Reservation

/-! ## Operations -/

/-- The funding rows of the wallet's database. -/
structure FundingDb where
  reservations : BTreeMap Token Reservation
  reservedTotal : Option ℕ

def FundingDb.empty : FundingDb := ⟨.empty, none⟩

/-- What an operation returns, and the transaction that it leaves behind. -/
abbrev Outcome (α : Type) := Except FundingError α × FundingDb

def decrementActiveTotal (amountMsats : ℕ) (dbtx : FundingDb) : Outcome Unit :=
  match dbtx.reservedTotal with
  | none => (.error .totalMissing, dbtx)
  | some total =>
    if amountMsats ≤ total then (.ok (), { dbtx with reservedTotal := some (total - amountMsats) })
    else (.error .totalUnderflowed, dbtx)

def FundingDb.insertReservation (dbtx : FundingDb) (token : Token) (r : Reservation) : FundingDb :=
  { dbtx with reservations := dbtx.reservations.insert token r }

/-- Whether the transaction inserted value. -/
def insertReservationDbtx (token : Token) (reservation : Reservation) (dbtx : FundingDb) : Outcome Bool :=
  match dbtx.reservations.get? token with
  | some existing =>
    if existing.matchesPlan reservation.fingerprint (reservation.members.map Member.quoteId) then (.ok false, dbtx)
    else (.error .replayedWithDifferentTerms, dbtx)
  | none =>
    match reservation.heldAmount with
    | .error e => (.error e, dbtx)
    | .ok amountMsats =>
      if 0 < amountMsats then
        if dbtx.reservedTotal.getD 0 + amountMsats < 2 ^ 64 then
          (.ok true, FundingDb.insertReservation
            { dbtx with reservedTotal := some (dbtx.reservedTotal.getD 0 + amountMsats) } token reservation)
        else (.error .totalOverflowed, dbtx)
      else (.error .holdsNoValue, dbtx)

/-- A held member gets another state, and its amount leaves the total. -/
def leaveHeld (token : Token) (r : Reservation) (quoteId : QuoteId) (m : Member) (h : m.quoteId = quoteId)
    (state : MemberState) (dbtx : FundingDb) : Outcome Bool :=
  match decrementActiveTotal m.reservedMsats dbtx with
  | (.error e, dbtx) => (.error e, dbtx)
  | (.ok (), dbtx) => (.ok true, dbtx.insertReservation token (r.update quoteId (m.setState state) ((m.setState_quoteId state).trans h)))

def consumeMemberDbtx (token : Token) (quoteId : QuoteId) (exactDebit : ℕ) (dbtx : FundingDb) : Outcome Bool :=
  if 0 < exactDebit then
    match dbtx.reservations.get? token with
    | none => (.error .reservationMissing, dbtx)
    | some r =>
      match hm : r.find quoteId with
      | none => (.error .quoteNotInReservation, dbtx)
      | some m =>
        if exactDebit ≤ m.reservedMsats then
          match m.state with
          | .releasedUnstarted => (.error .memberReleased, dbtx)
          | .consumed debitMsats =>
            if debitMsats = exactDebit then (.ok false, dbtx) else (.error .replayedWithDifferentDebit, dbtx)
          | .held => leaveHeld token r quoteId m (r.quoteId_of_find hm) (.consumed exactDebit) dbtx
        else (.error .debitExceedsReservation, dbtx)
  else (.error .debitNotPositive, dbtx)

theorem Member.setRefundedMsats_quoteId {m m' : Member} {refundedMsats : ℕ}
    (h : m.setRefundedMsats refundedMsats = .ok m') : m'.quoteId = m.quoteId := by
  unfold Member.setRefundedMsats at h
  split at h
  · split at h
    · split at h
      · cases h
        rfl
      · cases h
    · cases h
  · cases h

def recordMemberRefundDbtx (token : Token) (quoteId : QuoteId) (refundedMsats : ℕ) (dbtx : FundingDb) :
    Outcome Unit :=
  match dbtx.reservations.get? token with
  | none => (.error .reservationMissing, dbtx)
  | some r =>
    match hm : r.find quoteId with
    | none => (.error .quoteNotInReservation, dbtx)
    | some m =>
      match hm' : m.setRefundedMsats refundedMsats with
      | .error e => (.error e, dbtx)
      | .ok m' =>
        (.ok (), dbtx.insertReservation token
          (r.update quoteId m' ((Member.setRefundedMsats_quoteId hm').trans (r.quoteId_of_find hm))))

def releaseUnstartedMemberDbtx (token : Token) (quoteId : QuoteId) (dbtx : FundingDb) : Outcome Bool :=
  match dbtx.reservations.get? token with
  | none => (.error .reservationMissing, dbtx)
  | some r =>
    match hm : r.find quoteId with
    | none => (.error .quoteNotInReservation, dbtx)
    | some m =>
      match m.state with
      | .held => leaveHeld token r quoteId m (r.quoteId_of_find hm) .releasedUnstarted dbtx
      | .releasedUnstarted => (.ok false, dbtx)
      | .consumed _ => (.error .memberStarted, dbtx)

def releaseUnstartedAggregateDbtx (token : Token) (dbtx : FundingDb) : Outcome Bool :=
  match dbtx.reservations.get? token with
  | none => (.error .reservationMissing, dbtx)
  | some r =>
    if ∀ m ∈ r.members, m.state = .held ∨ m.state = .releasedUnstarted then
      match r.heldAmount with
      | .error e => (.error e, dbtx)
      | .ok releasedHoldMsats =>
        if releasedHoldMsats = 0 then (.ok false, dbtx)
        else
          match decrementActiveTotal releasedHoldMsats dbtx with
          | (.error e, dbtx) => (.error e, dbtx)
          | (.ok (), dbtx) => (.ok true, dbtx.insertReservation token r.release)
    else (.error .aggregateStarted, dbtx)

/-- `FiFundingWallet::reserve`: a replay, or a new hold that the balance covers. -/
def reserve (availableBalance : ℕ) (token : Token) (fingerprint : Fingerprint) (createdAtSecs : ℕ)
    (members : List Member) (dbtx : FundingDb) : Outcome Unit :=
  match Reservation.new fingerprint createdAtSecs members with
  | .error e => (.error e, dbtx)
  | .ok reservation =>
    match reservation.heldAmount with
    | .error e => (.error e, dbtx)
    | .ok amountMsats =>
      match dbtx.reservations.get? token with
      | some existing =>
        if existing.matchesPlan reservation.fingerprint (reservation.members.map Member.quoteId) then (.ok (), dbtx)
        else (.error .replayedWithDifferentTerms, dbtx)
      | none =>
        if amountMsats ≤ availableBalance then
          match insertReservationDbtx token reservation dbtx with
          | (.error e, dbtx) => (.error e, dbtx)
          | (.ok _, dbtx) => (.ok (), dbtx)
        else (.error .insufficientBalance, dbtx)

/-- The balance of a reservation's owner. -/
def balanceIncludingReservation (availableBalance : ℕ) (token : Token) (dbtx : FundingDb) : Except FundingError ℕ :=
  match dbtx.reservations.get? token with
  | none => .error .reservationMissing
  | some r =>
    match r.heldAmount with
    | .error e => .error e
    | .ok held => if availableBalance + held < 2 ^ 64 then .ok (availableBalance + held) else .error .balanceOverflowed

/-! ## Runs -/

/-- The callers build members from a quote and its amount. -/
inductive FundingCall where
  | reserve (availableBalance : ℕ) (token : Token) (fingerprint : Fingerprint) (createdAtSecs : ℕ)
      (seats : List (QuoteId × ℕ))
  | consume (token : Token) (quoteId : QuoteId) (exactDebit : ℕ)
  | releaseMember (token : Token) (quoteId : QuoteId)
  | releaseAggregate (token : Token)
  | recordRefund (token : Token) (quoteId : QuoteId) (refundedMsats : ℕ)

/-- The result without its value. -/
def Outcome.discard {α : Type} (r : Outcome α) : Outcome Unit :=
  match r with
  | (.ok _, dbtx) => (.ok (), dbtx)
  | (.error e, dbtx) => (.error e, dbtx)

def FundingCall.run (call : FundingCall) (dbtx : FundingDb) : Outcome Unit :=
  match call with
  | .reserve availableBalance token fingerprint createdAtSecs seats =>
    match seats.mapM fun seat => Member.new seat.1 seat.2 with
    | .error e => (.error e, dbtx)
    | .ok members => FiFunding.reserve availableBalance token fingerprint createdAtSecs members dbtx
  | .consume token quoteId exactDebit => (consumeMemberDbtx token quoteId exactDebit dbtx).discard
  | .releaseMember token quoteId => (releaseUnstartedMemberDbtx token quoteId dbtx).discard
  | .releaseAggregate token => (releaseUnstartedAggregateDbtx token dbtx).discard
  | .recordRefund token quoteId refundedMsats => recordMemberRefundDbtx token quoteId refundedMsats dbtx

/-- The calls of one transaction, some of which may fail, and whether it commits. -/
structure FundingTransaction where
  calls : List FundingCall
  commits : Bool

def fundingStep (db : FundingDb) (tx : FundingTransaction) : FundingDb :=
  if tx.commits then tx.calls.foldl (fun dbtx call => (call.run dbtx).2) db else db

def holds (txs : List FundingTransaction) : FundingDb := txs.foldl fundingStep .empty

/-! ## What agrees -/

/-- What the held members of a reservation keep out of the balance. -/
def Reservation.heldMsats (r : Reservation) : ℕ := (r.members.map Member.heldMsats).sum

def FundingDb.heldMsats (db : FundingDb) : ℕ := db.reservations.sumBy fun _ r => r.heldMsats

/-- The member of a quote in a reservation. -/
def FundingDb.member (db : FundingDb) (token : Token) (quoteId : QuoteId) : Option Member :=
  (db.reservations.get? token).bind fun r => r.find quoteId

/-- A debit is reserved, and a refund was paid. -/
structure Member.Sound (m : Member) : Prop where
  debit : ∀ debitMsats, m.state = .consumed debitMsats → debitMsats ≤ m.reservedMsats
  refund : ∀ refundedMsats, m.refundedMsats = some refundedMsats →
    ∃ debitMsats, m.state = .consumed debitMsats ∧ refundedMsats ≤ debitMsats

structure HoldsAgree (db : FundingDb) : Prop where
  total : db.reservedTotal.getD 0 = db.heldMsats
  present : db.reservations.keys ≠ [] → db.reservedTotal.isSome = true
  members : ∀ token r, db.reservations.get? token = some r → ∀ m ∈ r.members, m.Sound

/-- A member that is not held keeps its state, and its amount. -/
def KeepsLeft (db db' : FundingDb) : Prop :=
  ∀ token quoteId m, db.member token quoteId = some m → m.state ≠ .held →
    ∃ m', db'.member token quoteId = some m' ∧ m'.state = m.state ∧ m'.reservedMsats = m.reservedMsats ∧
      ∀ refundedMsats, m.refundedMsats = some refundedMsats → m'.refundedMsats = some refundedMsats

/-- No operation finds the total missing or too small. -/
def NeverUnderflows (db : FundingDb) : Prop :=
  ∀ (call : FundingCall) e dbtx, call.run db = (.error e, dbtx) → e ≠ .totalMissing ∧ e ≠ .totalUnderflowed

/-- An operation that fails writes nothing. -/
def FailsUnchanged (db : FundingDb) : Prop :=
  ∀ (call : FundingCall) e dbtx, call.run db = (.error e, dbtx) → dbtx = db

/-! ## One member -/

section

variable {r : Reservation} {quoteId : QuoteId} {m new : Member}

/-- The member of a quote, between members of other quotes. -/
theorem updateMember_split {members : List Member}
    (h : members.find? (fun m => decide (m.quoteId = quoteId)) = some m) :
    ∃ pre post, members = pre ++ m :: post ∧ ∀ new, updateMember quoteId new members = pre ++ new :: post := by
  induction members with
  | nil => cases h
  | cons m' members ih =>
    by_cases heq : m'.quoteId = quoteId
    · rw [List.find?_cons_of_pos (by simpa using heq)] at h
      cases h
      refine ⟨[], members, rfl, fun new => ?_⟩
      unfold updateMember
      rw [if_pos heq]
      rfl
    · rw [List.find?_cons_of_neg (by simpa using heq)] at h
      obtain ⟨pre, post, hmembers, hupdate⟩ := ih h
      refine ⟨m' :: pre, post, by rw [hmembers]; rfl, fun new => ?_⟩
      unfold updateMember
      rw [if_neg heq, hupdate]
      rfl

theorem find?_updateMember {members : List Member} (hnew : new.quoteId = quoteId)
    (h : members.find? (fun m => decide (m.quoteId = quoteId)) = some m) (quoteId' : QuoteId) :
    (updateMember quoteId new members).find? (fun m => decide (m.quoteId = quoteId')) =
      if quoteId' = quoteId then some new else members.find? fun m => decide (m.quoteId = quoteId') := by
  induction members with
  | nil => cases h
  | cons m' members ih =>
    unfold updateMember
    by_cases heq : m'.quoteId = quoteId
    · rw [if_pos heq]
      split
      next hquote =>
        subst hquote
        rw [List.find?_cons_of_pos (by simpa using hnew)]
      next hquote =>
        rw [List.find?_cons_of_neg (by rw [hnew]; simpa using fun h => hquote h.symm),
          List.find?_cons_of_neg (by rw [heq]; simpa using fun h => hquote h.symm)]
    · rw [List.find?_cons_of_neg (by simpa using heq)] at h
      rw [if_neg heq]
      by_cases hm' : m'.quoteId = quoteId'
      · have hquote : quoteId' ≠ quoteId := fun h => heq (hm'.trans h)
        rw [if_neg hquote, List.find?_cons_of_pos (by simpa using hm'), List.find?_cons_of_pos (by simpa using hm')]
      · rw [List.find?_cons_of_neg (by simpa using hm'), List.find?_cons_of_neg (by simpa using hm'), ih h]

theorem find_update (hnew : new.quoteId = quoteId) (h : r.find quoteId = some m) (quoteId' : QuoteId) :
    (r.update quoteId new hnew).find quoteId' = if quoteId' = quoteId then some new else r.find quoteId' :=
  find?_updateMember hnew h quoteId'

/-- The held amount follows the member that changes. -/
theorem heldMsats_update (hnew : new.quoteId = quoteId) (h : r.find quoteId = some m) :
    (r.update quoteId new hnew).heldMsats + m.heldMsats = r.heldMsats + new.heldMsats := by
  obtain ⟨pre, post, hmembers, hupdate⟩ := updateMember_split h
  unfold Reservation.heldMsats Reservation.update
  dsimp only
  rw [hupdate, hmembers]
  simp only [List.map_append, List.map_cons, List.sum_append, List.sum_cons]
  omega

theorem mem_update (hnew : new.quoteId = quoteId) (h : r.find quoteId = some m) {m' : Member}
    (hm' : m' ∈ (r.update quoteId new hnew).members) : m' = new ∨ m' ∈ r.members := by
  obtain ⟨pre, post, hmembers, hupdate⟩ := updateMember_split h
  unfold Reservation.update at hm'
  dsimp only at hm'
  rw [hupdate] at hm'
  rw [hmembers]
  simp only [List.mem_append, List.mem_cons] at hm' ⊢
  tauto

theorem mem_of_find (h : r.find quoteId = some m) : m ∈ r.members := List.mem_of_find?_eq_some h

/-! ## One reservation -/

theorem checkedSum_eq {amounts : List ℕ} {sum total : ℕ} (h : Reservation.checkedSum sum amounts = .ok total) :
    total = sum + amounts.sum := by
  induction amounts generalizing sum with
  | nil =>
    cases h
    rfl
  | cons amount amounts ih =>
    unfold Reservation.checkedSum at h
    split at h
    · rw [ih h, List.sum_cons, Nat.add_assoc]
    · cases h

theorem sum_filter_held (members : List Member) :
    ((members.filter fun m => decide (m.state = .held)).map Member.reservedMsats).sum =
      (members.map Member.heldMsats).sum := by
  induction members with
  | nil => rfl
  | cons m members ih =>
    rw [List.map_cons, List.sum_cons, ← ih]
    by_cases hheld : m.state = .held
    · rw [List.filter_cons_of_pos (by simpa using hheld), List.map_cons, List.sum_cons, Member.heldMsats, if_pos hheld]
    · rw [List.filter_cons_of_neg (by simpa using hheld), Member.heldMsats, if_neg hheld, Nat.zero_add]

theorem heldAmount_eq {amountMsats : ℕ} (h : r.heldAmount = .ok amountMsats) : amountMsats = r.heldMsats := by
  rw [checkedSum_eq h, Nat.zero_add, sum_filter_held]
  rfl

theorem heldAmount_fails {e : FundingError} (h : r.heldAmount = .error e) :
    e ≠ .totalMissing ∧ e ≠ .totalUnderflowed := by
  have hfails {amounts : List ℕ} {sum : ℕ} (h : Reservation.checkedSum sum amounts = .error e) :
      e = .amountOverflowed := by
    induction amounts generalizing sum with
    | nil => cases h
    | cons amount amounts ih =>
      unfold Reservation.checkedSum at h
      split at h
      · exact ih h
      · cases h
        rfl
  rw [hfails h]
  decide

theorem heldMsats_le {m : Member} (h : m ∈ r.members) : m.heldMsats ≤ r.heldMsats :=
  List.single_le_sum (fun _ _ => Nat.zero_le _) _ (List.mem_map_of_mem h)

theorem heldMsats_release (r : Reservation) : r.release.heldMsats = 0 := by
  unfold Reservation.heldMsats Reservation.release
  dsimp only
  rw [List.map_map]
  refine List.sum_eq_zero fun amount hamount => ?_
  obtain ⟨m, -, rfl⟩ := List.mem_map.mp hamount
  simp only [Function.comp_apply]
  split
  next => rfl
  next hheld => exact if_neg hheld

theorem find_release (r : Reservation) (quoteId : QuoteId) :
    r.release.find quoteId =
      (r.find quoteId).map fun m => if m.state = .held then m.setState .releasedUnstarted else m := by
  unfold Reservation.find Reservation.release
  dsimp only
  rw [List.find?_map]
  congr 2
  funext m
  simp only [Function.comp_apply]
  split <;> rfl

end

/-! ## One operation -/

/-- A reservation is replaced, and the total follows. -/
structure Replaces (db db' : FundingDb) (token : Token) (r r' : Reservation) : Prop where
  old : db.reservations.get? token = some r
  rows : db'.reservations = db.reservations.insert token r'
  total : db'.reservedTotal.getD 0 + r.heldMsats = db.reservedTotal.getD 0 + r'.heldMsats
  present : db.reservedTotal.isSome = true → db'.reservedTotal.isSome = true
  sound : ∀ m ∈ r'.members, m.Sound
  left : ∀ quoteId m, r.find quoteId = some m → m.state ≠ .held →
    ∃ m', r'.find quoteId = some m' ∧ m'.state = m.state ∧ m'.reservedMsats = m.reservedMsats ∧
      ∀ refundedMsats, m.refundedMsats = some refundedMsats → m'.refundedMsats = some refundedMsats

theorem KeepsLeft.refl (db : FundingDb) : KeepsLeft db db :=
  fun _ _ m hm _ => ⟨m, hm, rfl, rfl, fun _ h => h⟩

theorem KeepsLeft.trans {db db' db'' : FundingDb} (h : KeepsLeft db db') (h' : KeepsLeft db' db'') :
    KeepsLeft db db'' := by
  intro token quoteId m hm hleft
  obtain ⟨m', hm', hstate, hreserved, hrefund⟩ := h token quoteId m hm hleft
  obtain ⟨m'', hm'', hstate', hreserved', hrefund'⟩ := h' token quoteId m' hm' (hstate ▸ hleft)
  exact ⟨m'', hm'', hstate'.trans hstate, hreserved'.trans hreserved,
    fun refundedMsats hrefunded => hrefund' _ (hrefund _ hrefunded)⟩

section

variable {db db' : FundingDb} {token : Token} {r r' : Reservation}

theorem HoldsAgree.isSome (h : HoldsAgree db) (hget : db.reservations.get? token = some r) :
    db.reservedTotal.isSome = true := by
  refine h.present fun hkeys => ?_
  have hmem := BTreeMap.mem_keys.mpr ⟨r, hget⟩
  rw [hkeys] at hmem
  cases hmem

theorem HoldsAgree.heldMsats_le (h : HoldsAgree db) (hget : db.reservations.get? token = some r) :
    r.heldMsats ≤ db.reservedTotal.getD 0 := by
  rw [h.total]
  exact BTreeMap.le_sumBy (f := fun _ (r : Reservation) => r.heldMsats) hget

theorem HoldsAgree.replace (h : HoldsAgree db) (hreplaces : Replaces db db' token r r') :
    HoldsAgree db' ∧ KeepsLeft db db' := by
  refine ⟨⟨?_, fun _ => hreplaces.present (h.isSome hreplaces.old), fun token' r'' hget m hm => ?_⟩, ?_⟩
  · have hsum := BTreeMap.sumBy_insert (fun _ (r : Reservation) => r.heldMsats) db.reservations token r'
    have htotal := hreplaces.total
    have hold := h.total
    rw [hreplaces.old, Option.elim_some] at hsum
    unfold FundingDb.heldMsats at hold ⊢
    rw [hreplaces.rows]
    omega
  · rw [hreplaces.rows, BTreeMap.get?_insert] at hget
    split at hget
    · cases hget
      exact hreplaces.sound m hm
    · exact h.members token' r'' hget m hm
  · intro token' quoteId m hm hleft
    unfold FundingDb.member at hm ⊢
    rw [hreplaces.rows, BTreeMap.get?_insert]
    split
    next heq =>
      subst heq
      rw [hreplaces.old, Option.bind_some] at hm
      rw [Option.bind_some]
      exact hreplaces.left quoteId m hm hleft
    next => exact ⟨m, hm, rfl, rfl, fun _ hrefunded => hrefunded⟩

/-- A new reservation adds what it holds. -/
theorem HoldsAgree.insert (h : HoldsAgree db) (hnone : db.reservations.get? token = none)
    (hsound : ∀ m ∈ r.members, m.Sound) :
    HoldsAgree (FundingDb.insertReservation
      { db with reservedTotal := some (db.reservedTotal.getD 0 + r.heldMsats) } token r) ∧
    KeepsLeft db (FundingDb.insertReservation
      { db with reservedTotal := some (db.reservedTotal.getD 0 + r.heldMsats) } token r) := by
  refine ⟨⟨?_, fun _ => rfl, fun token' r'' hget m hm => ?_⟩, ?_⟩
  · have hsum := BTreeMap.sumBy_insert (fun _ (r : Reservation) => r.heldMsats) db.reservations token r
    have hold := h.total
    rw [hnone, Option.elim_none] at hsum
    unfold FundingDb.heldMsats at hold ⊢
    show db.reservedTotal.getD 0 + r.heldMsats = (db.reservations.insert token r).sumBy _
    omega
  · unfold FundingDb.insertReservation at hget
    dsimp only at hget
    rw [BTreeMap.get?_insert] at hget
    split at hget
    · cases hget
      exact hsound m hm
    · exact h.members token' r'' hget m hm
  · intro token' quoteId m hm _
    unfold FundingDb.member FundingDb.insertReservation at *
    dsimp only
    rw [BTreeMap.get?_insert_ne _ _ fun heq => by rw [heq, hnone] at hm; cases hm]
    exact ⟨m, hm, rfl, rfl, fun _ hrefunded => hrefunded⟩

/-- An operation succeeds and keeps the holds in agreement, or fails with the database as it was. -/
def Good {α : Type} (db : FundingDb) (x : Outcome α) : Prop :=
  (∃ a db', x = (.ok a, db') ∧ HoldsAgree db' ∧ KeepsLeft db db') ∨
    ∃ e, x = (.error e, db) ∧ e ≠ .totalMissing ∧ e ≠ .totalUnderflowed

theorem Good.fails {α : Type} {e : FundingError} (he : e ≠ .totalMissing ∧ e ≠ .totalUnderflowed) :
    Good db (((.error e, db) : Outcome α)) := .inr ⟨e, rfl, he⟩

theorem Good.unchanged {α : Type} (h : HoldsAgree db) (a : α) : Good db (((.ok a, db) : Outcome α)) :=
  .inl ⟨a, db, rfl, h, .refl db⟩

theorem Good.discard {α : Type} {x : Outcome α} (h : Good db x) : Good db x.discard := by
  rcases h with ⟨a, db', rfl, hagree, hkeeps⟩ | ⟨e, rfl, he⟩
  · exact .inl ⟨(), db', rfl, hagree, hkeeps⟩
  · exact .inr ⟨e, rfl, he⟩

/-- The total covers every hold, so it can be decremented. -/
theorem decrement_ok (h : HoldsAgree db) {amountMsats : ℕ} (hget : db.reservations.get? token = some r)
    (hle : amountMsats ≤ r.heldMsats) :
    decrementActiveTotal amountMsats db =
      (.ok (), { db with reservedTotal := some (db.reservedTotal.getD 0 - amountMsats) }) := by
  have hcovers := h.heldMsats_le hget
  obtain ⟨total, htotal⟩ := Option.isSome_iff_exists.mp (h.isSome hget)
  rw [htotal, Option.getD_some] at hcovers
  unfold decrementActiveTotal
  rw [htotal, Option.getD_some]
  exact if_pos (hle.trans hcovers)

theorem leaveHeld_good (h : HoldsAgree db) {quoteId : QuoteId} {m : Member} {state : MemberState}
    (hget : db.reservations.get? token = some r) (hm : r.find quoteId = some m) (hheld : m.state = .held)
    (hquote : m.quoteId = quoteId) (hstate : state ≠ .held) (hsound : (m.setState state).Sound) :
    Good db (leaveHeld token r quoteId m hquote state db) := by
  have hmsats : m.heldMsats = m.reservedMsats := if_pos hheld
  have hnone : (m.setState state).heldMsats = 0 := if_neg hstate
  have hle := heldMsats_le (mem_of_find hm)
  rw [hmsats] at hle
  have hcovers := h.heldMsats_le hget
  have hdec := decrement_ok h hget hle
  have hnew : (m.setState state).quoteId = quoteId := hquote
  unfold leaveHeld
  rw [hdec]
  refine .inl ⟨true, _, rfl, @HoldsAgree.replace db _ token r (r.update quoteId (m.setState state) hnew) h
    ⟨hget, rfl, ?_, fun _ => rfl, fun m' hm' => ?_, fun quoteId' m' hm' hleft => ?_⟩⟩
  · have hupdate := @heldMsats_update r quoteId m (m.setState state) hnew hm
    show db.reservedTotal.getD 0 - m.reservedMsats + r.heldMsats = _
    omega
  · rcases mem_update hnew hm hm' with rfl | hm'
    · exact hsound
    · exact h.members token r hget m' hm'
  · rw [find_update hnew hm, if_neg fun heq => ?_]
    · exact ⟨m', hm', rfl, rfl, fun _ hrefunded => hrefunded⟩
    · subst heq
      rw [hm] at hm'
      cases hm'
      exact hleft hheld

theorem consumeMember_good (h : HoldsAgree db) (token : Token) (quoteId : QuoteId) (exactDebit : ℕ) :
    Good db (consumeMemberDbtx token quoteId exactDebit db) := by
  unfold consumeMemberDbtx
  split
  · split
    · exact .fails (by decide)
    next r hget =>
      split
      · exact .fails (by decide)
      next m hm =>
        split
        next hle =>
          split
          · exact .fails (by decide)
          · split
            · exact .unchanged h false
            · exact .fails (by decide)
          next hheld =>
            refine leaveHeld_good h hget hm hheld _ (by simp) ⟨fun debitMsats hdebit => ?_, fun refunded hrefund => ?_⟩
            · cases hdebit
              exact hle
            · obtain ⟨debitMsats, hdebit, -⟩ := (h.members token r hget m (mem_of_find hm)).refund refunded hrefund
              rw [hheld] at hdebit
              cases hdebit
        · exact .fails (by decide)
  · exact .fails (by decide)

theorem releaseMember_good (h : HoldsAgree db) (token : Token) (quoteId : QuoteId) :
    Good db (releaseUnstartedMemberDbtx token quoteId db) := by
  unfold releaseUnstartedMemberDbtx
  split
  · exact .fails (by decide)
  next r hget =>
    split
    · exact .fails (by decide)
    next m hm =>
      split
      next hheld =>
        refine leaveHeld_good h hget hm hheld _ (by simp) ⟨fun _ hdebit => (by cases hdebit), fun refunded hrefund => ?_⟩
        obtain ⟨debitMsats, hdebit, -⟩ := (h.members token r hget m (mem_of_find hm)).refund refunded hrefund
        rw [hheld] at hdebit
        cases hdebit
      · exact .unchanged h false
      · exact .fails (by decide)

theorem Member.setRefundedMsats_spec {m m' : Member} {refundedMsats : ℕ}
    (h : m.setRefundedMsats refundedMsats = .ok m') :
    m' = { m with refundedMsats := some refundedMsats } ∧
      (∃ debitMsats, m.state = .consumed debitMsats ∧ refundedMsats ≤ debitMsats) ∧
      ∀ existing, m.refundedMsats = some existing → existing = refundedMsats := by
  unfold Member.setRefundedMsats at h
  split at h
  next debitMsats hstate =>
    split at h
    next hle =>
      split at h
      next hsame =>
        cases h
        exact ⟨rfl, ⟨debitMsats, hstate, hle⟩, hsame⟩
      · cases h
    · cases h
  · cases h

theorem Member.setRefundedMsats_fails {m : Member} {refundedMsats : ℕ} {e : FundingError}
    (h : m.setRefundedMsats refundedMsats = .error e) : e ≠ .totalMissing ∧ e ≠ .totalUnderflowed := by
  unfold Member.setRefundedMsats at h
  split at h
  · split at h
    · split at h
      · cases h
      · cases h
        decide
    · cases h
      decide
  · cases h
    decide

/-- A refund changes no hold. -/
theorem recordRefund_good (h : HoldsAgree db) (token : Token) (quoteId : QuoteId) (refundedMsats : ℕ) :
    Good db (recordMemberRefundDbtx token quoteId refundedMsats db) := by
  unfold recordMemberRefundDbtx
  split
  · exact .fails (by decide)
  next r hget =>
    split
    · exact .fails (by decide)
    next m hm =>
      split
      next e he => exact .fails (Member.setRefundedMsats_fails he)
      next m' hm' =>
        have hquote := (Member.setRefundedMsats_quoteId hm').trans (r.quoteId_of_find hm)
        obtain ⟨rfl, ⟨debitMsats, hstate, hle⟩, hsame⟩ := Member.setRefundedMsats_spec hm'
        refine .inl ⟨(), _, rfl, @HoldsAgree.replace db _ token r (r.update quoteId _ hquote) h
          ⟨hget, rfl, ?_, fun htotal => htotal, fun m' hm' => ?_, fun quoteId' m' hm' hleft => ?_⟩⟩
        · have hupdate := heldMsats_update hquote hm
          have hsame : ({ m with refundedMsats := some refundedMsats } : Member).heldMsats = m.heldMsats := rfl
          show db.reservedTotal.getD 0 + r.heldMsats = _
          omega
        · rcases mem_update hquote hm hm' with rfl | hm'
          · exact ⟨(h.members token r hget m (mem_of_find hm)).debit, fun refunded hrefund =>
              ⟨debitMsats, hstate, Option.some.inj hrefund ▸ hle⟩⟩
          · exact h.members token r hget m' hm'
        · rw [find_update hquote hm]
          split
          next heq =>
            subst heq
            rw [hm] at hm'
            cases hm'
            exact ⟨_, rfl, rfl, rfl, fun refunded hrefund => by rw [hsame refunded hrefund]⟩
          next => exact ⟨m', hm', rfl, rfl, fun _ hrefunded => hrefunded⟩

theorem releaseAggregate_good (h : HoldsAgree db) (token : Token) :
    Good db (releaseUnstartedAggregateDbtx token db) := by
  unfold releaseUnstartedAggregateDbtx
  split
  · exact .fails (by decide)
  next r hget =>
    split
    next hunstarted =>
      split
      next e he => exact .fails (heldAmount_fails he)
      next releasedHoldMsats hheld =>
        split
        · exact .unchanged h false
        · rw [heldAmount_eq hheld, decrement_ok h hget (le_refl _)]
          refine .inl ⟨true, _, rfl, @HoldsAgree.replace db _ token r r.release h
            ⟨hget, rfl, ?_, fun _ => rfl, fun m hm => ?_, fun quoteId m hm hleft => ?_⟩⟩
          · have hcovers := h.heldMsats_le hget
            rw [heldMsats_release]
            show db.reservedTotal.getD 0 - r.heldMsats + r.heldMsats = _
            omega
          · obtain ⟨m', hm', rfl⟩ := List.mem_map.mp hm
            have hsound := h.members token r hget m' hm'
            split
            next hstate =>
              refine ⟨fun _ hdebit => (by cases hdebit), fun refunded hrefund => ?_⟩
              obtain ⟨debitMsats, hdebit, -⟩ := hsound.refund refunded hrefund
              rw [hstate] at hdebit
              cases hdebit
            next => exact hsound
          · rw [find_release, hm, Option.map_some, if_neg hleft]
            exact ⟨m, rfl, rfl, rfl, fun _ hrefunded => hrefunded⟩
    · exact .fails (by decide)

/-- New members are held and owe nothing. -/
theorem Reservation.new_spec {fingerprint : Fingerprint} {createdAtSecs : ℕ} {members : List Member}
    (h : Reservation.new fingerprint createdAtSecs members = .ok r) :
    r.members = members ∧ ∀ m ∈ members, m.state = .held := by
  unfold Reservation.new at h
  split at h
  · cases h
  · split at h
    next hheld =>
      split at h
      · cases h
        exact ⟨rfl, hheld⟩
      · cases h
    · cases h

theorem Reservation.new_fails {fingerprint : Fingerprint} {createdAtSecs : ℕ} {members : List Member}
    {e : FundingError} (h : Reservation.new fingerprint createdAtSecs members = .error e) :
    e ≠ .totalMissing ∧ e ≠ .totalUnderflowed := by
  unfold Reservation.new at h
  split at h
  · cases h
    decide
  · split at h
    · split at h
      · cases h
      · cases h
        decide
    · cases h
      decide

theorem insertReservation_good (h : HoldsAgree db) (token : Token) (hsound : ∀ m ∈ r.members, m.Sound) :
    Good db (insertReservationDbtx token r db) := by
  unfold insertReservationDbtx
  split
  · split
    · exact .unchanged h false
    · exact .fails (by decide)
  next hnone =>
    split
    next e he => exact .fails (heldAmount_fails he)
    next amountMsats hheld =>
      split
      · split
        · rw [heldAmount_eq hheld]
          exact .inl ⟨true, _, rfl, h.insert hnone hsound⟩
        · exact .fails (by decide)
      · exact .fails (by decide)

theorem reserve_good (h : HoldsAgree db) (availableBalance : ℕ) (token : Token) (fingerprint : Fingerprint)
    (createdAtSecs : ℕ) {members : List Member} (hrefunds : ∀ m ∈ members, m.refundedMsats = none) :
    Good db (reserve availableBalance token fingerprint createdAtSecs members db) := by
  unfold reserve
  split
  next e he => exact .fails (Reservation.new_fails he)
  next r hr =>
    obtain ⟨rfl, hheld⟩ := Reservation.new_spec hr
    have hsound (m : Member) (hm : m ∈ r.members) : m.Sound := by
      refine ⟨fun debitMsats hdebit => ?_, fun refunded hrefund => ?_⟩
      · rw [hheld m hm] at hdebit
        cases hdebit
      · rw [hrefunds m hm] at hrefund
        cases hrefund
    split
    next e he => exact .fails (heldAmount_fails he)
    next =>
      split
      · split
        · exact .unchanged h ()
        · exact .fails (by decide)
      · split
        · rcases insertReservation_good h token hsound with ⟨a, db', heq, hagree⟩ | ⟨e, heq, he⟩
          · rw [heq]
            exact .inl ⟨(), db', rfl, hagree⟩
          · rw [heq]
            exact .fails he
        · exact .fails (by decide)

theorem newMembers_spec {seats : List (QuoteId × ℕ)} {members : List Member}
    (h : (seats.mapM fun seat => Member.new seat.1 seat.2) = .ok members) : ∀ m ∈ members, m.refundedMsats = none := by
  induction seats generalizing members with
  | nil =>
    cases h
    exact fun _ hm => by cases hm
  | cons seat seats ih =>
    rw [List.mapM_cons] at h
    obtain ⟨m, hnew, h⟩ := bind_eq_ok.mp h
    obtain ⟨rest, hrest, h⟩ := bind_eq_ok.mp h
    cases h
    intro m' hm'
    rcases List.mem_cons.mp hm' with rfl | hm'
    · unfold Member.new at hnew
      split at hnew
      · cases hnew
        rfl
      · cases hnew
    · exact ih hrest m' hm'

theorem newMembers_fails {seats : List (QuoteId × ℕ)} {e : FundingError}
    (h : (seats.mapM fun seat => Member.new seat.1 seat.2) = .error e) : e ≠ .totalMissing ∧ e ≠ .totalUnderflowed := by
  induction seats with
  | nil => cases h
  | cons seat seats ih =>
    rw [List.mapM_cons] at h
    rcases bind_eq_error.mp h with hnew | ⟨m, -, h⟩
    · unfold Member.new at hnew
      split at hnew
      · cases hnew
      · cases hnew
        decide
    · rcases bind_eq_error.mp h with hrest | ⟨rest, -, h⟩
      · exact ih hrest
      · cases h

/-- Every call succeeds and keeps the holds in agreement, or fails and changes nothing. -/
theorem call_good (h : HoldsAgree db) (call : FundingCall) : Good db (call.run db) := by
  cases call with
  | reserve availableBalance token fingerprint createdAtSecs seats =>
    unfold FundingCall.run
    dsimp only
    split
    next e he => exact .fails (newMembers_fails he)
    next members hmembers => exact reserve_good h availableBalance token fingerprint createdAtSecs (newMembers_spec hmembers)
  | consume token quoteId exactDebit => exact (consumeMember_good h token quoteId exactDebit).discard
  | releaseMember token quoteId => exact (releaseMember_good h token quoteId).discard
  | releaseAggregate token => exact (releaseAggregate_good h token).discard
  | recordRefund token quoteId refundedMsats => exact recordRefund_good h token quoteId refundedMsats

theorem Good.of_error {α : Type} {x : Outcome α} (h : Good db x) {e : FundingError} {dbtx : FundingDb}
    (hx : x = (.error e, dbtx)) : dbtx = db ∧ e ≠ .totalMissing ∧ e ≠ .totalUnderflowed := by
  rcases h with ⟨a, db', rfl, -⟩ | ⟨e', rfl, he'⟩
  · cases hx
  · cases hx
    exact ⟨rfl, he'⟩

theorem Good.state {α : Type} {x : Outcome α} (hx : Good db x) (h : HoldsAgree db) :
    HoldsAgree x.2 ∧ KeepsLeft db x.2 := by
  rcases hx with ⟨a, db', rfl, hagree⟩ | ⟨e, rfl, -⟩
  · exact hagree
  · exact ⟨h, .refl db⟩

/-! ## Every run -/

theorem calls_spec (h : HoldsAgree db) (calls : List FundingCall) :
    HoldsAgree (calls.foldl (fun dbtx call => (call.run dbtx).2) db) ∧
      KeepsLeft db (calls.foldl (fun dbtx call => (call.run dbtx).2) db) := by
  induction calls generalizing db with
  | nil => exact ⟨h, .refl db⟩
  | cons call calls ih =>
    obtain ⟨hagree, hkeeps⟩ := (call_good h call).state h
    obtain ⟨hagree', hkeeps'⟩ := ih hagree
    exact ⟨hagree', hkeeps.trans hkeeps'⟩

theorem fundingSteps_spec (h : HoldsAgree db) (txs : List FundingTransaction) :
    HoldsAgree (txs.foldl fundingStep db) ∧ KeepsLeft db (txs.foldl fundingStep db) := by
  induction txs generalizing db with
  | nil => exact ⟨h, .refl db⟩
  | cons tx txs ih =>
    have hstep : HoldsAgree (fundingStep db tx) ∧ KeepsLeft db (fundingStep db tx) := by
      unfold fundingStep
      split
      · exact calls_spec h tx.calls
      · exact ⟨h, .refl db⟩
    obtain ⟨hagree', hkeeps'⟩ := ih hstep.1
    exact ⟨hagree', hstep.2.trans hkeeps'⟩

end

theorem holdsAgree_empty : HoldsAgree .empty := ⟨rfl, fun h => absurd rfl h, fun _ _ h => by cases h⟩

/-- In every state of every run the total is what the held members hold and can be decremented,
members that left `held` stay what they are, and a failed operation changes nothing. -/
theorem holdsAgree_of_run (txs txs' : List FundingTransaction) :
    HoldsAgree (holds txs) ∧ NeverUnderflows (holds txs) ∧ FailsUnchanged (holds txs) ∧
      KeepsLeft (holds txs) (holds (txs ++ txs')) := by
  have hagree : HoldsAgree (holds txs) := (fundingSteps_spec holdsAgree_empty txs).1
  refine ⟨hagree, fun call e dbtx hfails => ((call_good hagree call).of_error hfails).2,
    fun call e dbtx hfails => ((call_good hagree call).of_error hfails).1, ?_⟩
  unfold holds at hagree ⊢
  rw [List.foldl_append]
  exact (fundingSteps_spec hagree txs').2

/-- Two seats are reserved; one is paid and refunded in part, the other released. -/
example : (holds [⟨[.reserve 5000 7 1 0 [(1, 1200), (2, 2200)]], true⟩, ⟨[.consume 7 1 1000], true⟩,
    ⟨[.releaseMember 7 2, .releaseAggregate 7, .recordRefund 7 1 300], true⟩]).reservedTotal = some 0 := by
  decide +kernel

end FiFunding
