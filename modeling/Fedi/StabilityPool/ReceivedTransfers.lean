import Fedi.StabilityPool.Commits
import Fedi.StabilityPool.HistoryService

/-!
# The history service follows the server

An update of the service fetches the rows that a sync response announced.  Both answers may come
from any moment between two commits, so the stored rows are those of the account at one such
moment (`service_follows`), and the operation of a transaction holds what `received` makes of
them:

    cdb.received a txid = none ∨ cdb.received a txid = received txid (history a)    (service_received)

whatever else the account did and however the rows came in batches.
-/

namespace StabilityPool

open BTreeMaps KeyedLogs Runs

/-! ## Received operations -/

def UserOperationHistoryItemKind.transferIn? : UserOperationHistoryItemKind → Option (AccountId × List UInt8)
  | .transferIn sender metadata => some (sender, metadata)
  | _ => none

/-- What an operation received, if it is a transfer-in. -/
def UserOperationHistoryItem.received? (op : UserOperationHistoryItem) : Option ReceivedTransfer :=
  op.kind.transferIn?.map fun p => ⟨op.cycle, op.amount, p.1, p.2⟩

theorem UserOperationHistoryItem.received?_eq_some {op : UserOperationHistoryItem} {r : ReceivedTransfer} :
    op.received? = some r ↔
      op.kind = .transferIn r.sender r.metadata ∧ op.cycle = r.cycle ∧ op.amount = r.amount := by
  unfold UserOperationHistoryItem.received?
  constructor
  · intro h
    cases hkind : op.kind <;> rw [hkind] at h <;> cases h
    exact ⟨rfl, rfl, rfl⟩
  · rintro ⟨hkind, hcycle, hamount⟩
    rw [hkind, hcycle, hamount]
    rfl

def ClientDb.received (db : ClientDb) (a : AccountId) (txid : TransactionId) : Option ReceivedTransfer :=
  (db.userOperation a txid).bind UserOperationHistoryItem.received?

/-- The two databases hold the same rows and the same received operations. -/
structure SameReceived (db db' : ClientDb) : Prop where
  accountHistory : db'.accountHistory = db.accountHistory
  received : ∀ a txid, db'.received a txid = db.received a txid

theorem SameReceived.refl (db : ClientDb) : SameReceived db db := ⟨rfl, fun _ _ => rfl⟩

theorem SameReceived.trans {db db' db'' : ClientDb} (h : SameReceived db db') (h' : SameReceived db' db'') :
    SameReceived db db'' where
  accountHistory := h'.accountHistory.trans h.accountHistory
  received := fun a txid => (h'.received a txid).trans (h.received a txid)

section

variable {db : ClientDb} {a : AccountId} {txid : TransactionId}

theorem received_of_userOperationHistory {db' : ClientDb}
    (h : db'.userOperationHistory = db.userOperationHistory) (a : AccountId) (txid : TransactionId) :
    db'.received a txid = db.received a txid := by
  unfold ClientDb.received ClientDb.userOperation
  rw [h]

theorem userOperation_setUserOperation (value : UserOperationHistoryItem) (a' : AccountId) (txid' : TransactionId) :
    (setUserOperation db a txid value).userOperation a' txid' =
      if a' = a ∧ txid' = txid then some value else db.userOperation a' txid' := by
  unfold setUserOperation ClientDb.userOperation
  rw [BTreeMap.getD_insert]
  by_cases ha : a' = a
  · subst ha
    rw [if_pos rfl, BTreeMap.get?_insert]
    by_cases ht : txid' = txid
    · rw [if_pos ht, if_pos ⟨rfl, ht⟩]
    · rw [if_neg ht, if_neg fun h => ht h.2]
  · rw [if_neg ha, if_neg fun h => ha h.1]

theorem userOperation_insertUserOperationHistoryItem (value : UserOperationHistoryItem) (a' : AccountId)
    (txid' : TransactionId) :
    (insertUserOperationHistoryItem db a txid value).userOperation a' txid' =
      if a' = a ∧ txid' = txid then some value else db.userOperation a' txid' := by
  rw [← userOperation_setUserOperation]
  unfold insertUserOperationHistoryItem
  cases db.userOperation a txid <;> rfl

theorem accountHistory_insertUserOperationHistoryItem (value : UserOperationHistoryItem) :
    (insertUserOperationHistoryItem db a txid value).accountHistory = db.accountHistory := by
  unfold insertUserOperationHistoryItem
  cases db.userOperation a txid <;> rfl

/-- An operation that holds nothing received may be replaced by another. -/
theorem sameReceived_insert {value : UserOperationHistoryItem} (hvalue : value.received? = none)
    (hold : db.received a txid = none) : SameReceived db (insertUserOperationHistoryItem db a txid value) where
  accountHistory := accountHistory_insertUserOperationHistoryItem value
  received := by
    intro a' txid'
    unfold ClientDb.received at hold ⊢
    rw [userOperation_insertUserOperationHistoryItem]
    split
    next h =>
      rw [h.1, h.2, hold]
      exact hvalue
    next => rfl

theorem ensureTransferInRecorded_operations (randomOpId : TransactionId → OperationId) :
    (ensureTransferInRecorded randomOpId db a txid).userOperationHistory = db.userOperationHistory ∧
      (ensureTransferInRecorded randomOpId db a txid).accountHistory = db.accountHistory := by
  unfold ensureTransferInRecorded
  cases (db.recordedTransfer.getD a .empty).get? txid <;> exact ⟨rfl, rfl⟩

theorem maybeMarkPendingDepositAsCompleted_same (depositSequence toDrain : ℕ) :
    SameReceived db (maybeMarkPendingDepositAsCompleted db depositSequence toDrain) := by
  unfold maybeMarkPendingDepositAsCompleted
  cases db.depositSequenceTransactionLookup.get? depositSequence with
  | none => exact .refl db
  | some value =>
    dsimp only
    cases hop : db.userOperation value.accountId value.txid with
    | none => exact ⟨rfl, fun _ _ => rfl⟩
    | some op =>
      dsimp only
      split_ifs with hpending hdrained
      · -- a pending deposit becomes a completed one
        refine ⟨rfl, fun a' txid' => ?_⟩
        unfold ClientDb.received
        rw [userOperation_setUserOperation]
        split
        next h =>
          rw [h.1, h.2, hop]
          show none = op.received?
          unfold UserOperationHistoryItem.received?
          rw [hpending]
          rfl
        next => rfl
      · exact ⟨rfl, fun _ _ => rfl⟩
      · exact ⟨rfl, fun _ _ => rfl⟩

end

/-! ## One row -/

section

variable {randomOpId : TransactionId → OperationId} {a : AccountId} {syncResponse : SyncResponse}

theorem receive_of_other {item : AccountHistoryItem} (h : item.kind.transferIn? = none) (r : Option ReceivedTransfer) :
    receive item.txid r item = r :=
  receive_of_not_brings (fun hbrings => by rw [AccountHistoryItem.Brings, h] at hbrings; cases hbrings.2) r

theorem receive_of_transferIn {item : AccountHistoryItem} {sender : AccountId} {metadata : List UInt8}
    (h : item.kind.transferIn? = some (sender, metadata)) (r : Option ReceivedTransfer) :
    receive item.txid r item =
      some ⟨item.cycle, item.amount + (r.map ReceivedTransfer.amount).getD 0, sender, metadata⟩ := by
  unfold receive
  rw [if_pos rfl, h]

/-- A row that is no transfer-in makes no received operation, and does not touch one. -/
theorem newUserOpState_other {db : ClientDb} {item : AccountHistoryItem} {completed : List TransactionId}
    {newFiatAmount : ℕ} {new : NewUserOpState} (hkind : item.kind.transferIn? = none)
    (h : newUserOpState randomOpId db a syncResponse item completed newFiatAmount = .ok (some new)) :
    new.db.userOperationHistory = db.userOperationHistory ∧ new.db.accountHistory = db.accountHistory ∧
      new.kind.transferIn? = none ∧ db.received a item.txid = none := by
  unfold newUserOpState at h
  unfold ClientDb.received
  cases hc : db.userOperation a item.txid with
  | none =>
    rw [hc] at h
    cases hk : item.kind <;> rw [hk] at h hkind <;> simp only [Option.map_none] at h <;> try cases hkind
    case none.stagedToIdle.refl =>
      cases hreq : syncResponse.unlockRequest with
      | none =>
        rw [hreq] at h
        cases h
        exact ⟨rfl, rfl, rfl, rfl⟩
      | some request =>
        rw [hreq] at h
        dsimp only at h
        split_ifs at h with htxid
        · obtain ⟨amounts, -, h⟩ := bind_eq_ok.mp h
          cases h
          exact ⟨rfl, rfl, rfl, rfl⟩
        · cases h
          exact ⟨rfl, rfl, rfl, rfl⟩
    all_goals cases h
    all_goals exact ⟨rfl, rfl, rfl, rfl⟩
  | some op =>
    rw [hc] at h
    -- the branches that find a transfer-in either return early or panic
    have hop : op.kind.transferIn? = none → (some op).bind UserOperationHistoryItem.received? = none := by
      intro hnone
      show op.kind.transferIn?.map _ = none
      rw [hnone]
      rfl
    cases hk : item.kind <;> rw [hk] at h hkind <;> cases ho : op.kind <;>
      simp only [Option.map_some, ho] at h <;> try cases hkind
    case some.lockedToIdle.completedWithdrawal.refl =>
      split_ifs at h <;> cases h <;> exact ⟨rfl, rfl, rfl, hop (by rw [ho]; rfl)⟩
    all_goals cases h
    all_goals exact ⟨rfl, rfl, rfl, hop (by rw [ho]; rfl)⟩

/-- A transfer-in row adds to what its transaction brought before. -/
theorem newUserOpState_transferIn {db : ClientDb} {item : AccountHistoryItem} {completed : List TransactionId}
    {newFiatAmount : ℕ} {r : Option NewUserOpState} {sender : AccountId} {metadata : List UInt8}
    (hkind : item.kind.transferIn? = some (sender, metadata))
    (h : newUserOpState randomOpId db a syncResponse item completed newFiatAmount = .ok r) :
    ∃ new, r = some new ∧ new.db = ensureTransferInRecorded randomOpId db a item.txid ∧
      new.kind = .transferIn sender metadata ∧
      new.amount = item.amount + ((db.received a item.txid).map ReceivedTransfer.amount).getD 0 := by
  unfold newUserOpState at h
  unfold ClientDb.received
  cases hc : db.userOperation a item.txid with
  | none =>
    rw [hc] at h
    cases hk : item.kind <;> rw [hk] at h hkind <;> cases hkind <;> cases h <;>
      exact ⟨_, rfl, rfl, rfl, rfl⟩
  | some op =>
    rw [hc] at h
    cases hk : item.kind <;> rw [hk] at h hkind <;> cases hkind <;> cases ho : op.kind <;>
      simp only [Option.map_some, ho] at h <;> cases h
    all_goals
      refine ⟨_, rfl, rfl, rfl, ?_⟩
      show item.amount + op.amount = item.amount + ((op.kind.transferIn?.map _).map ReceivedTransfer.amount).getD 0
      rw [ho]
      rfl

/-- One row: it is stored already, and the operation of its transaction receives it. -/
theorem updateUserOperationHistory_received {db : ClientDb} {item : AccountHistoryItem}
    {completed : List TransactionId} {r : ClientDb × List TransactionId}
    (h : updateUserOperationHistory randomOpId db a syncResponse item completed = .ok r) :
    r.1.accountHistory = db.accountHistory ∧
      ∀ txid, r.1.received a txid = receive txid (db.received a txid) item := by
  obtain ⟨newFiatAmount, -, h⟩ := bind_eq_ok.mp h
  obtain ⟨new, hnew, h⟩ := bind_eq_ok.mp h
  have hother : ∀ txid, txid ≠ item.txid → receive txid (db.received a txid) item = db.received a txid :=
    fun txid htxid => receive_of_not_brings (fun hbrings => htxid hbrings.1.symm) _
  cases hkind : item.kind.transferIn? with
  | some p =>
    obtain ⟨sender, metadata⟩ := p
    obtain ⟨new, rfl, hdb, hnewKind, hamount⟩ := newUserOpState_transferIn hkind hnew
    have hidle : item.kind ≠ .stagedToIdle := fun hidle => by rw [hidle] at hkind; cases hkind
    dsimp only at h
    rw [if_neg hidle] at h
    cases h
    obtain ⟨hoperations, hhistory⟩ := @ensureTransferInRecorded_operations db a item.txid randomOpId
    refine ⟨by rw [accountHistory_insertUserOperationHistoryItem, hdb, hhistory], fun txid => ?_⟩
    unfold ClientDb.received
    rw [userOperation_insertUserOperationHistoryItem]
    split
    next htxid =>
      rw [htxid.2, receive_of_transferIn hkind, hnewKind]
      show some (ReceivedTransfer.mk item.cycle new.amount sender metadata) = _
      rw [hamount]
      rfl
    next htxid =>
      have hne : txid ≠ item.txid := fun heq => htxid ⟨rfl, heq⟩
      rw [hdb]
      show ClientDb.received _ a txid = receive txid (db.received a txid) item
      rw [hother txid hne, received_of_userOperationHistory hoperations]
  | none =>
    have hsame : ∀ txid, receive txid (db.received a txid) item = db.received a txid := by
      intro txid
      by_cases htxid : txid = item.txid
      · rw [htxid]
        exact receive_of_other hkind _
      · exact hother txid htxid
    cases new with
    | none =>
      cases h
      exact ⟨rfl, fun txid => (hsame txid).symm⟩
    | some new =>
      obtain ⟨hoperations, hhistory, hnewKind, hold⟩ := newUserOpState_other hkind hnew
      have hnewDb : SameReceived db new.db := ⟨hhistory, received_of_userOperationHistory hoperations⟩
      have hmarked : SameReceived db (if item.kind = .stagedToIdle then
          maybeMarkPendingDepositAsCompleted new.db item.depositSequence item.amount else new.db) := by
        split
        next => exact hnewDb.trans (maybeMarkPendingDepositAsCompleted_same _ _)
        next => exact hnewDb
      have hvalue : (UserOperationHistoryItem.mk item.txid item.cycle new.amount new.fiatAmount
          new.kind).received? = none := by
        unfold UserOperationHistoryItem.received?
        rw [hnewKind]
        rfl
      cases h
      have hinserted := hmarked.trans (sameReceived_insert hvalue (by rw [hmarked.received]; exact hold))
      exact ⟨hinserted.accountHistory, fun txid => by rw [hsame]; exact hinserted.received a txid⟩

/-! ## Updates -/

/-- The service has stored the rows and every operation holds what they brought. -/
structure Follows (db : ClientDb) (a : AccountId) (rows : List AccountHistoryItem) : Prop where
  stored : Numbered (db.accountHistory.getD a .empty) rows
  operations : ∀ txid, db.received a txid = received txid rows

theorem follows_initial (a : AccountId) : Follows ClientDb.initial a [] := ⟨rfl, fun _ => rfl⟩

theorem Follows.congr {db db' : ClientDb} {rows : List AccountHistoryItem} (h : Follows db a rows)
    (hsame : SameReceived db db') : Follows db' a rows where
  stored := by
    rw [hsame.accountHistory]
    exact h.stored
  operations := fun txid => (hsame.received a txid).trans (h.operations txid)

theorem getAccountHistoryCount_eq (db : ClientDb) (a : AccountId) :
    getAccountHistoryCount db a = nextSerial (db.accountHistory.getD a .empty) := by
  unfold getAccountHistoryCount nextSerial
  cases (db.accountHistory.getD a .empty).entries.getLast? <;> rfl

theorem Follows.count {db : ClientDb} {rows : List AccountHistoryItem} (h : Follows db a rows) :
    getAccountHistoryCount db a = rows.length := by
  rw [getAccountHistoryCount_eq, h.stored.nextSerial]

/-- A row more. -/
theorem Follows.store {db : ClientDb} {rows : List AccountHistoryItem} (h : Follows db a rows)
    {item : AccountHistoryItem} {completed : List TransactionId} {r : ClientDb × List TransactionId}
    (hr : updateUserOperationHistory randomOpId (storeAccountHistoryItem db a rows.length item) a syncResponse item
      completed = .ok r) : Follows r.1 a (rows ++ [item]) := by
  obtain ⟨hhistory, hreceived⟩ := updateUserOperationHistory_received hr
  constructor
  · rw [hhistory]
    show Numbered ((db.accountHistory.insert a _).getD a .empty) (rows ++ [item])
    rw [BTreeMap.getD_insert_self, ← h.stored.nextSerial]
    exact h.stored.insert item
  · intro txid
    rw [hreceived txid]
    show receive txid (db.received a txid) item = received txid (rows ++ [item])
    rw [h.operations txid]
    unfold received
    rw [List.foldl_append]
    rfl

/-- The loop over the fetched rows stores them all. -/
theorem storeItems_follows {items : List AccountHistoryItem} {rows : List AccountHistoryItem}
    {r r' : ClientDb × List TransactionId} (h : Follows r.1 a rows)
    (hr : storeItems randomOpId a syncResponse rows.length items r = .ok r') : Follows r'.1 a (rows ++ items) := by
  induction items generalizing rows r with
  | nil =>
    cases hr
    rw [List.append_nil]
    exact h
  | cons item items ih =>
    obtain ⟨r1, h1, h2⟩ := bind_eq_ok.mp hr
    have hlength : rows.length + 1 = (rows ++ [item]).length := by simp
    rw [hlength] at h2
    have hrest := ih (h.store h1) h2
    rwa [List.append_assoc, List.singleton_append] at hrest

/-- A pending withdrawal is registered where there is no operation. -/
theorem ensureUnlockRequestRegistered_same {db db' : ClientDb}
    (h : ensureUnlockRequestRegistered db a syncResponse = .ok db') : SameReceived db db' := by
  unfold ensureUnlockRequestRegistered at h
  cases hreq : syncResponse.unlockRequest with
  | none =>
    rw [hreq] at h
    cases h
    exact .refl db
  | some request =>
    rw [hreq] at h
    dsimp only at h
    cases hop : db.userOperation a request.txid with
    | some op =>
      rw [hop] at h
      cases h
      exact .refl db
    | none =>
      rw [hop] at h
      obtain ⟨amounts, -, h⟩ := bind_eq_ok.mp h
      cases h
      refine sameReceived_insert rfl ?_
      unfold ClientDb.received
      rw [hop]
      rfl

/-- An update stores what it fetched, if the response announced any row. -/
theorem updateOnce_follows {db db' : ClientDb} {rows : List AccountHistoryItem} (h : Follows db a rows)
    {fetch : ℕ → ℕ → List AccountHistoryItem} (hr : updateOnce randomOpId db a syncResponse fetch = .ok db') :
    Follows db' a rows ∨ rows.length < syncResponse.accountHistoryCount ∧
      Follows db' a (rows ++ fetch rows.length syncResponse.accountHistoryCount) := by
  unfold updateOnce at hr
  dsimp only at hr
  rw [h.count] at hr
  split_ifs at hr with hless heq
  · exact .inl (h.congr (ensureUnlockRequestRegistered_same hr))
  · obtain ⟨r, hstore, hregister⟩ := bind_eq_ok.mp hr
    refine .inr ⟨by omega, ?_⟩
    exact (storeItems_follows h hstore).congr (ensureUnlockRequestRegistered_same hregister)

/-! ## Repair -/

/-- Only completed withdrawals are repaired. -/
theorem repairWithdrawal_same (db : ClientDb) (e : TransactionId × (ℕ × ℕ)) :
    SameReceived db (repairWithdrawal a db e) := by
  unfold repairWithdrawal
  cases hop : db.userOperation a e.1 with
  | none => exact .refl db
  | some op =>
    dsimp only
    split
    next hcompleted =>
      have hnone : op.kind.transferIn? = none := by rw [hcompleted.1]; rfl
      refine sameReceived_insert ?_ ?_
      · show op.kind.transferIn?.map _ = none
        rw [hnone]
        rfl
      · unfold ClientDb.received
        rw [hop]
        show op.kind.transferIn?.map _ = none
        rw [hnone]
        rfl
    next => exact .refl db

theorem foldl_repairWithdrawal_same (totals : List (TransactionId × (ℕ × ℕ))) (db : ClientDb) :
    SameReceived db (totals.foldl (repairWithdrawal a) db) := by
  induction totals generalizing db with
  | nil => exact .refl db
  | cons e totals ih => exact (repairWithdrawal_same db e).trans (ih _)

theorem repairCompletedWithdrawalHistoryOnce_same {db db' : ClientDb}
    (h : repairCompletedWithdrawalHistoryOnce db a = .ok db') : SameReceived db db' := by
  unfold repairCompletedWithdrawalHistoryOnce at h
  cases hkey : db.completedWithdrawalHistoryRepair.get? a with
  | some u =>
    rw [hkey] at h
    cases h
    exact .refl db
  | none =>
    rw [hkey] at h
    obtain ⟨totals, -, h⟩ := bind_eq_ok.mp h
    cases h
    have hsame := foldl_repairWithdrawal_same (a := a) totals.entries db
    exact ⟨hsame.accountHistory, hsame.received⟩

/-! ## A transaction that only pays -/

/-- The operation of the transaction, if there is one, is a transfer-in. -/
def ClientDb.OnlyReceives (db : ClientDb) (a : AccountId) (txid : TransactionId) : Prop :=
  ∀ op, db.userOperation a txid = some op → op.kind.transferIn?.isSome

theorem ClientDb.OnlyReceives.of_userOperation {db db' : ClientDb} {txid : TransactionId}
    (h : db.OnlyReceives a txid) (heq : db'.userOperation a txid = db.userOperation a txid) :
    db'.OnlyReceives a txid := by
  intro op hop
  rw [heq] at hop
  exact h op hop

theorem ClientDb.OnlyReceives.insert {db : ClientDb} {txid txid' : TransactionId} (h : db.OnlyReceives a txid)
    {value : UserOperationHistoryItem} (hvalue : txid = txid' → value.kind.transferIn?.isSome) :
    (insertUserOperationHistoryItem db a txid' value).OnlyReceives a txid := by
  intro op hop
  rw [userOperation_insertUserOperationHistoryItem] at hop
  split at hop
  next heq =>
    cases hop
    exact hvalue heq.2
  next => exact h op hop

/-- A pending deposit is no operation of the transaction. -/
theorem ClientDb.OnlyReceives.maybeMark {db : ClientDb} {txid : TransactionId} (h : db.OnlyReceives a txid)
    (depositSequence toDrain : ℕ) :
    (maybeMarkPendingDepositAsCompleted db depositSequence toDrain).OnlyReceives a txid := by
  unfold maybeMarkPendingDepositAsCompleted
  cases db.depositSequenceTransactionLookup.get? depositSequence with
  | none => exact h
  | some value =>
    dsimp only
    cases hop : db.userOperation value.accountId value.txid with
    | none => exact h.of_userOperation rfl
    | some op =>
      dsimp only
      split_ifs with hpending hdrained
      · refine h.of_userOperation ?_
        rw [userOperation_setUserOperation]
        split
        next heq =>
          have hsome := h op (by rw [heq.1, heq.2]; exact hop)
          rw [hpending] at hsome
          cases hsome
        next => rfl
      · exact h.of_userOperation rfl
      · exact h.of_userOperation rfl

/-- A change of locks passes over the operation. -/
theorem newUserOpState_changesLock {db : ClientDb} {item : AccountHistoryItem} {completed : List TransactionId}
    {newFiatAmount : ℕ} {r : Option NewUserOpState} (hdb : db.OnlyReceives a item.txid)
    (hkind : item.kind.ChangesLock)
    (h : newUserOpState randomOpId db a syncResponse item completed newFiatAmount = .ok r) : r = none := by
  unfold newUserOpState at h
  rcases hkind with hkind | hkind
  · rw [hkind] at h
    cases hop : db.userOperation a item.txid with
    | none =>
      rw [hop] at h
      cases h
    | some op =>
      rw [hop] at h
      have hsome := hdb op hop
      cases hk : op.kind <;> rw [hk] at hsome <;> try cases hsome
      simp only [Option.map_some, hk] at h
      cases h
      rfl
  · rw [hkind] at h
    cases h
    rfl

theorem ClientDb.OnlyReceives.update {db : ClientDb} {txid : TransactionId} (h : db.OnlyReceives a txid)
    {item : AccountHistoryItem} {completed : List TransactionId} {r : ClientDb × List TransactionId}
    (hitem : item.txid = txid → item.kind.transferIn?.isSome ∨ item.kind.ChangesLock)
    (hr : updateUserOperationHistory randomOpId db a syncResponse item completed = .ok r) :
    r.1.OnlyReceives a txid := by
  obtain ⟨newFiatAmount, -, hr⟩ := bind_eq_ok.mp hr
  obtain ⟨new, hnew, hr⟩ := bind_eq_ok.mp hr
  cases hkind : item.kind.transferIn? with
  | some p =>
    obtain ⟨sender, metadata⟩ := p
    obtain ⟨new, rfl, hdb, hnewKind, -⟩ := newUserOpState_transferIn hkind hnew
    have hidle : item.kind ≠ .stagedToIdle := fun hidle => by rw [hidle] at hkind; cases hkind
    dsimp only at hr
    rw [if_neg hidle] at hr
    cases hr
    refine ClientDb.OnlyReceives.insert (h.of_userOperation ?_) fun _ => ?_
    · unfold ClientDb.userOperation
      rw [hdb, (ensureTransferInRecorded_operations randomOpId).1]
    · rw [hnewKind]
      rfl
  | none =>
    cases new with
    | none =>
      cases hr
      exact h
    | some new =>
      obtain ⟨hoperations, -, -, -⟩ := newUserOpState_other hkind hnew
      have hother : txid ≠ item.txid := by
        intro htxid
        subst htxid
        rcases hitem rfl with hsome | hlock
        · rw [hkind] at hsome
          cases hsome
        · cases newUserOpState_changesLock h hlock hnew
      have hnewDb : new.db.OnlyReceives a txid := h.of_userOperation (by unfold ClientDb.userOperation; rw [hoperations])
      have hmarked : (if item.kind = .stagedToIdle then
          maybeMarkPendingDepositAsCompleted new.db item.depositSequence item.amount
          else new.db).OnlyReceives a txid := by
        split
        next => exact hnewDb.maybeMark _ _
        next => exact hnewDb
      cases hr
      exact hmarked.insert fun htxid => absurd htxid hother

theorem ClientDb.OnlyReceives.storeItems {txid : TransactionId} {items : List AccountHistoryItem}
    (hitems : OnlyBrings txid items) {index : ℕ} {r r' : ClientDb × List TransactionId}
    (h : r.1.OnlyReceives a txid) (hr : storeItems randomOpId a syncResponse index items r = .ok r') :
    r'.1.OnlyReceives a txid := by
  induction items generalizing index r with
  | nil =>
    cases hr
    exact h
  | cons item items ih =>
    obtain ⟨r1, h1, h2⟩ := bind_eq_ok.mp hr
    have hstored : (storeAccountHistoryItem r.1 a index item).OnlyReceives a txid := h.of_userOperation rfl
    exact ih (fun i hi => hitems i (List.mem_cons_of_mem _ hi)) (hstored.update (hitems item List.mem_cons_self) h1) h2

theorem ClientDb.OnlyReceives.ensureUnlockRequestRegistered {db db' : ClientDb} {txid : TransactionId}
    (h : db.OnlyReceives a txid) (hrequest : ∀ request, syncResponse.unlockRequest = some request → request.txid ≠ txid)
    (hr : ensureUnlockRequestRegistered db a syncResponse = .ok db') : db'.OnlyReceives a txid := by
  unfold StabilityPool.ensureUnlockRequestRegistered at hr
  cases hreq : syncResponse.unlockRequest with
  | none =>
    rw [hreq] at hr
    cases hr
    exact h
  | some request =>
    rw [hreq] at hr
    dsimp only at hr
    cases hop : db.userOperation a request.txid with
    | some op =>
      rw [hop] at hr
      cases hr
      exact h
    | none =>
      rw [hop] at hr
      obtain ⟨amounts, -, hr⟩ := bind_eq_ok.mp hr
      cases hr
      exact h.insert fun htxid => absurd htxid.symm (hrequest request hreq)

theorem ClientDb.OnlyReceives.updateOnce {db db' : ClientDb} {txid : TransactionId} (h : db.OnlyReceives a txid)
    (hrequest : ∀ request, syncResponse.unlockRequest = some request → request.txid ≠ txid)
    {fetch : ℕ → ℕ → List AccountHistoryItem} (hfetch : ∀ first last, OnlyBrings txid (fetch first last))
    (hr : updateOnce randomOpId db a syncResponse fetch = .ok db') : db'.OnlyReceives a txid := by
  unfold StabilityPool.updateOnce at hr
  dsimp only at hr
  split_ifs at hr
  · exact h.ensureUnlockRequestRegistered hrequest hr
  · obtain ⟨r, hstore, hregister⟩ := bind_eq_ok.mp hr
    exact (ClientDb.OnlyReceives.storeItems (hfetch _ _) h hstore).ensureUnlockRequestRegistered hrequest hregister

theorem ClientDb.OnlyReceives.repair {db db' : ClientDb} {txid : TransactionId} (h : db.OnlyReceives a txid)
    (hr : repairCompletedWithdrawalHistoryOnce db a = .ok db') : db'.OnlyReceives a txid := by
  have hfold : ∀ (totals : List (TransactionId × (ℕ × ℕ))) (db : ClientDb), db.OnlyReceives a txid →
      (totals.foldl (repairWithdrawal a) db).OnlyReceives a txid := by
    intro totals
    induction totals with
    | nil => exact fun _ hdb => hdb
    | cons e totals ih =>
      intro db hdb
      refine ih _ ?_
      unfold repairWithdrawal
      cases hop : db.userOperation a e.1 with
      | none => exact hdb
      | some op =>
        dsimp only
        split
        next hcompleted =>
          refine hdb.insert fun htxid => ?_
          exact hdb op (by rw [htxid]; exact hop)
        next => exact hdb
  unfold repairCompletedWithdrawalHistoryOnce at hr
  cases hkey : db.completedWithdrawalHistoryRepair.get? a with
  | some u =>
    rw [hkey] at hr
    cases hr
    exact h
  | none =>
    rw [hkey] at hr
    obtain ⟨totals, -, hr⟩ := bind_eq_ok.mp hr
    cases hr
    exact (hfold totals.entries db h).of_userOperation rfl

end

/-! ## Runs of the service -/

/-- The repair at a start of the service, or an update with the answers of the server after that many
commits.  An update that fails is rolled back. -/
inductive ServiceEvent where
  | repair
  | update (synced fetched : ℕ)

def serviceStep (C : Crypto) (cfg : StabilityPoolConfigConsensus) (randomOpId : TransactionId → OperationId)
    (cs : List Commit) (a : AccountId) (db : ClientDb) : ServiceEvent → Res ClientDb
  | .repair => repairCompletedWithdrawalHistoryOnce db a
  | .update synced fetched => do
    let syncedAt ← runCommits C cfg (cs.take synced)
    let fetchedAt ← runCommits C cfg (cs.take fetched)
    let syncResponse ← sync syncedAt.db a
    updateOnce randomOpId db a syncResponse (getAccountHistoryItems fetchedAt.db a)

/-- Run the service of an account from its fresh database. -/
def runService (C : Crypto) (cfg : StabilityPoolConfigConsensus) (randomOpId : TransactionId → OperationId)
    (cs : List Commit) (a : AccountId) (es : List ServiceEvent) : Res ClientDb :=
  run (serviceStep C cfg randomOpId cs a) ClientDb.initial es

section

variable {C : Crypto} {cfg : StabilityPoolConfigConsensus} {randomOpId : TransactionId → OperationId}
  {cs : List Commit} {a : AccountId}

theorem sync_accountHistoryCount {db : Db} (hposted : db.Posted) {response : SyncResponse}
    (h : sync db a = .ok response) : response.accountHistoryCount = (db.history a).length := by
  have hcount : accountHistoryCount db a = (db.history a).length := by
    rw [accountHistoryCount_eq, (hposted.numbered a).nextSerial]
  rw [← hcount]
  unfold sync at h
  cases hc : db.currentCycle with
  | none =>
    rw [hc] at h
    cases h
  | some cycle =>
    rw [hc] at h
    dsimp only at h
    cases htype : a.accType <;> rw [htype] at h <;> cases h <;> rfl

theorem sync_unlockRequest {db : Db} {response : SyncResponse} (h : sync db a = .ok response) :
    response.unlockRequest = db.unlockRequests.get? a := by
  unfold sync at h
  cases hc : db.currentCycle with
  | none =>
    rw [hc] at h
    cases h
  | some cycle =>
    rw [hc] at h
    dsimp only at h
    cases htype : a.accType <;> rw [htype] at h <;> cases h <;> rfl

/-- The history after more commits begins with the history after fewer. -/
theorem history_take {m n : ℕ} (hle : m ≤ n) {st st' : Ledger} (h : runCommits C cfg (cs.take m) = .ok st)
    (h' : runCommits C cfg (cs.take n) = .ok st') : st.db.history a <+: st'.db.history a := by
  obtain ⟨l, hl⟩ : ∃ l, cs.take n = cs.take m ++ l := by
    obtain ⟨l, hl⟩ := List.take_prefix_take_left hle (l := cs)
    exact ⟨l, hl.symm⟩
  unfold runCommits at h'
  rw [hl] at h'
  obtain ⟨s1, h1, h2⟩ := run_append.mp h'
  have heq : s1 = st := Except.ok.inj (h1.symm.trans h)
  subst heq
  exact run_commits_history h2 (runCommits_posted h) a

/-- The rows a service holds are those after some number of commits. -/
def Caught (C : Crypto) (cfg : StabilityPoolConfigConsensus) (cs : List Commit) (a : AccountId) (db : ClientDb) :
    Prop :=
  ∃ n st, runCommits C cfg (cs.take n) = .ok st ∧ Follows db a (st.db.history a)

theorem serviceStep_caught {db db' : ClientDb} {e : ServiceEvent} (h : Caught C cfg cs a db)
    (hstep : serviceStep C cfg randomOpId cs a db e = .ok db') : Caught C cfg cs a db' := by
  obtain ⟨n, st, hst, hfollows⟩ := h
  cases e with
  | repair => exact ⟨n, st, hst, hfollows.congr (repairCompletedWithdrawalHistoryOnce_same hstep)⟩
  | update synced fetched =>
    simp only [serviceStep, bind_eq_ok] at hstep
    obtain ⟨syncedAt, hsynced, fetchedAt, hfetched, response, hresponse, hupdate⟩ := hstep
    rcases updateOnce_follows hfollows hupdate with hsame | ⟨hless, hnew⟩
    · exact ⟨n, st, hst, hsame⟩
    rw [sync_accountHistoryCount (runCommits_posted hsynced) hresponse] at hless hnew
    unfold getAccountHistoryItems at hnew
    rw [((runCommits_posted hfetched).numbered a).range] at hnew
    -- the response is the later one, or it would announce nothing
    have hlater : n ≤ synced := by
      by_contra hlt
      have hle := (history_take (a := a) (show synced ≤ n by omega) hsynced hst).length_le
      omega
    have hgrown := history_take (a := a) hlater hst hsynced
    rcases Nat.le_total fetched n with hfn | hnf
    · have hle := (history_take (a := a) hfn hfetched hst).length_le
      rw [List.drop_eq_nil_of_le (by rw [List.length_take]; omega), List.append_nil] at hnew
      exact ⟨n, st, hst, hnew⟩
    rcases Nat.le_total fetched synced with hfs | hsf
    · have hle := (history_take (a := a) hfs hfetched hsynced).length_le
      obtain ⟨news, hnews⟩ := history_take (a := a) hnf hst hfetched
      rw [List.take_of_length_le hle, ← hnews, List.drop_left, hnews] at hnew
      exact ⟨fetched, fetchedAt, hfetched, hnew⟩
    · obtain ⟨rest, hrest⟩ := history_take (a := a) hsf hsynced hfetched
      obtain ⟨news, hnews⟩ := hgrown
      rw [← hrest, List.take_left, ← hnews, List.drop_left, hnews] at hnew
      exact ⟨synced, syncedAt, hsynced, hnew⟩

theorem runService_caught {es : List ServiceEvent} {cdb : ClientDb}
    (h : runService C cfg randomOpId cs a es = .ok cdb) : Caught C cfg cs a cdb :=
  run_invariant (fun _ _ _ => serviceStep_caught) ⟨0, Ledger.initial, rfl, follows_initial a⟩ h

/-- Whatever the batches were, the operation of a transaction holds all that the transaction brought,
or nothing received. -/
theorem service_received (hids : (cs.filterMap Commit.txid?).Nodup) {st : Ledger}
    (hst : runCommits C cfg cs = .ok st) {es : List ServiceEvent} {cdb : ClientDb}
    (h : runService C cfg randomOpId cs a es = .ok cdb) (txid : TransactionId) :
    cdb.received a txid = none ∨ cdb.received a txid = received txid (st.db.history a) := by
  obtain ⟨n, mid, hmid, hfollows⟩ := runService_caught h
  rw [hfollows.operations txid]
  rw [← List.take_append_drop n cs] at hids hst
  obtain ⟨s1, h1, h2⟩ := run_append.mp hst
  have heq : s1 = mid := Except.ok.inj (h1.symm.trans hmid)
  subst heq
  exact received_at_once hids h1 h2 a txid

/-- Once the rows up to some moment are stored, so is what the transactions up to it brought. -/
theorem service_received_of_count {before after : List Commit} {txid : TransactionId} {mid : Ledger}
    (hmid : runCommits C cfg before = .ok mid) (hother : txid ∉ after.filterMap Commit.txid?)
    {es : List ServiceEvent} {cdb : ClientDb} (h : runService C cfg randomOpId (before ++ after) a es = .ok cdb)
    (hcount : accountHistoryCount mid.db a ≤ getAccountHistoryCount cdb a) :
    cdb.received a txid = received txid (mid.db.history a) := by
  obtain ⟨n, st, hst, hfollows⟩ := runService_caught h
  rw [hfollows.operations txid]
  rw [hfollows.count, accountHistoryCount_eq, ((runCommits_posted hmid).numbered a).nextSerial] at hcount
  have htake : (before ++ after).take before.length = before := List.take_left
  rcases Nat.le_total n before.length with hn | hn
  · -- no more rows than the moment has: the same rows
    rw [← htake] at hmid
    have hgrown := history_take (a := a) hn hst hmid
    rw [hgrown.eq_of_length_le hcount]
  · have hlist : (before ++ after).take n = before ++ after.take (n - before.length) := by
      rw [List.take_append, List.take_of_length_le hn]
    unfold runCommits at hst
    rw [hlist] at hst
    obtain ⟨s1, h1, h2⟩ := run_append.mp hst
    have heq : s1 = mid := Except.ok.inj (h1.symm.trans hmid)
    subst heq
    refine received_of_other_commits (fun hmem => hother ?_) h2 (runCommits_posted hmid) a
    obtain ⟨c, hc, hid⟩ := List.mem_filterMap.mp hmem
    exact List.mem_filterMap.mpr ⟨c, List.mem_of_mem_take hc, hid⟩

/-- The operation of a transaction that only pays the account is a transfer-in. -/
theorem service_onlyReceives {txid : TransactionId}
    (hpays : ∀ n st, runCommits C cfg (cs.take n) = .ok st → st.db.OnlyPays txid a) {es : List ServiceEvent}
    {cdb : ClientDb} (h : runService C cfg randomOpId cs a es = .ok cdb) : cdb.OnlyReceives a txid := by
  refine run_invariant (P := fun db : ClientDb => db.OnlyReceives a txid) (fun db e db' hdb hstep => ?_)
    (fun op hop => by cases hop) h
  cases e with
  | repair => exact hdb.repair hstep
  | update synced fetched =>
    simp only [serviceStep, bind_eq_ok] at hstep
    obtain ⟨syncedAt, hsynced, fetchedAt, hfetched, response, hresponse, hupdate⟩ := hstep
    refine hdb.updateOnce (fun request hrequest htxid => ?_) (fun first last item hitem => ?_) hupdate
    · refine (hpays synced syncedAt hsynced).spares.unrequested ⟨a, request, ?_, htxid⟩
      rw [← sync_unlockRequest hresponse]
      exact hrequest
    · obtain ⟨e, he, rfl⟩ := List.mem_map.mp hitem
      exact (hpays fetched fetchedAt hfetched).rows e.2 (List.mem_map_of_mem (List.mem_of_mem_filter he))

end

end StabilityPool
