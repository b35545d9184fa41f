import Fedi.StabilityPool.OpenedDeposits
import Fedi.StabilityPool.ReceivedTransfers

/-!
# Families of operations

An operation is of one family, and so are the rows that it is made of.  The service accepts a row
by the family of the operation of its transaction alone:

    (∃ r, updateUserOperationHistory .. item .. = .ok r) ↔
      Accepts (db.family? a item.txid) item.kind               (updateUserOperationHistory_ok_iff)

While it does, its operations are those of the rows so far (`Tracks`), and rows that it stored go
together (`CoversRows.storeItems`).
-/

namespace StabilityPool

open BTreeMaps KeyedLogs Runs

/-! ## Families -/

inductive OperationFamily where
  | deposit
  | btcBalanceDeposit
  | withdrawal
  | transferIn
  | transferOut
deriving DecidableEq

/-- Rows of the family add up in one operation; a deposit is one row. -/
def OperationFamily.addsUp : OperationFamily → Bool
  | .deposit | .btcBalanceDeposit => false
  | .withdrawal | .transferIn | .transferOut => true

/-- Changes of locks are of no family: they belong to a deposit or to a transfer in. -/
def AccountHistoryItemKind.family? : AccountHistoryItemKind → Option OperationFamily
  | .depositToStaged => some .deposit
  | .depositToBtcBalance _ => some .btcBalanceDeposit
  | .stagedToIdle | .lockedToIdle => some .withdrawal
  | .stagedTransferIn _ _ | .lockedTransferIn _ _ => some .transferIn
  | .stagedTransferOut _ _ | .lockedTransferOut _ _ => some .transferOut
  | .stagedToLocked | .lockedToStaged => none

def UserOperationHistoryItemKind.family : UserOperationHistoryItemKind → OperationFamily
  | .pendingDeposit | .completedDeposit => .deposit
  | .pendingWithdrawal | .completedWithdrawal => .withdrawal
  | .transferIn _ _ => .transferIn
  | .transferOut _ _ => .transferOut
  | .btcBalanceDeposit _ => .btcBalanceDeposit

/-- The family of the operation of a transaction. -/
def ClientDb.family? (db : ClientDb) (a : AccountId) (txid : TransactionId) : Option OperationFamily :=
  (db.userOperation a txid).map fun op => op.kind.family

/-- Two rows that may be of one transaction. -/
def AccountHistoryItem.GoesWith (row row' : AccountHistoryItem) : Prop :=
  row.txid = row'.txid → ∀ f ∈ row.kind.family?, ∀ g ∈ row'.kind.family?, f = g ∧ f.addsUp = true

instance : DecidableRel AccountHistoryItem.GoesWith := fun row row' => by
  unfold AccountHistoryItem.GoesWith
  infer_instance

/-- What the service accepts: a row that starts an operation or adds to one of its family, or the
lock of a deposit. -/
def Accepts (current : Option OperationFamily) (kind : AccountHistoryItemKind) : Prop :=
  (∀ f ∈ kind.family?, current = none ∨ current = some f ∧ f.addsUp = true) ∧
    (kind = .stagedToLocked → current = some .deposit ∨ current = some .transferIn)

/-! ## Arithmetic -/

/-- A division by zero apart, a conversion only overflows. -/
def Overflows (e : Fault) : Prop := ∃ msg, e = .bail msg

theorem tryIntoU64_failsOnly (n : ℕ) : FailsOnly Overflows (tryIntoU64 n) := by
  unfold tryIntoU64
  split_ifs
  · exact failsOnly_ok _
  · exact failsOnly_error ⟨_, rfl⟩

theorem toBtcAmount_overflows (fiat : ℕ) {price : ℕ} (hprice : price ≠ 0) :
    FailsOnly Overflows (FiatAmount.toBtcAmount fiat price) := by
  rw [FiatAmount.toBtcAmount_eq fiat hprice]
  exact tryIntoU64_failsOnly _

theorem fromBtcAmountRoundtripSafe_overflows (msats : ℕ) {price : ℕ} (hprice : price ≠ 0) :
    FailsOnly Overflows (FiatAmount.fromBtcAmountRoundtripSafe msats price) := by
  refine (tryIntoU64_failsOnly _).bind fun fiat _ => (toBtcAmount_overflows _ hprice).bind fun back _ => ?_
  split_ifs
  · exact failsOnly_ok _
  · exact failsOnly_ok _

theorem exists_resultOk {α : Type} {x : Res α} (h : FailsOnly Overflows x) : ∃ r, resultOk x = .ok r := by
  cases x with
  | ok a => exact ⟨some a, rfl⟩
  | error e =>
    obtain ⟨msg, rfl⟩ := h e rfl
    exact ⟨none, rfl⟩

theorem exists_fiatAmount {item : AccountHistoryItem} (hprice : item.cycle.startPrice ≠ 0) :
    ∃ fiat, item.fiatAmount = .ok fiat := by
  obtain ⟨r, hr⟩ := exists_resultOk (fromBtcAmountRoundtripSafe_overflows item.amount hprice)
  exact ⟨r.getD 0, by unfold AccountHistoryItem.fiatAmount; rw [hr]; rfl⟩

theorem exists_unlockAmounts {r : SyncResponse} (hprice : r.currentCycle.startPrice ≠ 0) :
    ∃ amounts, r.unlockAmounts = .ok amounts := by
  have hsome : ∃ amounts, r.amountFromUnlockRequest = .ok amounts := by
    unfold SyncResponse.amountFromUnlockRequest
    cases r.unlockRequest with
    | none => exact ⟨none, rfl⟩
    | some request =>
      dsimp only
      cases request.unlockAmount with
      | fiat fiat =>
        obtain ⟨msats, hmsats⟩ := exists_resultOk (toBtcAmount_overflows fiat hprice)
        dsimp only
        rw [hmsats]
        exact ⟨_, rfl⟩
      | all =>
        obtain ⟨fiat, hfiat⟩ := exists_resultOk (fromBtcAmountRoundtripSafe_overflows r.lockedBalance hprice)
        dsimp only
        rw [hfiat]
        exact ⟨_, rfl⟩
  obtain ⟨amounts, hamounts⟩ := hsome
  exact ⟨amounts.getD (0, 0), by unfold SyncResponse.unlockAmounts; rw [hamounts]; rfl⟩

/-- A fault that is a panic. -/
def Panicked (e : Fault) : Prop := ∃ p, e = .panic p

theorem resultOk_panicked {α : Type} (x : Res α) : FailsOnly Panicked (resultOk x) := by
  intro e h
  cases x with
  | ok a => cases h
  | error fault =>
    cases fault with
    | panic p =>
      cases h
      exact ⟨p, rfl⟩
    | bail msg => cases h
    | input e => cases h
    | output e => cases h

theorem fiatAmount_panicked (item : AccountHistoryItem) : FailsOnly Panicked item.fiatAmount :=
  (resultOk_panicked _).bind fun _ _ => failsOnly_ok _

theorem unlockAmounts_panicked (r : SyncResponse) : FailsOnly Panicked r.unlockAmounts := by
  refine FailsOnly.bind ?_ fun _ _ => failsOnly_ok _
  unfold SyncResponse.amountFromUnlockRequest
  cases r.unlockRequest with
  | none => exact failsOnly_ok _
  | some request =>
    dsimp only
    cases request.unlockAmount with
    | fiat fiat => exact (resultOk_panicked _).bind fun _ _ => failsOnly_ok _
    | all => exact (resultOk_panicked _).bind fun _ _ => failsOnly_ok _

/-! ## One row -/

section

variable {randomOpId : TransactionId → OperationId} {a : AccountId} {syncResponse : SyncResponse}
  {db : ClientDb} {item : AccountHistoryItem} {completed : List TransactionId} {newFiatAmount : ℕ}

theorem historyPanic_panicked {α : Type} (msg : String) : FailsOnly Panicked (historyPanic msg : Res α) :=
  failsOnly_error ⟨_, rfl⟩

/-- An accepted row, and the family it leaves. -/
theorem newUserOpState_family {r : Option NewUserOpState}
    (h : newUserOpState randomOpId db a syncResponse item completed newFiatAmount = .ok r) :
    Accepts (db.family? a item.txid) item.kind ∧
      (r = none → item.kind.family? = none) ∧
      ∀ new, r = some new → new.db.userOperationHistory = db.userOperationHistory ∧
        some new.kind.family = item.kind.family?.or (db.family? a item.txid) := by
  unfold newUserOpState at h
  unfold Accepts ClientDb.family?
  cases hop : db.userOperation a item.txid with
  | none =>
    rw [hop] at h
    cases hk : item.kind <;> rw [hk] at h <;> simp only [Option.map_none] at h
    case none.stagedToIdle =>
      cases hrequest : syncResponse.unlockRequest with
      | none =>
        rw [hrequest] at h
        cases h
        simp [AccountHistoryItemKind.family?, UserOperationHistoryItemKind.family]
      | some request =>
        rw [hrequest] at h
        dsimp only at h
        split_ifs at h with htxid
        · obtain ⟨amounts, -, h⟩ := bind_eq_ok.mp h
          cases h
          simp [AccountHistoryItemKind.family?, UserOperationHistoryItemKind.family]
        · cases h
          simp [AccountHistoryItemKind.family?, UserOperationHistoryItemKind.family]
    all_goals cases h
    all_goals simp [AccountHistoryItemKind.family?, UserOperationHistoryItemKind.family,
      (ensureTransferInRecorded_operations randomOpId).1]
  | some op =>
    rw [hop] at h
    cases hk : item.kind <;> rw [hk] at h <;> cases ho : op.kind <;> simp only [Option.map_some, ho] at h
    case some.lockedToIdle.completedWithdrawal =>
      split_ifs at h <;> cases h <;>
        simp [AccountHistoryItemKind.family?, UserOperationHistoryItemKind.family, OperationFamily.addsUp, ho]
    all_goals cases h
    all_goals simp [AccountHistoryItemKind.family?, UserOperationHistoryItemKind.family, OperationFamily.addsUp, ho,
      (ensureTransferInRecorded_operations randomOpId).1]

/-- The service accepts what the families allow, if it can convert. -/
theorem exists_newUserOpState (hresponse : syncResponse.currentCycle.startPrice ≠ 0)
    (haccepts : Accepts (db.family? a item.txid) item.kind) :
    ∃ r, newUserOpState randomOpId db a syncResponse item completed newFiatAmount = .ok r := by
  unfold newUserOpState
  unfold Accepts ClientDb.family? at haccepts
  cases hop : db.userOperation a item.txid with
  | none =>
    rw [hop] at haccepts
    cases hk : item.kind <;> rw [hk] at haccepts <;> simp only [Option.map_none]
    case none.stagedToLocked =>
      rcases haccepts.2 rfl with h | h <;> cases h
    case none.stagedToIdle =>
      cases syncResponse.unlockRequest with
      | none => exact ⟨_, rfl⟩
      | some request =>
        dsimp only
        split_ifs with htxid
        · obtain ⟨amounts, hamounts⟩ := exists_unlockAmounts hresponse
          rw [hamounts]
          exact ⟨_, rfl⟩
        · exact ⟨_, rfl⟩
    all_goals exact ⟨_, rfl⟩
  | some op =>
    rw [hop] at haccepts
    cases hk : item.kind <;> rw [hk] at haccepts <;> cases ho : op.kind <;> simp only [Option.map_some, ho] <;>
      simp [AccountHistoryItemKind.family?, UserOperationHistoryItemKind.family, OperationFamily.addsUp, ho] at haccepts
    case some.lockedToIdle.completedWithdrawal =>
      split_ifs <;> exact ⟨_, rfl⟩
    all_goals exact ⟨_, rfl⟩

theorem newUserOpState_panicked :
    FailsOnly Panicked (newUserOpState randomOpId db a syncResponse item completed newFiatAmount) := by
  unfold newUserOpState
  cases db.userOperation a item.txid with
  | none =>
    cases item.kind <;> simp only [Option.map_none]
    case none.stagedToIdle =>
      cases syncResponse.unlockRequest with
      | none => exact failsOnly_ok _
      | some request =>
        dsimp only
        split_ifs
        · exact (unlockAmounts_panicked _).bind fun _ _ => failsOnly_ok _
        · exact failsOnly_ok _
    case none.stagedToLocked => exact historyPanic_panicked _
    all_goals exact failsOnly_ok _
  | some op =>
    cases item.kind <;> cases ho : op.kind <;> simp only [Option.map_some, ho]
    case some.lockedToIdle.completedWithdrawal =>
      split_ifs <;> exact failsOnly_ok _
    all_goals first | exact failsOnly_ok _ | exact historyPanic_panicked _

theorem family?_insertUserOperationHistoryItem (value : UserOperationHistoryItem) (txid txid' : TransactionId) :
    (insertUserOperationHistoryItem db a txid value).family? a txid' =
      if txid' = txid then some value.kind.family else db.family? a txid' := by
  unfold ClientDb.family?
  rw [userOperation_insertUserOperationHistoryItem]
  by_cases htxid : txid' = txid
  · rw [if_pos ⟨rfl, htxid⟩, if_pos htxid]
    rfl
  · rw [if_neg fun h => htxid h.2, if_neg htxid]

theorem family?_of_operations {db' : ClientDb} (h : db'.userOperationHistory = db.userOperationHistory)
    (txid : TransactionId) : db'.family? a txid = db.family? a txid := by
  unfold ClientDb.family? ClientDb.userOperation
  rw [h]

/-- A deposit that is completed is still a deposit. -/
theorem family?_maybeMark (depositSequence toDrain : ℕ) (txid : TransactionId) :
    (maybeMarkPendingDepositAsCompleted db depositSequence toDrain).family? a txid = db.family? a txid := by
  unfold maybeMarkPendingDepositAsCompleted
  cases db.depositSequenceTransactionLookup.get? depositSequence with
  | none => rfl
  | some value =>
    dsimp only
    cases hop : db.userOperation value.accountId value.txid with
    | none => rfl
    | some op =>
      dsimp only
      split_ifs with hpending hdrained
      · unfold ClientDb.family?
        rw [userOperation_setUserOperation]
        split
        next heq =>
          rw [heq.1, heq.2, hop]
          show some OperationFamily.deposit = some op.kind.family
          rw [hpending]
          rfl
        next => rfl
      · rfl
      · rfl

/-- A row that is accepted sets the family of its transaction, and no other. -/
theorem updateUserOperationHistory_family {r : ClientDb × List TransactionId}
    (h : updateUserOperationHistory randomOpId db a syncResponse item completed = .ok r) :
    Accepts (db.family? a item.txid) item.kind ∧ ∀ txid, r.1.family? a txid =
      if txid = item.txid then item.kind.family?.or (db.family? a txid) else db.family? a txid := by
  obtain ⟨newFiatAmount, -, h⟩ := bind_eq_ok.mp h
  obtain ⟨new, hnew, h⟩ := bind_eq_ok.mp h
  obtain ⟨haccepts, hearly, hlate⟩ := newUserOpState_family hnew
  refine ⟨haccepts, fun txid => ?_⟩
  cases new with
  | none =>
    cases h
    rw [hearly rfl, Option.none_or]
    split_ifs <;> rfl
  | some new =>
    obtain ⟨hoperations, hfamily⟩ := hlate new rfl
    cases h
    rw [family?_insertUserOperationHistoryItem]
    by_cases htxid : txid = item.txid
    · rw [if_pos htxid, if_pos htxid, htxid]
      exact hfamily
    · rw [if_neg htxid, if_neg htxid]
      split_ifs
      · rw [family?_maybeMark]
        exact family?_of_operations hoperations txid
      · exact family?_of_operations hoperations txid

theorem updateUserOperationHistory_ok_iff (hprice : item.cycle.startPrice ≠ 0)
    (hresponse : syncResponse.currentCycle.startPrice ≠ 0) :
    (∃ r, updateUserOperationHistory randomOpId db a syncResponse item completed = .ok r) ↔
      Accepts (db.family? a item.txid) item.kind := by
  constructor
  · rintro ⟨r, hr⟩
    exact (updateUserOperationHistory_family hr).1
  · intro haccepts
    obtain ⟨fiat, hfiat⟩ := exists_fiatAmount hprice
    obtain ⟨new, hnew⟩ : ∃ new, newUserOpState randomOpId db a syncResponse item completed fiat = .ok new :=
      exists_newUserOpState hresponse haccepts
    unfold updateUserOperationHistory
    rw [hfiat, ok_bind, hnew, ok_bind]
    cases new with
    | none => exact ⟨_, rfl⟩
    | some new => exact ⟨_, rfl⟩

theorem updateUserOperationHistory_panicked :
    FailsOnly Panicked (updateUserOperationHistory randomOpId db a syncResponse item completed) := by
  refine (fiatAmount_panicked item).bind fun fiat _ => newUserOpState_panicked.bind fun new _ => ?_
  cases new with
  | none => exact failsOnly_ok _
  | some new => exact failsOnly_ok _

end

/-! ## The rows so far -/

/-- Every row has the operation of its family. -/
def CoversRows (db : ClientDb) (a : AccountId) (rows : List AccountHistoryItem) : Prop :=
  ∀ row ∈ rows, ∀ f ∈ row.kind.family?, db.family? a row.txid = some f

/-- Of the transaction there are only withdrawals to come. -/
def OnlyWithdraws (rows : List AccountHistoryItem) (txid : TransactionId) : Prop :=
  ∀ row ∈ rows, row.txid = txid → ∀ f ∈ row.kind.family?, f = .withdrawal

/-- The operations are those of the rows so far, and withdrawals that a request announced. -/
structure Tracks (db : ClientDb) (a : AccountId) (rows rest : List AccountHistoryItem) : Prop where
  covers : CoversRows db a rows
  operations : ∀ txid f, db.family? a txid = some f →
    (∃ row ∈ rows, row.txid = txid ∧ row.kind.family? = some f) ∨ f = .withdrawal ∧ OnlyWithdraws rest txid

section

variable {randomOpId : TransactionId → OperationId} {a : AccountId} {syncResponse : SyncResponse}
  {db db' : ClientDb} {item : AccountHistoryItem} {rows rest items : List AccountHistoryItem}
  {completed : List TransactionId}

theorem tracks_initial (rest : List AccountHistoryItem) : Tracks ClientDb.initial a [] rest where
  covers := fun row hrow => by cases hrow
  operations := fun txid f h => by cases h

theorem CoversRows.update {r : ClientDb × List TransactionId} (h : CoversRows db a rows)
    (hr : updateUserOperationHistory randomOpId db a syncResponse item completed = .ok r) :
    CoversRows r.1 a (rows ++ [item]) := by
  obtain ⟨haccepts, hfamily⟩ := updateUserOperationHistory_family hr
  intro row hrow f hf
  rw [hfamily]
  rcases List.mem_append.mp hrow with hrow | hrow
  · have hold := h row hrow f hf
    split_ifs with htxid
    · cases hitem : item.kind.family? with
      | none => rw [hold]; rfl
      | some g =>
        -- the row before makes the operation, and the new one adds to it
        rcases haccepts.1 g hitem with hnone | ⟨hsome, -⟩
        · rw [← htxid, hold] at hnone
          cases hnone
        · rw [← htxid, hold] at hsome
          exact hsome.symm
    · exact hold
  · rw [List.mem_singleton.mp hrow] at hf ⊢
    rw [if_pos rfl, Option.mem_def.mp hf]
    rfl

theorem Tracks.update {r : ClientDb × List TransactionId} (h : Tracks db a rows (item :: rest))
    (hr : updateUserOperationHistory randomOpId db a syncResponse item completed = .ok r) :
    Tracks r.1 a (rows ++ [item]) rest where
  covers := h.covers.update hr
  operations := by
    intro txid f hf
    rw [(updateUserOperationHistory_family hr).2] at hf
    have hold : db.family? a txid = some f → (∃ row ∈ rows ++ [item], row.txid = txid ∧ row.kind.family? = some f) ∨
        f = .withdrawal ∧ OnlyWithdraws rest txid := by
      intro hf
      rcases h.operations txid f hf with ⟨row, hrow, hfamily⟩ | ⟨hf, honly⟩
      · exact .inl ⟨row, List.mem_append_left _ hrow, hfamily⟩
      · exact .inr ⟨hf, fun row hrow => honly row (List.mem_cons_of_mem _ hrow)⟩
    split_ifs at hf with htxid
    · cases hitem : item.kind.family? with
      | none =>
        rw [hitem, Option.none_or] at hf
        exact hold hf
      | some g =>
        rw [hitem, Option.some_or] at hf
        exact .inl ⟨item, List.mem_append_right _ List.mem_cons_self, htxid.symm, hitem.trans hf⟩
    · exact hold hf

/-- A row is accepted if it goes with those before it and locks what they opened. -/
theorem Tracks.accepts (h : Tracks db a rows (item :: rest))
    (hgoes : (rows ++ item :: rest).Pairwise AccountHistoryItem.GoesWith) (hlocks : LocksOpened (rows ++ item :: rest)) :
    Accepts (db.family? a item.txid) item.kind := by
  have hbefore := (List.pairwise_append.mp hgoes).2.2
  constructor
  · intro f hf
    cases hcurrent : db.family? a item.txid with
    | none => exact .inl rfl
    | some g =>
      right
      rcases h.operations item.txid g hcurrent with ⟨row, hrow, htxid, hg⟩ | ⟨hg, honly⟩
      · obtain ⟨heq, hadds⟩ := hbefore row hrow item List.mem_cons_self htxid g hg f hf
        rw [heq] at hadds
        exact ⟨by rw [heq], hadds⟩
      · have heq := honly item List.mem_cons_self rfl f hf
        rw [hg, heq]
        exact ⟨rfl, rfl⟩
  · intro hkind
    obtain ⟨row, hrow, htxid, hopens⟩ := hlocks rows item rest rfl hkind
    rw [← htxid]
    rcases hopens with hdeposit | hreceived
    · exact .inl (h.covers row hrow .deposit (by rw [hdeposit]; rfl))
    · refine .inr (h.covers row hrow .transferIn ?_)
      cases hk : row.kind <;> rw [hk] at hreceived <;> first | rfl | cases hreceived

/-- Storing rows that go together, up to some of those to come. -/
theorem Tracks.storeItems (hresponse : syncResponse.currentCycle.startPrice ≠ 0)
    (hprices : ∀ row ∈ items, row.cycle.startPrice ≠ 0) {index : ℕ} {r : ClientDb × List TransactionId}
    (h : Tracks r.1 a rows (items ++ rest)) (hgoes : (rows ++ (items ++ rest)).Pairwise AccountHistoryItem.GoesWith)
    (hlocks : LocksOpened (rows ++ (items ++ rest))) :
    ∃ r', storeItems randomOpId a syncResponse index items r = .ok r' ∧ Tracks r'.1 a (rows ++ items) rest := by
  induction items generalizing index rows r with
  | nil =>
    rw [List.append_nil]
    exact ⟨r, rfl, h⟩
  | cons item items ih =>
    rw [List.cons_append] at h hgoes hlocks
    have hstored : Tracks (storeAccountHistoryItem r.1 a index item) a rows (item :: (items ++ rest)) :=
      ⟨h.covers, h.operations⟩
    obtain ⟨r1, hr1⟩ : ∃ r1, updateUserOperationHistory randomOpId (storeAccountHistoryItem r.1 a index item) a
        syncResponse item r.2 = .ok r1 :=
      (updateUserOperationHistory_ok_iff (hprices item List.mem_cons_self) hresponse).mpr (hstored.accepts hgoes hlocks)
    have happend : rows ++ item :: (items ++ rest) = (rows ++ [item]) ++ (items ++ rest) := by simp
    rw [happend] at hgoes hlocks
    obtain ⟨r', hr', htracks⟩ := @ih _ (fun row hrow => hprices row (List.mem_cons_of_mem _ hrow)) (index + 1) _
      (hstored.update hr1) hgoes hlocks
    refine ⟨r', ?_, by rw [List.append_assoc, List.singleton_append] at htracks; exact htracks⟩
    unfold StabilityPool.storeItems
    rw [hr1, ok_bind]
    exact hr'

/-- Rows that were stored go together. -/
theorem CoversRows.storeItems {index : ℕ} {r r' : ClientDb × List TransactionId} (h : CoversRows r.1 a rows)
    (hgoes : rows.Pairwise AccountHistoryItem.GoesWith)
    (hr : storeItems randomOpId a syncResponse index items r = .ok r') :
    (rows ++ items).Pairwise AccountHistoryItem.GoesWith := by
  induction items generalizing index rows r with
  | nil =>
    rw [List.append_nil]
    exact hgoes
  | cons item items ih =>
    obtain ⟨r1, h1, h2⟩ := bind_eq_ok.mp hr
    have hstored : CoversRows (storeAccountHistoryItem r.1 a index item) a rows := h
    obtain ⟨haccepts, -⟩ := updateUserOperationHistory_family h1
    have hitem : (rows ++ [item]).Pairwise AccountHistoryItem.GoesWith := by
      refine List.pairwise_append.mpr ⟨hgoes, List.pairwise_singleton _ _, fun row hrow item' hitem' => ?_⟩
      rw [List.mem_singleton.mp hitem']
      intro htxid f hf g hg
      have hcurrent := hstored row hrow f hf
      rw [htxid] at hcurrent
      rcases haccepts.1 g hg with hnone | ⟨hsome, hadds⟩
      · rw [hcurrent] at hnone
        cases hnone
      · rw [hcurrent] at hsome
        cases hsome
        exact ⟨rfl, hadds⟩
    have hrest := ih (hstored.update h1) hitem h2
    rwa [List.append_assoc, List.singleton_append] at hrest

theorem storeItems_panicked (index : ℕ) (r : ClientDb × List TransactionId) :
    FailsOnly Panicked (storeItems randomOpId a syncResponse index items r) := by
  induction items generalizing index r with
  | nil => exact failsOnly_ok _
  | cons item items ih => exact updateUserOperationHistory_panicked.bind fun r1 _ => ih (index + 1) r1

end

end StabilityPool
