import Fedi.Lib.Idempotency
import Fedi.Multispend.Events

/-!
# Multispend: completion notifications (`multispend/src/completion_notification_service.rs`)

The service sends every pending notification into its room under a Matrix transaction
id, which the server takes once.  The id is drawn at random and written in the
transaction of the sends, so a crash between a send and the commit loses it and the
next attempt draws another.  Over the runs of the service, with network failures and
crashes at any point,

    Deduplicated ↔ NoLostId        (deduplicated_iff)
-/

namespace Multispend

open BTreeMaps StabilityPool Runs Idempotency

/-! ## Notifications -/

inductive PendingCompletionNotification where
  /-- Withdrawal Tx was successful. -/
  | withdrawal (roomId : RpcRoomId) (requestId : RpcEventId) (fiatAmount : ℕ) (txid : TransactionId)
  /-- Withdrawal Tx was rejected by the federation. -/
  | failedWithdrawal (roomId : RpcRoomId) (requestId : RpcEventId) (error : String)
  /-- Deposit Tx was successful. -/
  | deposit (roomId : RpcRoomId) (fiatAmount : ℕ) (txid : TransactionId) (description : String)
deriving DecidableEq

inductive PendingCompletionNotificationId where
  | withdrawalRequestId (requestId : RpcEventId)
  | transactionId (txid : TransactionId)
deriving DecidableEq

namespace PendingCompletionNotificationId

def key : PendingCompletionNotificationId → ℕ ×ₗ ℕ
  | .withdrawalRequestId requestId => toLex (0, requestId)
  | .transactionId txid => toLex (1, txid)

theorem key_injective : Function.Injective key := by
  intro a b h
  have h := toLex.injective h
  cases a <;> cases b <;> simp_all

instance : LinearOrder PendingCompletionNotificationId := LinearOrder.lift' key key_injective

end PendingCompletionNotificationId

namespace PendingCompletionNotification

def notificationId : PendingCompletionNotification → PendingCompletionNotificationId
  | .withdrawal _ requestId _ _ => .withdrawalRequestId requestId
  | .failedWithdrawal _ requestId _ => .withdrawalRequestId requestId
  | .deposit _ _ txid _ => .transactionId txid

def roomId : PendingCompletionNotification → RpcRoomId
  | .withdrawal roomId _ _ _ => roomId
  | .failedWithdrawal roomId _ _ => roomId
  | .deposit roomId _ _ _ => roomId

def multispendEvent : PendingCompletionNotification → MultispendEvent
  | .withdrawal _ requestId fiatAmount txid => .withdrawalResponse requestId (.complete fiatAmount txid)
  | .failedWithdrawal _ requestId error => .withdrawalResponse requestId (.txRejected error)
  | .deposit _ fiatAmount txid description => .depositNotification fiatAmount txid description

end PendingCompletionNotification

/-! ## The service -/

/-- The tables of the service: pending notifications, and the transaction ids of their retries. -/
structure NotificationDb where
  pending : Finset PendingCompletionNotification
  txnIds : BTreeMap PendingCompletionNotificationId String

/-- What becomes of a send: the server took it and said so, or the answer was lost, or the message. -/
inductive SendResult where
  | sent
  | unconfirmed
  | lost
deriving DecidableEq

/-- A send of the event of `notification` under a Matrix transaction id. -/
structure SendAttempt where
  notification : PendingCompletionNotification
  event : MultispendEvent
  matrixTransactionId : String
  result : SendResult
deriving DecidableEq

/-- `MatrixTransactionId::new()` draws a random id, `randomId i` the `i`-th time; `intoTyped` tells
which room ids Matrix accepts. -/
structure MatrixSdk where
  randomId : ℕ → String
  intoTyped : RpcRoomId → Bool

section

variable (M : MatrixSdk) (network : PendingCompletionNotification → SendResult)

/-- The id of a notification, drawn if there is none, and the number of ids drawn by then. -/
def ensureMatrixTransactionId (dbtx : NotificationDb) (drawn : ℕ)
    (pendingNotification : PendingCompletionNotification) : String × NotificationDb × ℕ :=
  match dbtx.txnIds.get? pendingNotification.notificationId with
  | some existing => (existing, dbtx, drawn)
  | none =>
    (M.randomId drawn,
      { dbtx with txnIds := dbtx.txnIds.insert pendingNotification.notificationId (M.randomId drawn) },
      drawn + 1)

structure SendLoop where
  dbtx : NotificationDb
  drawn : ℕ
  attempts : List SendAttempt

/-- The loop of `run_once`: a notification is removed once it is sent, and stays otherwise. -/
def sendPending (dbtx : NotificationDb) (drawn : ℕ) : List PendingCompletionNotification → SendLoop
  | [] => ⟨dbtx, drawn, []⟩
  | pendingOperation :: pendingOperations =>
    if M.intoTyped pendingOperation.roomId then
      let (matrixTransactionId, dbtx, drawn) := ensureMatrixTransactionId M dbtx drawn pendingOperation
      let dbtx := if network pendingOperation = .sent
        then { dbtx with pending := dbtx.pending.erase pendingOperation } else dbtx
      let r := sendPending dbtx drawn pendingOperations
      { r with attempts := ⟨pendingOperation, pendingOperation.multispendEvent, matrixTransactionId,
          network pendingOperation⟩ :: r.attempts }
    -- invalid room id in multispend database
    else sendPending dbtx drawn pendingOperations

end

/-! ## Runs of the service -/

/-- The committed database, the ids drawn so far and all attempts to send. -/
structure NotifierState where
  db : NotificationDb
  drawn : ℕ
  attempts : List SendAttempt

def NotifierState.start : NotifierState := ⟨⟨∅, .empty⟩, 0, []⟩

inductive NotifierEvent where
  | add (notification : PendingCompletionNotification)
  /-- An execution over the pending notifications in database order; with `crash = some k` the
  process dies after the first `k` of them, before the commit. -/
  | runOnce (pendingOperations : List PendingCompletionNotification)
    (network : PendingCompletionNotification → SendResult) (crash : Option ℕ)

/-- The notifications an execution gets to. -/
def reached (pendingOperations : List PendingCompletionNotification) :
    Option ℕ → List PendingCompletionNotification
  | none => pendingOperations
  | some k => pendingOperations.take k

def notifierStep (M : MatrixSdk) (s : NotifierState) : NotifierEvent → Except Unit NotifierState
  | .add notification => .ok { s with db := { s.db with pending := insert notification s.db.pending } }
  | .runOnce pendingOperations network crash =>
    if pendingOperations.Nodup ∧ pendingOperations.toFinset = s.db.pending then
      let r := sendPending M network s.db s.drawn (reached pendingOperations crash)
      .ok {
        db := if crash.isNone then r.dbtx else s.db
        drawn := r.drawn
        attempts := s.attempts ++ r.attempts }
    else .error ()

/-- The messages that reach the server. -/
def delivered (s : NotifierState) : List SendAttempt := s.attempts.filter fun a => decide (a.result ≠ .lost)

/-- The rooms' timelines: the server takes a transaction id once for each room. -/
def timelines (s : NotifierState) : List SendAttempt :=
  taken (fun a => (a.notification.roomId, a.matrixTransactionId)) (delivered s)

/-- All attempts to send a notification carry the same id, its room receives it at most once, and
none is removed before an attempt succeeded. -/
structure Deduplicated (M : MatrixSdk) (es : List NotifierEvent) (s : NotifierState) : Prop where
  sameId : ∀ a ∈ s.attempts, ∀ b ∈ s.attempts, a.notification = b.notification →
    a.matrixTransactionId = b.matrixTransactionId
  once : ∀ notification, (timelines s).countP (fun a => decide (a.notification = notification)) ≤ 1
  kept : ∀ before e after, es = before ++ e :: after → ∀ s1 s2, run (notifierStep M) .start before = .ok s1 →
    notifierStep M s1 e = .ok s2 → ∀ notification ∈ s1.db.pending, notification ∉ s2.db.pending →
    ∃ more, s2.attempts = s1.attempts ++ more ∧
      ∃ a ∈ more, a.notification = notification ∧ a.result = .sent

/-- The notifications an execution attempts to send. -/
def attempted (M : MatrixSdk) (pendingOperations : List PendingCompletionNotification) (crash : Option ℕ) :
    List PendingCompletionNotification :=
  (reached pendingOperations crash).filter fun n => M.intoTyped n.roomId

/-- No execution attempts a notification again that an earlier one attempted before it crashed,
when the id was not committed before. -/
def NoLostId (M : MatrixSdk) (es : List NotifierEvent) : Prop :=
  ∀ before pendingOperations network k after,
    es = before ++ .runOnce pendingOperations network (some k) :: after →
    ∀ s1, run (notifierStep M) .start before = .ok s1 →
    ∀ notification ∈ attempted M pendingOperations (some k),
      s1.db.txnIds.get? notification.notificationId = none →
      ∀ pendingOperations' network' crash', .runOnce pendingOperations' network' crash' ∈ after →
        notification ∉ attempted M pendingOperations' crash'

/-! ## One execution -/

section

variable {M : MatrixSdk} {network : PendingCompletionNotification → SendResult}

/-- What the loop does to the transaction. -/
structure LoopSpec (M : MatrixSdk) (network : PendingCompletionNotification → SendResult) (dbtx : NotificationDb)
    (drawn : ℕ) (operations : List PendingCompletionNotification) (r : SendLoop) : Prop where
  attempts : r.attempts.map SendAttempt.notification = operations.filter fun n => M.intoTyped n.roomId
  events : ∀ a ∈ r.attempts, a.event = a.notification.multispendEvent
  ids : ∀ a ∈ r.attempts, r.dbtx.txnIds.get? a.notification.notificationId = some a.matrixTransactionId
  persisted : ∀ id txn, dbtx.txnIds.get? id = some txn → r.dbtx.txnIds.get? id = some txn
  drawnIds : ∀ id txn, r.dbtx.txnIds.get? id = some txn →
    dbtx.txnIds.get? id = some txn ∨ ∃ i, drawn ≤ i ∧ i < r.drawn ∧ txn = M.randomId i
  drawn : drawn ≤ r.drawn
  pending : ∀ n ∈ dbtx.pending, n ∉ r.dbtx.pending →
    ∃ a ∈ r.attempts, a.notification = n ∧ a.result = .sent

theorem ensureMatrixTransactionId_spec (dbtx : NotificationDb) (drawn : ℕ) (n : PendingCompletionNotification)
    {r : String × NotificationDb × ℕ} (hr : ensureMatrixTransactionId M dbtx drawn n = r) :
    r.2.1.pending = dbtx.pending ∧ r.2.1.txnIds.get? n.notificationId = some r.1 ∧
      (∀ id txn, dbtx.txnIds.get? id = some txn → r.2.1.txnIds.get? id = some txn) ∧
      (∀ id txn, r.2.1.txnIds.get? id = some txn →
        dbtx.txnIds.get? id = some txn ∨ ∃ i, drawn ≤ i ∧ i < r.2.2 ∧ txn = M.randomId i) ∧
      drawn ≤ r.2.2 := by
  unfold ensureMatrixTransactionId at hr
  cases hid : dbtx.txnIds.get? n.notificationId with
  | some existing =>
    rw [hid] at hr
    cases hr
    exact ⟨rfl, hid, fun _ _ h => h, fun _ _ h => .inl h, le_refl drawn⟩
  | none =>
    rw [hid] at hr
    cases hr
    refine ⟨rfl, BTreeMap.get?_insert_self _ _ _, ?_, ?_, Nat.le_succ drawn⟩
    · intro id txn h
      dsimp only
      rw [BTreeMap.get?_insert, if_neg]
      · exact h
      · rintro rfl
        rw [hid] at h
        cases h
    · intro id txn h
      dsimp only at h
      rw [BTreeMap.get?_insert] at h
      split at h
      · cases h
        exact .inr ⟨drawn, le_refl drawn, Nat.lt_succ_self drawn, rfl⟩
      · exact .inl h

/-- The transaction after a send. -/
def afterSend (network : PendingCompletionNotification → SendResult) (dbtx : NotificationDb)
    (n : PendingCompletionNotification) : NotificationDb :=
  if network n = .sent then { dbtx with pending := dbtx.pending.erase n } else dbtx

theorem afterSend_txnIds (dbtx : NotificationDb) (n : PendingCompletionNotification) :
    (afterSend network dbtx n).txnIds = dbtx.txnIds := by
  unfold afterSend
  split <;> rfl

theorem afterSend_pending {dbtx : NotificationDb} {n m : PendingCompletionNotification}
    (hm : m ∈ dbtx.pending) (hgone : m ∉ (afterSend network dbtx n).pending) : m = n ∧ network n = .sent := by
  unfold afterSend at hgone
  split at hgone
  next hsent =>
    refine ⟨?_, hsent⟩
    by_contra hne
    exact hgone (Finset.mem_erase.mpr ⟨hne, hm⟩)
  next => exact absurd hm hgone

theorem sendPending_spec (operations : List PendingCompletionNotification) (dbtx : NotificationDb) (drawn : ℕ) :
    LoopSpec M network dbtx drawn operations (sendPending M network dbtx drawn operations) := by
  induction operations generalizing dbtx drawn with
  | nil =>
    exact ⟨rfl, fun _ h => (by cases h), fun _ h => (by cases h), fun _ _ h => h, fun _ _ h => .inl h,
      le_refl drawn, fun _ h hn => absurd h hn⟩
  | cons n operations ih =>
    unfold sendPending
    split
    next hroom =>
      generalize hr : ensureMatrixTransactionId M dbtx drawn n = r
      obtain ⟨hpending, hid, hpersisted, hdrawnIds, hdrawn⟩ := ensureMatrixTransactionId_spec dbtx drawn n hr
      have hrest := ih (afterSend network r.2.1 n) r.2.2
      have htxn := @afterSend_txnIds network r.2.1 n
      obtain ⟨txn, dbtx', drawn'⟩ := r
      dsimp only at hpending hid hpersisted hdrawnIds hdrawn hrest htxn ⊢
      show LoopSpec M network dbtx drawn (n :: operations)
        { sendPending M network (afterSend network dbtx' n) drawn' operations with
          attempts := ⟨n, n.multispendEvent, txn, network n⟩ ::
            (sendPending M network (afterSend network dbtx' n) drawn' operations).attempts }
      constructor
      · rw [List.map_cons, hrest.attempts, List.filter_cons, if_pos hroom]
      · exact List.forall_mem_cons.mpr ⟨rfl, hrest.events⟩
      · intro a ha
        rcases List.mem_cons.mp ha with rfl | ha
        · exact hrest.persisted _ _ (by rw [htxn]; exact hid)
        · exact hrest.ids a ha
      · intro id txn' h
        exact hrest.persisted id txn' (by rw [htxn]; exact hpersisted id txn' h)
      · intro id txn' h
        rcases hrest.drawnIds id txn' h with h | ⟨i, hi, hlt, rfl⟩
        · rw [htxn] at h
          rcases hdrawnIds id txn' h with h | ⟨i, hi, hlt, rfl⟩
          · exact .inl h
          · exact .inr ⟨i, hi, lt_of_lt_of_le hlt hrest.drawn, rfl⟩
        · exact .inr ⟨i, le_trans hdrawn hi, hlt, rfl⟩
      · exact le_trans hdrawn hrest.drawn
      · intro m hm hgone
        rw [← hpending] at hm
        by_cases hkept : m ∈ (afterSend network dbtx' n).pending
        · obtain ⟨a, ha, hsent⟩ := hrest.pending m hkept hgone
          exact ⟨a, List.mem_cons_of_mem _ ha, hsent⟩
        · obtain ⟨rfl, hsent⟩ := afterSend_pending hm hkept
          exact ⟨_, List.mem_cons_self, rfl, hsent⟩
    next hroom =>
      have hrest := ih dbtx drawn
      refine ⟨?_, hrest.events, hrest.ids, hrest.persisted, hrest.drawnIds, hrest.drawn, hrest.pending⟩
      rw [hrest.attempts, List.filter_cons, if_neg hroom]

/-! ## Runs -/

theorem notifierStep_runOnce_iff {s s' : NotifierState} {operations : List PendingCompletionNotification}
    {crash : Option ℕ} : notifierStep M s (.runOnce operations network crash) = .ok s' ↔
      (operations.Nodup ∧ operations.toFinset = s.db.pending) ∧
        s' = ⟨if crash.isNone then (sendPending M network s.db s.drawn (reached operations crash)).dbtx else s.db,
          (sendPending M network s.db s.drawn (reached operations crash)).drawn,
          s.attempts ++ (sendPending M network s.db s.drawn (reached operations crash)).attempts⟩ := by
  unfold notifierStep
  dsimp only
  split
  next hqueue =>
    constructor
    · intro h
      cases h
      exact ⟨hqueue, rfl⟩
    · rintro ⟨-, rfl⟩
      rfl
  next hqueue => simp [hqueue]

/-- A step only adds attempts and ids: the new ids come from the draws of the step. -/
structure StepSpec (M : MatrixSdk) (s : NotifierState) (e : NotifierEvent) (s' : NotifierState) : Prop where
  persisted : ∀ id txn, s.db.txnIds.get? id = some txn → s'.db.txnIds.get? id = some txn
  drawnIds : ∀ id txn, s'.db.txnIds.get? id = some txn →
    s.db.txnIds.get? id = some txn ∨ ∃ i, s.drawn ≤ i ∧ txn = M.randomId i
  drawn : s.drawn ≤ s'.drawn
  attempts : ∃ more, s'.attempts = s.attempts ++ more ∧
    ∀ n ∈ s.db.pending, n ∉ s'.db.pending → ∃ a ∈ more, a.notification = n ∧ a.result = .sent

theorem notifierStep_spec {s s' : NotifierState} {e : NotifierEvent} (h : notifierStep M s e = .ok s') :
    StepSpec M s e s' := by
  cases e with
  | add n =>
    cases h
    refine ⟨fun _ _ h => h, fun _ _ h => .inl h, le_refl _, [], (List.append_nil _).symm, ?_⟩
    intro m hm hgone
    exact absurd (Finset.mem_insert_of_mem hm) hgone
  | runOnce operations network crash =>
    obtain ⟨-, rfl⟩ := notifierStep_runOnce_iff.mp h
    have hloop := @sendPending_spec M network (reached operations crash) s.db s.drawn
    cases crash with
    | none =>
      refine ⟨hloop.persisted, fun id txn h => ?_, hloop.drawn, _, rfl, hloop.pending⟩
      rcases hloop.drawnIds id txn h with h | ⟨i, hi, -, rfl⟩
      · exact .inl h
      · exact .inr ⟨i, hi, rfl⟩
    | some k =>
      exact ⟨fun _ _ h => h, fun _ _ h => .inl h, hloop.drawn, _, rfl, fun _ h hgone => absurd h hgone⟩

/-- The new attempts of a step carry the ids of its transaction, which are lost in a crash. -/
theorem attempts_of_step {s s' : NotifierState} {e : NotifierEvent} (h : notifierStep M s e = .ok s') :
    ∃ ids : BTreeMap PendingCompletionNotificationId String, ∀ a ∈ s'.attempts, a ∈ s.attempts ∨
      ids.get? a.notification.notificationId = some a.matrixTransactionId ∧
      (∀ txn, s.db.txnIds.get? a.notification.notificationId = some txn → a.matrixTransactionId = txn) ∧
      ∃ operations network crash, e = .runOnce operations network crash ∧
        a.notification ∈ attempted M operations crash ∧
        (s'.db.txnIds.get? a.notification.notificationId = some a.matrixTransactionId ∨
          (∃ k, crash = some k) ∧ s.db.txnIds.get? a.notification.notificationId = none) := by
  cases e with
  | add n =>
    cases h
    exact ⟨.empty, fun a ha => .inl ha⟩
  | runOnce operations network crash =>
    obtain ⟨-, rfl⟩ := notifierStep_runOnce_iff.mp h
    have hloop := @sendPending_spec M network (reached operations crash) s.db s.drawn
    refine ⟨(sendPending M network s.db s.drawn (reached operations crash)).dbtx.txnIds, fun a ha => ?_⟩
    rcases List.mem_append.mp ha with ha | ha
    · exact .inl ha
    · right
      have hid := hloop.ids a ha
      have hsame : ∀ txn, s.db.txnIds.get? a.notification.notificationId = some txn →
          a.matrixTransactionId = txn := by
        intro txn htxn
        have htxn := hloop.persisted _ _ htxn
        rw [hid] at htxn
        exact Option.some.inj htxn
      refine ⟨hid, hsame, operations, network, crash, rfl, ?_, ?_⟩
      · unfold attempted
        rw [← hloop.attempts]
        exact List.mem_map_of_mem ha
      · cases crash with
        | none => exact .inl hid
        | some k =>
          cases hold : s.db.txnIds.get? a.notification.notificationId with
          | none => exact .inr ⟨⟨k, rfl⟩, rfl⟩
          | some txn =>
            left
            rw [hsame txn hold]
            exact hold

/-! ### No id is lost -/

/-- An execution attempted the notification, without a committed id, and crashed. -/
def LostId (M : MatrixSdk) (es : List NotifierEvent) (n : PendingCompletionNotification) : Prop :=
  ∃ before operations network k after, es = before ++ .runOnce operations network (some k) :: after ∧
    ∃ s1, run (notifierStep M) .start before = .ok s1 ∧ n ∈ attempted M operations (some k) ∧
      s1.db.txnIds.get? n.notificationId = none

theorem LostId.snoc {es : List NotifierEvent} {n : PendingCompletionNotification} (h : LostId M es n)
    (e : NotifierEvent) : LostId M (es ++ [e]) n := by
  obtain ⟨before, operations, network, k, after, rfl, hlost⟩ := h
  exact ⟨before, operations, network, k, after ++ [e], by simp, hlost⟩

theorem NoLostId.init {es : List NotifierEvent} {e : NotifierEvent} (h : NoLostId M (es ++ [e])) :
    NoLostId M es := by
  intro before operations network k after hsplit s1 h1 n hn hnone operations' network' crash' hmem
  exact h before operations network k (after ++ [e]) (by rw [hsplit, List.append_assoc, List.cons_append]) s1 h1
    n hn hnone operations' network' crash' (List.mem_append_left _ hmem)

/-- The ids of all attempts are committed or lost, and a notification has one. -/
theorem ids_of_run {es : List NotifierEvent} {s : NotifierState} (hrun : run (notifierStep M) .start es = .ok s) :
    NoLostId M es →
      (∀ a ∈ s.attempts, s.db.txnIds.get? a.notification.notificationId = some a.matrixTransactionId ∨
        LostId M es a.notification) ∧
      ∀ a ∈ s.attempts, ∀ b ∈ s.attempts, a.notification = b.notification →
        a.matrixTransactionId = b.matrixTransactionId := by
  refine run_induction (P := fun es s => NoLostId M es →
    (∀ a ∈ s.attempts, s.db.txnIds.get? a.notification.notificationId = some a.matrixTransactionId ∨
      LostId M es a.notification) ∧
    ∀ a ∈ s.attempts, ∀ b ∈ s.attempts, a.notification = b.notification →
      a.matrixTransactionId = b.matrixTransactionId) ?_ ?_ hrun
  · exact fun _ => ⟨fun a ha => (by cases ha), fun a ha => (by cases ha)⟩
  · intro es s e s' hes ih hstep hsafe
    obtain ⟨hids, hsame⟩ := ih hsafe.init
    obtain ⟨ids, hnew⟩ := attempts_of_step hstep
    have hspec := notifierStep_spec hstep
    -- an earlier attempt and one of this step
    have hcross : ∀ a ∈ s.attempts, ∀ b ∈ s'.attempts, b ∉ s.attempts → a.notification = b.notification →
        a.matrixTransactionId = b.matrixTransactionId := by
      intro a ha b hb hbnew hab
      rcases hnew b hb with hold | ⟨-, hcommitted, operations, network, crash, rfl, hmem, -⟩
      · exact absurd hold hbnew
      rcases hids a ha with hid | ⟨before, operations', network', k, after, rfl, s1, h1, hmem', hnone⟩
      · rw [hab] at hid
        exact (hcommitted _ hid).symm
      · rw [← hab] at hmem
        refine absurd hmem (hsafe before operations' network' k (after ++ [.runOnce operations network crash])
          (by simp) s1 h1 a.notification hmem' hnone operations network crash (by simp))
    constructor
    · intro a ha
      rcases hnew a ha with hold | ⟨-, -, operations, network, crash, rfl, hmem, hid | ⟨⟨k, rfl⟩, hnone⟩⟩
      · rcases hids a hold with hid | hlost
        · exact .inl (hspec.persisted _ _ hid)
        · exact .inr (hlost.snoc e)
      · exact .inl hid
      · exact .inr ⟨es, operations, network, k, [], rfl, s, hes, hmem, hnone⟩
    · intro a ha b hb hab
      by_cases hao : a ∈ s.attempts
      · by_cases hbo : b ∈ s.attempts
        · exact hsame a hao b hbo hab
        · exact hcross a hao b hb hbo hab
      · by_cases hbo : b ∈ s.attempts
        · exact (hcross b hbo a ha hao hab.symm).symm
        · rcases hnew a ha with hold | ⟨hida, -⟩
          · exact absurd hold hao
          rcases hnew b hb with hold | ⟨hidb, -⟩
          · exact absurd hold hbo
          rw [hab, hidb] at hida
          exact (Option.some.inj hida).symm

/-- An execution attempts what it gets to. -/
theorem exists_attempt {s : NotifierState} {operations : List PendingCompletionNotification} {crash : Option ℕ}
    {n : PendingCompletionNotification} (h : n ∈ attempted M operations crash) :
    ∃ a ∈ (sendPending M network s.db s.drawn (reached operations crash)).attempts, a.notification = n ∧
      (s.db.txnIds.get? n.notificationId = some a.matrixTransactionId ∨
        ∃ i, s.drawn ≤ i ∧ i < (sendPending M network s.db s.drawn (reached operations crash)).drawn ∧
          a.matrixTransactionId = M.randomId i) := by
  have hloop := @sendPending_spec M network (reached operations crash) s.db s.drawn
  unfold attempted at h
  rw [← hloop.attempts] at h
  obtain ⟨a, ha, rfl⟩ := List.mem_map.mp h
  exact ⟨a, ha, rfl, hloop.drawnIds _ _ (hloop.ids a ha)⟩

/-- Attempts stay, and new ids come from new draws. -/
theorem run_grows {es : List NotifierEvent} {s s' : NotifierState} (hrun : run (notifierStep M) s es = .ok s') :
    (∀ a ∈ s.attempts, a ∈ s'.attempts) ∧ s.drawn ≤ s'.drawn ∧
      ∀ id txn, s'.db.txnIds.get? id = some txn →
        s.db.txnIds.get? id = some txn ∨ ∃ i, s.drawn ≤ i ∧ txn = M.randomId i := by
  refine run_rel (R := fun s s' : NotifierState => (∀ a ∈ s.attempts, a ∈ s'.attempts) ∧ s.drawn ≤ s'.drawn ∧
    ∀ id txn, s'.db.txnIds.get? id = some txn →
      s.db.txnIds.get? id = some txn ∨ ∃ i, s.drawn ≤ i ∧ txn = M.randomId i) ?_ ?_ ?_ hrun
  · exact fun s => ⟨fun _ h => h, le_refl _, fun _ _ h => .inl h⟩
  · rintro a b c ⟨hab, hdab, hiab⟩ ⟨hbc, hdbc, hibc⟩
    refine ⟨fun x hx => hbc x (hab x hx), le_trans hdab hdbc, fun id txn h => ?_⟩
    rcases hibc id txn h with h | ⟨i, hi, rfl⟩
    · exact hiab id txn h
    · exact .inr ⟨i, le_trans hdab hi, rfl⟩
  · intro s e s' hstep
    have hspec := notifierStep_spec hstep
    obtain ⟨more, hmore, -⟩ := hspec.attempts
    refine ⟨fun a ha => ?_, hspec.drawn, hspec.drawnIds⟩
    rw [hmore]
    exact List.mem_append_left _ ha

/-- A notification that has one id in all attempts never lost one. -/
theorem noLostId_of_sameId (hrandom : Function.Injective M.randomId) {es : List NotifierEvent} {s : NotifierState}
    (hrun : run (notifierStep M) .start es = .ok s)
    (hsame : ∀ a ∈ s.attempts, ∀ b ∈ s.attempts, a.notification = b.notification →
      a.matrixTransactionId = b.matrixTransactionId) : NoLostId M es := by
  rintro before operations network k after rfl s1 h1 n hn hnone operations' network' crash' hmem hn'
  obtain ⟨mid, rest, rfl⟩ := List.append_of_mem hmem
  obtain ⟨s1', h1', h2⟩ := run_append.mp hrun
  rw [h1] at h1'
  cases h1'
  obtain ⟨s2, hs2, h2⟩ := run_cons.mp h2
  obtain ⟨s3, h3, h4⟩ := run_append.mp h2
  obtain ⟨s4, hs4, h5⟩ := run_cons.mp h4
  obtain ⟨-, rfl⟩ := notifierStep_runOnce_iff.mp hs2
  obtain ⟨-, rfl⟩ := notifierStep_runOnce_iff.mp hs4
  obtain ⟨a, ha, han, hida⟩ := @exists_attempt M network s1 operations (some k) n hn
  obtain ⟨b, hb, hbn, hidb⟩ := @exists_attempt M network' s3 operations' crash' n hn'
  obtain ⟨hkeep3, hdrawn3, hids3⟩ := run_grows h3
  obtain ⟨hkeep5, -, -⟩ := run_grows h5
  have ha5 : a ∈ s.attempts := hkeep5 a (List.mem_append_left _ (hkeep3 a (List.mem_append_right _ ha)))
  have hb5 : b ∈ s.attempts := hkeep5 b (List.mem_append_right _ hb)
  have hab := hsame a ha5 b hb5 (han.trans hbn.symm)
  -- the first id was drawn before the crash, the second one after it
  obtain ⟨i, hi, hia⟩ : ∃ i, i < (sendPending M network s1.db s1.drawn (reached operations (some k))).drawn ∧
      a.matrixTransactionId = M.randomId i := by
    rcases hida with hid | ⟨i, -, hi, hia⟩
    · rw [hnone] at hid
      cases hid
    · exact ⟨i, hi, hia⟩
  obtain ⟨j, hj, hjb⟩ : ∃ j, (sendPending M network s1.db s1.drawn (reached operations (some k))).drawn ≤ j ∧
      b.matrixTransactionId = M.randomId j := by
    rcases hidb with hid | ⟨j, hj, -, hjb⟩
    · rcases hids3 _ _ hid with hid | ⟨j, hj, hjb⟩
      · have hid : s1.db.txnIds.get? n.notificationId = some b.matrixTransactionId := hid
        rw [hnone] at hid
        cases hid
      · exact ⟨j, hj, hjb⟩
    · exact ⟨j, le_trans hdrawn3 hj, hjb⟩
  have hij : i = j := hrandom (by rw [← hia, ← hjb, hab])
  omega

/-- Every step removes only what it sent. -/
theorem deduplicated_of_sameId {es : List NotifierEvent} {s : NotifierState}
    (hsame : ∀ a ∈ s.attempts, ∀ b ∈ s.attempts, a.notification = b.notification →
      a.matrixTransactionId = b.matrixTransactionId) : Deduplicated M es s := by
  refine ⟨hsame, ?_, ?_⟩
  · intro n
    refine countP_taken_le_one fun a ha b hb hna hnb => ?_
    have hna := of_decide_eq_true hna
    have hnb := of_decide_eq_true hnb
    have hid := hsame a (List.mem_filter.mp ha).1 b (List.mem_filter.mp hb).1 (hna.trans hnb.symm)
    rw [hna, hnb, hid]
  · intro before e after _ s1 s2 _ hstep n hn hgone
    obtain ⟨more, hmore, hsent⟩ := (notifierStep_spec hstep).attempts
    exact ⟨more, hmore, hsent n hn hgone⟩

end

/-- The server deduplicates the completion notifications of a run exactly when no crash loses an id
that is needed again. -/
theorem deduplicated_iff {M : MatrixSdk} (hrandom : Function.Injective M.randomId) {es : List NotifierEvent}
    {s : NotifierState} (hrun : run (notifierStep M) .start es = .ok s) :
    Deduplicated M es s ↔ NoLostId M es :=
  ⟨fun h => noLostId_of_sameId hrandom hrun h.sameId,
    fun h => deduplicated_of_sameId (ids_of_run hrun h).2⟩

/-! ## A retry and a crash -/

/-- Ids of growing length, and every room id is valid. -/
def demoMatrixSdk : MatrixSdk := ⟨fun i => String.ofList (List.replicate i 'x'), fun _ => true⟩

theorem demoMatrixSdk_random : Function.Injective demoMatrixSdk.randomId := by
  intro i j h
  have hlist : List.replicate i 'x' = List.replicate j 'x' := String.ofList_injective h
  have hlen := congrArg List.length hlist
  rwa [List.length_replicate, List.length_replicate] at hlen

/-- A deposit of 5 into the group of room 0. -/
def demoNotification : PendingCompletionNotification := .deposit 0 5 1 "rent"

/-- The answer to the first attempt is lost, the process dies after the second, and the third succeeds. -/
def demoRetry : List NotifierEvent :=
  [.add demoNotification, .runOnce [demoNotification] (fun _ => .unconfirmed) none,
    .runOnce [demoNotification] (fun _ => .sent) (some 1), .runOnce [demoNotification] (fun _ => .sent) none]

/-- The id of the second attempt was committed with the first. -/
theorem deduplicated_iff_demo : ∃ s, run (notifierStep demoMatrixSdk) .start demoRetry = .ok s ∧
    Deduplicated demoMatrixSdk demoRetry s := by
  obtain ⟨s, hs⟩ := exists_of_succeeds
    (show succeeds (run (notifierStep demoMatrixSdk) .start demoRetry) = true by decide +kernel)
  have hcrash : ∀ before e after, demoRetry = before ++ e :: after → ∀ operations network k,
      e = .runOnce operations network (some k) → before = demoRetry.take 2 ∧ operations = [demoNotification] := by
    refine forall_splits_cons ?_ (forall_splits_cons ?_ (forall_splits_cons ?_ (forall_splits_cons ?_ forall_splits_nil)))
    · exact fun _ _ _ h => by cases h
    · exact fun _ _ _ h => by cases h
    · rintro operations network k h
      cases h
      exact ⟨rfl, rfl⟩
    · exact fun _ _ _ h => by cases h
  have hcommitted : ((run (notifierStep demoMatrixSdk) .start (demoRetry.take 2)).map fun s =>
      (s.db.txnIds.get? demoNotification.notificationId).isSome) = .ok true := by decide +kernel
  refine ⟨s, hs, (deduplicated_iff demoMatrixSdk_random hs).mpr ?_⟩
  intro before operations network k after hsplit s1 h1 n hn hnone
  obtain ⟨rfl, rfl⟩ := hcrash before _ after hsplit operations network k rfl
  obtain rfl : n = demoNotification := List.mem_singleton.mp (List.mem_of_mem_take (List.mem_filter.mp hn).1)
  rw [h1] at hcommitted
  have hsome : (s1.db.txnIds.get? demoNotification.notificationId).isSome = true := Except.ok.inj hcommitted
  rw [hnone] at hsome
  cases hsome

/-- The process dies between the send and the commit, and sends again later. -/
def demoCrash : List NotifierEvent :=
  [.add demoNotification, .runOnce [demoNotification] (fun _ => .sent) (some 1),
    .runOnce [demoNotification] (fun _ => .sent) none]

theorem notified_twice : ∃ s, run (notifierStep demoMatrixSdk) .start demoCrash = .ok s ∧
    (timelines s).countP (fun a => decide (a.notification = demoNotification)) = 2 ∧
    ¬Deduplicated demoMatrixSdk demoCrash s := by
  have hrun : (run (notifierStep demoMatrixSdk) .start demoCrash).map (fun s =>
      (timelines s).countP fun a => decide (a.notification = demoNotification)) = .ok 2 := by decide +kernel
  cases hs : run (notifierStep demoMatrixSdk) .start demoCrash with
  | error e =>
    rw [hs] at hrun
    cases hrun
  | ok s =>
    rw [hs] at hrun
    have hcount : (timelines s).countP (fun a => decide (a.notification = demoNotification)) = 2 :=
      Except.ok.inj hrun
    refine ⟨s, rfl, hcount, fun h => ?_⟩
    have honce := h.once demoNotification
    omega

end Multispend
