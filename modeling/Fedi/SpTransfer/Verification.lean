import Fedi.SpTransfer.Events
import Fedi.StabilityPool.ReceivedTransfers

/-!
# Verification by the receiver (`sp_transfers_matrix.rs`, `rpc-types/src/spv2_transfer_meta.rs`)

The transaction that pays a chat transfer names the `PendingTransferStart` event by its hash.  The
receiver waits for the operation of the transaction that the sender hinted at, and checks it:
a transfer-in, of the amount at the price of its cycle, for that event.

Whatever else the account does and however its history is synced, the operation of an honest
payment passes, and it comes up exactly when the amount is worth a msat:

    cdb.userOperation a txid = some item → checkValid M transferId transfer item = .ok true
    (∃ item, cdb.userOperation a txid = some item) ↔ cycle.startPrice ≤ transfer.amount * MSATS_PER_BTC

and at one receiver a transaction passes for one event at most (`honest_transfers_verify`).
-/

namespace SpTransfer

open BTreeMaps StabilityPool Runs

/-! ## The metadata of a transaction -/

/-- `sha256::Hash`. -/
structure Sha256Hash where
  bytes : List UInt8
  length_eq : bytes.length = 32
deriving DecidableEq

inductive Component where
  | spTransferPendingStartEventIdHash (hash : Sha256Hash)
  | default (variant : ℕ) (bytes : List UInt8)
deriving DecidableEq

/-- Code outside the repository: the hash of an event id and the consensus encoding of components. -/
structure MetaCodec where
  sha256 : RpcEventId → Sha256Hash
  consensusEncodeToVec : List Component → List UInt8
  consensusDecodeWhole : List UInt8 → Option (List Component)

/-- The encoding of one hash is not empty and decodes again. -/
structure MetaCodec.Lawful (M : MetaCodec) : Prop where
  encode_ne_nil : ∀ hash, M.consensusEncodeToVec [.spTransferPendingStartEventIdHash hash] ≠ []
  decode_encode : ∀ hash, M.consensusDecodeWhole (M.consensusEncodeToVec [.spTransferPendingStartEventIdHash hash]) =
    some [.spTransferPendingStartEventIdHash hash]

structure Spv2TransferTxMeta where
  components : List Component
deriving DecidableEq

namespace Spv2TransferTxMeta

def encode (M : MetaCodec) (m : Spv2TransferTxMeta) : List UInt8 := M.consensusEncodeToVec m.components

def decode (M : MetaCodec) (data : List UInt8) : Option Spv2TransferTxMeta :=
  -- the metadata used to be empty
  if data.isEmpty then some ⟨[]⟩ else (M.consensusDecodeWhole data).map Spv2TransferTxMeta.mk

def forSpTransferMatrixPendingStartEventId (M : MetaCodec) (eventId : RpcEventId) : Spv2TransferTxMeta :=
  ⟨[.spTransferPendingStartEventIdHash (M.sha256 eventId)]⟩

/-- The first hash decides. -/
def isForLoop (M : MetaCodec) (eventId : RpcEventId) : List Component → Bool
  | [] => false
  | .spTransferPendingStartEventIdHash hash :: _ => decide (hash = M.sha256 eventId)
  | .default _ _ :: components => isForLoop M eventId components

def isForSpTransferMatrixPendingStartEventId (M : MetaCodec) (m : Spv2TransferTxMeta) (eventId : RpcEventId) : Bool :=
  isForLoop M eventId m.components

theorem isForLoop_unique {M : MetaCodec} {eventId eventId' : RpcEventId} {components : List Component}
    (h : isForLoop M eventId components = true) (h' : isForLoop M eventId' components = true) :
    M.sha256 eventId = M.sha256 eventId' := by
  induction components with
  | nil => cases h
  | cons c components ih =>
    cases c with
    | spTransferPendingStartEventIdHash hash =>
      have heq : hash = M.sha256 eventId := of_decide_eq_true h
      have heq' : hash = M.sha256 eventId' := of_decide_eq_true h'
      rw [← heq, heq']
    | default variant bytes => exact ih h h'

/-- The metadata of a payment decodes, and is for its event. -/
theorem decode_encode_for {M : MetaCodec} (hM : M.Lawful) (eventId : RpcEventId) :
    decode M (encode M (forSpTransferMatrixPendingStartEventId M eventId)) =
      some (forSpTransferMatrixPendingStartEventId M eventId) := by
  unfold decode encode forSpTransferMatrixPendingStartEventId
  rw [if_neg (fun h => hM.encode_ne_nil _ (List.isEmpty_iff.mp h)), hM.decode_encode]
  rfl

theorem isFor_self (M : MetaCodec) (eventId : RpcEventId) :
    isForSpTransferMatrixPendingStartEventId M (forSpTransferMatrixPendingStartEventId M eventId) eventId = true :=
  decide_eq_true rfl

end Spv2TransferTxMeta

/-! ## The check -/

/-- `check_valid` of `subscribe_transfer_state`. -/
def checkValid (M : MetaCodec) (transferId : SpMatrixTransferId) (transfer : TransferEventValue)
    (historyItem : UserOperationHistoryItem) : Res Bool :=
  match historyItem.kind with
  | .transferIn _ metadata => do
    let expectedAmount ← resultOk (FiatAmount.toBtcAmount transfer.amount historyItem.cycle.startPrice)
    if expectedAmount = some historyItem.amount then
      match Spv2TransferTxMeta.decode M metadata with
      | none => return false
      | some txMeta => return txMeta.isForSpTransferMatrixPendingStartEventId M transferId.eventId
    else return false
  | _ => .ok false

/-- The request that pays a transfer to the account of its receiver. -/
def paymentRequest (E : Externals) (M : MetaCodec) (transferId : SpMatrixTransferId) (transfer : TransferEventValue)
    (toAccount : AccountId) : Option TransferRequest :=
  spv2BuildTransferRequestWithNonce E transfer.federationId transfer.nonce toAccount transfer.amount
    ((Spv2TransferTxMeta.forSpTransferMatrixPendingStartEventId M transferId.eventId).encode M)

/-- The transaction of `spv2_transfer`: one output. -/
def paymentCommit (txid : TransactionId) (signed : SignedTransferRequest) : Commit :=
  .transaction txid [] [.v0 (.transfer ⟨signed⟩)]

section

variable {M : MetaCodec} {transferId : SpMatrixTransferId} {transfer : TransferEventValue}
  {item : UserOperationHistoryItem}

/-- What passes is a transfer-in for the event. -/
theorem checkValid_received (h : checkValid M transferId transfer item = .ok true) :
    ∃ r, item.received? = some r ∧ ∃ m, Spv2TransferTxMeta.decode M r.metadata = some m ∧
      m.isForSpTransferMatrixPendingStartEventId M transferId.eventId = true := by
  unfold checkValid at h
  cases hkind : item.kind <;> rw [hkind] at h <;> try cases h
  case transferIn sender metadata =>
    obtain ⟨expected, -, h⟩ := bind_eq_ok.mp h
    refine ⟨⟨item.cycle, item.amount, sender, metadata⟩,
      UserOperationHistoryItem.received?_eq_some.mpr ⟨hkind, rfl, rfl⟩, ?_⟩
    split_ifs at h with hamount
    · cases hm : Spv2TransferTxMeta.decode M metadata with
      | none =>
        rw [hm] at h
        cases h
      | some m =>
        rw [hm] at h
        exact ⟨m, rfl, Except.ok.inj h⟩
    · cases h

/-- A transfer-in of the amount, with the metadata of the payment, passes. -/
theorem checkValid_of_received (hM : M.Lawful) {r : ReceivedTransfer} (hitem : item.received? = some r)
    (hamount : FiatAmount.toBtcAmount transfer.amount r.cycle.startPrice = .ok r.amount)
    (hmetadata : r.metadata = (Spv2TransferTxMeta.forSpTransferMatrixPendingStartEventId M transferId.eventId).encode M) :
    checkValid M transferId transfer item = .ok true := by
  obtain ⟨hkind, hcycle, hreceived⟩ := UserOperationHistoryItem.received?_eq_some.mp hitem
  unfold checkValid
  rw [hkind]
  dsimp only
  rw [hcycle, hamount, hreceived, hmetadata, Spv2TransferTxMeta.decode_encode_for hM]
  show (if some r.amount = some r.amount then _ else _) = _
  rw [if_pos rfl]
  exact congrArg Except.ok (Spv2TransferTxMeta.isFor_self M transferId.eventId)

end

/-! ## Honest payments -/

/-- What a built request says. -/
structure PaysFor (E : Externals) (M : MetaCodec) (transferId : SpMatrixTransferId) (transfer : TransferEventValue)
    (toAccount : AccountId) (request : TransferRequest) : Prop where
  other : request.sender.id E.crypto ≠ request.recipient
  recipient : request.recipient = toAccount
  amount : request.transferAmount = transfer.amount
  metadata : request.metadata = (Spv2TransferTxMeta.forSpTransferMatrixPendingStartEventId M transferId.eventId).encode M

theorem paymentRequest_paysFor {E : Externals} {M : MetaCodec} {transferId : SpMatrixTransferId}
    {transfer : TransferEventValue} {toAccount : AccountId} {request : TransferRequest}
    (h : paymentRequest E M transferId transfer toAccount = some request) :
    PaysFor E M transferId transfer toAccount request := by
  unfold paymentRequest spv2BuildTransferRequestWithNonce at h
  obtain ⟨sender, -, h⟩ := Option.bind_eq_some_iff.mp h
  split_ifs at h with hok
  cases h
  exact ⟨hok.2.1, rfl, rfl, rfl⟩

/-- A payment of the transfer that the federation accepted in a run of commits. -/
structure AcceptedPayment (E : Externals) (M : MetaCodec) (cfg : StabilityPoolConfigConsensus) (cs : List Commit)
    (transferId : SpMatrixTransferId) (transfer : TransferEventValue) (toAccount : AccountId) where
  txid : TransactionId
  signed : SignedTransferRequest
  request : paymentRequest E M transferId transfer toAccount = some signed.transferRequest
  before : List Commit
  after : List Commit
  commits : cs = before ++ paymentCommit txid signed :: after
  /-- The server before the payment and right after it, and the cycle it was accepted in. -/
  mid : Ledger
  paid : Ledger
  cycle : Cycle
  run_before : runCommits E.crypto cfg before = .ok mid
  run_payment : applyCommit E.crypto cfg mid (paymentCommit txid signed) = .ok paid
  current : mid.db.currentCycle = some cycle

section

variable {E : Externals} {M : MetaCodec} {cfg : StabilityPoolConfigConsensus} {randomOpId : TransactionId → OperationId}
  {cs : List Commit} {transferId : SpMatrixTransferId} {transfer : TransferEventValue} {toAccount : AccountId}
  {es : List ServiceEvent} {cdb : ClientDb}

/-- What the payment brings the receiver, staged and locked parts together. -/
def AcceptedPayment.brought (p : AcceptedPayment E M cfg cs transferId transfer toAccount) : Option ReceivedTransfer :=
  if transferTotal p.signed.transferRequest p.cycle = 0 then none
  else some ⟨p.cycle.info, transferTotal p.signed.transferRequest p.cycle,
    p.signed.transferRequest.sender.id E.crypto, p.signed.transferRequest.metadata⟩

theorem AcceptedPayment.commits_paid (p : AcceptedPayment E M cfg cs transferId transfer toAccount) :
    cs = (p.before ++ [paymentCommit p.txid p.signed]) ++ p.after :=
  p.commits.trans (by rw [List.append_assoc, List.singleton_append])

theorem AcceptedPayment.run_paid (p : AcceptedPayment E M cfg cs transferId transfer toAccount) :
    runCommits E.crypto cfg (p.before ++ [paymentCommit p.txid p.signed]) = .ok p.paid :=
  run_snoc.mpr ⟨p.mid, p.run_before, p.run_payment⟩

theorem AcceptedPayment.accepted_once (p : AcceptedPayment E M cfg cs transferId transfer toAccount)
    (hids : (cs.filterMap Commit.txid?).Nodup) :
    p.txid ∉ p.before.filterMap Commit.txid? ∧ p.txid ∉ p.after.filterMap Commit.txid? := by
  rw [p.commits] at hids
  exact StabilityPool.accepted_once hids rfl

/-- The receiver holds what was brought, and the amount is the one that the check expects. -/
theorem AcceptedPayment.received (p : AcceptedPayment E M cfg cs transferId transfer toAccount)
    (hids : (cs.filterMap Commit.txid?).Nodup) :
    p.cycle.startPrice ≠ 0 ∧
      FiatAmount.toBtcAmount transfer.amount p.cycle.startPrice =
        .ok (transferTotal p.signed.transferRequest p.cycle) ∧
      StabilityPool.received p.txid (p.paid.db.history toAccount) = p.brought := by
  have hpays := paymentRequest_paysFor p.request
  have hnone : StabilityPool.received p.txid (p.mid.db.history p.signed.transferRequest.recipient) = none := by
    rw [received_of_other_commits (p.accepted_once hids).1 p.run_before posted_initial]
    rfl
  obtain ⟨cycle, hcycle, hprice, hconverts, hreceived⟩ :=
    applyCommit_transfer_received p.run_payment (runCommits_posted p.run_before) hpays.other hnone
  rw [p.current] at hcycle
  cases hcycle
  rw [hpays.amount] at hconverts
  rw [hpays.recipient] at hreceived
  exact ⟨hprice, hconverts, hreceived⟩

/-- Under the transaction of the payment the receiver's account sees nothing else. -/
theorem AcceptedPayment.onlyPays (p : AcceptedPayment E M cfg cs transferId transfer toAccount)
    (hids : (cs.filterMap Commit.txid?).Nodup) {n : ℕ} {st : Ledger}
    (h : runCommits E.crypto cfg (cs.take n) = .ok st) : st.db.OnlyPays p.txid toAccount := by
  have hpays := paymentRequest_paysFor p.request
  have hsub : (cs.take n).Sublist cs := List.take_sublist n cs
  have honly : ∀ c ∈ cs.take n, c.txid? = some p.txid → c = paymentCommit p.txid p.signed := by
    intro c hc hid
    have hmem := hsub.subset hc
    rw [p.commits] at hmem
    rcases List.mem_append.mp hmem with hbefore | hrest
    · exact absurd (List.mem_filterMap.mpr ⟨c, hbefore, hid⟩) (p.accepted_once hids).1
    rcases List.mem_cons.mp hrest with heq | hafter
    · exact heq
    · exact absurd (List.mem_filterMap.mpr ⟨c, hafter, hid⟩) (p.accepted_once hids).2
  have honlyPays := runCommits_onlyPays hpays.other (hids.sublist (hsub.filterMap _)) honly h
  rwa [hpays.recipient] at honlyPays

/-- The operation of the payment is a transfer-in of all that was brought, whenever it is there. -/
theorem AcceptedPayment.operation (p : AcceptedPayment E M cfg cs transferId transfer toAccount)
    (hids : (cs.filterMap Commit.txid?).Nodup) {st : Ledger} (hrun : runCommits E.crypto cfg cs = .ok st)
    (h : runService E.crypto cfg randomOpId cs toAccount es = .ok cdb) {item : UserOperationHistoryItem}
    (hitem : cdb.userOperation toAccount p.txid = some item) : item.received? = p.brought := by
  have hsome := service_onlyReceives (fun n st hst => p.onlyPays hids hst) h item hitem
  have hcdb : cdb.received toAccount p.txid = item.received? := by
    unfold ClientDb.received
    rw [hitem]
    rfl
  have hfinal : StabilityPool.received p.txid (st.db.history toAccount) = p.brought := by
    rw [p.commits_paid] at hrun
    obtain ⟨s1, h1, h2⟩ := run_append.mp hrun
    have heq : s1 = p.paid := Except.ok.inj (h1.symm.trans p.run_paid)
    subst heq
    rw [received_of_other_commits (p.accepted_once hids).2 h2 (runCommits_posted p.run_paid)]
    exact (p.received hids).2.2
  rcases service_received hids hrun h p.txid with hnone | heq
  · -- a transfer-in holds something received
    rw [hcdb] at hnone
    unfold UserOperationHistoryItem.received? at hnone
    rw [Option.map_eq_none_iff.mp hnone] at hsome
    cases hsome
  · rw [← hcdb, heq, hfinal]

theorem AcceptedPayment.brought_isSome (p : AcceptedPayment E M cfg cs transferId transfer toAccount)
    (hids : (cs.filterMap Commit.txid?).Nodup) :
    p.brought.isSome ↔ p.cycle.startPrice ≤ transfer.amount * MSATS_PER_BTC := by
  have hprice := (p.received hids).1
  have hamount := (paymentRequest_paysFor p.request).amount
  have hpositive : transferTotal p.signed.transferRequest p.cycle ≠ 0 ↔
      p.cycle.startPrice ≤ transfer.amount * MSATS_PER_BTC := by
    unfold transferTotal
    rw [hamount, ← Nat.pos_iff_ne_zero, Nat.div_pos_iff]
    constructor
    · exact fun h => h.2
    · exact fun h => ⟨by omega, h⟩
  rw [← hpositive]
  unfold AcceptedPayment.brought
  split
  next hzero => simp [hzero]
  next hne => simp [hne]

/-- Once the receiver has the rows up to the payment, the operation is there if anything was brought. -/
theorem AcceptedPayment.exists_operation (p : AcceptedPayment E M cfg cs transferId transfer toAccount)
    (hids : (cs.filterMap Commit.txid?).Nodup) {st : Ledger} (hrun : runCommits E.crypto cfg cs = .ok st)
    (h : runService E.crypto cfg randomOpId cs toAccount es = .ok cdb)
    (hcount : accountHistoryCount p.paid.db toAccount ≤ getAccountHistoryCount cdb toAccount) :
    (∃ item, cdb.userOperation toAccount p.txid = some item) ↔
      p.cycle.startPrice ≤ transfer.amount * MSATS_PER_BTC := by
  rw [← p.brought_isSome hids]
  have hreceived : cdb.received toAccount p.txid = p.brought := by
    have h' := h
    rw [p.commits_paid] at h'
    rw [service_received_of_count p.run_paid (p.accepted_once hids).2 h' hcount]
    exact (p.received hids).2.2
  constructor
  · rintro ⟨item, hitem⟩
    rw [← p.operation hids hrun h hitem]
    have hsome := service_onlyReceives (fun n st hst => p.onlyPays hids hst) h item hitem
    unfold UserOperationHistoryItem.received?
    rw [Option.isSome_map]
    exact hsome
  · intro hsome
    rw [← hreceived] at hsome
    unfold ClientDb.received at hsome
    cases hitem : cdb.userOperation toAccount p.txid with
    | none =>
      rw [hitem] at hsome
      cases hsome
    | some item => exact ⟨item, rfl⟩

/-- Every operation of the payment passes the check. -/
theorem AcceptedPayment.checkValid (p : AcceptedPayment E M cfg cs transferId transfer toAccount) (hM : M.Lawful)
    (hids : (cs.filterMap Commit.txid?).Nodup) {st : Ledger} (hrun : runCommits E.crypto cfg cs = .ok st)
    (h : runService E.crypto cfg randomOpId cs toAccount es = .ok cdb) {item : UserOperationHistoryItem}
    (hitem : cdb.userOperation toAccount p.txid = some item) : checkValid M transferId transfer item = .ok true := by
  have hbrought := p.operation hids hrun h hitem
  have hsome := service_onlyReceives (fun n st hst => p.onlyPays hids hst) h item hitem
  unfold AcceptedPayment.brought at hbrought
  split at hbrought
  next =>
    unfold UserOperationHistoryItem.received? at hbrought
    rw [Option.map_eq_none_iff.mp hbrought] at hsome
    cases hsome
  next => exact checkValid_of_received hM hbrought (p.received hids).2.1 (paymentRequest_paysFor p.request).metadata

/-- A payment worth less than a msat leaves no operation at all. -/
theorem AcceptedPayment.no_operation (p : AcceptedPayment E M cfg cs transferId transfer toAccount)
    (hids : (cs.filterMap Commit.txid?).Nodup) {st : Ledger} (hrun : runCommits E.crypto cfg cs = .ok st)
    (h : runService E.crypto cfg randomOpId cs toAccount es = .ok cdb)
    (hsmall : transfer.amount * MSATS_PER_BTC < p.cycle.startPrice) : cdb.userOperation toAccount p.txid = none := by
  cases hitem : cdb.userOperation toAccount p.txid with
  | none => rfl
  | some item =>
    have hsome := service_onlyReceives (fun n st hst => p.onlyPays hids hst) h item hitem
    have hbrought : p.brought.isSome := by
      rw [← p.operation hids hrun h hitem]
      unfold UserOperationHistoryItem.received?
      rw [Option.isSome_map]
      exact hsome
    have hle := (p.brought_isSome hids).mp hbrought
    omega

/-- Where the federation accepted a built request, there is an accepted payment. -/
theorem exists_acceptedPayment {before after : List Commit} {txid : TransactionId} {signed : SignedTransferRequest}
    (hrequest : paymentRequest E M transferId transfer toAccount = some signed.transferRequest) {st : Ledger}
    (h : runCommits E.crypto cfg (before ++ paymentCommit txid signed :: after) = .ok st) :
    ∃ p : AcceptedPayment E M cfg (before ++ paymentCommit txid signed :: after) transferId transfer toAccount,
      p.txid = txid ∧ p.before = before ∧ p.signed = signed := by
  obtain ⟨mid, hmid, hrest⟩ := run_append.mp h
  obtain ⟨paid, hpaid, -⟩ := run_cons.mp hrest
  obtain ⟨s1, h1, -⟩ := run_cons.mp hpaid
  simp only [applyEvent, bind_eq_ok, pure_eq_ok] at h1
  obtain ⟨r, hr, -⟩ := h1
  obtain ⟨-, -, cycle, s, metadata, staged, locked, -, -, -, hstep⟩ :=
    processTransferOutput_ok (processOutput_transfer_ok (.inl rfl) hr).2
  exact ⟨⟨txid, signed, hrequest, before, after, rfl, mid, paid, cycle, hmid, hpaid, hstep.move.current⟩, rfl, rfl, rfl⟩

/-- At one receiver a transaction passes the check for one event, at whatever moments it is checked. -/
theorem checkValid_unique (hids : (cs.filterMap Commit.txid?).Nodup) {C : Crypto} {st : Ledger}
    (hrun : runCommits C cfg cs = .ok st) {randomOpId' : TransactionId → OperationId} {a : AccountId}
    {es' : List ServiceEvent} {cdb' : ClientDb} (h : runService C cfg randomOpId cs a es = .ok cdb)
    (h' : runService C cfg randomOpId' cs a es' = .ok cdb') {txid : TransactionId}
    {item item' : UserOperationHistoryItem} (hitem : cdb.userOperation a txid = some item)
    (hitem' : cdb'.userOperation a txid = some item') {transferId' : SpMatrixTransferId}
    {transfer' : TransferEventValue} (hvalid : SpTransfer.checkValid M transferId transfer item = .ok true)
    (hvalid' : SpTransfer.checkValid M transferId' transfer' item' = .ok true) :
    M.sha256 transferId.eventId = M.sha256 transferId'.eventId := by
  have hfinal : ∀ {randomOpId : TransactionId → OperationId} {es : List ServiceEvent} {cdb : ClientDb}
      {item : UserOperationHistoryItem} {r : ReceivedTransfer},
      runService C cfg randomOpId cs a es = .ok cdb → cdb.userOperation a txid = some item →
      item.received? = some r → received txid (st.db.history a) = some r := by
    intro randomOpId es cdb item r hservice hop hr
    have hcdb : cdb.received a txid = some r := by
      unfold ClientDb.received
      rw [hop]
      exact hr
    rcases service_received hids hrun hservice txid with hnone | heq
    · rw [hcdb] at hnone
      cases hnone
    · rw [← heq, hcdb]
  obtain ⟨r, hr, m, hm, hfor⟩ := checkValid_received hvalid
  obtain ⟨r', hr', m', hm', hfor'⟩ := checkValid_received hvalid'
  have hsame := (hfinal h hitem hr).symm.trans (hfinal h' hitem' hr')
  cases hsame
  rw [hm] at hm'
  cases hm'
  exact Spv2TransferTxMeta.isForLoop_unique hfor hfor'

/-- Every history item that the receiver of an accepted payment has for its transaction passes the
check, and once the receiver has the rows up to the payment the item is there exactly when the
amount is worth a msat.  At one receiver no transaction passes for two events, hash collisions
apart. -/
theorem honest_transfers_verify (hM : M.Lawful) (hids : (cs.filterMap Commit.txid?).Nodup) {st : Ledger}
    (hrun : runCommits E.crypto cfg cs = .ok st) :
    (∀ transferId transfer toAccount (p : AcceptedPayment E M cfg cs transferId transfer toAccount) randomOpId es cdb,
      runService E.crypto cfg randomOpId cs toAccount es = .ok cdb →
      (∀ item, cdb.userOperation toAccount p.txid = some item →
        SpTransfer.checkValid M transferId transfer item = .ok true) ∧
      (accountHistoryCount p.paid.db toAccount ≤ getAccountHistoryCount cdb toAccount →
        ((∃ item, cdb.userOperation toAccount p.txid = some item) ↔
          p.cycle.startPrice ≤ transfer.amount * MSATS_PER_BTC))) ∧
    ∀ a txid randomOpId randomOpId' es es' cdb cdb' item item' transferId transferId' transfer transfer',
      runService E.crypto cfg randomOpId cs a es = .ok cdb →
      runService E.crypto cfg randomOpId' cs a es' = .ok cdb' →
      cdb.userOperation a txid = some item → cdb'.userOperation a txid = some item' →
      SpTransfer.checkValid M transferId transfer item = .ok true →
      SpTransfer.checkValid M transferId' transfer' item' = .ok true →
      M.sha256 transferId.eventId = M.sha256 transferId'.eventId := by
  constructor
  · intro transferId transfer toAccount p randomOpId es cdb h
    exact ⟨fun item hitem => p.checkValid hM hids hrun h hitem, fun hcount => p.exists_operation hids hrun h hcount⟩
  · intro a txid randomOpId randomOpId' es es' cdb cdb' item item' transferId transferId' transfer transfer' h h'
      hitem hitem' hvalid hvalid'
    exact checkValid_unique hids hrun h h' hitem hitem' hvalid hvalid'

end

/-! ## Demonstrations -/

/-- A toy hash; one hash is encoded as a vector of one component, its variant, length and bytes. -/
def demoCodec : MetaCodec where
  sha256 := fun eventId => ⟨List.replicate 31 0 ++ [UInt8.ofNat eventId], by simp⟩
  consensusEncodeToVec
    | [.spTransferPendingStartEventIdHash hash] => 1 :: 0 :: 32 :: hash.bytes
    | _ => [0]
  consensusDecodeWhole
    | 1 :: 0 :: 32 :: bytes =>
      if h : bytes.length = 32 then some [.spTransferPendingStartEventIdHash ⟨bytes, h⟩] else none
    | _ => none

theorem demoCodec_lawful : demoCodec.Lawful where
  encode_ne_nil := fun _ h => by cases h
  decode_encode := fun hash => dif_pos hash.length_eq

def demoMeta (eventId : RpcEventId) : List UInt8 :=
  (Spv2TransferTxMeta.forSpTransferMatrixPendingStartEventId demoCodec eventId).encode demoCodec

def demoPayer : Externals where
  crypto := demoCrypto
  ourAccount := fun _ => some demoSeeker
  parseAccountId := fun _ => none
  transferMeta := demoMeta
  transferExpirySecs := 600

def demoPending (amount nonce : ℕ) : TransferEventValue where
  amount := amount
  federationId := 0
  sentBy := 1
  federationInvite := none
  nonce := nonce
  createdAt := 0

def demoReceiver (key : PublicKey) : AccountId := (Account.single key .seeker).id demoCrypto

/-- The payment of an event whose nonce is its id, signed by the seeker. -/
def demoPayment (eventId : RpcEventId) (amount : ℕ) (key : PublicKey) : SignedTransferRequest where
  signatures := BTreeMap.empty.insert 0 (eventId + 7)
  transferRequest := {
    nonce := eventId
    sender := demoSeeker
    transferAmount := amount
    recipient := demoReceiver key
    metadata := demoMeta eventId
    validUntilCycle := 2 ^ 64 - 1
    newFeeRate := none }

def demoVoteCommits (index time price : ℕ) : List Commit :=
  [0, 1, 2].map fun peer => .consensusItem peer (.v0 ⟨index, time, price⟩)

def demoSeek (txid : TransactionId) : Commit := .transaction txid [] [.v0 (.depositToSeek ⟨demoSeeker.id demoCrypto, 100000⟩)]

/-- The seeker has 100000 msats locked and as much staged. -/
def demoSplit : List Commit :=
  demoVoteCommits 0 1000 10000000 ++
    [demoSeek 1, .transaction 2 [] [.v0 (.depositToProvide ⟨demoProvider.id demoCrypto, 100000, ⟨0⟩⟩)]] ++
    demoVoteCommits 1 2000 10000000 ++ [demoSeek 3]

/-- The seeker pays 15 cents, 100000 msats of them staged and 50000 locked. -/
def demoPaid : List Commit := demoSplit ++ [paymentCommit 4 (demoPayment 50 15 9)]

theorem honest_transfers_verify_demo :
    ∃ (p : AcceptedPayment demoPayer demoCodec demoConfig demoPaid ⟨3, 50⟩ (demoPending 15 50) (demoReceiver 9))
      (cdb : ClientDb) (item : UserOperationHistoryItem),
      runService demoCrypto demoConfig id demoPaid (demoReceiver 9) [.repair, .update 9 9, .update 10 10] = .ok cdb ∧
        cdb.userOperation (demoReceiver 9) p.txid = some item ∧
        checkValid demoCodec ⟨3, 50⟩ (demoPending 15 50) item = .ok true := by
  have hcommits : succeeds (runCommits demoCrypto demoConfig demoPaid) = true := by decide +kernel
  have hservice : succeeds (runService demoCrypto demoConfig id demoPaid (demoReceiver 9)
      [.repair, .update 9 9, .update 10 10]) = true := by decide +kernel
  have hfound : ((runService demoCrypto demoConfig id demoPaid (demoReceiver 9)
      [.repair, .update 9 9, .update 10 10]).toOption.bind fun cdb =>
        cdb.userOperation (demoReceiver 9) 4).isSome = true := by decide +kernel
  obtain ⟨st, hst⟩ := exists_of_succeeds hcommits
  obtain ⟨cdb, hcdb⟩ := exists_of_succeeds hservice
  rw [hcdb] at hfound
  obtain ⟨item, hitem⟩ : ∃ item, cdb.userOperation (demoReceiver 9) 4 = some item := Option.isSome_iff_exists.mp hfound
  have hrequest : paymentRequest demoPayer demoCodec ⟨3, 50⟩ (demoPending 15 50) (demoReceiver 9) =
      some (demoPayment 50 15 9).transferRequest := rfl
  obtain ⟨p, htxid, -, -⟩ : ∃ p : AcceptedPayment demoPayer demoCodec demoConfig demoPaid ⟨3, 50⟩ (demoPending 15 50)
      (demoReceiver 9), p.txid = 4 ∧ _ := exists_acceptedPayment hrequest hst
  rw [← htxid] at hitem
  have hverify := honest_transfers_verify (E := demoPayer) demoCodec_lawful (by decide) hst
  exact ⟨p, cdb, item, hcdb, hitem, (hverify.1 _ _ _ p id _ cdb hcdb).1 item hitem⟩

/-- One cent at a price of two billion dollars. -/
def demoDust : List Commit :=
  demoVoteCommits 0 1000 200000000000 ++ [demoSeek 1] ++ [paymentCommit 2 (demoPayment 50 1 9)]

/-- One transaction with two payments, to two receivers. -/
def demoTwofold : List Commit :=
  demoSplit ++ [.transaction 4 [] [.v0 (.transfer ⟨demoPayment 50 5 9⟩), .v0 (.transfer ⟨demoPayment 51 5 10⟩)]]

/-- What the receiver with that key makes of the transaction of `demoTwofold` for that event. -/
def demoTwofoldCheck (eventId : RpcEventId) (key : PublicKey) : Option (Option Bool) :=
  ((runService demoCrypto demoConfig id demoTwofold (demoReceiver key) [.update 10 10]).toOption.bind fun cdb =>
    cdb.userOperation (demoReceiver key) 4).map fun item =>
      (checkValid demoCodec ⟨3, eventId⟩ (demoPending 5 eventId) item).toOption

/-- An accepted payment of less than a msat has no operation, and one transaction passes for two
pending transfers. -/
theorem payments_unverified :
    (∃ p : AcceptedPayment demoPayer demoCodec demoConfig demoDust ⟨3, 50⟩ (demoPending 1 50) (demoReceiver 9),
      ∀ randomOpId es cdb, runService demoCrypto demoConfig randomOpId demoDust (demoReceiver 9) es = .ok cdb →
        cdb.userOperation (demoReceiver 9) p.txid = none) ∧
      demoTwofoldCheck 50 9 = some (some true) ∧ demoTwofoldCheck 51 10 = some (some true) ∧
      demoCodec.sha256 50 ≠ demoCodec.sha256 51 := by
  refine ⟨?_, by decide +kernel, by decide +kernel, by decide⟩
  have hcommits : succeeds (runCommits demoCrypto demoConfig demoDust) = true := by decide +kernel
  have hprice : ((runCommits demoCrypto demoConfig
      (demoVoteCommits 0 1000 200000000000 ++ [demoSeek 1])).toOption.bind fun st =>
        st.db.currentCycle.map Cycle.startPrice) = some 200000000000 := by decide +kernel
  obtain ⟨st, hst⟩ := exists_of_succeeds hcommits
  have hrequest : paymentRequest demoPayer demoCodec ⟨3, 50⟩ (demoPending 1 50) (demoReceiver 9) =
      some (demoPayment 50 1 9).transferRequest := rfl
  obtain ⟨p, -, hbefore, -⟩ : ∃ p : AcceptedPayment demoPayer demoCodec demoConfig demoDust ⟨3, 50⟩ (demoPending 1 50)
      (demoReceiver 9), _ ∧ p.before = demoVoteCommits 0 1000 200000000000 ++ [demoSeek 1] ∧ _ :=
    exists_acceptedPayment hrequest hst
  have hmid : runCommits demoCrypto demoConfig (demoVoteCommits 0 1000 200000000000 ++ [demoSeek 1]) = .ok p.mid := by
    rw [← hbefore]
    exact p.run_before
  have hcycle : p.cycle.startPrice = 200000000000 := by
    rw [hmid] at hprice
    have hstart : p.mid.db.currentCycle.map Cycle.startPrice = some 200000000000 := hprice
    rw [p.current] at hstart
    exact Option.some.inj hstart
  refine ⟨p, fun randomOpId es cdb h => p.no_operation (by decide) hst h ?_⟩
  rw [hcycle]
  decide

end SpTransfer
