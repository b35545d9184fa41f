import Fedi.SpTransfer.Events

/-!
# Payments of a chat transfer

The request for a transfer repeats the nonce of its `PendingTransferStart` event, so that the
federation takes a second submission for the first.  The account of the receiver comes from a
row that every announcement overwrites, and a request to another account is another
request.  With `Pays` for the submissions of a run,

    AtMostOnePayment E s ↔ SameAccount E ourUserId es      (atMostOnePayment_iff)

for every run `es` to `s`, duplicates and crashes included.
-/

namespace SpTransfer

open BTreeMaps StabilityPool Runs Idempotency

/-! ## What the federation takes -/

/-- What identifies a request to the federations. -/
def Submission.replayKey (E : Externals) (x : Submission) : RpcFederationId × ℕ :=
  (x.federationId, x.request.id E.crypto)

/-- The valid requests that were handed to the federations. -/
def DeviceState.handedOver (s : DeviceState) : List Submission := s.submissions.filter Submission.valid

/-- The transfers that took effect: a federation takes each valid request once. -/
def DeviceState.payments (E : Externals) (s : DeviceState) : List Submission :=
  taken (Submission.replayKey E) s.handedOver

def AtMostOnePayment (E : Externals) (s : DeviceState) : Prop :=
  ∀ transferId, (s.payments E).countP (fun x => decide (x.transferId = transferId)) ≤ 1

/-! ## What an execution hands over -/

/-- The federation gets a valid request. -/
def SubmitResult.arrives : SubmitResult → Bool
  | .refused => false
  | .failedAfter valid => valid
  | .submitted valid => valid

/-- An execution on `db` hands the transfer over with that account as the receiver. -/
structure Submits (E : Externals) (now : ℕ) (provider : SpMatrixTransferId → SubmitResult) (db : SpTransfersDb)
    (transferId : SpMatrixTransferId) (transfer : TransferEventValue) (accountId : AccountId)
    (request : TransferRequest) : Prop where
  row : db.transferEvent.get? transferId = some transfer
  pending : resolveStatusDb E now db transferId transfer = .pending
  account : db.knownReceiverAccountId.get? ⟨transferId.roomId, transfer.federationId⟩ = some accountId
  built : spv2BuildTransferRequestWithNonce E transfer.federationId transfer.nonce accountId transfer.amount
    (E.transferMeta transferId.eventId) = some request
  arrives : (provider transferId).arrives = true

/-- The event is an execution on `db` that gets to the transfer and hands it over. -/
def HandsOver (E : Externals) (db : SpTransfersDb) (e : DeviceEvent) (transferId : SpMatrixTransferId)
    (transfer : TransferEventValue) (accountId : AccountId) (request : TransferRequest) : Prop :=
  match e with
  | .room _ => False
  | .runOnce items now provider crash => transferId ∈ reached items crash ∧
    Submits E now provider db transferId transfer accountId request

/-- Some execution of the run hands the transfer over with that account as the receiver. -/
def Pays (E : Externals) (ourUserId : RpcUserId) (es : List DeviceEvent) (transferId : SpMatrixTransferId)
    (accountId : AccountId) : Prop :=
  ∃ before e after, es = before ++ e :: after ∧ ∃ s transfer request,
    run (deviceStep E ourUserId) .start before = .ok s ∧
      HandsOver E s.db e transferId transfer accountId request

/-- The account row is the same whenever a transfer is handed over. -/
def SameAccount (E : Externals) (ourUserId : RpcUserId) (es : List DeviceEvent) : Prop :=
  ∀ transferId accountId accountId', Pays E ourUserId es transferId accountId →
    Pays E ourUserId es transferId accountId' → accountId = accountId'

/-- The hashes of the requests that were handed over do not collide, nor do those of their events. -/
structure CollisionFree (E : Externals) (xs : List Submission) : Prop where
  request : ∀ a ∈ xs, ∀ b ∈ xs, a.request.id E.crypto = b.request.id E.crypto → a.request = b.request
  transferMeta : ∀ a ∈ xs, ∀ b ∈ xs, E.transferMeta a.transferId.eventId = E.transferMeta b.transferId.eventId →
    a.transferId.eventId = b.transferId.eventId

section

variable {E : Externals} {ourUserId : RpcUserId}

theorem spv2TransferWithNonce_valid {result : SubmitResult} {transferId : SpMatrixTransferId}
    {transfer : TransferEventValue} {accountId : AccountId} {x : Submission} :
    (spv2TransferWithNonce E result transferId transfer accountId).2 = some x ∧ x.valid = true ↔
      ∃ request, spv2BuildTransferRequestWithNonce E transfer.federationId transfer.nonce accountId
          transfer.amount (E.transferMeta transferId.eventId) = some request ∧
        result.arrives = true ∧ x = ⟨transferId, transfer.federationId, request, true⟩ := by
  unfold spv2TransferWithNonce
  cases spv2BuildTransferRequestWithNonce E transfer.federationId transfer.nonce accountId transfer.amount
    (E.transferMeta transferId.eventId) with
  | none => simp
  | some request =>
    cases result with
    | refused => simp [SubmitResult.arrives]
    | failedAfter valid =>
      constructor
      · rintro ⟨h, hvalid⟩
        cases h
        exact ⟨request, rfl, hvalid, by rw [show valid = true from hvalid]⟩
      · rintro ⟨request', h, hvalid, rfl⟩
        cases h
        rw [show valid = true from hvalid]
        exact ⟨rfl, rfl⟩
    | submitted valid =>
      constructor
      · rintro ⟨h, hvalid⟩
        cases h
        exact ⟨request, rfl, hvalid, by rw [show valid = true from hvalid]⟩
      · rintro ⟨request', h, hvalid, rfl⟩
        cases h
        rw [show valid = true from hvalid]
        exact ⟨rfl, rfl⟩

theorem processPendingTransfer_valid {now : ℕ} {provider : SpMatrixTransferId → SubmitResult}
    {db : SpTransfersDb} {transferId : SpMatrixTransferId} {x : Submission} :
    (processPendingTransfer E now provider db transferId).2 = some x ∧ x.valid = true ↔
      ∃ transfer accountId request, Submits E now provider db transferId transfer accountId request ∧
        x = ⟨transferId, transfer.federationId, request, true⟩ := by
  constructor
  · rintro ⟨hsub, hvalid⟩
    unfold processPendingTransfer at hsub
    cases hrow : db.transferEvent.get? transferId with
    | none =>
      rw [hrow] at hsub
      cases hsub
    | some transfer =>
      rw [hrow] at hsub
      dsimp only at hsub
      split at hsub
      next => cases hsub
      next hpending =>
        cases haccount : db.knownReceiverAccountId.get? ⟨transferId.roomId, transfer.federationId⟩ with
        | none =>
          rw [haccount] at hsub
          cases hsub
        | some accountId =>
          rw [haccount] at hsub
          obtain ⟨request, hbuilt, harrives, hx⟩ := spv2TransferWithNonce_valid.mp ⟨hsub, hvalid⟩
          exact ⟨transfer, accountId, request, ⟨hrow, not_not.mp hpending, haccount, hbuilt, harrives⟩, hx⟩
  · rintro ⟨transfer, accountId, request, h, rfl⟩
    unfold processPendingTransfer
    rw [h.row]
    dsimp only
    rw [if_neg (not_not.mpr h.pending), h.account]
    exact spv2TransferWithNonce_valid.mpr ⟨request, h.built, h.arrives, rfl⟩

theorem Submits.of_rows {now : ℕ} {provider : SpMatrixTransferId → SubmitResult} {db db' : SpTransfersDb}
    (hrows : SameRows db db') {transferId : SpMatrixTransferId} {transfer : TransferEventValue}
    {accountId : AccountId} {request : TransferRequest} :
    Submits E now provider db' transferId transfer accountId request ↔
      Submits E now provider db transferId transfer accountId request := by
  constructor
  · rintro ⟨h1, h2, h3, h4, h5⟩
    rw [hrows.transferEvent] at h1
    rw [hrows.resolveStatusDb] at h2
    rw [hrows.knownReceiverAccountId] at h3
    exact ⟨h1, h2, h3, h4, h5⟩
  · rintro ⟨h1, h2, h3, h4, h5⟩
    rw [← hrows.transferEvent] at h1
    rw [← hrows.resolveStatusDb] at h2
    rw [← hrows.knownReceiverAccountId] at h3
    exact ⟨h1, h2, h3, h4, h5⟩

/-- The loop hands over what its transfers would on the database it starts from. -/
theorem processTransfers_valid {now : ℕ} {provider : SpMatrixTransferId → SubmitResult} {x : Submission}
    (items : List SpMatrixTransferId) (db : SpTransfersDb) :
    x ∈ (processTransfers E now provider db items).2 ∧ x.valid = true ↔
      ∃ transferId ∈ items, ∃ transfer accountId request,
        Submits E now provider db transferId transfer accountId request ∧
          x = ⟨transferId, transfer.federationId, request, true⟩ := by
  induction items generalizing db with
  | nil => simp [processTransfers]
  | cons item items ih =>
    have hrows := processPendingTransfer_rows (E := E) now provider db item
    have hrest := ih (processPendingTransfer E now provider db item).1
    simp only [Submits.of_rows hrows] at hrest
    unfold processTransfers
    dsimp only
    rw [List.mem_append, Option.mem_toList, or_and_right, hrest, List.exists_mem_cons_iff]
    exact or_congr processPendingTransfer_valid Iff.rfl

/-- What a run hands over, by execution and account. -/
theorem mem_handedOver {es : List DeviceEvent} {s : DeviceState}
    (hrun : run (deviceStep E ourUserId) .start es = .ok s) {x : Submission} :
    x ∈ s.handedOver ↔ ∃ before e after, es = before ++ e :: after ∧ ∃ s' transferId transfer accountId request,
      run (deviceStep E ourUserId) .start before = .ok s' ∧
        HandsOver E s'.db e transferId transfer accountId request ∧
          x = ⟨transferId, transfer.federationId, request, true⟩ := by
  unfold DeviceState.handedOver
  rw [List.mem_filter]
  induction es using List.reverseRecOn generalizing s with
  | nil =>
    cases hrun
    simp [DeviceState.start]
  | append_singleton es e ih =>
    obtain ⟨s1, h1, h2⟩ := run_snoc.mp hrun
    rw [exists_split_snoc, ← ih h1]
    cases e with
    | room e =>
      cases h2
      simp [HandsOver]
    | runOnce items now provider crash =>
      obtain ⟨-, rfl⟩ := deviceStep_runOnce_iff.mp h2
      dsimp only
      rw [List.mem_append, or_and_right, processTransfers_valid]
      refine or_congr Iff.rfl ?_
      constructor
      · rintro ⟨transferId, hreached, transfer, accountId, request, hsubmits, hx⟩
        exact ⟨s1, transferId, transfer, accountId, request, h1, ⟨hreached, hsubmits⟩, hx⟩
      · rintro ⟨s', transferId, transfer, accountId, request, hs', ⟨hreached, hsubmits⟩, hx⟩
        rw [h1] at hs'
        cases hs'
        exact ⟨transferId, hreached, transfer, accountId, request, hsubmits, hx⟩

/-! ## The theorem -/

/-- The request names the receiver and the event. -/
theorem spv2BuildTransferRequestWithNonce_some {federationId : RpcFederationId} {nonce amount : ℕ}
    {accountId : AccountId} {transferMeta : List UInt8} {request : TransferRequest}
    (h : spv2BuildTransferRequestWithNonce E federationId nonce accountId amount transferMeta = some request) :
    request.recipient = accountId ∧ request.metadata = transferMeta := by
  unfold spv2BuildTransferRequestWithNonce at h
  obtain ⟨sender, -, h⟩ := Option.bind_eq_some_iff.mp h
  split at h
  · cases h
    exact ⟨rfl, rfl⟩
  · cases h

theorem startedBy_delivered_append {before after : List DeviceEvent} {transferId : SpMatrixTransferId}
    {transfer : TransferEventValue} (h : StartedBy (delivered before) transferId transfer) :
    StartedBy (delivered (before ++ after)) transferId transfer := by
  refine h.mono ?_
  unfold delivered
  rw [List.filterMap_append]
  exact List.subset_append_left _ _

/-- A handed over request was built from the row of its transfer and an account that it pays. -/
structure BuiltFor (E : Externals) (ourUserId : RpcUserId) (es : List DeviceEvent) (x : Submission)
    (transfer : TransferEventValue) (accountId : AccountId) : Prop where
  started : StartedBy (delivered es) x.transferId transfer
  federationId : x.federationId = transfer.federationId
  built : spv2BuildTransferRequestWithNonce E transfer.federationId transfer.nonce accountId transfer.amount
    (E.transferMeta x.transferId.eventId) = some x.request
  pays : Pays E ourUserId es x.transferId accountId

theorem builtFor_of_handsOver {es before after : List DeviceEvent} {e : DeviceEvent} {s : DeviceState}
    (hes : es = before ++ e :: after) (hs : run (deviceStep E ourUserId) .start before = .ok s)
    {transferId : SpMatrixTransferId} {transfer : TransferEventValue} {accountId : AccountId}
    {request : TransferRequest} (h : HandsOver E s.db e transferId transfer accountId request) :
    BuiltFor E ourUserId es ⟨transferId, transfer.federationId, request, true⟩ transfer accountId := by
  have hpays : Pays E ourUserId es transferId accountId :=
    ⟨before, e, after, hes, s, transfer, request, hs, h⟩
  cases e with
  | room e => cases h
  | runOnce items now provider crash =>
    obtain ⟨-, hsubmits⟩ := h
    subst hes
    exact ⟨startedBy_delivered_append (startedBy_of_run hs hsubmits.row), rfl, hsubmits.built, hpays⟩

theorem exists_builtFor {es : List DeviceEvent} {s : DeviceState}
    (hrun : run (deviceStep E ourUserId) .start es = .ok s) {x : Submission} (hx : x ∈ s.handedOver) :
    ∃ transfer accountId, BuiltFor E ourUserId es x transfer accountId := by
  obtain ⟨before, e, after, hes, s', transferId, transfer, accountId, request, hs', hands, rfl⟩ :=
    (mem_handedOver hrun).mp hx
  exact ⟨transfer, accountId, builtFor_of_handsOver hes hs' hands⟩

/-- A payment is a request that was handed over. -/
theorem Pays.handedOver {es : List DeviceEvent} {s : DeviceState}
    (hrun : run (deviceStep E ourUserId) .start es = .ok s) {transferId : SpMatrixTransferId}
    {accountId : AccountId} (h : Pays E ourUserId es transferId accountId) :
    ∃ x ∈ s.handedOver, x.transferId = transferId ∧ ∃ transfer, BuiltFor E ourUserId es x transfer accountId := by
  obtain ⟨before, e, after, hes, s', transfer, request, hs', hands⟩ := h
  exact ⟨⟨transferId, transfer.federationId, request, true⟩,
    (mem_handedOver hrun).mpr ⟨before, e, after, hes, s', transferId, transfer, accountId, request, hs', hands, rfl⟩,
    rfl, transfer, builtFor_of_handsOver hes hs' hands⟩

/-- Requests of one transfer to one account are the same. -/
theorem SameAccount.replayKey {es : List DeviceEvent} (hsame : SameEvents (delivered es))
    (h : SameAccount E ourUserId es) {x y : Submission} {transfer transfer' : TransferEventValue}
    {accountId accountId' : AccountId} (hx : BuiltFor E ourUserId es x transfer accountId)
    (hy : BuiltFor E ourUserId es y transfer' accountId') (hid : x.transferId = y.transferId) :
    x.replayKey E = y.replayKey E := by
  have hpays := hy.pays
  have hstarted := hy.started
  have hbuilt := hy.built
  rw [← hid] at hpays hstarted hbuilt
  cases hx.started.unique hsame hstarted
  cases h _ _ _ hx.pays hpays
  have hrequest : x.request = y.request := Option.some.inj (hx.built.symm.trans hbuilt)
  unfold Submission.replayKey
  rw [hx.federationId, hy.federationId, hrequest]

/-- Another transfer has other requests. -/
theorem BuiltFor.sameTransfer {es : List DeviceEvent} (hsame : SameEvents (delivered es)) {xs : List Submission}
    (hfree : CollisionFree E xs) {x y : Submission} (hxs : x ∈ xs) (hys : y ∈ xs)
    {transfer transfer' : TransferEventValue} {accountId accountId' : AccountId}
    (hx : BuiltFor E ourUserId es x transfer accountId) (hy : BuiltFor E ourUserId es y transfer' accountId')
    (hrequest : x.request = y.request) : x.transferId = y.transferId := by
  have hmeta : E.transferMeta x.transferId.eventId = E.transferMeta y.transferId.eventId := by
    rw [← (spv2BuildTransferRequestWithNonce_some hx.built).2, hrequest,
      (spv2BuildTransferRequestWithNonce_some hy.built).2]
  obtain ⟨e, he, hxid, -⟩ := hx.started
  obtain ⟨e', he', hyid, -⟩ := hy.started
  have hevent : e = e' := by
    refine hsame e he e' he' ?_
    have hid := hfree.transferMeta x hxs y hys hmeta
    rw [hxid, hyid] at hid
    exact hid
  rw [hxid, hyid, hevent]

/-- Each transfer takes effect at most once exactly when the account row of its room and federation
is the same whenever it is handed over. -/
theorem atMostOnePayment_iff {es : List DeviceEvent} {s : DeviceState}
    (hrun : run (deviceStep E ourUserId) .start es = .ok s) (hsame : SameEvents (delivered es))
    (hfree : CollisionFree E s.handedOver) : AtMostOnePayment E s ↔ SameAccount E ourUserId es := by
  have hkeys (transferId : SpMatrixTransferId) :
      (s.payments E).countP (fun x => decide (x.transferId = transferId)) ≤ 1 ↔
        ∀ x ∈ s.handedOver, ∀ y ∈ s.handedOver, x.transferId = transferId → y.transferId = transferId →
          x.replayKey E = y.replayKey E := by
    unfold DeviceState.payments
    rw [countP_taken_le_one_iff]
    · simp only [decide_eq_true_eq]
    · intro x hx y hy hid hkey
      obtain ⟨transfer, accountId, hbuilt⟩ := exists_builtFor hrun hx
      obtain ⟨transfer', accountId', hbuilt'⟩ := exists_builtFor hrun hy
      have hrequest : x.request = y.request := hfree.request x hx y hy (congrArg Prod.snd hkey).symm
      rw [← hbuilt.sameTransfer hsame hfree hx hy hbuilt' hrequest]
      exact hid
  constructor
  · intro h transferId accountId accountId' hpays hpays'
    obtain ⟨x, hx, hxid, transfer, hbuilt⟩ := hpays.handedOver hrun
    obtain ⟨y, hy, hyid, transfer', hbuilt'⟩ := hpays'.handedOver hrun
    have hkey := (hkeys transferId).mp (h transferId) x hx y hy hxid hyid
    have hrequest : x.request = y.request := hfree.request x hx y hy (congrArg Prod.snd hkey)
    rw [← (spv2BuildTransferRequestWithNonce_some hbuilt.built).1, hrequest,
      (spv2BuildTransferRequestWithNonce_some hbuilt'.built).1]
  · intro h transferId
    refine (hkeys transferId).mpr fun x hx y hy hxid hyid => ?_
    obtain ⟨transfer, accountId, hbuilt⟩ := exists_builtFor hrun hx
    obtain ⟨transfer', accountId', hbuilt'⟩ := exists_builtFor hrun hy
    exact h.replayKey hsame hbuilt hbuilt' (hxid.trans hyid.symm)

end

/-! ## Two runs of the device of user 0 -/

def demoDevice : Externals where
  crypto := {
    accountHash := fun account => account.pubKeys.sum
    requestHash := fun request => request.nonce + request.recipient.hash
    xOnlyPublicKey := id
    verify := fun _ _ _ => true }
  ourAccount := fun _ => some (.single 10 .seeker)
  parseAccountId := fun accountId =>
    if accountId = "a" then some ⟨.seeker, 500⟩ else if accountId = "b" then some ⟨.seeker, 600⟩ else none
  transferMeta := fun eventId => [eventId.toUInt8]
  transferExpirySecs := 60

def demoTransfer : SpMatrixTransferId := ⟨0, 20⟩

/-- User 0 starts a transfer, user 1 announces an account, and the device dies between the
submission and the commit. -/
def demoCrash : List DeviceEvent :=
  [.room ⟨0, 20, 0, 0, .pendingTransferStart 100 4 none 77⟩, .room ⟨0, 21, 1, 1, .announceAccount "a" 4⟩,
    .runOnce [demoTransfer] 2 (fun _ => .submitted true) (some 1)]

/-- The device submits again after the restart. -/
def demoRestart : List DeviceEvent :=
  demoCrash ++ [.runOnce [demoTransfer] 3 (fun _ => .submitted true) none]

/-- User 1 announces another account before that. -/
def demoOtherAccount : List DeviceEvent :=
  demoCrash ++ [.room ⟨0, 22, 1, 2, .announceAccount "b" 4⟩,
    .runOnce [demoTransfer] 3 (fun _ => .submitted true) none]

def demoSubmission (hash : ℕ) : Submission where
  transferId := demoTransfer
  federationId := 4
  request := ⟨77, .single 10 .seeker, 100, ⟨.seeker, hash⟩, [20], 2 ^ 64 - 1, none⟩
  valid := true

theorem atMostOnePayment_iff_demo : ∃ s, run (deviceStep demoDevice 0) .start demoRestart = .ok s ∧
    s.handedOver = [demoSubmission 500, demoSubmission 500] ∧ SameAccount demoDevice 0 demoRestart := by
  have hrun : (run (deviceStep demoDevice 0) .start demoRestart).map DeviceState.handedOver =
      .ok [demoSubmission 500, demoSubmission 500] := rfl
  cases hs : run (deviceStep demoDevice 0) .start demoRestart with
  | error e =>
    rw [hs] at hrun
    cases hrun
  | ok s =>
    rw [hs] at hrun
    have hsent : s.handedOver = [demoSubmission 500, demoSubmission 500] := Except.ok.inj hrun
    have hfree : CollisionFree demoDevice s.handedOver := by
      rw [hsent]
      constructor
      · simp
      · simp
    refine ⟨s, rfl, hsent, (atMostOnePayment_iff hs (by unfold SameEvents; decide) hfree).mp ?_⟩
    intro transferId
    unfold DeviceState.payments
    rw [hsent]
    exact List.countP_le_length.trans (by decide +kernel)

/-- The receiver gets the transfer in both accounts. -/
theorem paid_twice : ∃ s, run (deviceStep demoDevice 0) .start demoOtherAccount = .ok s ∧
    s.payments demoDevice = [demoSubmission 500, demoSubmission 600] ∧ ¬ AtMostOnePayment demoDevice s := by
  have hrun : (run (deviceStep demoDevice 0) .start demoOtherAccount).map (DeviceState.payments demoDevice) =
      .ok [demoSubmission 500, demoSubmission 600] := rfl
  cases hs : run (deviceStep demoDevice 0) .start demoOtherAccount with
  | error e =>
    rw [hs] at hrun
    cases hrun
  | ok s =>
    rw [hs] at hrun
    have hpaid : s.payments demoDevice = [demoSubmission 500, demoSubmission 600] := Except.ok.inj hrun
    refine ⟨s, rfl, hpaid, fun h => ?_⟩
    have honce := h demoTransfer
    rw [hpaid] at honce
    exact absurd honce (by decide +kernel)

end SpTransfer
