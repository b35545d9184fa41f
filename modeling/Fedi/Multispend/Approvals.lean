import Fedi.Multispend.GroupIntegrity

/-!
# Multispend: approvals

The approval that reaches the threshold of our own request turns the collected
signatures into a signed transfer.  Three things are expected there: every approver
has a key in the group, the key is in the account of the group, and the signatures
make a valid request.  The second always holds; the other two are what `Approvable`
says of the approvals, and nothing else panics:

    (∃ db, scan E ourId .empty evs = .ok db) ↔
      every event of evs is a SafeApproval in the database before it   (scan_never_panics_iff)

Signatures are stored unverified and a group may have a signer without a key, so the
condition can fail (`scan_panics_on_forged_signature`).
-/

namespace Multispend

open BTreeMaps StabilityPool Runs

/-! ## Signatures by key index -/

section

variable (group : FinalizedGroup)

/-- The position in the account of the key of a user. -/
def approverIndex (user : RpcUserId) : ℕ :=
  (group.pubkeys.get? user).elim 0 fun key => group.spv2Account.pubKeys.idxOf key

/-- The distinct keys of the approvers. -/
def approverKeys (signatures : BTreeMap RpcUserId Signature) : Finset PublicKey :=
  (signatures.keys.filterMap group.pubkeys.get?).toFinset

/-- The signatures as the federation takes them. -/
def indexedSignatures (signatures : BTreeMap RpcUserId Signature) : BTreeMap ℕ Signature :=
  (signatures.entries.map fun e => (approverIndex group e.1, e.2)).foldl (fun m e => m.insert e.1 e.2) .empty

/-- What the approvals of a request must satisfy: every approver has a key in the group,
there are enough different keys for the paying account, and the last signature of each key
verifies under the key of the paying account at the same position. -/
structure Approvable (C : Crypto) (request : TransferRequest)
    (signatures : BTreeMap RpcUserId Signature) : Prop where
  known : ∀ user ∈ signatures.keys, user ∈ group.pubkeys.keys
  enough : request.sender.threshold ≤ (approverKeys group signatures).card
  verified : ∀ user signature key, signatures.get? user = some signature →
    group.pubkeys.get? user = some key →
    (∀ user' ∈ signatures.keys, group.pubkeys.get? user' = some key → user' ≤ user) →
    ∃ pubkey, request.sender.pubKeys[group.spv2Account.pubKeys.idxOf key]? = some pubkey ∧
      C.verify (request.id C) signature (C.xOnlyPublicKey pubkey) = true

variable {group}

theorem mem_accountKeys {state : GroupInvitationWithKeys} (hmade : MadeFrom state group) {user : RpcUserId}
    {key : PublicKey} (h : group.pubkeys.get? user = some key) : key ∈ group.spv2Account.pubKeys := by
  rw [hmade.keys, BTreeSet.mem_ofList, BTreeMap.mem_values, ← hmade.pubkeys]
  exact ⟨user, h⟩

theorem idxOf?_of_mem {l : List PublicKey} {key : PublicKey} (h : key ∈ l) :
    l.idxOf? key = some (l.idxOf key) := by
  obtain ⟨i, hi⟩ := Option.isSome_iff_exists.mp (List.isSome_idxOf?.mpr h)
  rw [List.idxOf_eq_getD_idxOf?, hi]
  rfl

/-- A user with a key has an index: the key of a finalized group is in its account. -/
theorem keyedSignature_of_mem {state : GroupInvitationWithKeys} (hmade : MadeFrom state group)
    {e : RpcUserId × Signature} (h : e.1 ∈ group.pubkeys.keys) :
    keyedSignature group e = .ok (approverIndex group e.1, e.2) := by
  obtain ⟨key, hkey⟩ := BTreeMap.mem_keys.mp h
  have hidx := idxOf?_of_mem (mem_accountKeys hmade hkey)
  simp only [keyedSignature, approverIndex, hkey, hidx, Option.elim_some]

theorem keyedSignature_of_not_mem {e : RpcUserId × Signature} (h : e.1 ∉ group.pubkeys.keys) :
    ¬ ∃ r, keyedSignature group e = .ok r := by
  rintro ⟨r, hr⟩
  unfold keyedSignature at hr
  rw [BTreeMap.get?_eq_none.mpr h] at hr
  cases hr

theorem collectSignatures_iff {state : GroupInvitationWithKeys} (hmade : MadeFrom state group)
    {signatures : BTreeMap RpcUserId Signature} {m : BTreeMap ℕ Signature} :
    collectSignatures group signatures = .ok m ↔
      (∀ user ∈ signatures.keys, user ∈ group.pubkeys.keys) ∧ m = indexedSignatures group signatures := by
  unfold collectSignatures
  constructor
  · intro h
    obtain ⟨keyed, hkeyed, hm⟩ := bind_eq_ok.mp h
    have hknown : ∀ e ∈ signatures.entries, e.1 ∈ group.pubkeys.keys := by
      intro e he
      by_contra hnot
      exact keyedSignature_of_not_mem hnot (exists_mapM_ok.mp ⟨keyed, hkeyed⟩ e he)
    have hmap := mapM_ok_of fun e he => keyedSignature_of_mem hmade (hknown e he)
    rw [hmap] at hkeyed
    cases hkeyed
    refine ⟨fun user huser => ?_, (pure_eq_ok.mp hm).symm⟩
    obtain ⟨e, he, rfl⟩ := List.mem_map.mp huser
    exact hknown e he
  · rintro ⟨hknown, rfl⟩
    refine bind_eq_ok.mpr ⟨_, mapM_ok_of fun e he => ?_, rfl⟩
    exact keyedSignature_of_mem hmade (hknown e.1 (List.mem_map_of_mem he))

/-- An index holds the signature of its last approver. -/
theorem get?_indexedSignatures {signatures : BTreeMap RpcUserId Signature} {i : ℕ} {signature : Signature} :
    (indexedSignatures group signatures).get? i = some signature ↔
      ∃ user, signatures.get? user = some signature ∧ approverIndex group user = i ∧
        ∀ user' ∈ signatures.keys, approverIndex group user' = i → user' ≤ user := by
  unfold indexedSignatures
  rw [BTreeMap.get?_foldl_insert_iff]
  have hsorted := signatures.sorted
  constructor
  · rintro (⟨l1, l2, hl, hlast⟩ | ⟨-, hget⟩)
    · obtain ⟨e1, e2, hentries, rfl, h2⟩ := List.map_eq_append_iff.mp hl
      obtain ⟨⟨user, s⟩, e3, rfl, hhead, rfl⟩ := List.map_eq_cons_iff.mp h2
      simp only [Prod.mk.injEq] at hhead
      obtain ⟨hindex, rfl⟩ := hhead
      rw [hentries] at hsorted
      refine ⟨user, ?_, hindex, fun user' huser' hindex' => ?_⟩
      · rw [← BTreeMap.mem_entries, hentries]
        exact List.mem_append_right _ List.mem_cons_self
      · obtain ⟨e, he, rfl⟩ := List.mem_map.mp huser'
        rw [hentries] at he
        rcases List.mem_append.mp he with he | he
        · exact ((List.pairwise_append.mp hsorted).2.2 e he _ List.mem_cons_self).le
        · rcases List.mem_cons.mp he with rfl | he
          · exact le_rfl
          · exact absurd hindex' (hlast _ (List.mem_map_of_mem he))
    · cases hget
  · rintro ⟨user, hget, hindex, hgreatest⟩
    obtain ⟨e1, e2, hentries⟩ := List.append_of_mem (BTreeMap.mem_entries.mpr hget)
    refine Or.inl ⟨e1.map fun e => (approverIndex group e.1, e.2),
      e2.map fun e => (approverIndex group e.1, e.2), ?_, ?_⟩
    · rw [hentries, List.map_append, List.map_cons, hindex]
    · intro e he
      obtain ⟨⟨user', s'⟩, he', rfl⟩ := List.mem_map.mp he
      intro hsame
      have huser' : user' ∈ signatures.keys := by
        refine List.mem_map.mpr ⟨(user', s'), ?_, rfl⟩
        rw [hentries]
        exact List.mem_append_right _ (List.mem_cons_of_mem _ he')
      rw [hentries] at hsorted
      have hlt : user < user' :=
        (List.pairwise_cons.mp (List.pairwise_append.mp hsorted).2.1).1 (user', s') he'
      exact absurd (hgreatest user' huser' hsame) (not_le.mpr hlt)

theorem approverIndex_inj {state : GroupInvitationWithKeys} (hmade : MadeFrom state group)
    {user user' : RpcUserId} {key : PublicKey} (hkey : group.pubkeys.get? user = some key)
    (hmem : user' ∈ group.pubkeys.keys) :
    approverIndex group user' = approverIndex group user ↔ group.pubkeys.get? user' = some key := by
  obtain ⟨key', hkey'⟩ := BTreeMap.mem_keys.mp hmem
  unfold approverIndex
  rw [hkey, hkey', Option.elim_some, Option.elim_some,
    List.idxOf_inj (mem_accountKeys hmade hkey'), Option.some.injEq]

/-- There are as many indices as different keys. -/
theorem len_indexedSignatures {state : GroupInvitationWithKeys} (hmade : MadeFrom state group)
    {signatures : BTreeMap RpcUserId Signature} (hknown : ∀ user ∈ signatures.keys, user ∈ group.pubkeys.keys) :
    (indexedSignatures group signatures).len = (approverKeys group signatures).card := by
  have hset : (indexedSignatures group signatures).keys.toFinset =
      (approverKeys group signatures).image group.spv2Account.pubKeys.idxOf := by
    ext i
    rw [List.mem_toFinset, Finset.mem_image, BTreeMap.mem_keys]
    constructor
    · rintro ⟨signature, hget⟩
      obtain ⟨user, hsig, rfl, -⟩ := get?_indexedSignatures.mp hget
      have huser : user ∈ signatures.keys := BTreeMap.mem_keys.mpr ⟨_, hsig⟩
      obtain ⟨key, hkey⟩ := BTreeMap.mem_keys.mp (hknown user huser)
      refine ⟨key, List.mem_toFinset.mpr (List.mem_filterMap.mpr ⟨user, huser, hkey⟩), ?_⟩
      rw [approverIndex, hkey, Option.elim_some]
    · rintro ⟨key, hkey, rfl⟩
      obtain ⟨user, huser, hget⟩ := List.mem_filterMap.mp (List.mem_toFinset.mp hkey)
      have hindex : approverIndex group user = group.spv2Account.pubKeys.idxOf key := by
        rw [approverIndex, hget, Option.elim_some]
      rw [← hindex, ← BTreeMap.mem_keys, indexedSignatures]
      -- some pair has this index, so the last of them is found
      by_contra hnone
      have hnone := BTreeMap.get?_eq_none.mpr hnone
      obtain ⟨signature, hsig⟩ := BTreeMap.mem_keys.mp huser
      obtain ⟨last, hlast⟩ := Finset.exists_maximal (s := signatures.keys.toFinset.filter
        fun u => approverIndex group u = approverIndex group user)
        ⟨user, Finset.mem_filter.mpr ⟨List.mem_toFinset.mpr huser, rfl⟩⟩
      obtain ⟨hmem, hsame⟩ := Finset.mem_filter.mp hlast.1
      obtain ⟨s, hs⟩ := BTreeMap.mem_keys.mp (List.mem_toFinset.mp hmem)
      have hfound : (indexedSignatures group signatures).get? (approverIndex group user) = some s := by
        refine get?_indexedSignatures.mpr ⟨last, hs, hsame, fun user' huser' hindex' => ?_⟩
        by_contra hgt
        have hle := hlast.2 (Finset.mem_filter.mpr ⟨List.mem_toFinset.mpr huser', hindex'⟩)
          (not_le.mp hgt).le
        exact hgt hle
      rw [indexedSignatures, hnone] at hfound
      cases hfound
  have hinj : Set.InjOn group.spv2Account.pubKeys.idxOf (approverKeys group signatures : Set PublicKey) := by
    intro key hkey key' hkey' hidx
    obtain ⟨user, -, hget⟩ := List.mem_filterMap.mp (List.mem_toFinset.mp (Finset.mem_coe.mp hkey))
    exact (List.idxOf_inj (mem_accountKeys hmade hget)).mp hidx
  rw [← BTreeMap.length_keys, ← List.toFinset_card_of_nodup (BTreeMap.keys_nodup _), hset,
    Finset.card_image_of_injOn hinj]

end

/-! ## The signed request -/

theorem checkSignature_iff {C : Crypto} {r : TransferRequest} {e : ℕ × Signature} :
    SignedTransferRequest.checkSignature C r e = .ok () ↔ ∃ pubkey, r.sender.pubKeys[e.1]? = some pubkey ∧
      C.verify (r.id C) e.2 (C.xOnlyPublicKey pubkey) = true := by
  unfold SignedTransferRequest.checkSignature ensure
  cases r.sender.pubKeys[e.1]? with
  | none => simp
  | some pubkey =>
    simp only [Option.some.injEq, exists_eq_left']
    split_ifs with h
    · simp [h]
    · simp [h]

theorem validateSignatures_iff {C : Crypto} {s : SignedTransferRequest} :
    s.validateSignatures C = .ok () ↔ s.transferRequest.sender.threshold ≤ s.signatures.len ∧
      ∀ i signature, s.signatures.get? i = some signature →
        ∃ pubkey, s.transferRequest.sender.pubKeys[i]? = some pubkey ∧
          C.verify (s.transferRequest.id C) signature (C.xOnlyPublicKey pubkey) = true := by
  unfold SignedTransferRequest.validateSignatures ensure
  rw [bind_eq_ok]
  constructor
  · rintro ⟨_, hlen, hall⟩
    split_ifs at hlen with h
    refine ⟨h, fun i signature hget => ?_⟩
    exact checkSignature_iff.mp (forM_ok_iff.mp hall (i, signature) (BTreeMap.mem_entries.mpr hget))
  · rintro ⟨hlen, hall⟩
    refine ⟨(), if_pos hlen, forM_ok_iff.mpr fun e he => checkSignature_iff.mpr ?_⟩
    exact hall e.1 e.2 (BTreeMap.mem_entries.mp he)

theorem signedTransferRequestUnwrap_iff {C : Crypto} {request : TransferRequest}
    {signatures : BTreeMap ℕ Signature} :
    (∃ s, signedTransferRequestUnwrap C request signatures = .ok s) ↔
      SignedTransferRequest.validateSignatures C ⟨signatures, request⟩ = .ok () := by
  unfold signedTransferRequestUnwrap
  cases SignedTransferRequest.validateSignatures C ⟨signatures, request⟩ with
  | error e => simp
  | ok u => simp

/-- The queued row can be built exactly from approvable approvals. -/
theorem approvedRequest_iff {C : Crypto} {roomId : RpcRoomId} {request : RpcEventId}
    {group : FinalizedGroup} {made : GroupInvitationWithKeys} (hmade : MadeFrom made group)
    {state : WithdrawRequestWithApprovals} :
    (∃ key, approvedRequest C roomId request group state = .ok key) ↔
      Approvable group C state.request state.signatures := by
  have hsplit : (∃ key, approvedRequest C roomId request group state = .ok key) ↔
      (∀ user ∈ state.signatures.keys, user ∈ group.pubkeys.keys) ∧
        SignedTransferRequest.validateSignatures C
          ⟨indexedSignatures group state.signatures, state.request⟩ = .ok () := by
    unfold approvedRequest
    rw [exists_ok_bind]
    constructor
    · rintro ⟨m, hm, hkey⟩
      obtain ⟨hknown, rfl⟩ := (collectSignatures_iff hmade).mp hm
      exact ⟨hknown, signedTransferRequestUnwrap_iff.mp ((exists_ok_bind_total fun _ => ⟨_, rfl⟩).mp hkey)⟩
    · rintro ⟨hknown, hvalid⟩
      exact ⟨_, (collectSignatures_iff hmade).mpr ⟨hknown, rfl⟩,
        (exists_ok_bind_total fun _ => ⟨_, rfl⟩).mpr (signedTransferRequestUnwrap_iff.mpr hvalid)⟩
  rw [hsplit, validateSignatures_iff]
  constructor
  · rintro ⟨hknown, hlen, hall⟩
    refine ⟨hknown, ?_, fun user signature key hget hkey hlast => ?_⟩
    · rw [← len_indexedSignatures hmade hknown]
      exact hlen
    · have hindex : approverIndex group user = group.spv2Account.pubKeys.idxOf key := by
        rw [approverIndex, hkey, Option.elim_some]
      rw [← hindex]
      refine hall _ signature (get?_indexedSignatures.mpr ⟨user, hget, rfl, fun user' huser' hsame => ?_⟩)
      exact hlast user' huser' ((approverIndex_inj hmade hkey (hknown user' huser')).mp hsame)
  · rintro ⟨hknown, hlen, hall⟩
    refine ⟨hknown, ?_, fun i signature hget => ?_⟩
    · show _ ≤ (indexedSignatures group state.signatures).len
      rw [len_indexedSignatures hmade hknown]
      exact hlen
    · obtain ⟨user, hsig, rfl, hlast⟩ := get?_indexedSignatures.mp hget
      obtain ⟨key, hkey⟩ := BTreeMap.mem_keys.mp (hknown user (BTreeMap.mem_keys.mpr ⟨_, hsig⟩))
      have hindex : approverIndex group user = group.spv2Account.pubKeys.idxOf key := by
        rw [approverIndex, hkey, Option.elim_some]
      rw [hindex]
      refine hall user signature key hsig hkey fun user' huser' hkey' => hlast user' huser' ?_
      exact (approverIndex_inj hmade hkey (hknown user' huser')).mpr hkey'

/-! ## Events -/

/-- The approval that reaches the threshold of a request of our own is approvable. -/
def SafeApproval (E : Externals) (ourId : RpcUserId) (db : MultispendDb) (e : RoomEvent) : Prop :=
  ∀ request signature group state, e.event = .withdrawalResponse request (.approve signature) →
    getFinalizedGroupDb db e.roomId = some group →
    db.withdrawRequests.get? ⟨e.roomId, request⟩ = some state → state.sender = ourId →
    state.checkCanVote e.sender group = true →
    (state.signatures.insert e.sender signature).len = group.invitation.threshold →
    Approvable group E.crypto state.request (state.signatures.insert e.sender signature)

theorem approvalOutcome_eq_approved {signatures threshold : ℕ} :
    WithdrawRequestWithApprovals.approvalOutcome signatures threshold = .approved ↔ signatures = threshold := by
  unfold WithdrawRequestWithApprovals.approvalOutcome
  rcases lt_trichotomy signatures threshold with h | h | h
  · rw [compare_lt_iff_lt.mpr h]
    simp [h.ne]
  · rw [compare_eq_iff_eq.mpr h]
    simp [h]
  · rw [compare_gt_iff_gt.mpr h]
    simp [h.ne']

/-- Only an approval reaches the approved outcome, by its number of signatures. -/
theorem processResponse_approved {state state' : WithdrawRequestWithApprovals} {sender : RpcUserId}
    {response : WithdrawalResponseType} {group : FinalizedGroup}
    {outcome : WithdrawalProcessResponseOutcome}
    (h : state.processResponse sender response group = some (outcome, state')) (happ : outcome = .approved) :
    ∃ signature, response = .approve signature ∧ state.checkCanVote sender group = true ∧
      state' = { state with signatures := state.signatures.insert sender signature } ∧
      (state.signatures.insert sender signature).len = group.invitation.threshold := by
  unfold WithdrawRequestWithApprovals.processResponse at h
  cases response with
  | approve signature =>
    dsimp only at h
    split_ifs at h with hcan
    cases h
    exact ⟨signature, rfl, hcan, rfl, approvalOutcome_eq_approved.mp happ⟩
  | reject =>
    dsimp only at h
    split_ifs at h
    cases h
    cases happ
  | complete fiatAmount txid =>
    dsimp only at h
    split_ifs at h
    cases h
    cases happ
  | txRejected error =>
    dsimp only at h
    split_ifs at h
    cases h
    cases happ

theorem processResponse_approve {state : WithdrawRequestWithApprovals} {sender : RpcUserId}
    {signature : Signature} {group : FinalizedGroup} (hcan : state.checkCanVote sender group = true)
    (hlen : (state.signatures.insert sender signature).len = group.invitation.threshold) :
    state.processResponse sender (.approve signature) group =
      some (.approved, { state with signatures := state.signatures.insert sender signature }) := by
  unfold WithdrawRequestWithApprovals.processResponse
  dsimp only
  rw [if_pos hcan, approvalOutcome_eq_approved.mpr hlen]

/-- A branch that returns or marks the event invalid does not panic. -/
def Quiet (b : Branch) : Prop := ∀ p, b ≠ .error (.panic p)

theorem applyRoomEvent_ok_iff_quiet {E : Externals} {ourId : RpcUserId} {db : MultispendDb} {e : RoomEvent} :
    (∃ db', applyRoomEvent E ourId db e = .ok db') ↔
      Quiet (processEventDbRaw E db e.roomId e.sender e.eventId (.new ourId) e.event e.eventTime) := by
  unfold applyRoomEvent processEventDb Quiet
  cases h : processEventDbRaw E db e.roomId e.sender e.eventId (.new ourId) e.event e.eventTime with
  | ok r => simp [Except.map]
  | error f =>
    cases f with
    | invalidMessage context => simp [Except.map]
    | panic p => simp [Except.map]

section

variable {E : Externals} {db : MultispendDb} {roomId : RpcRoomId} {sender : RpcUserId}
  {eventId : RpcEventId} {context : MultispendContext}

theorem processGroupInvitation_quiet (invitation : GroupInvitation) (proposerPubkey : PublicKey) :
    Quiet (processGroupInvitation E db roomId sender eventId context invitation proposerPubkey) := by
  intro p hp
  unfold processGroupInvitation at hp
  split at hp
  · cases hp
  · split at hp <;> cases hp

theorem processGroupReannounce_quiet (invitationId : RpcEventId) (invitation : GroupInvitation)
    (proposer : RpcUserId) (pubkeys : BTreeMap RpcUserId PublicKey) (rejections : BTreeSet RpcUserId) :
    Quiet (processGroupReannounce E db roomId context invitationId invitation proposer pubkeys rejections) := by
  intro p hp
  unfold processGroupReannounce at hp
  split at hp
  · cases hp
  · split at hp <;> cases hp

theorem processGroupInvitationVote_quiet (invitation : RpcEventId) (vote : MultispendGroupVoteType) :
    Quiet (processGroupInvitationVote db roomId sender context invitation vote) := by
  intro p hp
  unfold processGroupInvitationVote at hp
  split at hp
  · split at hp
    · cases hp
    · split at hp <;> cases hp
  · cases hp

theorem processGroupInvitationCancel_quiet (invitation : RpcEventId) :
    Quiet (processGroupInvitationCancel db roomId context invitation) := by
  intro p hp
  unfold processGroupInvitationCancel at hp
  split at hp <;> cases hp

theorem processWithdrawalRequest_quiet (eventTime : ℕ) (request : TransferRequest) (description : String) :
    Quiet (processWithdrawalRequest db roomId sender eventId context eventTime request description) := by
  intro p hp
  unfold processWithdrawalRequest at hp
  split at hp <;> cases hp

theorem processDepositNotification_quiet (eventTime fiatAmount : ℕ) (txid : TransactionId)
    (description : String) :
    Quiet (processDepositNotification db roomId sender eventId context eventTime fiatAmount txid
      description) := by
  intro p hp
  unfold processDepositNotification at hp
  dsimp only at hp
  split at hp <;> cases hp

theorem recordResponse_quiet_iff {request : RpcEventId} {group : FinalizedGroup}
    {outcome : WithdrawalProcessResponseOutcome} {state : WithdrawRequestWithApprovals} :
    Quiet (recordResponse E db roomId context request group outcome state) ↔
      (outcome = .approved → context.ourId = state.sender →
        ∃ key, approvedRequest E.crypto roomId request group state = .ok key) := by
  unfold recordResponse Quiet
  dsimp only
  by_cases hcase : outcome = .approved ∧ context.ourId = state.sender
  · rw [if_pos hcase]
    cases hkey : approvedRequest E.crypto roomId request group state with
    | ok key => simp
    | error p => simpa using hcase
  · rw [if_neg hcase]
    refine iff_of_true (fun p hp => ?_) fun happ hour => absurd ⟨happ, hour⟩ hcase
    split_ifs at hp

/-- A response panics only where the queued row cannot be built. -/
theorem processWithdrawalResponse_quiet_iff {request : RpcEventId} {response : WithdrawalResponseType} :
    Quiet (processWithdrawalResponse E db roomId sender context request response) ↔
      ∀ group state outcome state', getFinalizedGroupDb db roomId = some group →
        db.withdrawRequests.get? ⟨roomId, request⟩ = some state →
        state.processResponse sender response group = some (outcome, state') →
        outcome = .approved → context.ourId = state'.sender →
        ∃ key, approvedRequest E.crypto roomId request group state' = .ok key := by
  have hinvalid : Quiet (.error (.invalidMessage context)) := by
    intro p hp
    cases hp
  unfold processWithdrawalResponse
  cases hgroup : getFinalizedGroupDb db roomId with
  | none => exact iff_of_true hinvalid (by intro group _ _ _ hg; cases hg)
  | some group =>
    cases hstate : db.withdrawRequests.get? ⟨roomId, request⟩ with
    | none => exact iff_of_true hinvalid (by intro _ state _ _ _ hs; cases hs)
    | some state =>
      cases hresponse : state.processResponse sender response group with
      | none =>
        simp only [hresponse]
        refine iff_of_true hinvalid ?_
        intro group' state1 outcome' state2 hg hs hr
        cases hg
        cases hs
        rw [hresponse] at hr
        cases hr
      | some r =>
        obtain ⟨outcome, state'⟩ := r
        simp only [hresponse]
        rw [recordResponse_quiet_iff]
        constructor
        · intro hok group' state1 outcome' state2 hg hs hr
          cases hg
          cases hs
          rw [hresponse] at hr
          cases hr
          exact hok
        · intro hok
          exact hok group state outcome state' rfl rfl hresponse

end

/-- An event panics exactly when it is an unsafe approval. -/
theorem applyRoomEvent_ok_iff {E : Externals} {ourId : RpcUserId} {evs : List RoomEvent} {db : MultispendDb}
    (hinv : GroupsInv evs db) (e : RoomEvent) :
    (∃ db', applyRoomEvent E ourId db e = .ok db') ↔ SafeApproval E ourId db e := by
  rw [applyRoomEvent_ok_iff_quiet]
  have hmade : ∀ group, getFinalizedGroupDb db e.roomId = some group → ∃ made, MadeFrom made group := by
    intro group hgroup
    unfold getFinalizedGroupDb at hgroup
    split at hgroup
    · next id g hstatus =>
      cases hgroup
      obtain ⟨made, -, hfinal⟩ := hinv.finalized e.roomId id group hstatus
      exact ⟨made, toFinalized_ok hfinal⟩
    · cases hgroup
  have hother : (∀ request signature, e.event ≠ .withdrawalResponse request (.approve signature)) →
      SafeApproval E ourId db e := by
    intro hne request signature _ _ he
    exact absurd he (hne request signature)
  unfold processEventDbRaw
  cases he : e.event with
  | groupInvitation invitation proposerPubkey =>
    exact iff_of_true (processGroupInvitation_quiet _ _) (hother fun _ _ => by rw [he]; nofun)
  | groupReannounce invitationId invitation proposer pubkeys rejections =>
    exact iff_of_true (processGroupReannounce_quiet _ _ _ _ _) (hother fun _ _ => by rw [he]; nofun)
  | groupInvitationVote invitation vote =>
    exact iff_of_true (processGroupInvitationVote_quiet _ _) (hother fun _ _ => by rw [he]; nofun)
  | groupInvitationCancel invitation =>
    exact iff_of_true (processGroupInvitationCancel_quiet _) (hother fun _ _ => by rw [he]; nofun)
  | withdrawalRequest request description =>
    exact iff_of_true (processWithdrawalRequest_quiet _ _ _) (hother fun _ _ => by rw [he]; nofun)
  | depositNotification fiatAmount txid description =>
    exact iff_of_true (processDepositNotification_quiet _ _ _ _) (hother fun _ _ => by rw [he]; nofun)
  | withdrawalResponse request response =>
    show Quiet (processWithdrawalResponse E db e.roomId e.sender (.new ourId) request response) ↔ _
    rw [processWithdrawalResponse_quiet_iff]
    constructor
    · intro hok request' signature group state heq hgroup hstate hour hcan hlen
      rw [he] at heq
      cases heq
      obtain ⟨made, hmade⟩ := hmade group hgroup
      exact (approvedRequest_iff hmade).mp
        (hok group state _ _ hgroup hstate (processResponse_approve hcan hlen) rfl hour.symm)
    · intro hsafe group state outcome state' hgroup hstate hresponse happ hour
      obtain ⟨signature, rfl, hcan, rfl, hlen⟩ := processResponse_approved hresponse happ
      obtain ⟨made, hmade⟩ := hmade group hgroup
      exact (approvedRequest_iff hmade).mpr
        (hsafe request signature group state he hgroup hstate hour.symm hcan hlen)

/-- Scanning room events never panics exactly when every approval that reaches the
threshold of a request of our own is approvable in the database before it. -/
theorem scan_never_panics_iff (E : Externals) (ourId : RpcUserId) (evs : List RoomEvent) :
    (∃ db, scan E ourId .empty evs = .ok db) ↔
      ∀ pre e post, evs = pre ++ e :: post → ∀ db, scan E ourId .empty pre = .ok db →
        SafeApproval E ourId db e := by
  unfold scan
  rw [exists_run_iff]
  constructor
  · intro h pre e post hevs db hpre
    exact (applyRoomEvent_ok_iff (groupsInv_of_scan hpre) e).mp (h pre e post hevs db hpre)
  · intro h pre e post hevs db hpre
    exact (applyRoomEvent_ok_iff (groupsInv_of_scan hpre) e).mpr (h pre e post hevs db hpre)

/-- The account of the keys of users 1 and 2; one signature is enough. -/
def demoGroupAccount : Account := ⟨.seeker, [10, 20], 1, by decide, by decide, by decide⟩

/-- User 1 asks to pay 5 from the group account and user 2 approves with `signature`. -/
def demoWithdrawal (signature : Signature) : List RoomEvent :=
  demoGroup 1 ++
    [demoEvent 1 102 (.withdrawalRequest ⟨50, demoGroupAccount, 5, ⟨.seeker, 9⟩, [], 1, none⟩ "rent"),
      demoEvent 2 103 (.withdrawalResponse 102 (.approve signature))]

/-- The approval of another member carries any bytes as its signature; with the signature of that member's key the
same scan goes through. -/
theorem scan_panics_on_forged_signature :
    scan demoExternals 1 .empty (demoWithdrawal 0) = .error .unwrapOnErr ∧
      ∃ db, scan demoExternals 1 .empty (demoWithdrawal 70) = .ok db := by
  constructor
  · decide +kernel
  · exact exists_of_succeeds (by decide +kernel)

end Multispend
