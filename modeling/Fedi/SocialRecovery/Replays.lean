import Fedi.SocialRecovery.Binding

/-!
# Replayed and hostile requests

Every call is answered, rows only move to newer requests, a request that was handled before
changes nothing when it comes again, and a ciphertext stays with its first id.  All of this
holds exactly when no recovery request with a document shorter than a checksum gets to the
comparison with its backup (`storeSafe_iff`): `VerificationDocument::id` slices the document,
and nothing checks its length after deserialisation.
-/

namespace SocialRecovery

open BTreeMaps Runs

section

variable (lib : Primitives)

/-! ## What is promised -/

/-- The call succeeds, or fails without a panic and leaves the tables. -/
def Answered (db : GuardianDb) (call : Call) : Prop :=
  (∃ db', endpoint lib db call = .ok db') ∨
    ∃ failure, endpoint lib db call = .error failure ∧ failure ≠ .panicked ∧ step lib db call = db

/-- Rows stay, or are replaced by newer ones. -/
def RowsAdvance {Request : Type} (timestamp : Request → Timestamp) (rows rows' : BTreeMap PublicKey Request) : Prop :=
  ∀ id prev, rows.get? id = some prev →
    ∃ next, rows'.get? id = some next ∧ (next = prev ∨ timestamp prev < timestamp next)

/-- A request that its author signs, not an approval by the guardian. -/
def Call.Signed : Call → Prop
  | .backup _ => True
  | .recover _ => True
  | .approveRecovery _ _ _ => False

/-- The recovery request came before a backup that it fits. -/
def TooEarly (answer : Except Failure GuardianDb) : Prop :=
  answer = .error (.badRequest "invalid request: backup id not found") ∨
    answer = .error (.badRequest "invalid request: verification document does not match")

structure StoreSafe (calls : List Call) : Prop where
  answered : ∀ n call, calls[n]? = some call → Answered lib (guardian lib (calls.take n)) call
  backups : ∀ m n, m ≤ n → RowsAdvance BackupRequest.timestamp (guardian lib (calls.take m)).backups
    (guardian lib (calls.take n)).backups
  recoveries : ∀ m n, m ≤ n → RowsAdvance RecoveryRequest.timestamp (guardian lib (calls.take m)).recoveries
    (guardian lib (calls.take n)).recoveries
  replayed : ∀ m n call, m < n → call.Signed → calls[m]? = some call →
    ¬ TooEarly (endpoint lib (guardian lib (calls.take m)) call) →
    step lib (guardian lib (calls.take n)) call = guardian lib (calls.take n)
  seeds : ∀ m n id id' backup backup', (guardian lib (calls.take m)).backups.get? id = some backup →
    (guardian lib (calls.take n)).backups.get? id' = some backup' →
    backup.doubleEncryptedSeed = backup'.doubleEncryptedSeed → id = id'

/-! ## The condition -/

/-- The document of a validly signed recovery request for a stored backup is as long as a checksum. -/
def LongEnough (db : GuardianDb) (call : Call) : Prop :=
  ∀ signed, call = .recover signed → signed.verifyValid lib = true →
    (db.backups.get? signed.request.id).isSome → hashLength ≤ signed.request.verificationDoc.data.length

variable {lib} {db db' : GuardianDb}

/-! ## Panics -/

theorem supersedes_ne_panicked {Request : Type} [DecidableEq Request] (timestamp : Request → Timestamp)
    (message : String) (prev : Option Request) (request : Request) :
    supersedes timestamp message prev request ≠ .error .panicked := by
  unfold supersedes
  split
  · simp
  · split
    · simp
    · split <;> simp

theorem handleBackup_ne_panicked (signed : SignedBackupRequest) : handleBackup lib db signed ≠ .error .panicked := by
  unfold handleBackup
  split
  · intro h
    rcases bind_eq_error.mp h with hover | ⟨goesOver, -, h⟩
    · exact supersedes_ne_panicked _ _ _ _ hover
    · split at h
      · split at h <;> cases h
      · cases h
  · simp

/-- The slice of `id` is out of range. -/
theorem id_panicked_iff {doc : VerificationDocument} : doc.id = .error .panicked ↔ doc.data.length < hashLength := by
  unfold VerificationDocument.id
  by_cases h : hashLength ≤ doc.data.length
  · simp only [h, dite_true, reduceCtorEq, false_iff]
    omega
  · simp only [h, dite_false, true_iff]
    omega

theorem handleRecover_panicked_iff (signed : SignedRecoveryRequest) :
    handleRecover lib db signed = .error .panicked ↔
      signed.verifyValid lib = true ∧ (db.backups.get? signed.request.id).isSome ∧
        signed.request.verificationDoc.data.length < hashLength := by
  unfold handleRecover
  by_cases hvalid : signed.verifyValid lib = true
  · rw [if_pos hvalid]
    dsimp only
    cases hbackup : db.backups.get? signed.request.id with
    | none => simp
    | some backup =>
      simp only [hvalid, Option.isSome_some, true_and]
      rw [← id_panicked_iff]
      constructor
      · intro h
        rcases bind_eq_error.mp h with hid | ⟨declared, -, h⟩
        · exact hid
        · split at h
          · cases h
          · rcases bind_eq_error.mp h with hover | ⟨goesOver, -, h⟩
            · exact absurd hover (supersedes_ne_panicked _ _ _ _)
            · split at h <;> cases h
      · intro hid
        exact bind_eq_error.mpr (.inl hid)
  · simp [hvalid]

theorem handleApproveRecovery_ne_panicked (id : PublicKey) (nonce : ℕ) :
    handleApproveRecovery lib db id nonce ≠ .error .panicked := by
  intro h
  unfold handleApproveRecovery at h
  split at h
  · split at h
    · split at h <;> cases h
    · cases h
  · cases h

/-- An endpoint panics on a document that is too short, and on nothing else. -/
theorem endpoint_panicked_iff (call : Call) :
    endpoint lib db call = .error .panicked ↔ ¬ LongEnough lib db call := by
  unfold LongEnough endpoint
  cases call with
  | backup signed => simpa using handleBackup_ne_panicked signed
  | recover signed =>
    simp only [handleRecover_panicked_iff, Call.recover.injEq, forall_eq']
    constructor
    · rintro ⟨hvalid, hbackup, hshort⟩ hlong
      have := hlong hvalid hbackup
      omega
    · intro hnot
      simp only [not_forall] at hnot
      obtain ⟨hvalid, hbackup, hshort⟩ := hnot
      exact ⟨hvalid, hbackup, by omega⟩
  | approveRecovery authenticated id nonce =>
    simp only [reduceCtorEq, false_implies, implies_true, not_true_eq_false, iff_false]
    intro h
    cases authenticated with
    | false => cases h
    | true =>
      rcases bind_eq_error.mp h with happroved | ⟨approved, -, h⟩
      · exact handleApproveRecovery_ne_panicked id nonce happroved
      · cases h

theorem answered_iff (call : Call) : Answered lib db call ↔ LongEnough lib db call := by
  rw [← not_iff_not, ← endpoint_panicked_iff]
  unfold Answered
  constructor
  · intro h
    simp only [not_or, not_exists, not_and] at h
    cases hanswer : endpoint lib db call with
    | ok db' => exact absurd hanswer (h.1 db')
    | error failure =>
      by_contra hne
      have hstep : step lib db call = db := by
        unfold step
        rw [hanswer]
      exact h.2 failure hanswer (fun heq => hne (by rw [heq])) hstep
  · intro hpanic h
    rcases h with ⟨db', hok⟩ | ⟨failure, hfails, hne, -⟩
    · rw [hpanic] at hok
      cases hok
    · rw [hpanic] at hfails
      cases hfails
      exact hne rfl

/-! ## What a call does to the tables -/

/-- A call stores an accepted request, or leaves everything but the decryption shares. -/
theorem step_cases (call : Call) :
    (∃ signed, call = .backup signed ∧ db.AcceptsBackup lib signed ∧
      step lib db call = db.storeBackup signed.request) ∨
    (∃ signed, call = .recover signed ∧ db.AcceptsRecovery lib signed ∧
      step lib db call = db.storeRecovery signed.request) ∨
    ∃ shares, step lib db call = { db with decryptionShares := shares } := by
  cases call with
  | backup signed =>
    rcases @step_backup lib db signed with ⟨haccepts, hstep⟩ | ⟨-, hstep⟩
    · exact .inl ⟨signed, rfl, haccepts, hstep⟩
    · exact .inr (.inr ⟨db.decryptionShares, hstep⟩)
  | recover signed =>
    rcases @step_recover lib db signed with ⟨haccepts, hstep⟩ | ⟨-, hstep⟩
    · exact .inr (.inl ⟨signed, rfl, haccepts, hstep⟩)
    · exact .inr (.inr ⟨db.decryptionShares, hstep⟩)
  | approveRecovery authenticated id nonce =>
    refine .inr (.inr ?_)
    unfold step
    split
    next db' hok =>
      unfold endpoint at hok
      cases authenticated with
      | false => cases hok
      | true =>
        obtain ⟨⟨doc, db''⟩, happroved, hpure⟩ := bind_eq_ok.mp hok
        obtain ⟨recovery, backup, share, -, -, -, -, rfl⟩ := handleApproveRecovery_ok happroved
        cases hpure
        exact ⟨_, rfl⟩
    · exact ⟨db.decryptionShares, rfl⟩

theorem rowsAdvance_refl {Request : Type} (timestamp : Request → Timestamp) (rows : BTreeMap PublicKey Request) :
    RowsAdvance timestamp rows rows := fun _ prev hprev => ⟨prev, hprev, .inl rfl⟩

theorem RowsAdvance.trans {Request : Type} {timestamp : Request → Timestamp}
    {rows rows' rows'' : BTreeMap PublicKey Request} (h : RowsAdvance timestamp rows rows')
    (h' : RowsAdvance timestamp rows' rows'') : RowsAdvance timestamp rows rows'' := by
  intro id prev hprev
  obtain ⟨next, hnext, hadvance⟩ := h id prev hprev
  obtain ⟨last, hlast, hadvance'⟩ := h' id next hnext
  refine ⟨last, hlast, ?_⟩
  rcases hadvance' with rfl | hlater
  · exact hadvance
  · rcases hadvance with rfl | hadvance
    · exact .inr hlater
    · exact .inr (hadvance.trans hlater)

theorem rowsAdvance_insert {Request : Type} {timestamp : Request → Timestamp} {rows : BTreeMap PublicKey Request}
    {id : PublicKey} {request : Request} (h : Supersedes timestamp (rows.get? id) request) :
    RowsAdvance timestamp rows (rows.insert id request) := by
  intro id' prev hprev
  rw [BTreeMap.get?_insert]
  by_cases hid : id' = id
  · rw [if_pos hid]
    rw [hid] at hprev
    exact ⟨request, rfl, .inr (h prev hprev).2⟩
  · rw [if_neg hid]
    exact ⟨prev, hprev, .inl rfl⟩

/-- A row that a request may not go over keeps it out for good. -/
theorem RowsAdvance.not_supersedes {Request : Type} {timestamp : Request → Timestamp}
    {rows rows' : BTreeMap PublicKey Request} (h : RowsAdvance timestamp rows rows') {id : PublicKey}
    {request : Request} (hnot : ¬ Supersedes timestamp (rows.get? id) request) :
    ¬ Supersedes timestamp (rows'.get? id) request := by
  intro hover
  apply hnot
  intro prev hprev
  obtain ⟨next, hnext, hadvance⟩ := h id prev hprev
  obtain ⟨hne, hlater⟩ := hover next hnext
  rcases hadvance with rfl | hadvance
  · exact ⟨hne, hlater⟩
  · refine ⟨?_, hadvance.trans hlater⟩
    rintro rfl
    exact absurd hlater hadvance.asymm

/-- What earlier and later tables of a run share. -/
structure Advances (db db' : GuardianDb) : Prop where
  backups : RowsAdvance BackupRequest.timestamp db.backups db'.backups
  recoveries : RowsAdvance RecoveryRequest.timestamp db.recoveries db'.recoveries
  used : ∀ seed id, db.usedDoubleEncryptedData.get? seed = some id → db'.usedDoubleEncryptedData.get? seed = some id

theorem advances_refl (db : GuardianDb) : Advances db db where
  backups := rowsAdvance_refl _ _
  recoveries := rowsAdvance_refl _ _
  used := fun _ _ h => h

theorem Advances.trans {db'' : GuardianDb} (h : Advances db db') (h' : Advances db' db'') : Advances db db'' where
  backups := h.backups.trans h'.backups
  recoveries := h.recoveries.trans h'.recoveries
  used := fun seed id hused => h'.used seed id (h.used seed id hused)

theorem advances_step (call : Call) : Advances db (step lib db call) := by
  rcases @step_cases lib db call with ⟨signed, -, haccepts, hstep⟩ | ⟨signed, -, haccepts, hstep⟩ | ⟨shares, hstep⟩
  · rw [hstep]
    refine ⟨rowsAdvance_insert haccepts.2.1, rowsAdvance_refl _ _, fun seed id hused => ?_⟩
    unfold GuardianDb.storeBackup
    dsimp only
    rw [BTreeMap.get?_insert, if_neg]
    · exact hused
    · rintro rfl
      rw [haccepts.2.2] at hused
      cases hused
  · rw [hstep]
    exact ⟨rowsAdvance_refl _ _, rowsAdvance_insert haccepts.2.2, fun _ _ h => h⟩
  · rw [hstep]
    exact ⟨rowsAdvance_refl _ _, rowsAdvance_refl _ _, fun _ _ h => h⟩

theorem advances_of_run (calls : List Call) {m n : ℕ} (h : m ≤ n) :
    Advances (guardian lib (calls.take m)) (guardian lib (calls.take n)) :=
  moments_rel advances_refl (fun _ _ _ => Advances.trans) (fun _ call => advances_step call) h

/-! ## Replays -/

/-- A backup request that was handled is not accepted again. -/
theorem Advances.refuses_backup {signed : SignedBackupRequest}
    (h : Advances (step lib db (.backup signed)) db') : ¬ db'.AcceptsBackup lib signed := by
  rintro ⟨hvalid, hover, hunused⟩
  rcases @step_backup lib db signed with ⟨-, hstep⟩ | ⟨hrefused, hstep⟩
  · rw [hstep] at h
    have hused := h.used signed.request.doubleEncryptedSeed signed.request.id (BTreeMap.get?_insert_self _ _ _)
    rw [hunused] at hused
    cases hused
  · rw [hstep] at h
    refine hrefused ⟨hvalid, ?_, ?_⟩
    · by_contra hnot
      exact h.backups.not_supersedes hnot hover
    · by_contra hused
      obtain ⟨id, hused⟩ := Option.ne_none_iff_exists'.mp hused
      rw [h.used _ id hused] at hunused
      cases hunused

/-- What keeps a recovery request out but for the backup. -/
theorem refuses_recovery {signed : SignedRecoveryRequest} (hrefused : ¬ db.AcceptsRecovery lib signed)
    (htimely : ¬ TooEarly (endpoint lib db (.recover signed))) :
    signed.verifyValid lib = false ∨ signed.request.verificationDoc.data.length < hashLength ∨
      ¬ Supersedes RecoveryRequest.timestamp (db.recoveries.get? signed.request.id) signed.request := by
  by_cases hvalid : signed.verifyValid lib = true
  · refine .inr ?_
    unfold TooEarly endpoint handleRecover at htimely
    simp only [hvalid, if_true] at htimely
    cases hbackup : db.backups.get? signed.request.id with
    | none => simp [hbackup] at htimely
    | some backup =>
      by_cases hshort : signed.request.verificationDoc.data.length < hashLength
      · exact .inl hshort
      · refine .inr fun hover => hrefused ⟨hvalid, ⟨backup, hbackup, ?_⟩, hover⟩
        have hid : ∃ declared, signed.request.verificationDoc.id = .ok declared := by
          unfold VerificationDocument.id
          rw [dif_pos (by omega)]
          exact ⟨_, rfl⟩
        obtain ⟨declared, hdeclared⟩ := hid
        by_contra hne
        rw [hdeclared] at hne
        have hdiffers : declared ≠ backup.verificationDocHash := fun heq => hne (by rw [heq])
        simp only [hbackup, hdeclared, ok_bind, hdiffers, ne_eq, not_false_eq_true, if_true, or_true,
          not_true_eq_false] at htimely
  · exact .inl (by simpa using hvalid)

/-- A recovery request that was handled is not accepted again. -/
theorem Advances.refuses_recovery {signed : SignedRecoveryRequest}
    (h : Advances (step lib db (.recover signed)) db') (htimely : ¬ TooEarly (endpoint lib db (.recover signed))) :
    ¬ db'.AcceptsRecovery lib signed := by
  rintro ⟨hvalid, ⟨backup, -, hdeclared⟩, hover⟩
  rcases @step_recover lib db signed with ⟨-, hstep⟩ | ⟨hrefused, hstep⟩
  · rw [hstep] at h
    obtain ⟨next, hnext, hadvance⟩ := h.recoveries signed.request.id signed.request (BTreeMap.get?_insert_self _ _ _)
    obtain ⟨hne, hlater⟩ := hover next hnext
    rcases hadvance with rfl | hadvance
    · exact hne rfl
    · exact absurd hlater hadvance.asymm
  · rw [hstep] at h
    rcases SocialRecovery.refuses_recovery hrefused htimely with hinvalid | hshort | hnot
    · rw [hvalid] at hinvalid
      cases hinvalid
    · rw [id_panicked_iff.mpr hshort] at hdeclared
      cases hdeclared
    · exact h.recoveries.not_supersedes hnot hover

/-- A signed request that was handled changes nothing later. -/
theorem Advances.replayed {call : Call} (h : Advances (step lib db call) db') (hsigned : call.Signed)
    (htimely : ¬ TooEarly (endpoint lib db call)) : step lib db' call = db' := by
  cases call with
  | backup signed =>
    rcases @step_backup lib db' signed with ⟨haccepts, -⟩ | ⟨-, hstep⟩
    · exact absurd haccepts h.refuses_backup
    · exact hstep
  | recover signed =>
    rcases @step_recover lib db' signed with ⟨haccepts, -⟩ | ⟨-, hstep⟩
    · exact absurd haccepts (h.refuses_recovery htimely)
    · exact hstep
  | approveRecovery => exact hsigned.elim

/-! ## Ciphertexts -/

/-- The ciphertext of a stored backup is marked as used by its id. -/
def SeedsUsed (db : GuardianDb) : Prop :=
  ∀ id backup, db.backups.get? id = some backup →
    db.usedDoubleEncryptedData.get? backup.doubleEncryptedSeed = some id

theorem seedsUsed_step (h : SeedsUsed db) (call : Call) : SeedsUsed (step lib db call) := by
  rcases @step_cases lib db call with ⟨signed, -, haccepts, hstep⟩ | ⟨signed, -, -, hstep⟩ | ⟨shares, hstep⟩
  · have hadvances : Advances db (step lib db call) := advances_step call
    have hkept := hadvances.used
    intro id backup hbackup
    rw [hstep] at hbackup hkept ⊢
    unfold GuardianDb.storeBackup at hbackup
    dsimp only at hbackup
    rw [BTreeMap.get?_insert] at hbackup
    by_cases hid : id = signed.request.id
    · rw [if_pos hid] at hbackup
      cases hbackup
      rw [hid]
      exact BTreeMap.get?_insert_self _ _ _
    · rw [if_neg hid] at hbackup
      exact hkept _ _ (h id backup hbackup)
  · rw [hstep]
    exact h
  · rw [hstep]
    exact h

theorem seedsUsed_of_run (calls : List Call) (n : ℕ) : SeedsUsed (guardian lib (calls.take n)) := by
  refine @moments_induction _ _ (step lib) GuardianDb.empty calls SeedsUsed (fun _ _ => True) ?_ ?_ ?_ n
  · intro id backup hbackup
    cases hbackup
  · exact fun db call h _ => seedsUsed_step h call
  · exact fun _ _ _ => trivial

theorem SeedsUsed.same_id (h : SeedsUsed db) (h' : SeedsUsed db') (hadvances : Advances db db') {id id' : PublicKey}
    {backup backup' : BackupRequest} (hbackup : db.backups.get? id = some backup)
    (hbackup' : db'.backups.get? id' = some backup')
    (hseed : backup.doubleEncryptedSeed = backup'.doubleEncryptedSeed) : id = id' := by
  have hused := hadvances.used _ _ (h id backup hbackup)
  have hused' := h' id' backup' hbackup'
  rw [hseed, hused'] at hused
  exact (Option.some.inj hused).symm

/-! ## Runs -/

/-- A sequence of calls keeps every promise exactly when no recovery request with a document shorter than a
checksum gets to its backup. -/
theorem storeSafe_iff (lib : Primitives) (calls : List Call) :
    StoreSafe lib calls ↔ ∀ n call, calls[n]? = some call → LongEnough lib (guardian lib (calls.take n)) call := by
  constructor
  · intro h n call hcall
    exact (answered_iff call).mp (h.answered n call hcall)
  · intro hlong
    constructor
    case answered => exact fun n call hcall => (answered_iff call).mpr (hlong n call hcall)
    case backups => exact fun m n hmn => (advances_of_run calls hmn).backups
    case recoveries => exact fun m n hmn => (advances_of_run calls hmn).recoveries
    case replayed =>
      intro m n call hmn hsigned hcall htimely
      have hadvances := @advances_of_run lib calls (m + 1) n hmn
      unfold guardian at hadvances
      rw [foldl_take_succ hcall] at hadvances
      exact hadvances.replayed hsigned htimely
    case seeds =>
      intro m n id id' backup backup' hbackup hbackup' hseed
      rcases le_total m n with hmn | hnm
      · exact (seedsUsed_of_run calls m).same_id (seedsUsed_of_run calls n) (advances_of_run calls hmn) hbackup
          hbackup' hseed
      · exact ((seedsUsed_of_run calls n).same_id (seedsUsed_of_run calls m) (advances_of_run calls hnm) hbackup'
          hbackup hseed.symm).symm

end

/-- A backup, and a recovery that presents an empty document. -/
def emptyDocument : List Call :=
  [ .backup ⟨⟨1, 10, plainPrimitives.sha256 [7], 100⟩, 0⟩,
    .recover ⟨⟨1, 20, 5, ⟨[]⟩⟩, 0⟩ ]

theorem emptyDocument_panics : ¬ ∀ lib calls, StoreSafe lib calls := by
  intro h
  have hanswered := (h plainPrimitives emptyDocument).answered 1 (.recover ⟨⟨1, 20, 5, ⟨[]⟩⟩, 0⟩) rfl
  have hlong := (answered_iff _).mp hanswered _ rfl rfl (by decide +kernel)
  exact absurd hlong (by decide)

end SocialRecovery
