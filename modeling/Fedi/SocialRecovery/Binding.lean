import Fedi.Lib.Runs
import Fedi.SocialRecovery.Guardian

/-!
# What an approval vouches for

A guardian looks at the document of the stored recovery request and approves; the share then
decrypts the seed of the stored backup.  The document's content is the one that this backup
names at every moment of a run exactly when

* every recovery request that is stored carries a document whose content has the checksum
  that it declares, and
* every backup that is stored over a recovery request names the content of its document

(`approvalBound_iff_of_run`).  Neither is checked: `handle_recover` compares the declared
checksum only, and `handle_backup` does not look at the recovery.
-/

namespace SocialRecovery

open BTreeMaps Runs

section

variable (lib : Primitives)

/-! ## What is promised -/

/-- An approval that stores a share decrypts the backup whose document the recovery presents. -/
def ApprovalBound (db : GuardianDb) : Prop :=
  ∀ id nonce doc db', handleApproveRecovery lib db id nonce = .ok (doc, db') →
    ∃ recovery backup share, db.recoveries.get? id = some recovery ∧ db.backups.get? id = some backup ∧
      lib.decryptShare backup.doubleEncryptedSeed = some share ∧
      db'.decryptionShares.get? id =
        some (lib.encryptToEphemeral share recovery.recoverySessionEncryptionKey nonce) ∧
      lib.sha256 recovery.verificationDoc.rawData = backup.verificationDocHash

/-! ## The condition -/

/-- A request goes over a row of an older, different request. -/
def Supersedes {Request : Type} (timestamp : Request → Timestamp) (prev : Option Request) (request : Request) : Prop :=
  ∀ p, prev = some p → p ≠ request ∧ timestamp p < timestamp request

/-- The checks of `handle_backup` that let a request through to the tables. -/
def GuardianDb.AcceptsBackup (db : GuardianDb) (signed : SignedBackupRequest) : Prop :=
  signed.verifyValid lib = true ∧
    Supersedes BackupRequest.timestamp (db.backups.get? signed.request.id) signed.request ∧
    db.usedDoubleEncryptedData.get? signed.request.doubleEncryptedSeed = none

/-- The checks of `handle_recover` that let a request through to the tables. -/
def GuardianDb.AcceptsRecovery (db : GuardianDb) (signed : SignedRecoveryRequest) : Prop :=
  signed.verifyValid lib = true ∧
    (∃ backup, db.backups.get? signed.request.id = some backup ∧
      signed.request.verificationDoc.id = .ok backup.verificationDocHash) ∧
    Supersedes RecoveryRequest.timestamp (db.recoveries.get? signed.request.id) signed.request

/-- The missing checks, as far as the guardian's key share decrypts the backup at all. -/
def KeepsBinding (db : GuardianDb) : Call → Prop
  | .backup signed => db.AcceptsBackup lib signed →
      (lib.decryptShare signed.request.doubleEncryptedSeed).isSome →
      ∀ recovery, db.recoveries.get? signed.request.id = some recovery →
        signed.request.verificationDocHash = lib.sha256 recovery.verificationDoc.rawData
  | .recover signed => db.AcceptsRecovery lib signed →
      (∃ backup, db.backups.get? signed.request.id = some backup ∧
        (lib.decryptShare backup.doubleEncryptedSeed).isSome) →
      signed.request.verificationDoc.verifyIntegrity lib.sha256 = .ok ()
  | .approveRecovery _ _ _ => True

/-! ## The invariant -/

/-- Where an approval can decrypt the backup of an id, the stored document is the one that the backup names. -/
def Bound (db : GuardianDb) : Prop :=
  ∀ id recovery backup, db.recoveries.get? id = some recovery → db.backups.get? id = some backup →
    (lib.decryptShare backup.doubleEncryptedSeed).isSome →
    lib.sha256 recovery.verificationDoc.rawData = backup.verificationDocHash

variable {lib} {db db' : GuardianDb}

theorem handleApproveRecovery_ok {id : PublicKey} {nonce : ℕ} {doc : VerificationDocument}
    (h : handleApproveRecovery lib db id nonce = .ok (doc, db')) :
    ∃ recovery backup share, db.recoveries.get? id = some recovery ∧ db.backups.get? id = some backup ∧
      lib.decryptShare backup.doubleEncryptedSeed = some share ∧ doc = recovery.verificationDoc ∧
      db' = db.storeShare id (lib.encryptToEphemeral share recovery.recoverySessionEncryptionKey nonce) := by
  unfold handleApproveRecovery at h
  split at h
  next recovery hrecovery =>
    split at h
    next backup hbackup =>
      split at h
      next share hshare =>
        cases h
        exact ⟨recovery, backup, share, hrecovery, hbackup, hshare, rfl, rfl⟩
      · cases h
    · cases h
  · cases h

/-- An approval finds its rows and decrypts. -/
theorem handleApproveRecovery_of_rows {id : PublicKey} {recovery : RecoveryRequest} {backup : BackupRequest}
    {share : DecryptionShare} (nonce : ℕ) (hrecovery : db.recoveries.get? id = some recovery)
    (hbackup : db.backups.get? id = some backup)
    (hshare : lib.decryptShare backup.doubleEncryptedSeed = some share) :
    ∃ doc db', handleApproveRecovery lib db id nonce = .ok (doc, db') := by
  unfold handleApproveRecovery
  rw [hrecovery, hbackup]
  dsimp only
  rw [hshare]
  exact ⟨_, _, rfl⟩

theorem approvalBound_iff : ApprovalBound lib db ↔ Bound lib db := by
  constructor
  · intro h id recovery backup hrecovery hbackup hdecrypts
    obtain ⟨share, hshare⟩ := Option.isSome_iff_exists.mp hdecrypts
    obtain ⟨doc, db', happroved⟩ := handleApproveRecovery_of_rows 0 hrecovery hbackup hshare
    obtain ⟨recovery', backup', -, hrecovery', hbackup', -, -, hbound⟩ := h id 0 doc db' happroved
    rw [hrecovery] at hrecovery'
    rw [hbackup] at hbackup'
    cases hrecovery'
    cases hbackup'
    exact hbound
  · intro h id nonce doc db' happroved
    obtain ⟨recovery, backup, share, hrecovery, hbackup, hshare, -, rfl⟩ := handleApproveRecovery_ok happroved
    exact ⟨recovery, backup, share, hrecovery, hbackup, hshare, BTreeMap.get?_insert_self _ _ _,
      h id recovery backup hrecovery hbackup (by rw [hshare]; rfl)⟩

/-! ## What a call does -/

theorem supersedes_ok {Request : Type} [DecidableEq Request] {timestamp : Request → Timestamp} {message : String}
    {prev : Option Request} {request : Request} {goesOver : Bool}
    (h : supersedes timestamp message prev request = .ok goesOver) :
    goesOver = true ↔ Supersedes timestamp prev request := by
  unfold supersedes at h
  cases prev with
  | none =>
    cases h
    exact ⟨fun _ p hp => (by cases hp), fun _ => rfl⟩
  | some p =>
    dsimp only at h
    split at h
    next hsame =>
      cases h
      exact ⟨fun hfalse => (by cases hfalse), fun hover => absurd hsame (hover p rfl).1⟩
    next hsame =>
      split at h
      · cases h
      next hnewer =>
        cases h
        refine ⟨fun _ => ?_, fun _ => rfl⟩
        rintro p' ⟨⟩
        exact ⟨hsame, not_le.mp hnewer⟩

theorem supersedes_of {Request : Type} [DecidableEq Request] {timestamp : Request → Timestamp} {message : String}
    {prev : Option Request} {request : Request} (h : Supersedes timestamp prev request) :
    supersedes timestamp message prev request = .ok true := by
  unfold supersedes
  cases prev with
  | none => rfl
  | some p =>
    obtain ⟨hdiffers, hnewer⟩ := h p rfl
    dsimp only
    rw [if_neg hdiffers, if_neg (not_le.mpr hnewer)]

theorem handleBackup_of_accepts {signed : SignedBackupRequest} (h : db.AcceptsBackup lib signed) :
    handleBackup lib db signed = .ok (db.storeBackup signed.request) := by
  obtain ⟨hvalid, hover, hunused⟩ := h
  unfold handleBackup
  rw [if_pos hvalid]
  dsimp only
  rw [supersedes_of hover, ok_bind, if_pos rfl, hunused]

/-- What `handle_backup` stores has passed its checks. -/
theorem handleBackup_ok {signed : SignedBackupRequest} (h : handleBackup lib db signed = .ok db') :
    db.AcceptsBackup lib signed ∨ db' = db := by
  unfold handleBackup at h
  split at h
  next hvalid =>
    obtain ⟨goesOver, hover, h⟩ := bind_eq_ok.mp h
    split at h
    next hgoes =>
      split at h
      · cases h
      next hunused => exact .inl ⟨hvalid, (supersedes_ok hover).mp hgoes, hunused⟩
    · cases h
      exact .inr rfl
  · cases h

theorem handleRecover_of_accepts {signed : SignedRecoveryRequest} (h : db.AcceptsRecovery lib signed) :
    handleRecover lib db signed = .ok (db.storeRecovery signed.request) := by
  obtain ⟨hvalid, ⟨backup, hbackup, hdeclared⟩, hover⟩ := h
  unfold handleRecover
  rw [if_pos hvalid]
  dsimp only
  rw [hbackup]
  dsimp only
  rw [hdeclared, ok_bind, if_neg (not_not.mpr rfl), supersedes_of hover, ok_bind, if_pos rfl]

/-- What `handle_recover` stores has passed its checks. -/
theorem handleRecover_ok {signed : SignedRecoveryRequest} (h : handleRecover lib db signed = .ok db') :
    db.AcceptsRecovery lib signed ∨ db' = db := by
  unfold handleRecover at h
  split at h
  next hvalid =>
    dsimp only at h
    split at h
    · cases h
    next backup hbackup =>
      obtain ⟨declared, hdeclared, h⟩ := bind_eq_ok.mp h
      split at h
      · cases h
      next hmatches =>
        rw [not_not] at hmatches
        obtain ⟨goesOver, hover, h⟩ := bind_eq_ok.mp h
        split at h
        next hgoes =>
          exact .inl ⟨hvalid, ⟨backup, hbackup, hmatches ▸ hdeclared⟩, (supersedes_ok hover).mp hgoes⟩
        · cases h
          exact .inr rfl
  · cases h

/-- A backup request is stored when it is accepted, and otherwise changes nothing. -/
theorem step_backup (signed : SignedBackupRequest) :
    (db.AcceptsBackup lib signed ∧ step lib db (.backup signed) = db.storeBackup signed.request) ∨
      (¬ db.AcceptsBackup lib signed ∧ step lib db (.backup signed) = db) := by
  by_cases haccepts : db.AcceptsBackup lib signed
  · refine .inl ⟨haccepts, ?_⟩
    unfold step endpoint
    dsimp only
    rw [handleBackup_of_accepts haccepts]
  · refine .inr ⟨haccepts, ?_⟩
    unfold step endpoint
    dsimp only
    split
    next hok => exact (handleBackup_ok hok).resolve_left haccepts
    · rfl

theorem step_recover (signed : SignedRecoveryRequest) :
    (db.AcceptsRecovery lib signed ∧ step lib db (.recover signed) = db.storeRecovery signed.request) ∨
      (¬ db.AcceptsRecovery lib signed ∧ step lib db (.recover signed) = db) := by
  by_cases haccepts : db.AcceptsRecovery lib signed
  · refine .inl ⟨haccepts, ?_⟩
    unfold step endpoint
    dsimp only
    rw [handleRecover_of_accepts haccepts]
  · refine .inr ⟨haccepts, ?_⟩
    unfold step endpoint
    dsimp only
    split
    next hok => exact (handleRecover_ok hok).resolve_left haccepts
    · rfl

/-- An approval leaves both requests as they are. -/
theorem step_approve (authenticated : Bool) (id : PublicKey) (nonce : ℕ) :
    (step lib db (.approveRecovery authenticated id nonce)).backups = db.backups ∧
      (step lib db (.approveRecovery authenticated id nonce)).recoveries = db.recoveries := by
  unfold step
  split
  next db' hok =>
    unfold endpoint at hok
    cases authenticated with
    | false => cases hok
    | true =>
      obtain ⟨⟨doc, db''⟩, happroved, hpure⟩ := bind_eq_ok.mp hok
      obtain ⟨recovery, backup, share, -, -, -, -, rfl⟩ := handleApproveRecovery_ok happroved
      cases hpure
      exact ⟨rfl, rfl⟩
  · exact ⟨rfl, rfl⟩

/-! ## The binding over a run -/

/-- From a state where the binding holds, a call keeps it exactly when it meets the condition. -/
theorem bound_step (h : Bound lib db) (call : Call) : Bound lib (step lib db call) ↔ KeepsBinding lib db call := by
  cases call with
  | backup signed =>
    rcases @step_backup lib db signed with ⟨haccepts, hstep⟩ | ⟨hrefused, hstep⟩
    · rw [hstep]
      constructor
      · intro hbound _ hdecrypts recovery hrecovery
        exact (hbound _ recovery signed.request hrecovery (BTreeMap.get?_insert_self _ _ _) hdecrypts).symm
      · intro hkeeps id recovery backup hrecovery hbackup hdecrypts
        unfold GuardianDb.storeBackup at hbackup
        dsimp only at hbackup
        rw [BTreeMap.get?_insert] at hbackup
        split at hbackup
        next hid =>
          cases hbackup
          exact (hkeeps haccepts hdecrypts recovery (hid ▸ hrecovery)).symm
        · exact h id recovery backup hrecovery hbackup hdecrypts
    · rw [hstep]
      exact ⟨fun _ haccepts => absurd haccepts hrefused, fun _ => h⟩
  | recover signed =>
    rcases @step_recover lib db signed with ⟨haccepts, hstep⟩ | ⟨hrefused, hstep⟩
    · rw [hstep]
      obtain ⟨backup, hbackup, hdeclared⟩ := haccepts.2.1
      constructor
      · rintro hbound - ⟨backup', hbackup', hdecrypts⟩
        rw [hbackup] at hbackup'
        cases hbackup'
        exact (verifyIntegrity_iff hdeclared).mpr
          (hbound _ signed.request backup (BTreeMap.get?_insert_self _ _ _) hbackup hdecrypts)
      · intro hkeeps id recovery backup' hrecovery hbackup' hdecrypts
        unfold GuardianDb.storeRecovery at hrecovery
        dsimp only at hrecovery
        rw [BTreeMap.get?_insert] at hrecovery
        split at hrecovery
        next hid =>
          cases hrecovery
          have hsame : db.backups.get? id = some backup' := hbackup'
          rw [hid, hbackup] at hsame
          cases hsame
          exact (verifyIntegrity_iff hdeclared).mp (hkeeps haccepts ⟨backup, hbackup, hdecrypts⟩)
        · exact h id recovery backup' hrecovery hbackup' hdecrypts
    · rw [hstep]
      exact ⟨fun _ haccepts => absurd haccepts hrefused, fun _ => h⟩
  | approveRecovery authenticated id nonce =>
    obtain ⟨hbackups, hrecoveries⟩ := @step_approve lib db authenticated id nonce
    refine ⟨fun _ => trivial, fun _ id' recovery backup hrecovery hbackup => ?_⟩
    rw [hrecoveries] at hrecovery
    rw [hbackups] at hbackup
    exact h id' recovery backup hrecovery hbackup

theorem bound_empty : Bound lib GuardianDb.empty := fun _ _ _ hrecovery => by cases hrecovery

/-- At every moment of a run an approval is bound to the backup that it decrypts, exactly when every call of the run
meets the condition. -/
theorem approvalBound_iff_of_run (lib : Primitives) (calls : List Call) :
    (∀ n, ApprovalBound lib (guardian lib (calls.take n))) ↔
      ∀ n call, calls[n]? = some call → KeepsBinding lib (guardian lib (calls.take n)) call := by
  simp only [approvalBound_iff]
  constructor
  · intro hbound n call hcall
    have hnext := hbound (n + 1)
    unfold guardian at hnext
    rw [foldl_take_succ hcall] at hnext
    exact (bound_step (hbound n) call).mp hnext
  · exact fun hkeeps n => moments_induction bound_empty (fun db call h hkeep => (bound_step h call).mpr hkeep) hkeeps n

end

/-! ## A backup replaced after the recovery request -/

/-- Primitives under which every signature is valid and the documents of the run below have checksums of their own. -/
def plainPrimitives : Primitives where
  sha256 rawData := ⟨(rawData ++ List.replicate hashLength 0).take hashLength, by
    rw [List.length_take, List.length_append, List.length_replicate]
    omega⟩
  encodeBackup _ := []
  encodeRecovery _ := []
  verifySchnorr _ _ _ := true
  decryptShare ciphertext := some ciphertext
  encryptToEphemeral share key nonce := share + key + nonce

/-- A backup of the document `[7]`, its recovery, and a newer backup that names the document `[8]`. -/
def replacedBackup : List Call :=
  [ .backup ⟨⟨1, 10, plainPrimitives.sha256 [7], 100⟩, 0⟩,
    .recover ⟨⟨1, 20, 5, .fromRaw plainPrimitives.sha256 [7]⟩, 0⟩,
    .backup ⟨⟨1, 30, plainPrimitives.sha256 [8], 200⟩, 0⟩ ]

/-- The approval then decrypts the seed of the second backup, under the document of the first. -/
theorem replacedBackup_unbound : ¬ ∀ lib calls, ApprovalBound lib (guardian lib calls) := by
  intro h
  have hbound := approvalBound_iff.mp (h plainPrimitives replacedBackup)
  have hsame := hbound 1 ⟨1, 20, 5, .fromRaw plainPrimitives.sha256 [7]⟩ ⟨1, 30, plainPrimitives.sha256 [8], 200⟩
    (by decide +kernel) (by decide +kernel) (by decide +kernel)
  exact absurd hsame (by decide +kernel)

end SocialRecovery
