import Fedi.Lib.BTreeMap

/-!
# A guardian's social backup and recovery

A guardian keeps one backup request and one recovery request per id.  Either row is replaced
by a validly signed request with a newer timestamp; the document of a recovery is compared
with the backup when the recovery arrives, and an approval decrypts with the backup that is
stored by then.

A verification document is the checksum that it declares, followed by the content:

    (fromRaw sha256 raw).toRaw sha256 = .ok raw                (toRaw_fromRaw)
    doc.toRaw sha256 = .ok raw → doc = fromRaw sha256 raw      (eq_fromRaw_of_toRaw)
-/

namespace SocialRecovery

open BTreeMaps

/-! ## Values of the libraries -/

def hashLength : ℕ := 32

/-- `sha256::Hash`. -/
@[ext] structure Sha256Hash where
  bytes : List UInt8
  length_eq : bytes.length = hashLength
deriving DecidableEq

/-- Keys, signatures and ciphertexts, by their encodings. -/
abbrev PublicKey := ℕ
abbrev Signature := ℕ
abbrev DoubleEncryptedData := ℕ
abbrev DecryptionShare := ℕ
abbrev EncryptedRecoveryShare := ℕ

/-- A `SystemTime`. -/
abbrev Timestamp := ℕ

abbrev VerificationDocumentHash := Sha256Hash

/-- Why a call fails: `ApiError::bad_request`, a failed `check_auth`, another error, or a panic. -/
inductive Failure
  | badRequest (message : String)
  | unauthorized
  | error (message : String)
  | panicked
deriving DecidableEq

/-! ## Verification documents -/

structure VerificationDocument where
  data : List UInt8
deriving DecidableEq

namespace VerificationDocument

def dataXorValue : UInt8 := 0b10101100

/-- The checksum that the document declares; the slice panics on a shorter document. -/
def id (doc : VerificationDocument) : Except Failure VerificationDocumentHash :=
  if h : hashLength ≤ doc.data.length then .ok ⟨doc.data.take hashLength, List.length_take_of_le h⟩
  else .error .panicked

def fromRaw (sha256 : List UInt8 → Sha256Hash) (rawData : List UInt8) : VerificationDocument :=
  ⟨(sha256 rawData).bytes ++ rawData.map (· ^^^ dataXorValue)⟩

/-- The content of the document. -/
def rawData (doc : VerificationDocument) : List UInt8 := (doc.data.drop hashLength).map (· ^^^ dataXorValue)

def toRaw (sha256 : List UInt8 → Sha256Hash) (doc : VerificationDocument) : Except Failure (List UInt8) :=
  if doc.data.length < hashLength then .error .panicked
  else if (sha256 doc.rawData).bytes ≠ doc.data.take hashLength then
    .error (.error "The verification document raw data does not match the checksum")
  else .ok doc.rawData

def verifyIntegrity (sha256 : List UInt8 → Sha256Hash) (doc : VerificationDocument) : Except Failure Unit := do
  let _ ← doc.toRaw sha256
  return ()

end VerificationDocument

/-! ## Requests -/

structure BackupRequest where
  id : PublicKey
  timestamp : Timestamp
  verificationDocHash : VerificationDocumentHash
  doubleEncryptedSeed : DoubleEncryptedData
deriving DecidableEq

structure RecoveryRequest where
  id : PublicKey
  timestamp : Timestamp
  recoverySessionEncryptionKey : PublicKey
  verificationDoc : VerificationDocument
deriving DecidableEq

structure SignedBackupRequest where
  request : BackupRequest
  signature : Signature

structure SignedRecoveryRequest where
  request : RecoveryRequest
  signature : Signature

/-- The functions of the libraries: the hash, the consensus encodings, Schnorr verification under the x coordinate
of a key, the guardian's share of a decryption, and encryption to a session key with fresh randomness. -/
structure Primitives where
  sha256 : List UInt8 → Sha256Hash
  encodeBackup : BackupRequest → List UInt8
  encodeRecovery : RecoveryRequest → List UInt8
  verifySchnorr : Signature → Sha256Hash → PublicKey → Bool
  decryptShare : DoubleEncryptedData → Option DecryptionShare
  encryptToEphemeral : DecryptionShare → PublicKey → ℕ → EncryptedRecoveryShare

section

variable (lib : Primitives)

def SignedBackupRequest.verifyValid (signed : SignedBackupRequest) : Bool :=
  lib.verifySchnorr signed.signature (lib.sha256 (lib.encodeBackup signed.request)) signed.request.id

def SignedRecoveryRequest.verifyValid (signed : SignedRecoveryRequest) : Bool :=
  lib.verifySchnorr signed.signature (lib.sha256 (lib.encodeRecovery signed.request)) signed.request.id

/-! ## The guardian's tables -/

structure GuardianDb where
  backups : BTreeMap PublicKey BackupRequest
  usedDoubleEncryptedData : BTreeMap DoubleEncryptedData PublicKey
  recoveries : BTreeMap PublicKey RecoveryRequest
  decryptionShares : BTreeMap PublicKey EncryptedRecoveryShare

def GuardianDb.empty : GuardianDb := ⟨BTreeMap.empty, BTreeMap.empty, BTreeMap.empty, BTreeMap.empty⟩

/-- Insert a backup and mark its ciphertext as used. -/
def GuardianDb.storeBackup (db : GuardianDb) (request : BackupRequest) : GuardianDb :=
  { db with
    backups := db.backups.insert request.id request
    usedDoubleEncryptedData := db.usedDoubleEncryptedData.insert request.doubleEncryptedSeed request.id }

def GuardianDb.storeRecovery (db : GuardianDb) (request : RecoveryRequest) : GuardianDb :=
  { db with recoveries := db.recoveries.insert request.id request }

def GuardianDb.storeShare (db : GuardianDb) (id : PublicKey) (share : EncryptedRecoveryShare) : GuardianDb :=
  { db with decryptionShares := db.decryptionShares.insert id share }

/-! ## Handlers -/

/-- Whether a request goes over the row in place: the same request again does not and is fine, one that is not newer
is refused. -/
def supersedes {Request : Type} [DecidableEq Request] (timestamp : Request → Timestamp) (message : String)
    (prev : Option Request) (request : Request) : Except Failure Bool :=
  match prev with
  | none => .ok true
  | some prev =>
    if prev = request then .ok false
    else if timestamp request ≤ timestamp prev then .error (.badRequest message)
    else .ok true

def handleBackup (db : GuardianDb) (signed : SignedBackupRequest) : Except Failure GuardianDb :=
  if signed.verifyValid lib then do
    let request := signed.request
    if ← supersedes BackupRequest.timestamp "invalid request: newer backup already stored"
        (db.backups.get? request.id) request then
      match db.usedDoubleEncryptedData.get? request.doubleEncryptedSeed with
      | some _prev => .error (.badRequest "invalid request: seed already used")
      | none => .ok (db.storeBackup request)
    else
      .ok db
  else
    .error (.badRequest "invalid request: signature invalid")

def handleRecover (db : GuardianDb) (signed : SignedRecoveryRequest) : Except Failure GuardianDb :=
  if signed.verifyValid lib then
    let request := signed.request
    match db.backups.get? request.id with
    | none => .error (.badRequest "invalid request: backup id not found")
    | some backup => do
      let declared ← request.verificationDoc.id
      if declared ≠ backup.verificationDocHash then
        .error (.badRequest "invalid request: verification document does not match")
      else if ← supersedes RecoveryRequest.timestamp "invalid request: existing recovery already in progress"
          (db.recoveries.get? request.id) request then
        .ok (db.storeRecovery request)
      else
        .ok db
  else
    .error (.badRequest "invalid request: signature invalid")

/-- The guardian's approval; `nonce` is the randomness of the encryption. -/
def handleApproveRecovery (db : GuardianDb) (id : PublicKey) (nonce : ℕ) :
    Except Failure (VerificationDocument × GuardianDb) := do
  let some recovery := db.recoveries.get? id
    | throw (.badRequest "invalid request: recovery id not found")
  let some backup := db.backups.get? id
    | throw (.badRequest "invalid request: backup id not found")
  let some decryptionShare := lib.decryptShare backup.doubleEncryptedSeed
    | throw (.badRequest "invalid request: can't create decryption share")
  let encrypted := lib.encryptToEphemeral decryptionShare recovery.recoverySessionEncryptionKey nonce
  return (recovery.verificationDoc, db.storeShare id encrypted)

/-! ## Endpoints -/

/-- A call to one of the endpoints that write. -/
inductive Call
  | backup (signed : SignedBackupRequest)
  | recover (signed : SignedRecoveryRequest)
  | approveRecovery (authenticated : Bool) (id : PublicKey) (nonce : ℕ)

/-- An endpoint runs its handler in a transaction. -/
def endpoint (db : GuardianDb) : Call → Except Failure GuardianDb
  | .backup signed => handleBackup lib db signed
  | .recover signed => handleRecover lib db signed
  | .approveRecovery authenticated id nonce => do
    unless authenticated do
      throw .unauthorized
    let (_, db') ← handleApproveRecovery lib db id nonce
    return db'

/-- The transaction of a call that fails, or panics, is dropped. -/
def step (db : GuardianDb) (call : Call) : GuardianDb :=
  match endpoint lib db call with
  | .ok db' => db'
  | .error _ => db

/-- The tables after a sequence of calls. -/
def guardian (calls : List Call) : GuardianDb := calls.foldl (step lib) GuardianDb.empty

end

/-! ## Documents and their content -/

section

variable {sha256 : List UInt8 → Sha256Hash} {doc : VerificationDocument} {raw : List UInt8}

open VerificationDocument

theorem map_xor_xor (l : List UInt8) : (l.map (· ^^^ dataXorValue)).map (· ^^^ dataXorValue) = l := by
  rw [List.map_map]
  conv_rhs => rw [← List.map_id l]
  refine List.map_congr_left fun b _ => ?_
  show b ^^^ dataXorValue ^^^ dataXorValue = b
  rw [UInt8.xor_assoc, UInt8.xor_self, UInt8.xor_zero]

@[simp] theorem rawData_fromRaw : (fromRaw sha256 raw).rawData = raw := by
  unfold rawData fromRaw
  dsimp only
  rw [List.drop_left' (sha256 raw).length_eq, map_xor_xor]

theorem toRaw_fromRaw : (fromRaw sha256 raw).toRaw sha256 = .ok raw := by
  have hlength : ¬ (fromRaw sha256 raw).data.length < hashLength := by
    unfold fromRaw
    rw [List.length_append, (sha256 raw).length_eq, not_lt]
    exact Nat.le_add_right _ _
  unfold toRaw
  rw [if_neg hlength, rawData_fromRaw, if_neg]
  unfold fromRaw
  rw [List.take_left' (sha256 raw).length_eq, not_not]

/-- What passes the checksum was built from its content. -/
theorem eq_fromRaw_of_toRaw (h : doc.toRaw sha256 = .ok raw) : doc = fromRaw sha256 raw := by
  unfold toRaw at h
  split at h
  · cases h
  · split at h
    · cases h
    next hsum =>
      cases h
      rw [not_not] at hsum
      unfold fromRaw rawData
      rw [map_xor_xor, ← rawData, hsum, List.take_append_drop]

/-- A document is intact when the checksum that it declares is the one of its content. -/
theorem verifyIntegrity_iff {hash : Sha256Hash} (h : doc.id = .ok hash) :
    doc.verifyIntegrity sha256 = .ok () ↔ sha256 doc.rawData = hash := by
  unfold VerificationDocument.id at h
  split at h
  next hlength =>
    cases h
    unfold verifyIntegrity toRaw
    rw [if_neg (not_lt.mpr hlength)]
    constructor
    · intro hok
      split at hok
      · cases hok
      next hsum => exact Sha256Hash.ext (not_not.mp hsum)
    · intro hsum
      rw [if_neg (by rw [hsum, not_not])]
      rfl
  · cases h

end

end SocialRecovery
