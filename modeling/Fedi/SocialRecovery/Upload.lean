import Fedi.SocialRecovery.Replays

/-!
# Uploading a backup

An attempt signs the recovery file under a new timestamp and sends it to every guardian.  A
guardian takes a ciphertext once, so an attempt that reaches all guardians succeeds exactly
when no earlier attempt reached any of them (`uploaded_iff`): the request of the second
attempt is not the one that is stored, and its ciphertext is used.
-/

namespace SocialRecovery

open BTreeMaps Runs

abbrev PeerId := ℕ

/-- What the upload reads of a recovery file. -/
structure RecoveryFile where
  doubleEncryptedSeed : DoubleEncryptedData
  verificationDocument : VerificationDocument

/-- The backup signing key: its signatures are valid under its public key. -/
structure SigningKey (lib : Primitives) where
  publicKey : PublicKey
  signSchnorr : Sha256Hash → Signature
  valid : ∀ message, lib.verifySchnorr (signSchnorr message) message publicKey = true

/-- How far a request to a guardian gets. -/
inductive Delivery
  | lost
  | unanswered
  | answered
deriving DecidableEq

/-- One call of `upload_backup_to_federation`: the clock, and what becomes of each request. -/
structure Attempt where
  now : Timestamp
  delivery : PeerId → Delivery

inductive UploadError
  | notPrepared (failure : Failure)
  | unreachable (peer : PeerId)
  | refused (peer : PeerId) (failure : Failure)
deriving DecidableEq

section

variable (lib : Primitives) (key : SigningKey lib) (peers : List PeerId) (file : RecoveryFile)

/-! ## The client -/

def prepareSocialRecoveryBackup (now : Timestamp) : Except Failure SignedBackupRequest := do
  let verificationDocHash ← file.verificationDocument.id
  let request : BackupRequest := ⟨key.publicKey, now, verificationDocHash, file.doubleEncryptedSeed⟩
  return ⟨request, key.signSchnorr (lib.sha256 (lib.encodeBackup request))⟩

/-- The guardian's tables after the request, and what the client gets back. -/
def requestSinglePeer (db : GuardianDb) (peer : PeerId) (signed : SignedBackupRequest) :
    Delivery → GuardianDb × Except UploadError Unit
  | .lost => (db, .error (.unreachable peer))
  | .unanswered => (step lib db (.backup signed), .error (.unreachable peer))
  | .answered =>
    match endpoint lib db (.backup signed) with
    | .ok db' => (db', .ok ())
    | .error failure => (db, .error (.refused peer failure))

/-- All requests are sent, then the first error is returned. -/
def socialBackup (dbs : PeerId → GuardianDb) (delivery : PeerId → Delivery) (signed : SignedBackupRequest) :
    (PeerId → GuardianDb) × Except UploadError Unit :=
  (fun peer => if peer ∈ peers then (requestSinglePeer lib (dbs peer) peer signed (delivery peer)).1 else dbs peer,
    peers.forM fun peer => (requestSinglePeer lib (dbs peer) peer signed (delivery peer)).2)

def uploadBackupToFederation (dbs : PeerId → GuardianDb) (attempt : Attempt) :
    (PeerId → GuardianDb) × Except UploadError Unit :=
  match prepareSocialRecoveryBackup lib key file attempt.now with
  | .error failure => (dbs, .error (.notPrepared failure))
  | .ok signed => socialBackup lib peers dbs attempt.delivery signed

/-- The guardians after some attempts. -/
def afterAttempts (dbs : PeerId → GuardianDb) (attempts : List Attempt) : PeerId → GuardianDb :=
  attempts.foldl (fun dbs attempt => (uploadBackupToFederation lib key peers file dbs attempt).1) dbs

/-! ## What is promised -/

/-- The guardian keeps a backup of the file. -/
def GuardianDb.Keeps (db : GuardianDb) : Prop :=
  ∃ backup, db.backups.get? key.publicKey = some backup ∧ backup.doubleEncryptedSeed = file.doubleEncryptedSeed ∧
    file.verificationDocument.id = .ok backup.verificationDocHash

/-- The attempt returns Ok and leaves the file with every guardian. -/
def Uploaded (dbs : PeerId → GuardianDb) (attempt : Attempt) : Prop :=
  (uploadBackupToFederation lib key peers file dbs attempt).2 = .ok () ∧
    ∀ peer ∈ peers, ((uploadBackupToFederation lib key peers file dbs attempt).1 peer).Keeps lib key file

/-- Before the first attempt: the ciphertext is new, and the backup in place, if any, is older. -/
def GuardianDb.Unseen (db : GuardianDb) (attempts : List Attempt) : Prop :=
  db.usedDoubleEncryptedData.get? file.doubleEncryptedSeed = none ∧
    ∀ prev, db.backups.get? key.publicKey = some prev → ∀ attempt ∈ attempts, prev.timestamp < attempt.now

variable {lib key peers file}

/-! ## The request -/

/-- What an attempt signs, for a document that has a checksum. -/
theorem prepare_ok {now : Timestamp} (hlong : hashLength ≤ file.verificationDocument.data.length) :
    ∃ signed, prepareSocialRecoveryBackup lib key file now = .ok signed ∧ signed.verifyValid lib = true ∧
      signed.request.id = key.publicKey ∧ signed.request.timestamp = now ∧
      signed.request.doubleEncryptedSeed = file.doubleEncryptedSeed ∧
      file.verificationDocument.id = .ok signed.request.verificationDocHash := by
  unfold prepareSocialRecoveryBackup VerificationDocument.id
  rw [dif_pos hlong]
  exact ⟨_, rfl, key.valid _, rfl, rfl, rfl, rfl⟩

theorem prepare_panics {now : Timestamp} (hshort : file.verificationDocument.data.length < hashLength) :
    prepareSocialRecoveryBackup lib key file now = .error .panicked := by
  unfold prepareSocialRecoveryBackup
  rw [id_panicked_iff.mpr hshort]
  rfl

/-! ## One guardian -/

variable {db db' : GuardianDb} {peer : PeerId} {signed : SignedBackupRequest}

/-- The tables move by the request, or stay when it is lost. -/
theorem requestSinglePeer_tables (delivery : Delivery) :
    (requestSinglePeer lib db peer signed delivery).1 =
      if delivery = .lost then db else step lib db (.backup signed) := by
  cases delivery with
  | lost => rfl
  | unanswered => rfl
  | answered =>
    unfold requestSinglePeer step
    simp only [reduceCtorEq, if_false]
    cases endpoint lib db (.backup signed) <;> rfl

/-- An answer is Ok exactly when the handler's is. -/
theorem requestSinglePeer_ok_iff (delivery : Delivery) :
    (requestSinglePeer lib db peer signed delivery).2 = .ok () ↔
      delivery = .answered ∧ ∃ db', handleBackup lib db signed = .ok db' := by
  cases delivery with
  | lost => simp [requestSinglePeer]
  | unanswered => simp [requestSinglePeer]
  | answered =>
    unfold requestSinglePeer endpoint
    dsimp only
    cases handleBackup lib db signed <;> simp

/-- A used ciphertext is refused unless the very request is in place. -/
theorem handleBackup_used {id : PublicKey}
    (hused : db.usedDoubleEncryptedData.get? signed.request.doubleEncryptedSeed = some id)
    (hprev : db.backups.get? signed.request.id ≠ some signed.request) :
    ∀ db', handleBackup lib db signed ≠ .ok db' := by
  intro db' hok
  unfold handleBackup at hok
  split at hok
  · obtain ⟨goesOver, hover, hok⟩ := bind_eq_ok.mp hok
    cases goesOver with
    | true =>
      rw [hused] at hok
      cases hok
    | false =>
      unfold supersedes at hover
      split at hover
      · cases hover
      next prev hget =>
        split at hover
        next hsame =>
          rw [hsame] at hget
          exact hprev hget
        · split at hover <;> cases hover
  · cases hok

/-- The request that an attempt sends a guardian who has not seen the file is accepted. -/
theorem GuardianDb.Unseen.accepts {attempts : List Attempt} {attempt : Attempt}
    (h : db.Unseen lib key file attempts) (hmem : attempt ∈ attempts) (hvalid : signed.verifyValid lib = true)
    (hid : signed.request.id = key.publicKey) (htimestamp : signed.request.timestamp = attempt.now)
    (hseed : signed.request.doubleEncryptedSeed = file.doubleEncryptedSeed) : db.AcceptsBackup lib signed := by
  refine ⟨hvalid, ?_, hseed ▸ h.1⟩
  intro prev hprev
  rw [hid] at hprev
  have holder := h.2 prev hprev attempt hmem
  rw [← htimestamp] at holder
  refine ⟨?_, holder⟩
  rintro rfl
  exact lt_irrefl _ holder

/-! ## Earlier attempts at one guardian -/

/-- One guardian's part of an attempt. -/
theorem upload_peer {dbs : PeerId → GuardianDb} {attempt : Attempt} (hpeer : peer ∈ peers)
    (hprepared : prepareSocialRecoveryBackup lib key file attempt.now = .ok signed) :
    (uploadBackupToFederation lib key peers file dbs attempt).1 peer =
      if attempt.delivery peer = .lost then dbs peer else step lib (dbs peer) (.backup signed) := by
  unfold uploadBackupToFederation socialBackup
  rw [hprepared]
  dsimp only
  rw [if_pos hpeer, requestSinglePeer_tables]

/-- What earlier attempts leave at a guardian: nothing when none arrived, else the used ciphertext and a
backup that is older than the next attempt. -/
structure Attempted (lib : Primitives) (key : SigningKey lib) (file : RecoveryFile) (peer : PeerId)
    (attempts : List Attempt) (now : Timestamp) (db db' : GuardianDb) : Prop where
  untouched : (∀ attempt ∈ attempts, attempt.delivery peer = .lost) → db' = db
  used : ∀ attempt ∈ attempts, attempt.delivery peer ≠ .lost →
    ∃ id, db'.usedDoubleEncryptedData.get? file.doubleEncryptedSeed = some id
  older : ∀ prev, db'.backups.get? key.publicKey = some prev → prev.timestamp < now

theorem attempted_of_attempts (hlong : hashLength ≤ file.verificationDocument.data.length) (hpeer : peer ∈ peers)
    {attempts : List Attempt} {last : Attempt} {dbs : PeerId → GuardianDb}
    (hunseen : (dbs peer).Unseen lib key file (attempts ++ [last]))
    (hclocks : ∀ attempt ∈ attempts, attempt.now < last.now) :
    Attempted lib key file peer attempts last.now (dbs peer) (afterAttempts lib key peers file dbs attempts peer) := by
  -- the last of the earlier attempts goes to what the others leave
  induction attempts using List.reverseRecOn generalizing last with
  | nil =>
    refine ⟨fun _ => rfl, fun _ hmem => (by cases hmem), fun prev hprev => ?_⟩
    exact hunseen.2 prev hprev last (by simp)
  | append_singleton attempts attempt ih =>
    have hbefore : ∀ a ∈ attempts, a.now < last.now := fun a ha => hclocks a (by simp [ha])
    have hunseen' : (dbs peer).Unseen lib key file (attempts ++ [last]) := by
      refine ⟨hunseen.1, fun prev hprev a ha => hunseen.2 prev hprev a ?_⟩
      rcases List.mem_append.mp ha with ha | ha
      · simp [ha]
      · simp [List.mem_singleton.mp ha]
    have hearlier := ih hunseen' hbefore
    obtain ⟨signed, hprepared, hvalid, hid, htimestamp, hseed, -⟩ := @prepare_ok lib key file attempt.now hlong
    have hafter : afterAttempts lib key peers file dbs (attempts ++ [attempt]) peer =
        if attempt.delivery peer = .lost then afterAttempts lib key peers file dbs attempts peer
        else step lib (afterAttempts lib key peers file dbs attempts peer) (.backup signed) := by
      unfold afterAttempts
      rw [List.foldl_append]
      exact upload_peer hpeer hprepared
    rw [hafter]
    by_cases hlost : attempt.delivery peer = .lost
    · rw [if_pos hlost]
      refine ⟨fun hall => hearlier.untouched fun a ha => hall a (by simp [ha]), fun a ha hdelivered => ?_,
        hearlier.older⟩
      rcases List.mem_append.mp ha with ha | ha
      · exact hearlier.used a ha hdelivered
      · rw [List.mem_singleton.mp ha] at hdelivered
        exact absurd hlost hdelivered
    · rw [if_neg hlost]
      generalize afterAttempts lib key peers file dbs attempts peer = db at hearlier ⊢
      have hadvances := @advances_step lib db (.backup signed)
      refine ⟨fun hall => absurd (hall attempt (by simp)) hlost, fun _ _ _ => ?_, fun prev hprev => ?_⟩
      · -- the ciphertext is used by an earlier attempt, or by this one
        by_cases hall : ∀ a ∈ attempts, a.delivery peer = .lost
        · have haccepts : db.AcceptsBackup lib signed := by
            rw [hearlier.untouched hall]
            exact hunseen.accepts (by simp) hvalid hid htimestamp hseed
          rcases @step_backup lib db signed with ⟨-, hstep⟩ | ⟨hrefused, -⟩
          · refine ⟨signed.request.id, ?_⟩
            rw [hstep, ← hseed]
            exact BTreeMap.get?_insert_self _ _ _
          · exact absurd haccepts hrefused
        · simp only [not_forall] at hall
          obtain ⟨a, ha, hdelivered⟩ := hall
          obtain ⟨id, hused⟩ := hearlier.used a ha hdelivered
          exact ⟨id, hadvances.used _ _ hused⟩
      · rcases @step_backup lib db signed with ⟨-, hstep⟩ | ⟨-, hstep⟩
        · rw [hstep] at hprev
          unfold GuardianDb.storeBackup at hprev
          dsimp only at hprev
          rw [← hid, BTreeMap.get?_insert_self] at hprev
          cases hprev
          rw [htimestamp]
          exact hclocks attempt (by simp)
        · rw [hstep] at hprev
          exact hearlier.older prev hprev

/-! ## An attempt that reaches every guardian -/

theorem upload_ok_iff {dbs : PeerId → GuardianDb} {attempt : Attempt}
    (hprepared : prepareSocialRecoveryBackup lib key file attempt.now = .ok signed)
    (hreaches : ∀ peer ∈ peers, attempt.delivery peer = .answered) :
    (uploadBackupToFederation lib key peers file dbs attempt).2 = .ok () ↔
      ∀ peer ∈ peers, ∃ db', handleBackup lib (dbs peer) signed = .ok db' := by
  unfold uploadBackupToFederation socialBackup
  rw [hprepared]
  dsimp only
  rw [forM_ok_iff]
  refine forall₂_congr fun peer hpeer => ?_
  rw [requestSinglePeer_ok_iff]
  exact and_iff_right (hreaches peer hpeer)

/-- An attempt that reaches all guardians succeeds, and leaves the file with all of them, exactly when the file's
document is as long as a checksum and no earlier attempt arrived at any guardian. -/
theorem uploaded_iff (lib : Primitives) (key : SigningKey lib) (peers : List PeerId) (file : RecoveryFile)
    (dbs : PeerId → GuardianDb) (earlier : List Attempt) (last : Attempt)
    (hclocks : (earlier ++ [last]).Pairwise fun a b => a.now < b.now)
    (hunseen : ∀ peer ∈ peers, (dbs peer).Unseen lib key file (earlier ++ [last]))
    (hreaches : ∀ peer ∈ peers, last.delivery peer = .answered) :
    Uploaded lib key peers file (afterAttempts lib key peers file dbs earlier) last ↔
      hashLength ≤ file.verificationDocument.data.length ∧
        ∀ attempt ∈ earlier, ∀ peer ∈ peers, attempt.delivery peer = .lost := by
  have hbefore : ∀ attempt ∈ earlier, attempt.now < last.now := by
    intro attempt hattempt
    exact (List.pairwise_append.mp hclocks).2.2 attempt hattempt last (by simp)
  by_cases hlong : hashLength ≤ file.verificationDocument.data.length
  · obtain ⟨signed, hprepared, hvalid, hid, htimestamp, hseed, hhash⟩ := @prepare_ok lib key file last.now hlong
    unfold Uploaded
    rw [upload_ok_iff hprepared hreaches]
    constructor
    · rintro ⟨hok, -⟩
      refine ⟨hlong, fun attempt hattempt peer hpeer => ?_⟩
      by_contra hdelivered
      have hattempted := attempted_of_attempts hlong hpeer (hunseen peer hpeer) hbefore
      obtain ⟨id, hused⟩ := hattempted.used attempt hattempt hdelivered
      obtain ⟨db', hdb'⟩ := hok peer hpeer
      rw [← hseed] at hused
      refine handleBackup_used hused (fun hsame => ?_) db' hdb'
      rw [hid] at hsame
      have holder := hattempted.older _ hsame
      rw [htimestamp] at holder
      exact lt_irrefl _ holder
    · rintro ⟨-, hlost⟩
      have haccepts : ∀ peer ∈ peers, (afterAttempts lib key peers file dbs earlier peer).AcceptsBackup lib signed := by
        intro peer hpeer
        rw [(attempted_of_attempts hlong hpeer (hunseen peer hpeer) hbefore).untouched
          fun attempt hattempt => hlost attempt hattempt peer hpeer]
        exact (hunseen peer hpeer).accepts (by simp) hvalid hid htimestamp hseed
      refine ⟨fun peer hpeer => ⟨_, handleBackup_of_accepts (haccepts peer hpeer)⟩, fun peer hpeer => ?_⟩
      rw [upload_peer hpeer hprepared, if_neg (by rw [hreaches peer hpeer]; simp)]
      rcases @step_backup lib (afterAttempts lib key peers file dbs earlier peer) signed with ⟨-, hstep⟩ | ⟨hrefused, -⟩
      · rw [hstep]
        refine ⟨signed.request, ?_, hseed, hhash⟩
        rw [← hid]
        exact BTreeMap.get?_insert_self _ _ _
      · exact absurd (haccepts peer hpeer) hrefused
  · constructor
    · rintro ⟨hok, -⟩
      unfold uploadBackupToFederation at hok
      rw [prepare_panics (by omega)] at hok
      cases hok
    · exact fun h => absurd h.1 hlong

end

/-! ## An attempt that stops halfway -/

def plainKey : SigningKey plainPrimitives where
  publicKey := 1
  signSchnorr _ := 0
  valid _ := rfl

def plainFile : RecoveryFile := ⟨100, .fromRaw plainPrimitives.sha256 [7]⟩

/-- The first attempt reaches guardian 0 only. -/
def halfway : Attempt := ⟨10, fun peer => if peer = 0 then .answered else .lost⟩

def everywhere : Attempt := ⟨20, fun _ => .answered⟩

theorem unseen_empty (attempts : List Attempt) :
    GuardianDb.empty.Unseen plainPrimitives plainKey plainFile attempts :=
  ⟨rfl, fun _ h => by cases h⟩

/-- The attempt after one that was lost everywhere. -/
theorem uploaded_iff_demo :
    Uploaded plainPrimitives plainKey [0, 1] plainFile
      (afterAttempts plainPrimitives plainKey [0, 1] plainFile (fun _ => .empty) [⟨10, fun _ => .lost⟩]) everywhere := by
  refine (uploaded_iff plainPrimitives plainKey [0, 1] plainFile (fun _ => .empty) [⟨10, fun _ => .lost⟩] everywhere
    (by simp [everywhere]) (fun _ _ => unseen_empty _) (fun _ _ => rfl)).mpr ⟨by decide, ?_⟩
  intro attempt hattempt peer _
  rw [List.mem_singleton.mp hattempt]

/-- Guardian 0 refuses the second attempt, because it has the first. -/
theorem halfway_blocks : ¬ ∀ (lib : Primitives) (key : SigningKey lib) (peers : List PeerId) (file : RecoveryFile)
    (dbs : PeerId → GuardianDb) (earlier : List Attempt) (last : Attempt),
    (earlier ++ [last]).Pairwise (fun a b => a.now < b.now) →
    (∀ peer ∈ peers, (dbs peer).Unseen lib key file (earlier ++ [last])) →
    (∀ peer ∈ peers, last.delivery peer = .answered) →
    Uploaded lib key peers file (afterAttempts lib key peers file dbs earlier) last := by
  intro h
  have hok := (h plainPrimitives plainKey [0, 1] plainFile (fun _ => .empty) [halfway] everywhere
    (by simp [halfway, everywhere]) (fun _ _ => unseen_empty _) (fun _ _ => rfl)).1
  have hrefused : (uploadBackupToFederation plainPrimitives plainKey [0, 1] plainFile
      (afterAttempts plainPrimitives plainKey [0, 1] plainFile (fun _ => .empty) [halfway]) everywhere).2 =
      .error (.refused 0 (.badRequest "invalid request: seed already used")) := by
    decide +kernel
  rw [hrefused] at hok
  cases hok

end SocialRecovery
