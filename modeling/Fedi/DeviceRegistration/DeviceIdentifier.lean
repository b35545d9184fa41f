import Fedi.Lib.Runs
import Fedi.Lib.Utf8

/-!
# Device identifiers (`runtime/src/storage/state.rs`)

A device names itself `<name>:<type>:<uuid>`.  The name is truncated so that the identifier fits in 128 bytes, and the
identifier is padded, encrypted and hex-encoded; the way back trims the padding and parses again.  `Display` writes the
three parts one by one, so the width it is given reaches none of them.

    from_str panics iff the cut falls inside a character of the name       (fromStr_panics_iff)
    what is parsed comes back                                              (fromEncryptedString_encryptAndHexEncode)
    all is as promised iff the string takes 128 bytes or more
      and the cut falls between characters                                 (codec_iff)
-/

namespace DeviceRegistration

open Runs

/-! ## Text -/

/-- `White_Space` of Unicode. -/
def isWhitespace (c : Char) : Bool :=
  (0x9 ≤ c.toNat && c.toNat ≤ 0xd) || c.toNat == 0x20 || c.toNat == 0x85 || c.toNat == 0xa0 || c.toNat == 0x1680 ||
    (0x2000 ≤ c.toNat && c.toNat ≤ 0x200a) || c.toNat == 0x2028 || c.toNat == 0x2029 || c.toNat == 0x202f ||
    c.toNat == 0x205f || c.toNat == 0x3000

def trimEnd (s : List Char) : List Char := s.rdropWhile isWhitespace

/-- A string argument under a width: spaces after it, up to so many characters. -/
def padded (width : Option ℕ) (s : List Char) : List Char := s ++ List.replicate (width.getD 0 - s.length) ' '

/-! ## Identifiers -/

def deviceIdentifierFixedLength : ℕ := 128

structure DeviceIdentifier where
  deviceName : List Char
  deviceType : List Char
  deviceUuid : List Char
deriving DecidableEq

inductive Failure where
  | error (message : String)
  | panic
deriving DecidableEq

/-- `String::truncate` asserts that a character ends there. -/
def truncate (s : List Char) (newLen : ℕ) : Except Failure (List Char) :=
  if newLen ≤ (Utf8.encode s).length then
    match Utf8.cut s newLen with
    | some kept => .ok kept
    | none => .error .panic
  else .ok s

def fromStr (s : List Char) : Except Failure DeviceIdentifier :=
  match s.splitOn ':' with
  | [deviceName, deviceType, deviceUuid] =>
    let needed := (Utf8.encode deviceType).length + (Utf8.encode deviceUuid).length + 2
    if needed ≤ deviceIdentifierFixedLength then do
      let deviceName ← truncate deviceName (deviceIdentifierFixedLength - needed)
      .ok ⟨deviceName, deviceType, deviceUuid⟩
    else .error (.error "Combined length of device type and uuid exceeds max")
  | _ => .error (.error "Identifier format must be <name>:<type>:<uuid>")

/-- The parts are written each with a format of its own, without a width. -/
def DeviceIdentifier.fmt (id : DeviceIdentifier) (_width : Option ℕ) : List Char :=
  padded none id.deviceName ++ ':' :: (padded none id.deviceType ++ ':' :: padded none id.deviceUuid)

/-! ## The encryption -/

/-- The cipher under the key that a secret gives, and the hex encoding. -/
structure Sealing (Secret Nonce : Type) where
  encrypt : Secret → Nonce → List UInt8 → List UInt8
  decrypt : Secret → List UInt8 → Option (List UInt8)
  hexEncode : List UInt8 → List Char
  hexDecode : List Char → Option (List UInt8)
  decrypt_encrypt : ∀ secret nonce plaintext, decrypt secret (encrypt secret nonce plaintext) = some plaintext
  hexDecode_hexEncode : ∀ bytes, hexDecode (hexEncode bytes) = some bytes

/-- What is encrypted. -/
def DeviceIdentifier.plaintext (id : DeviceIdentifier) : List UInt8 :=
  Utf8.encode (id.fmt (some deviceIdentifierFixedLength))

section

variable {Secret Nonce : Type} (S : Sealing Secret Nonce)

def encryptAndHexEncode (id : DeviceIdentifier) (rootSecret : Secret) (nonce : Nonce) : List Char :=
  S.hexEncode (S.encrypt rootSecret nonce id.plaintext)

def orError {α : Type} (message : String) : Option α → Except Failure α
  | some a => .ok a
  | none => .error (.error message)

def fromEncryptedString (encryptedDeviceIdentifier : List Char) (rootSecret : Secret) :
    Except Failure DeviceIdentifier := do
  let decoded ← orError "hex" (S.hexDecode encryptedDeviceIdentifier)
  let decryptedBytes ← orError "decrypt" (S.decrypt rootSecret decoded)
  let decryptedString ← orError "utf8" (Utf8.decodeStrict decryptedBytes)
  fromStr (trimEnd decryptedString)

end

/-! ## What is promised -/

/-- `<name>:<type>:<uuid>`, where type and uuid leave room. -/
structure Accepted (s : List Char) (id : DeviceIdentifier) : Prop where
  parts : s = id.deviceName ++ ':' :: (id.deviceType ++ ':' :: id.deviceUuid)
  name : ':' ∉ id.deviceName
  type : ':' ∉ id.deviceType
  uuid : ':' ∉ id.deviceUuid
  fits : (Utf8.encode id.deviceType).length + (Utf8.encode id.deviceUuid).length + 2 ≤ deviceIdentifierFixedLength

/-- What type and uuid leave for the name, in bytes. -/
def DeviceIdentifier.room (id : DeviceIdentifier) : ℕ :=
  deviceIdentifierFixedLength - ((Utf8.encode id.deviceType).length + (Utf8.encode id.deviceUuid).length + 2)

/-- A character of the name ends after so many bytes, or the name is shorter. -/
def DeviceIdentifier.CutFits (id : DeviceIdentifier) : Prop :=
  id.room ≤ (Utf8.encode id.deviceName).length → ∃ kept, kept <+: id.deviceName ∧ (Utf8.encode kept).length = id.room

structure Codec {Secret Nonce : Type} (S : Sealing Secret Nonce) (rootSecret : Secret) (nonce : Nonce) (s : List Char) :
    Prop where
  noPanic : fromStr s ≠ .error .panic
  fixedLength : ∀ id, fromStr s = .ok id → id.plaintext.length = deviceIdentifierFixedLength
  roundTrip : ∀ id, fromStr s = .ok id →
    fromEncryptedString S (encryptAndHexEncode S id rootSecret nonce) rootSecret = .ok id

/-! ## Lemmas -/

variable {s : List Char} {id parsed : DeviceIdentifier}

theorem padded_none (s : List Char) : padded none s = s := by simp [padded]

/-- The width has no effect. -/
theorem fmt_eq (id : DeviceIdentifier) (width : Option ℕ) :
    id.fmt width = id.deviceName ++ ':' :: (id.deviceType ++ ':' :: id.deviceUuid) := by
  unfold DeviceIdentifier.fmt
  rw [padded_none, padded_none, padded_none]

theorem length_plaintext (id : DeviceIdentifier) :
    id.plaintext.length =
      (Utf8.encode id.deviceName).length + ((Utf8.encode id.deviceType).length + (Utf8.encode id.deviceUuid).length + 2) := by
  have hcolon : ':'.utf8Size = 1 := rfl
  unfold DeviceIdentifier.plaintext
  rw [fmt_eq, Utf8.encode_append, List.length_append, Utf8.length_encode_cons, Utf8.encode_append, List.length_append,
    Utf8.length_encode_cons, hcolon]
  omega

theorem truncate_eq_ok {s kept : List Char} {newLen : ℕ} : truncate s newLen = .ok kept ↔
    (newLen ≤ (Utf8.encode s).length ∧ kept <+: s ∧ (Utf8.encode kept).length = newLen) ∨
      ((Utf8.encode s).length < newLen ∧ kept = s) := by
  unfold truncate
  by_cases hle : newLen ≤ (Utf8.encode s).length
  · rw [if_pos hle]
    have hnot : ¬ (Utf8.encode s).length < newLen := Nat.not_lt.mpr hle
    simp only [hle, hnot, true_and, false_and, or_false, ← Utf8.cut_eq_some]
    cases hcut : Utf8.cut s newLen with
    | none => simp
    | some kept' => simp
  · rw [if_neg hle]
    have hlt : (Utf8.encode s).length < newLen := Nat.not_le.mp hle
    simp only [hle, hlt, false_and, true_and, false_or, Except.ok.injEq, eq_comm]

/-- The only failure of a cut is inside a character. -/
theorem truncate_panics {s : List Char} {newLen : ℕ} {e : Failure} (h : truncate s newLen = .error e) : e = .panic := by
  unfold truncate at h
  split_ifs at h
  split at h
  · cases h
  · cases h
    rfl

/-- What three parts are parsed to. -/
theorem fromStr_of_accepted (h : Accepted s id) :
    fromStr s = truncate id.deviceName id.room >>= fun name => .ok ⟨name, id.deviceType, id.deviceUuid⟩ := by
  have hsplit : s.splitOn ':' = [id.deviceName, id.deviceType, id.deviceUuid] := by
    rw [h.parts, List.splitOn_append_cons_self_of_not_mem h.name, List.splitOn_append_cons_self_of_not_mem h.type,
      List.splitOn_eq_singleton h.uuid]
  unfold fromStr
  rw [hsplit]
  dsimp only
  rw [if_pos h.fits]
  rfl

theorem not_mem_of_mem_splitOn {part : List Char} (h : part ∈ s.splitOn ':') : ':' ∉ part := by
  induction s generalizing part with
  | nil =>
    rw [List.splitOn_nil, List.mem_singleton] at h
    rw [h]
    exact List.not_mem_nil
  | cons c s ih =>
    rw [List.splitOn_cons_eq_if_modifyHead] at h
    by_cases hc : c = ':'
    · rw [if_pos (beq_iff_eq.mpr hc)] at h
      rcases List.mem_cons.mp h with rfl | h
      · exact List.not_mem_nil
      · exact ih h
    · rw [if_neg (by rw [beq_iff_eq]; exact hc)] at h
      cases hparts : s.splitOn ':' with
      | nil => exact absurd hparts (List.splitOn_ne_nil ':' s)
      | cons first rest =>
        rw [hparts, List.modifyHead_cons] at h
        rcases List.mem_cons.mp h with rfl | h
        · have hfirst : ':' ∉ first := ih (by rw [hparts]; exact List.mem_cons_self)
          rw [List.mem_cons, not_or]
          exact ⟨fun heq => hc heq.symm, hfirst⟩
        · exact ih (by rw [hparts]; exact List.mem_cons_of_mem first h)

/-- What is not refused is accepted. -/
theorem accepted_of_not_refused (h : ∀ message, fromStr s ≠ .error (.error message)) : ∃ id, Accepted s id := by
  unfold fromStr at h
  split at h
  · rename_i name type uuid hsplit
    dsimp only at h
    split_ifs at h with hfits
    · refine ⟨⟨name, type, uuid⟩, ?_, ?_, ?_, ?_, hfits⟩
      · have hparts : [':'].intercalate (s.splitOn ':') = s := List.intercalate_splitOn ':'
        rw [hsplit] at hparts
        rw [← hparts]
        simp [List.intercalate]
      · exact not_mem_of_mem_splitOn (by rw [hsplit]; simp)
      · exact not_mem_of_mem_splitOn (by rw [hsplit]; simp)
      · exact not_mem_of_mem_splitOn (by rw [hsplit]; simp)
    · exact absurd rfl (h _)
  · exact absurd rfl (h _)

theorem cutFits_iff (id : DeviceIdentifier) : id.CutFits ↔ ∃ kept, truncate id.deviceName id.room = .ok kept := by
  unfold DeviceIdentifier.CutFits
  simp only [truncate_eq_ok]
  constructor
  · intro h
    rcases Nat.lt_or_ge (Utf8.encode id.deviceName).length id.room with hlt | hle
    · exact ⟨id.deviceName, .inr ⟨hlt, rfl⟩⟩
    · obtain ⟨kept, hbegins, hlength⟩ := h hle
      exact ⟨kept, .inl ⟨hle, hbegins, hlength⟩⟩
  · rintro ⟨kept, ⟨-, hbegins, hlength⟩ | ⟨hlt, -⟩⟩ hle
    · exact ⟨kept, hbegins, hlength⟩
    · omega

theorem fromStr_panics_iff (h : Accepted s id) : fromStr s = .error .panic ↔ ¬ id.CutFits := by
  rw [fromStr_of_accepted h, cutFits_iff]
  cases hcut : truncate id.deviceName id.room with
  | error e =>
    rw [truncate_panics hcut]
    simp [bind, Except.bind]
  | ok kept => simp [bind, Except.bind]

/-- A parsed identifier: as much of the name as there is room for. -/
theorem fromStr_eq_ok (h : Accepted s id) : fromStr s = .ok parsed ↔
    ∃ kept, truncate id.deviceName id.room = .ok kept ∧ parsed = ⟨kept, id.deviceType, id.deviceUuid⟩ := by
  rw [fromStr_of_accepted h, bind_eq_ok]
  simp only [Except.ok.injEq, eq_comm]

/-- What was parsed is displayed as a string that is accepted. -/
theorem accepted_fmt (h : Accepted s id) (hparsed : fromStr s = .ok parsed) (width : Option ℕ) :
    Accepted (parsed.fmt width) parsed := by
  obtain ⟨kept, hkept, rfl⟩ := (fromStr_eq_ok h).mp hparsed
  have hbegins : kept <+: id.deviceName := by
    rcases truncate_eq_ok.mp hkept with ⟨-, hbegins, -⟩ | ⟨-, rfl⟩
    · exact hbegins
    · exact List.prefix_refl _
  exact ⟨fmt_eq _ width, fun hmem => h.name (hbegins.subset hmem), h.type, h.uuid, h.fits⟩

/-- What was truncated is not truncated again. -/
theorem fromStr_fmt (h : Accepted s id) (hparsed : fromStr s = .ok parsed) (width : Option ℕ) :
    fromStr (parsed.fmt width) = .ok parsed := by
  rw [fromStr_eq_ok (accepted_fmt h hparsed width)]
  obtain ⟨kept, hkept, rfl⟩ := (fromStr_eq_ok h).mp hparsed
  refine ⟨kept, ?_, rfl⟩
  show truncate kept id.room = .ok kept
  rw [truncate_eq_ok]
  rcases truncate_eq_ok.mp hkept with ⟨-, -, hlength⟩ | ⟨hlt, rfl⟩
  · exact .inl ⟨hlength.ge, List.prefix_refl kept, hlength⟩
  · exact .inr ⟨hlt, rfl⟩

/-- No white space at either end. -/
structure Trimmed (s : List Char) : Prop where
  start : ∀ c ∈ s.head?, isWhitespace c = false
  last : ∀ c ∈ s.getLast?, isWhitespace c = false

theorem trimmed_of {first last : Char} (hfirst : s.head? = some first) (hlast : s.getLast? = some last)
    (hs : isWhitespace first = false ∧ isWhitespace last = false) : Trimmed s := by
  refine ⟨?_, ?_⟩
  · intro c hc
    rw [hfirst, Option.mem_some_iff] at hc
    rw [← hc]
    exact hs.1
  · intro c hc
    rw [hlast, Option.mem_some_iff] at hc
    rw [← hc]
    exact hs.2

theorem trimEnd_eq_self (h : ∀ c ∈ s.getLast?, isWhitespace c = false) : trimEnd s = s := by
  unfold trimEnd
  rw [List.rdropWhile_eq_self_iff]
  intro hne
  rw [h _ (List.getLast?_eq_some_getLast hne)]
  exact Bool.false_ne_true

theorem trimEnd_fmt (h : Accepted s id) (hs : Trimmed s) (hparsed : fromStr s = .ok parsed) (width : Option ℕ) :
    trimEnd (parsed.fmt width) = parsed.fmt width := by
  apply trimEnd_eq_self
  have hlast : (parsed.fmt width).getLast? = s.getLast? := by
    obtain ⟨kept, -, rfl⟩ := (fromStr_eq_ok h).mp hparsed
    rw [fmt_eq, h.parts]
    simp [List.getLast?_append, List.getLast?_cons]
  rw [hlast]
  exact hs.last

section

variable {Secret Nonce : Type} (S : Sealing Secret Nonce)

/-- What is parsed comes back. -/
theorem fromEncryptedString_encryptAndHexEncode (h : Accepted s id) (hs : Trimmed s) (hparsed : fromStr s = .ok parsed)
    (rootSecret : Secret) (nonce : Nonce) :
    fromEncryptedString S (encryptAndHexEncode S parsed rootSecret nonce) rootSecret = .ok parsed := by
  unfold fromEncryptedString encryptAndHexEncode DeviceIdentifier.plaintext
  rw [S.hexDecode_hexEncode, orError, ok_bind, S.decrypt_encrypt, orError, ok_bind, Utf8.decodeStrict_encode, orError,
    ok_bind, trimEnd_fmt h hs hparsed, fromStr_fmt h hparsed]

/-- The plaintext has the fixed length iff the name filled its room. -/
theorem length_plaintext_eq_iff (h : Accepted s id) (hparsed : fromStr s = .ok parsed) :
    parsed.plaintext.length = deviceIdentifierFixedLength ↔ id.room ≤ (Utf8.encode id.deviceName).length := by
  obtain ⟨kept, hkept, rfl⟩ := (fromStr_eq_ok h).mp hparsed
  have hfits := h.fits
  rw [length_plaintext]
  unfold DeviceIdentifier.room at hkept ⊢
  rcases truncate_eq_ok.mp hkept with ⟨hle, -, hlength⟩ | ⟨hlt, rfl⟩
  · dsimp only
    omega
  · dsimp only
    omega

/-! ## Main result -/

/-- The codec does what it promises iff a start of the name fills its room to the byte. -/
theorem codec_iff (rootSecret : Secret) (nonce : Nonce) (s : List Char) (id : DeviceIdentifier) (h : Accepted s id)
    (hs : Trimmed s) : Codec S rootSecret nonce s ↔
      ∃ kept, kept <+: id.deviceName ∧ (Utf8.encode kept).length = id.room := by
  constructor
  · intro hcodec
    have hfits : id.CutFits := by
      by_contra hcut
      exact hcodec.noPanic ((fromStr_panics_iff h).mpr hcut)
    obtain ⟨kept, hkept⟩ := (cutFits_iff id).mp hfits
    have hparsed := (fromStr_eq_ok h).mpr ⟨kept, hkept, rfl⟩
    exact hfits ((length_plaintext_eq_iff h hparsed).mp (hcodec.fixedLength _ hparsed))
  · rintro ⟨kept, hbegins, hlength⟩
    have hle : id.room ≤ (Utf8.encode id.deviceName).length := by
      obtain ⟨rest, hrest⟩ := hbegins
      rw [← hrest, Utf8.encode_append, List.length_append]
      omega
    refine ⟨?_, ?_, ?_⟩
    · intro hpanic
      exact (fromStr_panics_iff h).mp hpanic (fun _ => ⟨kept, hbegins, hlength⟩)
    · intro parsed hparsed
      exact (length_plaintext_eq_iff h hparsed).mpr hle
    · intro parsed hparsed
      exact fromEncryptedString_encryptAndHexEncode S h hs hparsed rootSecret nonce

end

/-! ## A cipher -/

def hexDigit (n : ℕ) : Char := ("0123456789abcdef".toList[n]?).getD '0'

def hexValue (c : Char) : Option ℕ := "0123456789abcdef".toList.findIdx? (· == c)

def unhex : List Char → Option (List UInt8)
  | [] => some []
  | high :: low :: rest => do
    let h ← hexValue high
    let l ← hexValue low
    let bytes ← unhex rest
    some (UInt8.ofNat (16 * h + l) :: bytes)
  | [_] => none

theorem hexValue_hexDigit : ∀ n < 16, hexValue (hexDigit n) = some n := by decide

theorem unhex_hex (bytes : List UInt8) :
    unhex (bytes.flatMap fun b => [hexDigit (b.toNat / 16), hexDigit (b.toNat % 16)]) = some bytes := by
  induction bytes with
  | nil => rfl
  | cons b bytes ih =>
    have hlt : b.toNat < 256 := b.toNat_lt
    have hbyte : UInt8.ofNat (16 * (b.toNat / 16) + b.toNat % 16) = b := by
      rw [Nat.div_add_mod, UInt8.ofNat_toNat]
    rw [List.flatMap_cons, List.cons_append, List.cons_append, List.nil_append]
    unfold unhex
    rw [hexValue_hexDigit _ (by omega), hexValue_hexDigit _ (by omega), ih]
    simp only [Option.bind_eq_bind, Option.bind_some, hbyte]

/-- The nonce in front, and key and nonce added to each byte. -/
def shiftCipher : Sealing UInt8 UInt8 where
  encrypt secret nonce plaintext := nonce :: plaintext.map (· + (secret + nonce))
  decrypt secret
    | nonce :: encrypted => some (encrypted.map (· - (secret + nonce)))
    | [] => none
  hexEncode bytes := bytes.flatMap fun b => [hexDigit (b.toNat / 16), hexDigit (b.toNat % 16)]
  hexDecode := unhex
  decrypt_encrypt secret nonce plaintext := by simp [Function.comp_def]
  hexDecode_hexEncode := unhex_hex

def phone : DeviceIdentifier := ⟨['P', 'h', 'o', 'n', 'e'], ['M', 'o', 'b', 'i', 'l', 'e'], ['3', 'd']⟩

theorem phone_accepted : Accepted (phone.fmt none) phone := ⟨rfl, by decide, by decide, by decide, by decide⟩

theorem phone_trimmed : Trimmed (phone.fmt none) :=
  trimmed_of rfl rfl ⟨by decide, by decide⟩

theorem codec_iff_phone : Accepted (phone.fmt none) phone ∧ Trimmed (phone.fmt none) ∧
    (Codec shiftCipher 7 9 (phone.fmt none) ↔
      ∃ kept, kept <+: phone.deviceName ∧ (Utf8.encode kept).length = phone.room) :=
  ⟨phone_accepted, phone_trimmed, codec_iff shiftCipher 7 9 _ phone phone_accepted phone_trimmed⟩

/-- Its name has 124 bytes, two a character, and room for 123. -/
def longName : DeviceIdentifier := ⟨List.replicate 62 'é', ['M'], ['3', 'd']⟩

theorem longName_accepted : Accepted (longName.fmt none) longName :=
  ⟨rfl, by decide, by decide, by decide, by decide⟩

theorem longName_trimmed : Trimmed (longName.fmt none) := trimmed_of rfl rfl ⟨by decide, by decide⟩

theorem longName_not_cutFits : ¬ longName.CutFits := by
  intro hfits
  obtain ⟨kept, hkept⟩ := hfits (by decide +kernel)
  rw [← Utf8.cut_eq_some] at hkept
  have hnone : Utf8.cut longName.deviceName longName.room = none := by decide
  rw [hnone] at hkept
  cases hkept

/-- A short identifier is not padded, and a long name is cut inside a character. -/
theorem not_padded_and_cut_inside :
    (Accepted (phone.fmt none) phone ∧ Trimmed (phone.fmt none) ∧ phone.plaintext.length = 15 ∧
      ¬ Codec shiftCipher 7 9 (phone.fmt none)) ∧
    (Accepted (longName.fmt none) longName ∧ Trimmed (longName.fmt none) ∧ fromStr (longName.fmt none) = .error .panic) := by
  refine ⟨⟨phone_accepted, phone_trimmed, by decide, ?_⟩, longName_accepted, longName_trimmed, ?_⟩
  · intro hcodec
    have hparsed : fromStr (phone.fmt none) = .ok phone :=
      (fromStr_eq_ok phone_accepted).mpr ⟨phone.deviceName, truncate_eq_ok.mpr (.inr ⟨by decide, rfl⟩), rfl⟩
    have hlength := hcodec.fixedLength phone hparsed
    exact absurd hlength (by decide)
  · exact (fromStr_panics_iff longName_accepted).mpr longName_not_cutFits

end DeviceRegistration
