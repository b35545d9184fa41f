import Fedi.Lib.Utf8
import Mathlib.Algebra.Order.Ring.Nat
import Mathlib.Data.Nat.Log

/-!
# CBOR decoder (`utils/cbor.ts`)

`decodeItem` reads one item at an offset of a view of a buffer and says where the next one starts.  Arrays and
maps read as many items as their head says, or run out of bytes.  Numbers are JavaScript numbers: an integer is
the double that is next to it.

    decodeCBOR data ≠ error running      (decodeCBOR_terminates)
-/

namespace Cbor

abbrev Text := List Char

/-! ## Values -/

/-- An integer, or the number that the bits of a float of 16, 32 or 64 bits stand for. -/
inductive JsNumber where
  | integer (n : ℤ)
  | float (width bits : ℕ)
deriving DecidableEq

/-- An object has its own entries, and the prototype that took the place of the usual one, if any did.  The entries
are a map, listed in the order in which their keys were set; the language enumerates integer-like keys before the
others. -/
inductive ResultValue where
  | undefined
  | null
  | bool (b : Bool)
  | number (n : JsNumber)
  | text (s : Text)
  | bytes (bs : List UInt8)
  | array (items : List ResultValue)
  | object (entries : List (Text × ResultValue)) (proto : Option ResultValue)

def ResultValue.isObject : ResultValue → Bool
  | .null | .bytes _ | .array _ | .object _ _ => true
  | _ => false

def protoKey : Text := "__proto__".toList

/-- Whether setting the key `__proto__` still sets the prototype. -/
def setsPrototype : Option ResultValue → Bool
  | none => true
  | some (.object entries proto) => entries.all (fun e => e.1 != protoKey) && setsPrototype proto
  | some .null => false
  | some _ => true

def setOwn (key : Text) (value : ResultValue) : List (Text × ResultValue) → List (Text × ResultValue)
  | [] => [(key, value)]
  | e :: entries => if e.1 = key then (key, value) :: entries else e :: setOwn key value entries

/-- `map[key] = value`. Of a prototype that is a byte string, the keys that it keeps for itself are not told
apart. -/
def assign (map : List (Text × ResultValue) × Option ResultValue) (key : Text) (value : ResultValue) :
    List (Text × ResultValue) × Option ResultValue :=
  if key = protoKey && setsPrototype map.2 then
    if value.isObject then (map.1, some value) else map
  else (setOwn key value map.1, map.2)

/-! ## Views -/

inductive DecodeError where
  | unexpectedEnd
  | range
  | unsupportedMajorType
  | unsupportedLength
  | byteStringLength
  | stringLength
  | invalidKeyType
  | unknownSimpleValue
  | unknownSimpleOrFloat
  /-- The nesting has not come to its end within the steps that the model gives it. -/
  | running
deriving DecidableEq

/-- A `Uint8Array`, or the `DataView` on it. The length of a buffer is a safe integer. -/
structure View where
  buffer : List UInt8
  byteOffset : ℕ
  byteLength : ℕ
  fits : byteOffset + byteLength ≤ buffer.length
  safe : buffer.length < 2 ^ 53

def View.bytes (view : View) : List UInt8 := (view.buffer.drop view.byteOffset).take view.byteLength

def bigEndian (bytes : List UInt8) : ℕ := bytes.foldl (fun n b => n * 256 + b.toNat) 0

/-- `getUint8`, `getUint16` and `getUint32`. -/
def View.getUint (view : View) (offset width : ℕ) : Except DecodeError ℕ :=
  if offset + width ≤ view.byteLength then
    .ok (bigEndian ((view.buffer.drop (view.byteOffset + offset)).take width))
  else .error .range

/-- `new Uint8Array(view.buffer, view.byteOffset + offset, length)`. -/
def View.slice (view : View) (offset length : ℕ) : List UInt8 :=
  (view.buffer.drop (view.byteOffset + offset)).take length

/-- The double next to a natural number; ties go to the even one. -/
def toDouble (n : ℕ) : ℕ :=
  let unit := 2 ^ (Nat.log 2 n - 52)
  let up := unit < 2 * (n % unit) ∨ unit = 2 * (n % unit) ∧ n / unit % 2 = 1
  if up then (n / unit + 1) * unit else n / unit * unit

/-- `new TextDecoder().decode`: a byte order mark at the start is left out. -/
def decodeText : List UInt8 → Text
  | 0xef :: 0xbb :: 0xbf :: bytes => Utf8.decode bytes
  | bytes => Utf8.decode bytes

/-! ## Items -/

section

variable (numberToString : JsNumber → Text) (view : View)

def decodeLength (offset additionalInfo : ℕ) : Except DecodeError (ℕ × ℕ) :=
  if additionalInfo < 24 then .ok (additionalInfo, offset)
  else if additionalInfo = 24 then do
    let value ← view.getUint offset 1
    .ok (value, offset + 1)
  else if additionalInfo = 25 then do
    let value ← view.getUint offset 2
    .ok (value, offset + 2)
  else if additionalInfo = 26 then do
    let value ← view.getUint offset 4
    .ok (value, offset + 4)
  else if additionalInfo = 27 then do
    let hi ← view.getUint offset 4
    let lo ← view.getUint (offset + 4) 4
    .ok (toDouble (hi * 2 ^ 32 + lo), offset + 8)
  else .error .unsupportedLength

def decodeUnsigned (offset additionalInfo : ℕ) : Except DecodeError (ResultValue × ℕ) := do
  let (value, newOffset) ← decodeLength view offset additionalInfo
  .ok (.number (.integer value), newOffset)

/-- `-1 - value`, as a double. -/
def decodeSigned (offset additionalInfo : ℕ) : Except DecodeError (ResultValue × ℕ) := do
  let (value, newOffset) ← decodeLength view offset additionalInfo
  .ok (.number (.integer (-(toDouble (value + 1) : ℤ))), newOffset)

def decodeByteString (offset additionalInfo : ℕ) : Except DecodeError (ResultValue × ℕ) := do
  let (length, newOffset) ← decodeLength view offset additionalInfo
  if newOffset + length > view.byteLength then .error .byteStringLength
  else .ok (.bytes (view.slice newOffset length), newOffset + length)

def decodeString (offset additionalInfo : ℕ) : Except DecodeError (ResultValue × ℕ) := do
  let (length, newOffset) ← decodeLength view offset additionalInfo
  if newOffset + length > view.byteLength then .error .stringLength
  else .ok (.text (decodeText (view.slice newOffset length)), newOffset + length)

def decodeSimpleAndFloat (offset additionalInfo : ℕ) : Except DecodeError (ResultValue × ℕ) :=
  if additionalInfo < 24 then
    match additionalInfo with
    | 20 => .ok (.bool false, offset)
    | 21 => .ok (.bool true, offset)
    | 22 => .ok (.null, offset)
    | 23 => .ok (.undefined, offset)
    | _ => .error .unknownSimpleValue
  else if additionalInfo = 24 then do
    let value ← view.getUint offset 1
    .ok (.number (.integer value), offset + 1)
  else if additionalInfo = 25 then do
    let bits ← view.getUint offset 2
    .ok (.number (.float 16 bits), offset + 2)
  else if additionalInfo = 26 then do
    let bits ← view.getUint offset 4
    .ok (.number (.float 32 bits), offset + 4)
  else if additionalInfo = 27 then do
    let hi ← view.getUint offset 4
    let lo ← view.getUint (offset + 4) 4
    .ok (.number (.float 64 (hi * 2 ^ 32 + lo)), offset + 8)
  else .error .unknownSimpleOrFloat

/-- The loop of an array, given what reads an item. -/
def decodeItems (item : ℕ → Except DecodeError (ResultValue × ℕ)) : ℕ → ℕ → Except DecodeError (List ResultValue × ℕ)
  | 0, offset => .ok ([], offset)
  | length + 1, offset => do
    let (value, offset) ← item offset
    let (items, offset) ← decodeItems item length offset
    .ok (value :: items, offset)

/-- The property key of a text or a number. -/
def resultKey : ResultValue → Option Text
  | .text s => some s
  | .number n => some (numberToString n)
  | _ => none

/-- The loop of a map. -/
def decodeEntries (item : ℕ → Except DecodeError (ResultValue × ℕ)) :
    ℕ → ℕ → List (Text × ResultValue) × Option ResultValue →
    Except DecodeError ((List (Text × ResultValue) × Option ResultValue) × ℕ)
  | 0, offset, map => .ok (map, offset)
  | length + 1, offset, map => do
    let (key, offset) ← item offset
    match resultKey numberToString key with
    | none => .error .invalidKeyType
    | some key =>
      let (value, offset) ← item offset
      decodeEntries item length offset (assign map key value)

def decodeArray (item : ℕ → Except DecodeError (ResultValue × ℕ)) (offset additionalInfo : ℕ) :
    Except DecodeError (ResultValue × ℕ) := do
  let (length, newOffset) ← decodeLength view offset additionalInfo
  let (items, currentOffset) ← decodeItems item length newOffset
  .ok (.array items, currentOffset)

def decodeMap (item : ℕ → Except DecodeError (ResultValue × ℕ)) (offset additionalInfo : ℕ) :
    Except DecodeError (ResultValue × ℕ) := do
  let (length, newOffset) ← decodeLength view offset additionalInfo
  let (map, currentOffset) ← decodeEntries numberToString item length newOffset ([], none)
  .ok (.object map.1 map.2, currentOffset)

/-- The `switch` of `decodeItem`, given what reads the items inside. -/
def decodeMajorType (item : ℕ → Except DecodeError (ResultValue × ℕ)) (majorType offset additionalInfo : ℕ) :
    Except DecodeError (ResultValue × ℕ) :=
  match majorType with
  | 0 => decodeUnsigned view offset additionalInfo
  | 1 => decodeSigned view offset additionalInfo
  | 2 => decodeByteString view offset additionalInfo
  | 3 => decodeString view offset additionalInfo
  | 4 => decodeArray view item offset additionalInfo
  | 5 => decodeMap numberToString view item offset additionalInfo
  | 7 => decodeSimpleAndFloat view offset additionalInfo
  | _ => .error .unsupportedMajorType

/-- One item, nested at most so deep. -/
def decodeItem : ℕ → ℕ → Except DecodeError (ResultValue × ℕ)
  | 0, _ => .error .running
  | depth + 1, offset =>
    if offset ≥ view.byteLength then .error .unexpectedEnd
    else do
      let initialByte ← view.getUint offset 1
      let majorType := initialByte / 32
      let additionalInfo := initialByte % 32
      decodeMajorType numberToString view (decodeItem depth) majorType (offset + 1) additionalInfo

/-- Every level of nesting takes a byte. -/
def decodeCBOR (data : View) : Except DecodeError ResultValue := do
  let (value, _) ← decodeItem numberToString data (data.byteLength + 1) 0
  .ok value

end

/-! ## Termination -/

/-- Whatever was read ends at `offset` or after it; what failed, failed for a reason of the data. -/
def Advances {α : Type} (offset : ℕ) (outcome : Except DecodeError (α × ℕ)) : Prop :=
  outcome ≠ .error .running ∧ ∀ r, outcome = .ok r → offset ≤ r.2

variable {α β : Type}

theorem advances_ok (a : α) {offset offset' : ℕ} (h : offset ≤ offset') :
    Advances offset (.ok (a, offset') : Except DecodeError (α × ℕ)) := by
  constructor
  · simp
  · intro r hr
    simp only [Except.ok.injEq] at hr
    rw [← hr]
    exact h

theorem advances_error {e : DecodeError} (offset : ℕ) (he : e ≠ .running) :
    Advances offset (.error e : Except DecodeError (α × ℕ)) := by
  constructor
  · simp [he]
  · intro r hr
    simp at hr

theorem Advances.mono {offset offset' : ℕ} {outcome : Except DecodeError (α × ℕ)} (h : Advances offset' outcome)
    (hle : offset ≤ offset') : Advances offset outcome :=
  ⟨h.1, fun r hr => hle.trans (h.2 r hr)⟩

theorem Advances.bind {offset : ℕ} {outcome : Except DecodeError (α × ℕ)}
    {next : α × ℕ → Except DecodeError (β × ℕ)} (h : Advances offset outcome)
    (hnext : ∀ a offset', offset ≤ offset' → Advances offset' (next (a, offset'))) :
    Advances offset (outcome >>= next) := by
  cases outcome with
  | error e =>
    apply advances_error offset
    intro he
    exact h.1 (by rw [he])
  | ok r =>
    have hle : offset ≤ r.2 := h.2 r rfl
    exact (hnext r.1 r.2 hle).mono hle

theorem getUint_bind_advances (view : View) {offset : ℕ} (position width : ℕ) {next : ℕ → Except DecodeError (α × ℕ)}
    (hnext : ∀ n, Advances offset (next n)) : Advances offset (view.getUint position width >>= next) := by
  unfold View.getUint
  by_cases hfits : position + width ≤ view.byteLength
  · rw [if_pos hfits]
    exact hnext _
  · rw [if_neg hfits]
    exact advances_error offset (by simp)

theorem decodeLength_advances (view : View) (offset additionalInfo : ℕ) :
    Advances offset (decodeLength view offset additionalInfo) := by
  unfold decodeLength
  split_ifs
  · exact advances_ok _ (by omega)
  · exact getUint_bind_advances view _ _ (fun n => advances_ok _ (by omega))
  · exact getUint_bind_advances view _ _ (fun n => advances_ok _ (by omega))
  · exact getUint_bind_advances view _ _ (fun n => advances_ok _ (by omega))
  · apply getUint_bind_advances
    intro hi
    exact getUint_bind_advances view _ _ (fun lo => advances_ok _ (by omega))
  · exact advances_error _ (by simp)

theorem decodeSimpleAndFloat_advances (view : View) (offset additionalInfo : ℕ) :
    Advances offset (decodeSimpleAndFloat view offset additionalInfo) := by
  unfold decodeSimpleAndFloat
  split_ifs
  · split
    · exact advances_ok _ (by omega)
    · exact advances_ok _ (by omega)
    · exact advances_ok _ (by omega)
    · exact advances_ok _ (by omega)
    · exact advances_error _ (by simp)
  · exact getUint_bind_advances view _ _ (fun n => advances_ok _ (by omega))
  · exact getUint_bind_advances view _ _ (fun n => advances_ok _ (by omega))
  · exact getUint_bind_advances view _ _ (fun n => advances_ok _ (by omega))
  · apply getUint_bind_advances
    intro hi
    exact getUint_bind_advances view _ _ (fun lo => advances_ok _ (by omega))
  · exact advances_error _ (by simp)

theorem decodeItems_advances {item : ℕ → Except DecodeError (ResultValue × ℕ)} {start : ℕ}
    (hitem : ∀ offset, start ≤ offset → Advances offset (item offset)) (length : ℕ) :
    ∀ offset, start ≤ offset → Advances offset (decodeItems item length offset) := by
  induction length with
  | zero =>
    intro offset _
    exact advances_ok _ (Nat.le_refl _)
  | succ length ih =>
    intro offset hstart
    apply (hitem offset hstart).bind
    intro value offset' hle
    apply (ih offset' (hstart.trans hle)).bind
    intro items offset'' _
    exact advances_ok _ (Nat.le_refl _)

theorem decodeEntries_advances (numberToString : JsNumber → Text)
    {item : ℕ → Except DecodeError (ResultValue × ℕ)} {start : ℕ}
    (hitem : ∀ offset, start ≤ offset → Advances offset (item offset)) (length : ℕ) :
    ∀ offset map, start ≤ offset → Advances offset (decodeEntries numberToString item length offset map) := by
  induction length with
  | zero =>
    intro offset map _
    exact advances_ok _ (Nat.le_refl _)
  | succ length ih =>
    intro offset map hstart
    apply (hitem offset hstart).bind
    intro key offset' hle
    dsimp only
    cases resultKey numberToString key with
    | none => exact advances_error _ (by simp)
    | some key =>
      apply (hitem offset' (hstart.trans hle)).bind
      intro value offset'' hle'
      exact ih offset'' _ (by omega)

theorem decodeMajorType_advances (numberToString : JsNumber → Text) (view : View)
    {item : ℕ → Except DecodeError (ResultValue × ℕ)} {offset : ℕ}
    (hitem : ∀ offset', offset ≤ offset' → Advances offset' (item offset')) (majorType additionalInfo : ℕ) :
    Advances offset (decodeMajorType numberToString view item majorType offset additionalInfo) := by
  have hlength : Advances offset (decodeLength view offset additionalInfo) := decodeLength_advances view _ _
  unfold decodeMajorType
  split
  · exact hlength.bind (fun n o _ => advances_ok _ (Nat.le_refl _))
  · exact hlength.bind (fun n o _ => advances_ok _ (Nat.le_refl _))
  · apply hlength.bind
    intro length newOffset _
    dsimp only
    split_ifs
    · exact advances_error _ (by simp)
    · exact advances_ok _ (by omega)
  · apply hlength.bind
    intro length newOffset _
    dsimp only
    split_ifs
    · exact advances_error _ (by simp)
    · exact advances_ok _ (by omega)
  · apply hlength.bind
    intro length newOffset hle
    apply (decodeItems_advances hitem length newOffset hle).bind
    intro items currentOffset _
    exact advances_ok _ (Nat.le_refl _)
  · apply hlength.bind
    intro length newOffset hle
    apply (decodeEntries_advances numberToString hitem length newOffset _ hle).bind
    intro map currentOffset _
    exact advances_ok _ (Nat.le_refl _)
  · exact decodeSimpleAndFloat_advances view _ _
  · exact advances_error _ (by simp)

/-- With a level of nesting for every byte that is left, an item is read to its end. -/
theorem decodeItem_advances (numberToString : JsNumber → Text) (view : View) (depth : ℕ) :
    ∀ offset, 0 < depth → view.byteLength < offset + depth →
    Advances offset (decodeItem numberToString view depth offset) := by
  induction depth with
  | zero =>
    intro offset hdepth
    omega
  | succ depth ih =>
    intro offset _ hdepth
    unfold decodeItem
    by_cases hend : offset ≥ view.byteLength
    · rw [if_pos hend]
      exact advances_error _ (by simp)
    · rw [if_neg hend]
      apply getUint_bind_advances
      intro initialByte
      refine Advances.mono (?_ : Advances (offset + 1) _) (by omega)
      apply decodeMajorType_advances
      -- The byte just read pays for the level that is entered.
      intro offset' hle
      exact ih offset' (by omega) (by omega)

theorem decodeCBOR_terminates (numberToString : JsNumber → Text) (data : View) :
    decodeCBOR numberToString data ≠ .error .running := by
  have hadvances := decodeItem_advances numberToString data (data.byteLength + 1) 0 (by omega) (by omega)
  unfold decodeCBOR
  cases hread : decodeItem numberToString data (data.byteLength + 1) 0 with
  | error e =>
    intro he
    apply hadvances.1
    rw [hread]
    exact congrArg _ (Except.error.inj he)
  | ok r =>
    intro he
    exact absurd he (by simp [bind, Except.bind])

end Cbor
