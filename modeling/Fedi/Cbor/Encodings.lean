import Fedi.Cbor.Decoder
import Fedi.Lib.Reads
import Fedi.Lib.Runs
import Mathlib.Tactic.Ring

/-!
# CBOR encodings and what the decoder makes of them

`EncodesAll` says which bytes RFC 8949 allows, with definite lengths, for values one after another: the argument of
a head may take more bytes than it needs.  The decoder reads such bytes up to their end and fails on what is cut
off.  What it returns is `decoded`: a text that starts with a byte order mark loses it, and the entry `__proto__` of
a map is not one of the object's own.

    Encodes v bytes → (decodeCBOR bytes = v ↔ plain v)      (decodeCBOR_returns_iff)
-/

namespace Cbor

open Reader Runs

/-! ## Encodings -/

def toBigEndian : ℕ → ℕ → List UInt8
  | 0, _ => []
  | width + 1, n => toBigEndian width (n / 256) ++ [UInt8.ofNat n]

def initialByte (majorType additionalInfo : ℕ) : UInt8 := UInt8.ofNat (majorType * 32 + additionalInfo)

/-- The argument of a head, in the head itself or in the one, two, four or eight bytes after it. -/
inductive Argument : ℕ → ℕ → List UInt8 → Prop
  | direct (n : ℕ) (hn : n < 24) : Argument n n []
  | following (n k : ℕ) (hk : k < 4) (hn : n < 256 ^ 2 ^ k) : Argument n (24 + k) (toBigEndian (2 ^ k) n)

/-- The items of a map: each key before its value. -/
def flatten (entries : List (Text × ResultValue)) : List ResultValue :=
  entries.flatMap fun e => [.text e.1, e.2]

inductive EncodesAll : List ResultValue → List UInt8 → Prop
  | nil : EncodesAll [] []
  | unsigned (n : ℕ) (info : ℕ) (arg : List UInt8) (values : List ResultValue) (rest : List UInt8) :
    n < 2 ^ 53 → Argument n info arg → EncodesAll values rest →
    EncodesAll (.number (.integer n) :: values) ((initialByte 0 info :: arg) ++ rest)
  | negative (n : ℕ) (info : ℕ) (arg : List UInt8) (values : List ResultValue) (rest : List UInt8) :
    n + 1 < 2 ^ 53 → Argument n info arg → EncodesAll values rest →
    EncodesAll (.number (.integer (-1 - n)) :: values) ((initialByte 1 info :: arg) ++ rest)
  | byteString (bytes : List UInt8) (info : ℕ) (arg : List UInt8) (values : List ResultValue) (rest : List UInt8) :
    Argument bytes.length info arg → EncodesAll values rest →
    EncodesAll (.bytes bytes :: values) ((initialByte 2 info :: (arg ++ bytes)) ++ rest)
  | text (s : Text) (info : ℕ) (arg : List UInt8) (values : List ResultValue) (rest : List UInt8) :
    Argument (Utf8.encode s).length info arg → EncodesAll values rest →
    EncodesAll (.text s :: values) ((initialByte 3 info :: (arg ++ Utf8.encode s)) ++ rest)
  | array (items : List ResultValue) (info : ℕ) (arg body : List UInt8) (values : List ResultValue) (rest : List UInt8) :
    Argument items.length info arg → EncodesAll items body → EncodesAll values rest →
    EncodesAll (.array items :: values) ((initialByte 4 info :: (arg ++ body)) ++ rest)
  | map (entries : List (Text × ResultValue)) (info : ℕ) (arg body : List UInt8) (values : List ResultValue)
    (rest : List UInt8) :
    (entries.map Prod.fst).Nodup → Argument entries.length info arg → EncodesAll (flatten entries) body →
    EncodesAll values rest →
    EncodesAll (.object entries none :: values) ((initialByte 5 info :: (arg ++ body)) ++ rest)
  | bool (b : Bool) (values : List ResultValue) (rest : List UInt8) : EncodesAll values rest →
    EncodesAll (.bool b :: values) ([initialByte 7 (if b then 21 else 20)] ++ rest)
  | null (values : List ResultValue) (rest : List UInt8) : EncodesAll values rest →
    EncodesAll (.null :: values) ([initialByte 7 22] ++ rest)

def Encodes (v : ResultValue) (bytes : List UInt8) : Prop := EncodesAll [v] bytes

/-! ## What is returned -/

def assignAll (entries : List (Text × ResultValue)) (map : List (Text × ResultValue) × Option ResultValue) :
    List (Text × ResultValue) × Option ResultValue :=
  entries.foldl (fun map e => assign map e.1 e.2) map

mutual

def decoded : ResultValue → ResultValue
  | .text s => .text (decodeText (Utf8.encode s))
  | .array items => .array (decodedItems items)
  | .object entries _ => .object (assignAll (decodedEntries entries) ([], none)).1 (assignAll (decodedEntries entries) ([], none)).2
  | v => v

def decodedItems : List ResultValue → List ResultValue
  | [] => []
  | v :: values => decoded v :: decodedItems values

def decodedEntries : List (Text × ResultValue) → List (Text × ResultValue)
  | [] => []
  | (key, v) :: entries => (decodeText (Utf8.encode key), decoded v) :: decodedEntries entries

end

def byteOrderMark : Char := '\uFEFF'

def plainText (s : Text) : Bool := s.head? != some byteOrderMark

mutual

/-- No text starts with a byte order mark, and no key is `__proto__`. -/
def plain : ResultValue → Bool
  | .text s => plainText s
  | .array items => plainItems items
  | .object entries _ => plainEntries entries
  | _ => true

def plainItems : List ResultValue → Bool
  | [] => true
  | v :: values => plain v && plainItems values

def plainEntries : List (Text × ResultValue) → Bool
  | [] => true
  | (key, v) :: entries => (key != protoKey && plainText key && plain v) && plainEntries entries

end

/-! ## Lemmas: bytes -/

theorem bigEndian_append (bytes : List UInt8) (b : UInt8) : bigEndian (bytes ++ [b]) = bigEndian bytes * 256 + b.toNat := by
  simp [bigEndian, List.foldl_append]

theorem length_toBigEndian (width n : ℕ) : (toBigEndian width n).length = width := by
  induction width generalizing n with
  | zero => rfl
  | succ width ih => simp [toBigEndian, ih]

theorem bigEndian_toBigEndian (width n : ℕ) : bigEndian (toBigEndian width n) = n % 256 ^ width := by
  induction width generalizing n with
  | zero => simp [toBigEndian, bigEndian, Nat.mod_one]
  | succ width ih =>
    have hlast : (UInt8.ofNat n).toNat = n % 256 := by simp
    rw [toBigEndian, bigEndian_append, ih, hlast, Nat.pow_succ, Nat.mul_comm (256 ^ width) 256, Nat.mod_mul]
    ring

theorem toBigEndian_add (width width' n : ℕ) :
    toBigEndian (width + width') n = toBigEndian width (n / 256 ^ width') ++ toBigEndian width' n := by
  induction width' generalizing n with
  | zero => simp [toBigEndian]
  | succ width' ih =>
    rw [← Nat.add_assoc, toBigEndian, ih, toBigEndian, Nat.div_div_eq_div_mul, Nat.pow_succ, Nat.mul_comm 256,
      List.append_assoc]

theorem toDouble_of_lt {n : ℕ} (hn : n < 2 ^ 53) : toDouble n = n := by
  have hlog : Nat.log 2 n - 52 = 0 := by
    have hlt : Nat.log 2 n < 53 := Nat.log_lt_of_lt_pow' (by omega) hn
    omega
  unfold toDouble
  rw [hlog]
  simp [Nat.mod_one]

theorem View.length_bytes (view : View) : view.bytes.length = view.byteLength := by
  have hfits := view.fits
  simp only [View.bytes, List.length_take, List.length_drop]
  omega

theorem View.byteLength_lt (view : View) : view.byteLength < 2 ^ 53 := by
  have hfits := view.fits
  have hsafe := view.safe
  omega

theorem View.slice_eq (view : View) {offset length : ℕ} (hle : offset + length ≤ view.byteLength) :
    view.slice offset length = (view.bytes.drop offset).take length := by
  simp only [View.slice, View.bytes, List.drop_take, List.take_take, List.drop_drop]
  rw [Nat.min_eq_left (by omega)]

/-! ## Lemmas: heads -/

section

variable {numberToString : JsNumber → Text} {view : View}

theorem getUint_eq {offset width : ℕ} (hle : offset + width ≤ view.byteLength) :
    view.getUint offset width = .ok (bigEndian ((view.bytes.drop offset).take width)) := by
  rw [View.getUint, if_pos hle, ← view.slice_eq hle, View.slice]

theorem reads_getUint (view : View) (offset width n : ℕ) (hwidth : width ≠ 0) :
    Reads view.bytes (view.getUint offset width >>= fun value => .ok (value, offset + width)) offset
      (toBigEndian width n) (n % 256 ^ width) := by
  have hlength : (toBigEndian width n).length = width := length_toBigEndian width n
  have hne : toBigEndian width n ≠ [] := by
    intro hnil
    rw [hnil] at hlength
    exact hwidth hlength.symm
  constructor
  · intro hword
    have hle := length_le_of_starts hword hne
    have htake : toBigEndian width n = (view.bytes.drop offset).take width := by
      rw [List.prefix_iff_eq_take.mp hword, hlength]
    rw [hlength, view.length_bytes] at hle
    rw [getUint_eq hle, ← htake, bigEndian_toBigEndian, hlength]
    rfl
  · intro hcut hcut'
    have hlt := length_lt_of_cut hcut hcut'
    rw [hlength, view.length_bytes] at hlt
    refine ⟨.range, ?_⟩
    rw [View.getUint, if_neg (by omega)]
    rfl

theorem reads_decodeLength {n info : ℕ} {arg : List UInt8} (offset : ℕ) (harg : Argument n info arg) (hn : n < 2 ^ 53) :
    Reads view.bytes (decodeLength view offset info) offset arg n := by
  cases harg with
  | direct hdirect =>
    rw [decodeLength, if_pos hdirect]
    exact reads_nil offset n
  | following k hk hfits =>
    have hread := reads_getUint view offset (2 ^ k) n (by simp)
    rw [Nat.mod_eq_of_lt hfits] at hread
    have hcases : k = 0 ∨ k = 1 ∨ k = 2 ∨ k = 3 := by omega
    rcases hcases with rfl | rfl | rfl | rfl
    · exact hread
    · exact hread
    · exact hread
    -- The eight bytes are read as two numbers of four.
    · have hsplit : toBigEndian (2 ^ 3) n = toBigEndian 4 (n / 256 ^ 4) ++ toBigEndian 4 n := toBigEndian_add 4 4 n
      have hsteps : decodeLength view offset (24 + 3) =
          (view.getUint offset 4 >>= fun hi => .ok (hi, offset + 4)) >>= fun hi =>
            view.getUint hi.2 4 >>= fun lo => .ok (toDouble (hi.1 * 2 ^ 32 + lo), hi.2 + 4) := by
        rw [bind_assoc]
        rfl
      have hvalue : toDouble (n / 256 ^ 4 % 256 ^ 4 * 2 ^ 32 + n % 256 ^ 4) = n := by
        have hsum : n / 256 ^ 4 % 256 ^ 4 * 2 ^ 32 + n % 256 ^ 4 = n := by omega
        rw [hsum, toDouble_of_lt hn]
      rw [hsteps, hsplit]
      apply reads_bind (reads_getUint view offset 4 (n / 256 ^ 4) (by simp))
      intro _
      rw [length_toBigEndian]
      have hlo := reads_map (fun lo => toDouble (n / 256 ^ 4 % 256 ^ 4 * 2 ^ 32 + lo))
        (reads_getUint view (offset + 4) 4 n (by simp))
      rw [hvalue, bind_assoc] at hlo
      exact hlo

/-- The first byte of an item says how to read the others. -/
theorem reads_item {majorType info : ℕ} {word : List UInt8} {value : ResultValue} {depth offset : ℕ}
    (hmajor : majorType < 8) (hinfo : info < 32) (hdepth : view.byteLength < offset + depth)
    (hrest : ∀ depth', offset + 1 ≤ view.byteLength → view.byteLength < offset + 1 + depth' →
      Reads view.bytes (decodeMajorType numberToString view (decodeItem numberToString view depth') majorType
        (offset + 1) info) (offset + 1) word value) :
    Reads view.bytes (decodeItem numberToString view depth offset) offset (initialByte majorType info :: word) value := by
  have hne : initialByte majorType info :: word ≠ [] := by simp
  cases depth with
  | zero =>
    exact reads_end _ value (by rw [view.length_bytes]; omega) hne
  | succ depth =>
    by_cases hend : offset ≥ view.byteLength
    · have hfail : decodeItem numberToString view (depth + 1) offset = .error .unexpectedEnd := if_pos hend
      rw [hfail]
      exact reads_end _ value (by rw [view.length_bytes]; omega) hne
    · have hsteps : decodeItem numberToString view (depth + 1) offset =
          (view.getUint offset 1 >>= fun n => .ok (n, offset + 1)) >>= fun first =>
            decodeMajorType numberToString view (decodeItem numberToString view depth) (first.1 / 32) first.2
              (first.1 % 32) := by
        rw [bind_assoc, decodeItem, if_neg hend]
        rfl
      rw [hsteps]
      apply reads_bind (reads_getUint view offset 1 (majorType * 32 + info) (by simp))
      intro _
      have hdiv : (majorType * 32 + info) % 256 ^ 1 / 32 = majorType := by omega
      have hmod : (majorType * 32 + info) % 256 ^ 1 % 32 = info := by omega
      dsimp only
      rw [hdiv, hmod]
      exact hrest depth (by omega) (by omega)

theorem Argument.info_lt {n info : ℕ} {arg : List UInt8} (harg : Argument n info arg) : info < 32 := by
  cases harg with
  | direct hdirect => omega
  | following k hk hfits => omega

theorem end_le_byteLength {offset : ℕ} {word : List UInt8} (hword : word <+: view.bytes.drop offset)
    (hoffset : offset ≤ view.byteLength) : offset + word.length ≤ view.byteLength := by
  rw [← view.length_bytes] at hoffset ⊢
  exact end_le_of_starts hword hoffset

theorem reads_slice (e : DecodeError) (f : List UInt8 → ResultValue) {offset : ℕ} {word : List UInt8}
    (hoffset : offset ≤ view.byteLength) :
    Reads view.bytes
      (if offset + word.length > view.byteLength then .error e
        else .ok (f (view.slice offset word.length), offset + word.length)) offset word (f word) := by
  have hoffset' : offset ≤ view.bytes.length := by
    rw [view.length_bytes]
    exact hoffset
  have hpayload : Reads view.bytes _ offset word (f word) := reads_payload e f hoffset'
  rw [view.length_bytes] at hpayload
  by_cases hlong : offset + word.length > view.byteLength
  · rw [if_pos hlong] at hpayload ⊢
    exact hpayload
  · rw [if_neg hlong] at hpayload ⊢
    rw [view.slice_eq (by omega)]
    exact hpayload

/-! ## Lemmas: loops -/

theorem reads_cons {item : ℕ → Except DecodeError (ResultValue × ℕ)} {offset length : ℕ} {word rest : List UInt8}
    {v : ResultValue} {values : List ResultValue} (hitem : Reads view.bytes (item offset) offset word v)
    (hitems : Reads view.bytes (decodeItems item length (offset + word.length)) (offset + word.length) rest values) :
    Reads view.bytes (decodeItems item (length + 1) offset) offset (word ++ rest) (v :: values) := by
  apply reads_bind hitem
  intro _
  exact reads_map (fun items => v :: items) hitems

theorem flatten_cons (e : Text × ResultValue) (entries : List (Text × ResultValue)) :
    flatten (e :: entries) = .text e.1 :: e.2 :: flatten entries := rfl

theorem length_flatten (entries : List (Text × ResultValue)) : (flatten entries).length = 2 * entries.length := by
  induction entries with
  | nil => rfl
  | cons e entries ih =>
    rw [flatten_cons, List.length_cons, List.length_cons, List.length_cons, ih]
    omega

theorem decodeItems_ok {item : ℕ → Except DecodeError (ResultValue × ℕ)} {length offset offset' : ℕ} {v : ResultValue}
    {values : List ResultValue} (h : decodeItems item (length + 1) offset = .ok (v :: values, offset')) :
    ∃ next, item offset = .ok (v, next) ∧ decodeItems item length next = .ok (values, offset') := by
  unfold decodeItems at h
  obtain ⟨first, hitem, h⟩ := bind_eq_ok.mp h
  obtain ⟨rest, hitems, h⟩ := bind_eq_ok.mp h
  simp only [Except.ok.injEq, Prod.mk.injEq, List.cons.injEq] at h
  obtain ⟨⟨rfl, rfl⟩, rfl⟩ := h
  exact ⟨first.2, hitem, hitems⟩

theorem decodeItems_error {item : ℕ → Except DecodeError (ResultValue × ℕ)} {length offset : ℕ} {e : DecodeError}
    (h : decodeItems item (length + 1) offset = .error e) :
    item offset = .error e ∨ ∃ v next, item offset = .ok (v, next) ∧ decodeItems item length next = .error e := by
  unfold decodeItems at h
  rcases bind_eq_error.mp h with hitem | ⟨first, hitem, h⟩
  · exact .inl hitem
  · rcases bind_eq_error.mp h with hitems | ⟨rest, _, h⟩
    · exact .inr ⟨first.1, first.2, hitem, hitems⟩
    · exact absurd h (by simp)

theorem twice_succ (length : ℕ) : 2 * (length + 1) = 2 * length + 1 + 1 := by omega

/-- The loop of a map assigns what the loop of an array would list. -/
theorem decodeEntries_ok (item : ℕ → Except DecodeError (ResultValue × ℕ)) (entries : List (Text × ResultValue)) :
    ∀ offset offset' map, decodeItems item (2 * entries.length) offset = .ok (flatten entries, offset') →
    decodeEntries numberToString item entries.length offset map = .ok (assignAll entries map, offset') := by
  induction entries with
  | nil =>
    intro offset offset' map h
    simp only [List.length_nil, Nat.mul_zero, decodeItems, Except.ok.injEq, Prod.mk.injEq] at h
    rw [← h.2]
    rfl
  | cons entry entries ih =>
    intro offset offset' map h
    rw [List.length_cons, twice_succ, flatten_cons] at h
    obtain ⟨next, hkey, hrest⟩ := decodeItems_ok h
    obtain ⟨next', hvalue, hrest'⟩ := decodeItems_ok hrest
    have hloop := ih next' offset' (assign map entry.1 entry.2) hrest'
    simp only [List.length_cons, decodeEntries, hkey, hvalue, resultKey, bind, Except.bind]
    exact hloop

theorem decodeEntries_error (item : ℕ → Except DecodeError (ResultValue × ℕ)) (length : ℕ) :
    ∀ offset map e, decodeItems item (2 * length) offset = .error e →
    ∃ e', decodeEntries numberToString item length offset map = .error e' := by
  induction length with
  | zero =>
    intro offset map e h
    simp [decodeItems] at h
  | succ length ih =>
    intro offset map e h
    rw [twice_succ] at h
    unfold decodeEntries
    rcases decodeItems_error h with hkey | ⟨key, next, hkey, hrest⟩
    · exact ⟨e, by simp only [hkey, bind, Except.bind]⟩
    · cases hname : resultKey numberToString key with
      | none => exact ⟨.invalidKeyType, by simp only [hkey, hname, bind, Except.bind]⟩
      | some name =>
        rcases decodeItems_error hrest with hvalue | ⟨value, next', hvalue, hrest'⟩
        · exact ⟨e, by simp only [hkey, hname, hvalue, bind, Except.bind]⟩
        · obtain ⟨e', he'⟩ := ih next' (assign map name value) e hrest'
          exact ⟨e', by simp only [hkey, hname, hvalue, bind, Except.bind]; exact he'⟩

theorem reads_decodeEntries {item : ℕ → Except DecodeError (ResultValue × ℕ)} {offset : ℕ} {body : List UInt8}
    {entries : List (Text × ResultValue)} (map : List (Text × ResultValue) × Option ResultValue)
    (hitems : Reads view.bytes (decodeItems item (2 * entries.length) offset) offset body (flatten entries)) :
    Reads view.bytes (decodeEntries numberToString item entries.length offset map) offset body (assignAll entries map) := by
  constructor
  · intro hbody
    exact decodeEntries_ok item entries offset _ map (hitems.1 hbody)
  · intro hcut hne
    obtain ⟨e, he⟩ := hitems.2 hcut hne
    exact decodeEntries_error item entries.length offset map e he

/-! ## Lemmas: every encoding -/

theorem length_le_of_encodesAll {values : List ResultValue} {bytes : List UInt8} (h : EncodesAll values bytes) :
    values.length ≤ bytes.length := by
  induction h with
  | nil => exact Nat.le_refl _
  | _ => simp only [List.length_cons, List.length_append]; omega

theorem decodedItems_eq (items : List ResultValue) : decodedItems items = items.map decoded := by
  induction items with
  | nil => rfl
  | cons v items ih => rw [decodedItems, ih, List.map_cons]

theorem length_decodedEntries (entries : List (Text × ResultValue)) : (decodedEntries entries).length = entries.length := by
  induction entries with
  | nil => rfl
  | cons e entries ih => rw [decodedEntries, List.length_cons, ih, List.length_cons]

theorem map_decoded_flatten (entries : List (Text × ResultValue)) :
    (flatten entries).map decoded = flatten (decodedEntries entries) := by
  induction entries with
  | nil => rfl
  | cons e entries ih =>
    rw [flatten_cons, List.map_cons, List.map_cons, ih, decodedEntries, flatten_cons, decoded]

/-- Items that are encoded one after another are read one after another. -/
theorem reads_decodeItems (numberToString : JsNumber → Text) (view : View) {values : List ResultValue} {bytes : List UInt8}
    (h : EncodesAll values bytes) : bytes.length < 2 ^ 53 → ∀ depth offset, view.byteLength < offset + depth →
    Reads view.bytes (decodeItems (decodeItem numberToString view depth) values.length offset) offset bytes
      (values.map decoded) := by
  induction h with
  | nil =>
    intro _ depth offset _
    exact reads_nil offset []
  | unsigned n info arg values rest hn harg _ ih =>
    intro hlength depth offset hdepth
    rw [List.length_append] at hlength
    apply reads_cons _ (ih (by omega) depth _ (by omega))
    apply reads_item (by omega) harg.info_lt hdepth
    intro depth' _ _
    exact reads_map (fun n : ℕ => ResultValue.number (.integer n)) (reads_decodeLength _ harg hn)
  | negative n info arg values rest hn harg _ ih =>
    intro hlength depth offset hdepth
    rw [List.length_append] at hlength
    apply reads_cons _ (ih (by omega) depth _ (by omega))
    apply reads_item (by omega) harg.info_lt hdepth
    intro depth' _ _
    have harg' : Reads view.bytes (decodeLength view (offset + 1) info) (offset + 1) arg n :=
      reads_decodeLength (offset + 1) harg (by omega)
    have hread := reads_map (fun n => ResultValue.number (.integer (-(toDouble (n + 1) : ℤ)))) harg'
    have hvalue : (-(toDouble (n + 1) : ℤ)) = -1 - (n : ℤ) := by
      rw [toDouble_of_lt hn]
      omega
    rw [hvalue] at hread
    exact hread
  | byteString bs info arg values rest harg _ ih =>
    intro hlength depth offset hdepth
    simp only [List.length_append, List.length_cons] at hlength
    apply reads_cons _ (ih (by omega) depth _ (by omega))
    apply reads_item (by omega) harg.info_lt hdepth
    intro depth' hoffset _
    apply reads_bind (reads_decodeLength _ harg (by omega))
    intro harg'
    exact reads_slice .byteStringLength ResultValue.bytes (end_le_byteLength harg' hoffset)
  | text s info arg values rest harg _ ih =>
    intro hlength depth offset hdepth
    simp only [List.length_append, List.length_cons] at hlength
    apply reads_cons _ (ih (by omega) depth _ (by omega))
    apply reads_item (by omega) harg.info_lt hdepth
    intro depth' hoffset _
    apply reads_bind (reads_decodeLength _ harg (by omega))
    intro harg'
    exact reads_slice .stringLength (fun bs => ResultValue.text (decodeText bs)) (end_le_byteLength harg' hoffset)
  | array items info arg body values rest harg hitems _ ihItems ih =>
    intro hlength depth offset hdepth
    have hle : items.length ≤ body.length := length_le_of_encodesAll hitems
    simp only [List.length_append, List.length_cons] at hlength
    apply reads_cons _ (ih (by omega) depth _ (by omega))
    apply reads_item (by omega) harg.info_lt hdepth
    intro depth' hoffset hdepth'
    apply reads_bind (reads_decodeLength _ harg (by omega))
    intro _
    rw [decoded, decodedItems_eq]
    exact reads_map ResultValue.array (ihItems (by omega) depth' _ (by omega))
  | map entries info arg body values rest _ harg hentries _ ihEntries ih =>
    intro hlength depth offset hdepth
    have hle : (flatten entries).length ≤ body.length := length_le_of_encodesAll hentries
    rw [length_flatten] at hle
    simp only [List.length_append, List.length_cons] at hlength
    apply reads_cons _ (ih (by omega) depth _ (by omega))
    apply reads_item (by omega) harg.info_lt hdepth
    intro depth' hoffset hdepth'
    apply reads_bind (reads_decodeLength _ harg (by omega))
    intro _
    have hbody := ihEntries (by omega) depth' (offset + 1 + arg.length) (by omega)
    rw [length_flatten, map_decoded_flatten, ← length_decodedEntries] at hbody
    have hread : Reads view.bytes (decodeEntries numberToString (decodeItem numberToString view depth')
        (decodedEntries entries).length (offset + 1 + arg.length) ([], none)) (offset + 1 + arg.length) body
        (assignAll (decodedEntries entries) ([], none)) := reads_decodeEntries ([], none) hbody
    rw [length_decodedEntries] at hread
    rw [decoded]
    exact reads_map (fun map => ResultValue.object map.1 map.2) hread
  | bool b values rest _ ih =>
    intro hlength depth offset hdepth
    rw [List.length_append] at hlength
    apply reads_cons _ (ih (by omega) depth _ (by omega))
    cases b with
    | false =>
      apply reads_item (by omega) (by simp) hdepth
      intro depth' _ _
      exact reads_nil _ _
    | true =>
      apply reads_item (by omega) (by simp) hdepth
      intro depth' _ _
      exact reads_nil _ _
  | null values rest _ ih =>
    intro hlength depth offset hdepth
    rw [List.length_append] at hlength
    apply reads_cons _ (ih (by omega) depth _ (by omega))
    apply reads_item (by omega) (by omega) hdepth
    intro depth' _ _
    exact reads_nil _ _

end

/-! ## Lemmas: what comes back as it was -/

theorem encode_byteOrderMark (s : Text) : Utf8.encode (byteOrderMark :: s) = 0xef :: 0xbb :: 0xbf :: Utf8.encode s := by
  rw [Utf8.encode_cons]
  rfl

theorem decodeText_encode_mark (s : Text) : decodeText (Utf8.encode (byteOrderMark :: s)) = s := by
  rw [encode_byteOrderMark, decodeText, Utf8.decode_encode]

theorem eq_byteOrderMark_of_encode {c : Char} {s : Text} {bytes : List UInt8}
    (h : Utf8.encode (c :: s) = 0xef :: 0xbb :: 0xbf :: bytes) : c = byteOrderMark := by
  have hmark : String.utf8EncodeChar byteOrderMark ++ bytes = 0xef :: 0xbb :: 0xbf :: bytes := rfl
  have hread : ∀ (c : Char) (rest : List UInt8),
      (String.utf8EncodeChar c ++ rest).toByteArray.utf8DecodeChar? 0 = some c := by
    intro c rest
    rw [List.toByteArray_append]
    exact ByteArray.utf8DecodeChar?_utf8EncodeChar_append
  have hc := hread c (Utf8.encode s)
  have hm := hread byteOrderMark bytes
  rw [← Utf8.encode_cons, h] at hc
  rw [hmark, hc] at hm
  exact Option.some.inj hm

theorem decodeText_encode_iff (s : Text) : decodeText (Utf8.encode s) = s ↔ plainText s = true := by
  cases s with
  | nil => simp [Utf8.encode, decodeText, plainText, Utf8.decode, Utf8.decodeUpTo]
  | cons c s =>
    by_cases hc : c = byteOrderMark
    · rw [hc, decodeText_encode_mark]
      have hne : s ≠ byteOrderMark :: s := by
        intro h
        have hlength := congrArg List.length h
        simp at hlength
      simp [plainText, hne]
    · have hdecode : decodeText (Utf8.encode (c :: s)) = c :: s := by
        unfold decodeText
        split
        · rename_i bytes hbytes
          exact absurd (eq_byteOrderMark_of_encode hbytes) hc
        · exact Utf8.decode_encode _
      simp [hdecode, plainText, hc]

theorem setOwn_cases (key : Text) (value : ResultValue) (entries : List (Text × ResultValue)) :
    setOwn key value entries = entries ++ [(key, value)] ∨ (setOwn key value entries).length = entries.length := by
  induction entries with
  | nil => exact .inl rfl
  | cons e entries ih =>
    unfold setOwn
    by_cases he : e.1 = key
    · rw [if_pos he]
      exact .inr rfl
    · rw [if_neg he]
      rcases ih with happend | hlength
      · exact .inl (by rw [happend, List.cons_append])
      · exact .inr (by rw [List.length_cons, hlength, List.length_cons])

theorem setOwn_new {key : Text} (value : ResultValue) {entries : List (Text × ResultValue)}
    (h : key ∉ entries.map Prod.fst) : setOwn key value entries = entries ++ [(key, value)] := by
  induction entries with
  | nil => rfl
  | cons e entries ih =>
    rw [List.map_cons, List.mem_cons, not_or] at h
    rw [setOwn, if_neg (Ne.symm h.1), ih h.2, List.cons_append]

theorem length_assign_le (map : List (Text × ResultValue) × Option ResultValue) (key : Text) (value : ResultValue) :
    (assign map key value).1.length ≤ map.1.length + 1 := by
  unfold assign
  split_ifs
  · exact Nat.le_succ _
  · exact Nat.le_succ _
  · rcases setOwn_cases key value map.1 with h | h
    · simp [h]
    · simp [h]

theorem length_assignAll_le (entries : List (Text × ResultValue)) :
    ∀ map, (assignAll entries map).1.length ≤ map.1.length + entries.length := by
  induction entries with
  | nil =>
    intro map
    exact Nat.le_refl _
  | cons e entries ih =>
    intro map
    have hrest : (assignAll (e :: entries) map).1.length ≤ (assign map e.1 e.2).1.length + entries.length :=
      ih (assign map e.1 e.2)
    have hstep := length_assign_le map e.1 e.2
    rw [List.length_cons]
    omega

theorem assignAll_plain {entries : List (Text × ResultValue)} :
    ∀ before, ((before ++ entries).map Prod.fst).Nodup → (∀ e ∈ entries, e.1 ≠ protoKey) →
    assignAll entries (before, none) = (before ++ entries, none) := by
  induction entries with
  | nil =>
    intro before _ _
    rw [List.append_nil]
    rfl
  | cons e entries ih =>
    intro before hnodup hproto
    have hnew : e.1 ∉ before.map Prod.fst := by
      intro hmem
      rw [List.map_append, List.nodup_append] at hnodup
      exact hnodup.2.2 _ hmem _ (by simp) rfl
    have hassign : assign (before, none) e.1 e.2 = (before ++ [e], none) := by
      have hkey : e.1 ≠ protoKey := hproto e (by simp)
      simp [assign, hkey, setOwn_new e.2 hnew]
    have hsplit : before ++ e :: entries = before ++ [e] ++ entries := by simp
    show assignAll entries (assign (before, none) e.1 e.2) = _
    rw [hassign, hsplit]
    rw [hsplit] at hnodup
    apply ih (before ++ [e]) hnodup
    intro e' he'
    exact hproto e' (List.mem_cons_of_mem e he')

/-- If as many entries are there as were assigned, each was set under a key of its own. -/
theorem of_assignAll_eq {entries : List (Text × ResultValue)} :
    ∀ map result, assignAll entries map = (result, none) → result.length = map.1.length + entries.length →
    map.2 = none ∧ result = map.1 ++ entries ∧ ∀ e ∈ entries, e.1 ≠ protoKey := by
  induction entries with
  | nil =>
    intro map result h _
    have hmap : map = (result, none) := h
    rw [hmap]
    simp
  | cons e entries ih =>
    intro map result h hlength
    have hrest : assignAll entries (assign map e.1 e.2) = (result, none) := h
    have hle := length_assignAll_le entries (assign map e.1 e.2)
    have hstep := length_assign_le map e.1 e.2
    rw [hrest] at hle
    rw [List.length_cons] at hlength
    dsimp only at hle
    obtain ⟨hproto, hresult, hkeys⟩ := ih (assign map e.1 e.2) result hrest (by omega)
    have hmore : (assign map e.1 e.2).1.length = map.1.length + 1 := by omega
    by_cases hset : (e.1 = protoKey && setsPrototype map.2) = true
    · -- An assignment that sets the prototype, or does nothing, adds no entry.
      exfalso
      unfold assign at hmore
      rw [if_pos hset] at hmore
      split_ifs at hmore
      · simp at hmore
      · simp at hmore
    · have hassign : assign map e.1 e.2 = (setOwn e.1 e.2 map.1, map.2) := if_neg hset
      rw [hassign] at hproto hresult hmore
      dsimp only at hproto hresult hmore
      have hown : setOwn e.1 e.2 map.1 = map.1 ++ [e] := by
        rcases setOwn_cases e.1 e.2 map.1 with happend | hsame
        · exact happend
        · omega
      have hkey : e.1 ≠ protoKey := by
        intro hkey
        apply hset
        rw [hproto]
        simp [hkey, setsPrototype]
      refine ⟨hproto, ?_, ?_⟩
      · rw [hresult, hown, List.append_assoc]
        rfl
      · intro e' he'
        rcases List.mem_cons.mp he' with rfl | hmem
        · exact hkey
        · exact hkeys e' hmem

theorem plainItems_iff (items : List ResultValue) : plainItems items = true ↔ ∀ v ∈ items, plain v = true := by
  induction items with
  | nil => simp [plainItems]
  | cons v items ih => simp [plainItems, ih]

theorem plainEntries_iff (entries : List (Text × ResultValue)) :
    plainEntries entries = true ↔ (∀ e ∈ entries, e.1 ≠ protoKey) ∧ ∀ v ∈ flatten entries, plain v = true := by
  induction entries with
  | nil => simp [plainEntries, flatten]
  | cons e entries ih =>
    rw [plainEntries, flatten_cons, Bool.and_eq_true, ih]
    simp only [Bool.and_eq_true, bne_iff_ne, List.forall_mem_cons, plain]
    tauto

theorem decodedItems_eq_iff (items : List ResultValue) : decodedItems items = items ↔ ∀ v ∈ items, decoded v = v := by
  induction items with
  | nil => simp [decodedItems]
  | cons v items ih => simp [decodedItems, ih]

theorem decodedEntries_eq_iff (entries : List (Text × ResultValue)) :
    decodedEntries entries = entries ↔ ∀ v ∈ flatten entries, decoded v = v := by
  induction entries with
  | nil => simp [decodedEntries, flatten]
  | cons e entries ih =>
    rw [decodedEntries, flatten_cons, List.cons.injEq, ih]
    simp only [List.forall_mem_cons, decoded, ResultValue.text.injEq, Prod.ext_iff]
    tauto

theorem decoded_object_iff {entries : List (Text × ResultValue)} (hnodup : (entries.map Prod.fst).Nodup) :
    decoded (.object entries none) = .object entries none ↔
    (∀ e ∈ entries, e.1 ≠ protoKey) ∧ ∀ v ∈ flatten entries, decoded v = v := by
  rw [decoded, ResultValue.object.injEq, ← decodedEntries_eq_iff]
  constructor
  · intro h
    have hassigned : assignAll (decodedEntries entries) ([], none) = (entries, none) := Prod.ext h.1 h.2
    have hlength : entries.length = 0 + (decodedEntries entries).length := by
      rw [length_decodedEntries]
      omega
    obtain ⟨_, hentries, hkeys⟩ := of_assignAll_eq ([], none) entries hassigned hlength
    rw [List.nil_append] at hentries
    rw [← hentries] at hkeys
    exact ⟨hkeys, hentries.symm⟩
  · intro h
    have hassigned := assignAll_plain [] hnodup h.1
    rw [h.2, hassigned]
    exact ⟨rfl, rfl⟩

theorem decoded_eq_iff {values : List ResultValue} {bytes : List UInt8} (h : EncodesAll values bytes) :
    ∀ v ∈ values, (decoded v = v ↔ plain v = true) := by
  induction h with
  | nil => simp
  | unsigned n info arg values rest _ _ _ ih => exact List.forall_mem_cons.mpr ⟨by simp [decoded, plain], ih⟩
  | negative n info arg values rest _ _ _ ih => exact List.forall_mem_cons.mpr ⟨by simp [decoded, plain], ih⟩
  | byteString bs info arg values rest _ _ ih => exact List.forall_mem_cons.mpr ⟨by simp [decoded, plain], ih⟩
  | bool b values rest _ ih => exact List.forall_mem_cons.mpr ⟨by simp [decoded, plain], ih⟩
  | null values rest _ ih => exact List.forall_mem_cons.mpr ⟨by simp [decoded, plain], ih⟩
  | text s info arg values rest _ _ ih =>
    refine List.forall_mem_cons.mpr ⟨?_, ih⟩
    rw [decoded, plain, ResultValue.text.injEq]
    exact decodeText_encode_iff s
  | array items info arg body values rest _ _ _ ihItems ih =>
    refine List.forall_mem_cons.mpr ⟨?_, ih⟩
    rw [decoded, plain, ResultValue.array.injEq, decodedItems_eq_iff, plainItems_iff]
    exact forall₂_congr ihItems
  | map entries info arg body values rest hnodup _ _ _ ihEntries ih =>
    refine List.forall_mem_cons.mpr ⟨?_, ih⟩
    rw [decoded_object_iff hnodup, plain, plainEntries_iff]
    exact and_congr_right (fun _ => forall₂_congr ihEntries)

/-! ## Lemmas: parts of what is encoded -/

theorem encodes_of_mem {values : List ResultValue} {bytes : List UInt8} (h : EncodesAll values bytes) :
    ∀ v ∈ values, ∃ part, Encodes v part := by
  induction h with
  | nil => simp
  | unsigned n info arg values rest hn harg _ ih =>
    exact List.forall_mem_cons.mpr ⟨⟨_, .unsigned n info arg [] [] hn harg .nil⟩, ih⟩
  | negative n info arg values rest hn harg _ ih =>
    exact List.forall_mem_cons.mpr ⟨⟨_, .negative n info arg [] [] hn harg .nil⟩, ih⟩
  | byteString bs info arg values rest harg _ ih =>
    exact List.forall_mem_cons.mpr ⟨⟨_, .byteString bs info arg [] [] harg .nil⟩, ih⟩
  | text s info arg values rest harg _ ih =>
    exact List.forall_mem_cons.mpr ⟨⟨_, .text s info arg [] [] harg .nil⟩, ih⟩
  | array items info arg body values rest harg hitems _ _ ih =>
    exact List.forall_mem_cons.mpr ⟨⟨_, .array items info arg body [] [] harg hitems .nil⟩, ih⟩
  | map entries info arg body values rest hnodup harg hentries _ _ ih =>
    exact List.forall_mem_cons.mpr ⟨⟨_, .map entries info arg body [] [] hnodup harg hentries .nil⟩, ih⟩
  | bool b values rest _ ih => exact List.forall_mem_cons.mpr ⟨⟨_, .bool b [] [] .nil⟩, ih⟩
  | null values rest _ ih => exact List.forall_mem_cons.mpr ⟨⟨_, .null [] [] .nil⟩, ih⟩

theorem encodes_item {items : List ResultValue} {bytes : List UInt8} (h : Encodes (.array items) bytes) :
    ∀ v ∈ items, ∃ part, Encodes v part := by
  cases h with
  | array _ _ _ _ _ _ _ hitems _ => exact encodes_of_mem hitems

theorem encodes_field {fields : List (Text × ResultValue)} {proto : Option ResultValue} {bytes : List UInt8}
    (h : Encodes (.object fields proto) bytes) :
    (fields.map Prod.fst).Nodup ∧ ∀ e ∈ fields, ∃ part, Encodes e.2 part := by
  cases h with
  | map _ _ _ _ _ _ hnodup _ hentries _ =>
    refine ⟨hnodup, ?_⟩
    intro e he
    apply encodes_of_mem hentries
    exact List.mem_flatMap.mpr ⟨e, he, by simp⟩

/-- Keys that come back from the decoder as they are. -/
def ordinaryKeys (fields : List (Text × ResultValue)) : Prop := ∀ e ∈ fields, e.1 ≠ protoKey ∧ plainText e.1 = true

theorem keys_decodedEntries {fields : List (Text × ResultValue)} (h : ordinaryKeys fields) :
    (decodedEntries fields).map Prod.fst = fields.map Prod.fst := by
  induction fields with
  | nil => rfl
  | cons e fields ih =>
    have hkey : decodeText (Utf8.encode e.1) = e.1 := (decodeText_encode_iff e.1).mpr (h e (by simp)).2
    have hrest : ordinaryKeys fields := fun e' he' => h e' (List.mem_cons_of_mem e he')
    rw [decodedEntries, List.map_cons, List.map_cons, ih hrest, hkey]

theorem lookup_decodedEntries {fields : List (Text × ResultValue)} (h : ordinaryKeys fields) (key : Text) :
    (decodedEntries fields).lookup key = (fields.lookup key).map decoded := by
  induction fields with
  | nil => rfl
  | cons e fields ih =>
    have hkey : decodeText (Utf8.encode e.1) = e.1 := (decodeText_encode_iff e.1).mpr (h e (by simp)).2
    have hrest : ordinaryKeys fields := fun e' he' => h e' (List.mem_cons_of_mem e he')
    rw [decodedEntries, hkey, List.lookup_cons, List.lookup_cons, ih hrest]
    cases key == e.1 with
    | true => rfl
    | false => rfl

theorem ordinaryKeys_decodedEntries {fields : List (Text × ResultValue)} (h : ordinaryKeys fields) :
    ordinaryKeys (decodedEntries fields) := by
  intro e he
  have hmem : e.1 ∈ fields.map Prod.fst := by
    rw [← keys_decodedEntries h]
    exact List.mem_map_of_mem he
  obtain ⟨e', he', hkey⟩ := List.mem_map.mp hmem
  rw [← hkey]
  exact h e' he'

theorem decoded_ordinary {fields : List (Text × ResultValue)} (h : ordinaryKeys fields)
    (hnodup : (fields.map Prod.fst).Nodup) : decoded (.object fields none) = .object (decodedEntries fields) none := by
  have hassigned : assignAll (decodedEntries fields) ([], none) = (decodedEntries fields, none) := by
    apply assignAll_plain []
    · rw [List.nil_append, keys_decodedEntries h]
      exact hnodup
    · intro e he
      exact (ordinaryKeys_decodedEntries h e he).1
  rw [decoded, hassigned]

/-! ## Main results -/

theorem decodeCBOR_encoded (numberToString : JsNumber → Text) (data : View) {v : ResultValue} {bytes : List UInt8}
    (h : Encodes v bytes) (hlength : bytes.length < 2 ^ 53) :
    (data.bytes = bytes → decodeCBOR numberToString data = .ok (decoded v)) ∧
    (data.bytes <+: bytes → data.bytes ≠ bytes → ∃ e, decodeCBOR numberToString data = .error e) := by
  have hreads := reads_decodeItems numberToString data h hlength (data.byteLength + 1) 0 (by omega)
  constructor
  · intro hwhole
    have hstarts : bytes <+: data.bytes.drop 0 := by
      rw [List.drop_zero, hwhole]
    obtain ⟨next, hitem, _⟩ := decodeItems_ok (hreads.1 hstarts)
    rw [decodeCBOR, hitem]
    rfl
  · intro hcut hne
    obtain ⟨e, he⟩ := hreads.2 hcut hne
    refine ⟨e, ?_⟩
    rcases decodeItems_error he with hitem | ⟨v', next, _, hnone⟩
    · rw [decodeCBOR, hitem]
      rfl
    · simp [decodeItems] at hnone

theorem decodeCBOR_returns_iff (numberToString : JsNumber → Text) :
    (∀ (v : ResultValue) (data : View), Encodes v data.bytes →
      (decodeCBOR numberToString data = .ok v ↔ plain v = true)) ∧
    (∀ (v : ResultValue) (whole data : View), Encodes v whole.bytes → data.bytes <+: whole.bytes →
      data.bytes ≠ whole.bytes → ∃ e, e ≠ .running ∧ decodeCBOR numberToString data = .error e) ∧
    (∀ data : View, decodeCBOR numberToString data ≠ .error .running) := by
  have hshort : ∀ view : View, view.bytes.length < 2 ^ 53 := by
    intro view
    rw [view.length_bytes]
    exact view.byteLength_lt
  refine ⟨?_, ?_, decodeCBOR_terminates numberToString⟩
  · intro v data hv
    have hread := (decodeCBOR_encoded numberToString data hv (hshort data)).1 rfl
    rw [hread, Except.ok.injEq]
    exact decoded_eq_iff hv v (by simp)
  · intro v whole data hv hcut hne
    obtain ⟨e, he⟩ := (decodeCBOR_encoded numberToString data hv (hshort whole)).2 hcut hne
    refine ⟨e, ?_, he⟩
    intro hrunning
    rw [hrunning] at he
    exact decodeCBOR_terminates numberToString data he

/-- The map of `__proto__` to 5 comes back without entries, the text of one byte order mark comes back empty. -/
theorem proto_entry_and_mark_lost :
    let numberToString : JsNumber → Text := fun _ => []
    let map : ResultValue := .object [(protoKey, .number (.integer 5))] none
    let mapData : View := ⟨[0xa1, 0x69, 0x5f, 0x5f, 0x70, 0x72, 0x6f, 0x74, 0x6f, 0x5f, 0x5f, 0x05], 0, 12, by decide, by decide⟩
    let mark : ResultValue := .text [byteOrderMark]
    let markData : View := ⟨[0x63, 0xef, 0xbb, 0xbf], 0, 4, by decide, by decide⟩
    (Encodes map mapData.bytes ∧ decodeCBOR numberToString mapData = .ok (.object [] none) ∧
      decodeCBOR numberToString mapData ≠ .ok map) ∧
    (Encodes mark markData.bytes ∧ decodeCBOR numberToString markData = .ok (.text []) ∧
      decodeCBOR numberToString markData ≠ .ok mark) := by
  intro numberToString map mapData mark markData
  have hmap : Encodes map mapData.bytes := by
    have hvalue : EncodesAll [.number (.integer 5)] [0x05] := .unsigned 5 5 [] [] [] (by decide) (.direct _ (by decide)) .nil
    have hentry : EncodesAll [.text protoKey, .number (.integer 5)] _ :=
      .text protoKey 9 [] _ _ (.direct _ (by decide)) hvalue
    exact .map [(protoKey, .number (.integer 5))] 1 [] _ [] [] (by decide) (.direct _ (by decide)) hentry .nil
  have hmark : Encodes mark markData.bytes := .text [byteOrderMark] 3 [] [] [] (.direct _ (by decide)) .nil
  have hmapRead := (decodeCBOR_encoded numberToString mapData hmap (by decide)).1 rfl
  have hmarkRead := (decodeCBOR_encoded numberToString markData hmark (by decide)).1 rfl
  have hmapDecoded : decoded map = .object [] none := by
    have hkey : decodeText (Utf8.encode protoKey) = protoKey := by decide +kernel
    simp [map, decoded, decodedEntries, hkey, assignAll, assign, setsPrototype, ResultValue.isObject]
  have hmarkDecoded : decoded mark = .text [] := by
    have htext : decodeText (Utf8.encode [byteOrderMark]) = [] := decodeText_encode_mark []
    simp [mark, decoded, htext]
  rw [hmapDecoded] at hmapRead
  rw [hmarkDecoded] at hmarkRead
  refine ⟨⟨hmap, hmapRead, ?_⟩, hmark, hmarkRead, ?_⟩
  · rw [hmapRead]
    simp [map]
  · rw [hmarkRead]
    simp [mark]

end Cbor
