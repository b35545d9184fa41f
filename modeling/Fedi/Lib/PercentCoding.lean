import Fedi.Lib.Utf8

/-!
# Percent-coding of URI components

What is not unreserved is written as the percent-coded bytes of its UTF-8.  A text is read back as bytes first: an
unescaped character cannot complete an escaped one, nor the other way round.

    decodeURIComponent (encodeURIComponent s) = some s      (decodeURIComponent_encodeURIComponent)
-/

namespace PercentCoding

/-- Letters, digits and `-_.!~*'()`. -/
def unreserved (c : Char) : Bool :=
  c.isAlphanum || [0x2d, 0x5f, 0x2e, 0x21, 0x7e, 0x2a, 0x27, 0x28, 0x29].contains c.toNat

def hexDigitUpper (n : ℕ) : Char := if n < 10 then Char.ofNat (48 + n) else Char.ofNat (55 + n)

def percentEncoded (b : UInt8) : List Char := ['%', hexDigitUpper (b.toNat / 16), hexDigitUpper (b.toNat % 16)]

def encodeURIComponent (s : List Char) : List Char :=
  s.flatMap fun c => if unreserved c then [c] else (String.utf8EncodeChar c).flatMap percentEncoded

def hexDigitValue (c : Char) : Option ℕ :=
  if c.isDigit then some (c.toNat - 48)
  else if 97 ≤ c.toNat ∧ c.toNat ≤ 102 then some (c.toNat - 87)
  else if 65 ≤ c.toNat ∧ c.toNat ≤ 70 then some (c.toNat - 55)
  else none

def octets : List Char → Option (List UInt8)
  | [] => some []
  | '%' :: high :: low :: rest => do
    let h ← hexDigitValue high
    let l ← hexDigitValue low
    let bytes ← octets rest
    some (UInt8.ofNat (16 * h + l) :: bytes)
  | '%' :: _ => none
  | c :: rest => (octets rest).map (String.utf8EncodeChar c ++ ·)

def decodeURIComponent (s : List Char) : Option (List Char) := (octets s).bind Utf8.decodeStrict

theorem hexDigitValue_hexDigitUpper : ∀ n < 16, hexDigitValue (hexDigitUpper n) = some n := by decide

theorem octets_percentEncoded (b : UInt8) (rest : List Char) :
    octets (percentEncoded b ++ rest) = (octets rest).map (b :: ·) := by
  have hlt : b.toNat < 256 := b.toNat_lt
  have hbyte : UInt8.ofNat (16 * (b.toNat / 16) + b.toNat % 16) = b := by
    rw [Nat.div_add_mod, UInt8.ofNat_toNat]
  show octets ('%' :: hexDigitUpper (b.toNat / 16) :: hexDigitUpper (b.toNat % 16) :: rest) = _
  rw [octets, hexDigitValue_hexDigitUpper _ (by omega), hexDigitValue_hexDigitUpper _ (by omega)]
  simp only [Option.bind_eq_bind, Option.bind_some, hbyte]
  cases octets rest with
  | none => rfl
  | some bytes => rfl

theorem octets_percentEncoded_all (bytes : List UInt8) (rest : List Char) :
    octets (bytes.flatMap percentEncoded ++ rest) = (octets rest).map (bytes ++ ·) := by
  induction bytes with
  | nil => simp
  | cons b bytes ih =>
    rw [List.flatMap_cons, List.append_assoc, octets_percentEncoded, ih, Option.map_map]
    rfl

theorem octets_unreserved {c : Char} (h : unreserved c = true) (rest : List Char) :
    octets (c :: rest) = (octets rest).map (String.utf8EncodeChar c ++ ·) := by
  have hne : c ≠ '%' := by
    rintro rfl
    exact absurd h (by decide)
  rw [octets]
  · intro high low rest' heq
    exact absurd heq hne
  · exact hne

theorem octets_encodeURIComponent (s : List Char) : octets (encodeURIComponent s) = some (Utf8.encode s) := by
  induction s with
  | nil => rfl
  | cons c s ih =>
    unfold encodeURIComponent at ih ⊢
    rw [List.flatMap_cons, Utf8.encode_cons]
    by_cases hc : unreserved c = true
    · rw [if_pos hc, List.singleton_append, octets_unreserved hc, ih]
      rfl
    · rw [if_neg hc, octets_percentEncoded_all, ih]
      rfl

theorem decodeURIComponent_encodeURIComponent (s : List Char) : decodeURIComponent (encodeURIComponent s) = some s := by
  unfold decodeURIComponent
  rw [octets_encodeURIComponent, Option.bind_some, Utf8.decodeStrict_encode]

/-- What may stand in a component. -/
theorem unreserved_of_mem_encodeURIComponent {s : List Char} {c : Char} (h : c ∈ encodeURIComponent s) :
    unreserved c = true ∨ c = '%' := by
  obtain ⟨d, -, hd⟩ := List.mem_flatMap.mp h
  by_cases hunreserved : unreserved d = true
  · rw [if_pos hunreserved, List.mem_singleton] at hd
    rw [hd]
    exact .inl hunreserved
  · rw [if_neg hunreserved] at hd
    obtain ⟨b, -, hb⟩ := List.mem_flatMap.mp hd
    have hdigit : ∀ n < 16, unreserved (hexDigitUpper n) = true := by decide
    have hlt : b.toNat < 256 := b.toNat_lt
    unfold percentEncoded at hb
    rw [List.mem_cons, List.mem_cons, List.mem_singleton] at hb
    rcases hb with rfl | rfl | rfl
    · exact .inr rfl
    · exact .inl (hdigit _ (by omega))
    · exact .inl (hdigit _ (by omega))

end PercentCoding
