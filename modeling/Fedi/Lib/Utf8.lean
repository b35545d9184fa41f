import Mathlib.Data.List.Basic

/-!
# UTF-8

A decoder that replaces what is not UTF-8.  A character is read where there is one; else the longest start of a
character that could still have become one is replaced as a whole.  A strict decoder accepts only what is read without
a replacement.  Texts are cut at a number of bytes, where a character ends.

    decode (encode s) = s                                        (decode_encode)
    decodeStrict (encode s) = some s                             (decodeStrict_encode)
    cut s n is the start of s that takes n bytes                 (cut_eq_some)
-/

namespace Utf8

def encode (s : List Char) : List UInt8 := s.flatMap String.utf8EncodeChar

def between (low high b : UInt8) : Bool := decide (low ≤ b ∧ b ≤ high)

/-- The bytes that may follow a first byte. -/
def second (first b : UInt8) : Bool :=
  if first = 0xe0 then between 0xa0 0xbf b
  else if first = 0xed then between 0x80 0x9f b
  else if first = 0xf0 then between 0x90 0xbf b
  else if first = 0xf4 then between 0x80 0x8f b
  else between 0x80 0xbf b

/-- How many bytes one replacement stands for, where no character can be read. -/
def malformedLength : List UInt8 → ℕ
  | first :: b :: c :: _ =>
    if between 0xf0 0xf4 first && second first b && between 0x80 0xbf c then 3
    else if between 0xe0 0xf4 first && second first b then 2
    else 1
  | [first, b] => if between 0xe0 0xf4 first && second first b then 2 else 1
  | _ => 1

/-- At most so many characters. -/
def decodeUpTo : ℕ → List UInt8 → List Char
  | 0, _ => []
  | _ + 1, [] => []
  | n + 1, b :: bytes =>
    match (b :: bytes).toByteArray.utf8DecodeChar? 0 with
    | some c => c :: decodeUpTo n ((b :: bytes).drop c.utf8Size)
    | none => Char.ofNat 0xfffd :: decodeUpTo n ((b :: bytes).drop (malformedLength (b :: bytes)))

def decode (bytes : List UInt8) : List Char := decodeUpTo bytes.length bytes

def decodeStrict (bytes : List UInt8) : Option (List Char) :=
  if encode (decode bytes) = bytes then some (decode bytes) else none

/-- The characters at the start of a text that take exactly so many bytes. -/
def cut : List Char → ℕ → Option (List Char)
  | _, 0 => some []
  | [], _ + 1 => none
  | c :: s, n + 1 => if c.utf8Size ≤ n + 1 then (cut s (n + 1 - c.utf8Size)).map (c :: ·) else none

theorem encode_cons (c : Char) (s : List Char) : encode (c :: s) = String.utf8EncodeChar c ++ encode s := rfl

theorem encode_append (s t : List Char) : encode (s ++ t) = encode s ++ encode t := List.flatMap_append

theorem length_encode_cons (c : Char) (s : List Char) : (encode (c :: s)).length = c.utf8Size + (encode s).length := by
  rw [encode_cons, List.length_append, String.length_utf8EncodeChar]

theorem length_encode_le (s : List Char) : (encode s).length ≤ 4 * s.length := by
  induction s with
  | nil => exact Nat.le_refl _
  | cons c s ih =>
    have hlength : (String.utf8EncodeChar c).length = c.utf8Size := String.length_utf8EncodeChar c
    have hle : c.utf8Size ≤ 4 := c.utf8Size_le_four
    rw [encode_cons, List.length_append, List.length_cons]
    omega

theorem decodeUpTo_encode (s : List Char) : ∀ n, (encode s).length ≤ n → decodeUpTo n (encode s) = s := by
  induction s with
  | nil =>
    intro n _
    cases n <;> rfl
  | cons c s ih =>
    intro n hn
    rw [encode_cons] at hn ⊢
    have hlength : (String.utf8EncodeChar c).length = c.utf8Size := String.length_utf8EncodeChar c
    have hpos : 0 < c.utf8Size := c.utf8Size_pos
    have hread : (String.utf8EncodeChar c ++ encode s).toByteArray.utf8DecodeChar? 0 = some c := by
      rw [List.toByteArray_append]
      exact ByteArray.utf8DecodeChar?_utf8EncodeChar_append
    have hdrop : (String.utf8EncodeChar c ++ encode s).drop c.utf8Size = encode s := by
      rw [← hlength, List.drop_left]
    rw [List.length_append] at hn
    cases n with
    | zero => omega
    | succ n =>
      cases hbytes : String.utf8EncodeChar c ++ encode s with
      | nil =>
        have hnone := congrArg List.length hbytes
        rw [List.length_append, List.length_nil] at hnone
        omega
      | cons b bytes =>
        rw [hbytes] at hread hdrop
        unfold decodeUpTo
        rw [hread]
        dsimp only
        rw [hdrop, ih n (by omega)]

theorem decode_encode (s : List Char) : decode (encode s) = s := decodeUpTo_encode s _ (Nat.le_refl _)

theorem decodeStrict_encode (s : List Char) : decodeStrict (encode s) = some s := by
  unfold decodeStrict
  rw [decode_encode, if_pos rfl]

theorem cut_eq_some {s kept : List Char} {n : ℕ} : cut s n = some kept ↔ kept <+: s ∧ (encode kept).length = n := by
  induction s generalizing n kept with
  | nil =>
    cases n with
    | zero =>
      simp only [cut, Option.some.injEq, List.prefix_nil]
      constructor
      · rintro rfl
        exact ⟨rfl, rfl⟩
      · rintro ⟨rfl, -⟩
        rfl
    | succ n =>
      simp only [cut, List.prefix_nil, reduceCtorEq, false_iff]
      rintro ⟨rfl, hlength⟩
      exact absurd hlength (Nat.succ_ne_zero n).symm
  | cons c s ih =>
    have hpos : 0 < c.utf8Size := c.utf8Size_pos
    cases n with
    | zero =>
      simp only [cut, Option.some.injEq]
      constructor
      · rintro rfl
        exact ⟨List.nil_prefix, rfl⟩
      · rintro ⟨-, hlength⟩
        cases kept with
        | nil => rfl
        | cons c' kept =>
          rw [length_encode_cons] at hlength
          have hpos' : 0 < c'.utf8Size := c'.utf8Size_pos
          omega
    | succ n =>
      unfold cut
      by_cases hfits : c.utf8Size ≤ n + 1
      · rw [if_pos hfits, Option.map_eq_some_iff]
        constructor
        · rintro ⟨rest, hrest, rfl⟩
          obtain ⟨hbegins, hlength⟩ := ih.mp hrest
          refine ⟨List.cons_prefix_cons.mpr ⟨rfl, hbegins⟩, ?_⟩
          rw [length_encode_cons]
          omega
        · rintro ⟨hbegins, hlength⟩
          cases kept with
          | nil => exact absurd hlength (Nat.succ_ne_zero n).symm
          | cons c' rest =>
            obtain ⟨rfl, hrest⟩ := List.cons_prefix_cons.mp hbegins
            rw [length_encode_cons] at hlength
            exact ⟨rest, ih.mpr ⟨hrest, by omega⟩, rfl⟩
      · rw [if_neg hfits]
        simp only [reduceCtorEq, false_iff]
        rintro ⟨hbegins, hlength⟩
        cases kept with
        | nil => exact absurd hlength (Nat.succ_ne_zero n).symm
        | cons c' rest =>
          obtain ⟨rfl, -⟩ := List.cons_prefix_cons.mp hbegins
          rw [length_encode_cons] at hlength
          omega

end Utf8
