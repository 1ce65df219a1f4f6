import TwoWayPeg.Bytes

/-!
# Hexadecimal text

Bytes are written as lower-case hexadecimal digits, two to a byte, and read back from digits of
either case. Reading works on the UTF-8 bytes of the text, so positions and lengths count bytes.

* `Hex.decode_encode`: what is written is read back.

A text of odd length is refused before its characters are looked at, and where the number of bytes
is known a text of another length is refused next; only then is the first character that is no
digit reported.
-/

namespace TwoWayPeg

/-- Why a text is not the hexadecimal form of the bytes asked for. -/
inductive HexError
  /-- The digits do not pair up. -/
  | oddLength
  /-- The digits spell more or fewer bytes than asked for. -/
  | wrongLength
  /-- The byte at an index of the text is not a digit. -/
  | notADigit (byte : UInt8) (index : Nat)
deriving DecidableEq

namespace Hex

/-! ### Digits -/

/-- The digit of a number below sixteen. -/
def digit (n : Nat) : Char :=
  if n < 10 then Char.ofNat (48 + n) else Char.ofNat (87 + n)

/-- The value of a digit of either case, given as an ASCII byte. -/
def value? (b : UInt8) : Option Nat :=
  let n := b.toNat
  if 48 ≤ n ∧ n ≤ 57 then some (n - 48)
  else if 97 ≤ n ∧ n ≤ 102 then some (n - 87)
  else if 65 ≤ n ∧ n ≤ 70 then some (n - 55)
  else none

/-- The value of the digit at an index of the text. -/
def valueAt (b : UInt8) (index : Nat) : Except HexError Nat :=
  match value? b with
  | some n => .ok n
  | none => .error (.notADigit b index)

/-! ### Writing and reading -/

/-- The two digits of a byte. -/
def encodeByte (b : UInt8) : List Char := [digit (b.toNat / 16), digit (b.toNat % 16)]

/-- The digits of a byte string. -/
def encode (b : Bytes) : String := String.ofList (b.flatMap encodeByte)

/-- Reads pairs of digits, the first of them standing at `index`, after the bytes in `done`
(latest first). A last unpaired digit is left out. -/
def decodePairs (done : Bytes) (index : Nat) : Bytes → Except HexError Bytes
  | hi :: lo :: rest =>
    match valueAt hi index with
    | .error e => .error e
    | .ok h =>
      match valueAt lo (index + 1) with
      | .error e => .error e
      | .ok l => decodePairs (UInt8.ofNat (16 * h + l) :: done) (index + 2) rest
  | _ => .ok done.reverse

/-- The UTF-8 bytes of a text. -/
def utf8 (s : String) : Bytes := s.toList.flatMap String.utf8EncodeChar

/-- The bytes that a text spells. -/
def decode (s : String) : Except HexError Bytes :=
  let digits := utf8 s
  if digits.length % 2 = 1 then .error .oddLength else decodePairs [] 0 digits

/-- The bytes that a text spells, `n` of them. -/
def decodeExactly (n : Nat) (s : String) : Except HexError (FixedBytes n) :=
  let digits := utf8 s
  if digits.length % 2 = 1 then .error .oddLength
  else if digits.length ≠ 2 * n then .error .wrongLength
  else
    match decodePairs [] 0 digits with
    | .error e => .error e
    | .ok b =>
      match FixedBytes.ofList? n b with
      | some a => .ok a
      | none => .error .wrongLength

/-- The bytes that a text spells, if it spells any. -/
def decode? (s : String) : Option Bytes := (decode s).toOption

/-- The `n` bytes that a text spells, if it spells as many. -/
def decodeExactly? (n : Nat) (s : String) : Option (FixedBytes n) := (decodeExactly n s).toOption

/-! ### What is written is read back -/

/-- A digit is one byte of text, which has the value of the digit. -/
theorem utf8_digit {n : Nat} (h : n < 16) :
    ∃ b, String.utf8EncodeChar (digit n) = [b] ∧ value? b = some n := by
  have : ∀ n : Fin 16, ∃ b, String.utf8EncodeChar (digit n) = [b] ∧ value? b = some n.val := by
    intro n
    refine ⟨(String.utf8EncodeChar (digit n)).headD 0, ?_, ?_⟩ <;> revert n <;> decide
  exact this ⟨n, h⟩

/-- A byte is written as two bytes of text, which have the values of its halves. -/
theorem utf8_encodeByte (b : UInt8) :
    ∃ hi lo, (encodeByte b).flatMap String.utf8EncodeChar = [hi, lo] ∧
      value? hi = some (b.toNat / 16) ∧ value? lo = some (b.toNat % 16) := by
  have hb := b.toNat_lt
  obtain ⟨hi, h₁, h₂⟩ := utf8_digit (show b.toNat / 16 < 16 by omega)
  obtain ⟨lo, h₃, h₄⟩ := utf8_digit (show b.toNat % 16 < 16 by omega)
  exact ⟨hi, lo, by simp [encodeByte, h₁, h₃], h₂, h₄⟩

/-- The text of a byte string is the texts of its bytes in a row. -/
theorem utf8_encode (b : Bytes) :
    utf8 (encode b) = b.flatMap fun x => (encodeByte x).flatMap String.utf8EncodeChar := by
  simp [utf8, encode, List.flatMap_assoc]

/-- The text of a byte string has two bytes for each of its bytes. -/
theorem length_utf8_encode (b : Bytes) : (utf8 (encode b)).length = 2 * b.length := by
  rw [utf8_encode]
  induction b with
  | nil => rfl
  | cons x rest ih =>
    obtain ⟨hi, lo, h, -, -⟩ := utf8_encodeByte x
    simp only [List.flatMap_cons, h, List.length_append, ih, List.length_cons, List.length_nil]
    omega

/-- Pairs that are written are read behind what has been read. -/
theorem decodePairs_utf8_encode (done b : Bytes) (index : Nat) :
    decodePairs done index (utf8 (encode b)) = .ok (done.reverse ++ b) := by
  rw [utf8_encode]
  induction b generalizing done index with
  | nil => simp [decodePairs]
  | cons x rest ih =>
    obtain ⟨hi, lo, h, h₁, h₂⟩ := utf8_encodeByte x
    have hx := x.toNat_lt
    have hval : UInt8.ofNat (16 * (x.toNat / 16) + x.toNat % 16) = x := by
      rw [Nat.div_add_mod]; exact UInt8.ofNat_toNat
    simp only [List.flatMap_cons, h, List.cons_append, List.nil_append, decodePairs, valueAt,
      h₁, h₂, hval, ih]
    simp

/-- **What is written is read back.** -/
theorem decode_encode (b : Bytes) : decode (encode b) = .ok b := by
  have hl := length_utf8_encode b
  have hp := decodePairs_utf8_encode [] b 0
  unfold decode
  simp only [hl, hp]
  rw [if_neg (by omega)]
  rfl

/-- What is written is read back where the number of bytes is known. -/
theorem decodeExactly_encode {n : Nat} (a : FixedBytes n) :
    decodeExactly n (encode a.toList) = .ok a := by
  have hl := length_utf8_encode a.toList
  have hp := decodePairs_utf8_encode [] a.toList 0
  have ha := a.length_eq
  unfold decodeExactly
  simp only [hl, hp]
  rw [if_neg (by omega), if_neg (by omega)]
  simp

/-! ### Messages -/

/-- A byte as a quoted character of the Latin-1 range, escaped when it does not print. -/
def quoteByte (b : UInt8) : String :=
  let n := b.toNat
  let body :=
    if n = 0 then "\\0"
    else if n = 9 then "\\t"
    else if n = 10 then "\\n"
    else if n = 13 then "\\r"
    else if n = 39 then "\\'"
    else if n = 92 then "\\\\"
    else if n < 32 ∨ (127 ≤ n ∧ n ≤ 160) ∨ n = 173 then
      "\\u\x7b" ++ String.ofList (Nat.toDigits 16 n) ++ "\x7d"
    else String.singleton (Char.ofNat n)
  "'" ++ body ++ "'"

end Hex

/-- The name of the kind of error. -/
def HexError.kind : HexError → String
  | .oddLength => "OddLength"
  | .wrongLength => "InvalidStringLength"
  | .notADigit _ _ => "InvalidHexCharacter"

/-- The reason in words. -/
def HexError.message : HexError → String
  | .oddLength => "Odd number of digits"
  | .wrongLength => "Invalid string length"
  | .notADigit byte index => s!"Invalid character {Hex.quoteByte byte} at position {index}"

end TwoWayPeg
