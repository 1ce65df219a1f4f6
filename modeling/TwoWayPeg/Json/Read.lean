import TwoWayPeg.Json.Basic

/-!
# Reading JSON text

A text is read as one value surrounded by blanks and nothing else. Object fields are kept in the
order of the text, repeated ones too: what a repetition means depends on what the object stands
for, and that is decided where records are read.

Reading goes forward over the list of characters. The number of characters bounds the depth of the
calls, since every value begins with a character of its own.
-/

namespace TwoWayPeg.Json

/-! ### Blanks, digits and escapes -/

/-- The four characters that may stand between tokens. -/
def isBlank (c : Char) : Bool := c == ' ' || c == '\n' || c == '\t' || c == '\r'

/-- What follows the blanks at the front. -/
def skipBlank : List Char → List Char
  | [] => []
  | c :: rest => if isBlank c then skipBlank rest else c :: rest

/-- The digits at the front, and what follows them. -/
def readDigits : List Char → List Nat × List Char
  | [] => ([], [])
  | c :: rest =>
    if c.isDigit then
      let (digits, rest) := readDigits rest
      ((c.toNat - 48) :: digits, rest)
    else ([], c :: rest)

/-- The number that digits spell. -/
def ofDigits (digits : List Nat) : Nat := digits.foldl (fun n d => 10 * n + d) 0

/-- The value of a hexadecimal digit of either case. -/
def hexValue? (c : Char) : Option Nat :=
  let n := c.toNat
  if 48 ≤ n ∧ n ≤ 57 then some (n - 48)
  else if 97 ≤ n ∧ n ≤ 102 then some (n - 87)
  else if 65 ≤ n ∧ n ≤ 70 then some (n - 55)
  else none

/-- The number of four hexadecimal digits. -/
def fourHex? (a b c d : Char) : Option Nat :=
  match hexValue? a, hexValue? b, hexValue? c, hexValue? d with
  | some a, some b, some c, some d => some (((a * 16 + b) * 16 + c) * 16 + d)
  | _, _, _, _ => none

/-- The character that a backslash and one letter stand for. -/
def shortEscape? : Char → Option Char
  | '"' => some '"'
  | '\\' => some '\\'
  | '/' => some '/'
  | 'b' => some '\x08'
  | 'f' => some '\x0c'
  | 'n' => some '\n'
  | 'r' => some '\r'
  | 't' => some '\t'
  | _ => none

/-! ### Strings -/

/-- Whether a code unit is the first half of a surrogate pair. -/
def isHigh (unit : Nat) : Bool := 0xD800 ≤ unit && unit < 0xDC00

/-- Whether a code unit is the second half of a surrogate pair. -/
def isLow (unit : Nat) : Bool := 0xDC00 ≤ unit && unit < 0xE000

/-- The character of a surrogate pair. -/
def ofPair (high low : Nat) : Char := Char.ofNat (0x10000 + (high - 0xD800) * 0x400 + (low - 0xDC00))

/-- What has been read of a string. -/
structure Spelling where
  /-- The characters, latest first; none once half of a surrogate pair has stood alone. -/
  done : Option (List Char)
  /-- The first half of a pair whose second half is due. -/
  high : Option Nat

namespace Spelling

/-- Nothing has been read. -/
def empty : Spelling := ⟨some [], none⟩

/-- One more character. -/
def char (s : Spelling) (c : Char) : Spelling :=
  match s.high with
  | none => ⟨s.done.map (c :: ·), none⟩
  | some _ => ⟨none, none⟩

/-- One more code unit. -/
def unit (s : Spelling) (n : Nat) : Spelling :=
  match s.high with
  | some high => if isLow n then ⟨s.done.map (ofPair high n :: ·), none⟩ else ⟨none, none⟩
  | none =>
    if isHigh n then { s with high := some n }
    else if isLow n then ⟨none, none⟩
    else s.char (Char.ofNat n)

/-- The text, if all pairs are whole. -/
def text? (s : Spelling) : Option String :=
  match s.high with
  | none => s.done.map fun cs => String.ofList cs.reverse
  | some _ => none

end Spelling

/-- The text up to the closing quote, after what has been read of it, and what follows the quote.
Control characters must be escaped. -/
def readString (s : Spelling) : List Char → Option (Option String × List Char)
  | [] => none
  | '"' :: rest => some (s.text?, rest)
  | '\\' :: 'u' :: a :: b :: c :: d :: rest =>
    match fourHex? a b c d with
    | none => none
    | some n => readString (s.unit n) rest
  | '\\' :: c :: rest =>
    match shortEscape? c with
    | none => none
    | some c => readString (s.char c) rest
  | c :: rest => if c.toNat < 32 then none else readString (s.char c) rest

/-! ### Numbers -/

/-- As much of the digits as a 64-bit word holds after `word`, and how many are left over. -/
def fillWord (word : Nat) : List Nat → Nat × Nat
  | [] => (word, 0)
  | d :: rest =>
    if 10 * word + d < UInt64.size then fillWord (10 * word + d) rest else (word, rest.length + 1)

/-- The number of digits alone, if it fits a 64-bit word, below zero a signed one. -/
def wholeOf? (negative : Bool) (word left : Nat) : Option Json :=
  if left ≠ 0 then none
  else if negative then if word = 0 ∨ 1 <<< 63 < word then none else some (.int (-word))
  else some (.natural word)

/-- The number with a sign, digits before and after the point, and an exponent if there is one. A
number that is not whole is made of as many digits as a word holds. -/
def numberOf (negative : Bool) (whole fraction : List Nat) (exponent : Option Int) : Json :=
  let (word, left) := fillWord 0 whole
  let plain := if fraction.isEmpty && exponent.isNone then wholeOf? negative word left else none
  let (word, unused) := fillWord word fraction
  let power : Int := exponent.getD 0 + left + unused - fraction.length
  plain.getD (((Binary64.ofDecimal? word power).map (.double negative)).getD .unvalued)

/-- An exponent, if one follows. -/
def readExponent (cs : List Char) : Option (Option Int × List Char) :=
  match cs with
  | c :: rest =>
    if c = 'e' ∨ c = 'E' then
      let (negative, digits) := match rest with
        | '+' :: r => (false, r)
        | '-' :: r => (true, r)
        | r => (false, r)
      let (digits, rest) := readDigits digits
      let value : Int := ofDigits digits
      if digits.isEmpty then none else some (some (if negative then -value else value), rest)
    else some (none, cs)
  | [] => some (none, cs)

/-- The digits after a point, if one follows. -/
def readFraction (cs : List Char) : Option (List Nat × List Char) :=
  match cs with
  | '.' :: rest =>
    let (digits, rest) := readDigits rest
    if digits.isEmpty then none else some (digits, rest)
  | cs => some ([], cs)

/-- A number: digits without a superfluous zero in front, then perhaps a fraction and an
exponent. -/
def readNumber (cs : List Char) : Option (Json × List Char) :=
  let (negative, cs) := match cs with
    | '-' :: rest => (true, rest)
    | cs => (false, cs)
  let (whole, rest) := readDigits cs
  if whole.isEmpty ∨ (whole.head? = some 0 ∧ whole.length ≠ 1) then none
  else
    match readFraction rest with
    | none => none
    | some (fraction, rest) =>
      match readExponent rest with
      | none => none
      | some (exponent, rest) => some (numberOf negative whole fraction exponent, rest)

/-! ### Values -/

mutual

/-- The value at the front, after blanks, and what follows it. -/
def readValue : Nat → List Char → Option (Json × List Char)
  | 0, _ => none
  | depth + 1, cs =>
    match skipBlank cs with
    | 'n' :: 'u' :: 'l' :: 'l' :: rest => some (.null, rest)
    | 't' :: 'r' :: 'u' :: 'e' :: rest => some (.bool true, rest)
    | 'f' :: 'a' :: 'l' :: 's' :: 'e' :: rest => some (.bool false, rest)
    | '"' :: rest =>
      match readString .empty rest with
      | none => none
      | some (s, rest) => some ((s.map .str).getD .unvalued, rest)
    | '[' :: rest =>
      match skipBlank rest with
      | ']' :: rest => some (.arr [], rest)
      | rest =>
        match readItems depth rest with
        | none => none
        | some (items, rest) => some (.arr items, rest)
    | '{' :: rest =>
      match skipBlank rest with
      | '}' :: rest => some (.obj [], rest)
      | rest =>
        match readFields depth rest with
        | none => none
        | some (fields, rest) => some ((fields.map .obj).getD .unvalued, rest)
    | cs => readNumber cs

/-- The items up to the closing bracket, at least one, and what follows it. -/
def readItems : Nat → List Char → Option (List Json × List Char)
  | 0, _ => none
  | depth + 1, cs =>
    match readValue depth cs with
    | none => none
    | some (item, rest) =>
      match skipBlank rest with
      | ']' :: rest => some ([item], rest)
      | ',' :: rest =>
        match readItems depth rest with
        | none => none
        | some (items, rest) => some (item :: items, rest)
      | _ => none

/-- The fields up to the closing brace, at least one and all with keys that are texts, and what
follows it. -/
def readFields : Nat → List Char → Option (Option (List (String × Json)) × List Char)
  | 0, _ => none
  | depth + 1, cs =>
    match skipBlank cs with
    | '"' :: rest =>
      match readString .empty rest with
      | none => none
      | some (key, rest) =>
        match skipBlank rest with
        | ':' :: rest =>
          match readValue depth rest with
          | none => none
          | some (value, rest) =>
            match skipBlank rest with
            | '}' :: rest => some (key.map fun key => [(key, value)], rest)
            | ',' :: rest =>
              match readFields depth rest with
              | none => none
              | some (fields, rest) =>
                some (key.bind fun key => fields.map ((key, value) :: ·), rest)
            | _ => none
        | _ => none
    | _ => none

end

/-- The value that a text consists of. -/
def parse? (s : String) : Option Json :=
  let cs := s.toList
  match readValue (cs.length + 1) cs with
  | none => none
  | some (value, rest) => if (skipBlank rest).isEmpty then some value else none

end TwoWayPeg.Json
