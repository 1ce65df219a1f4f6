import TwoWayPeg.Text.Binary64

/-!
# JSON values and their compact text

Persisted records and log events are JSON. A value keeps apart whole numbers, which records are made
of, from all other numbers, which are held in double precision.
The compact text has no blanks, keeps the order of fields and leaves characters outside ASCII as
they are.

Some texts are well formed and yet mean nothing, such as half of a surrogate pair. They are found
where a value is passed over, so they are forms of their own and not errors.
-/

namespace TwoWayPeg

/-- A JSON value. -/
inductive Json
  | null
  | bool (b : Bool)
  /-- A whole number, written in digits alone. -/
  | int (n : Int)
  /-- Any other number, which may be a negative zero. -/
  | double (negative : Bool) (x : Binary64)
  | str (s : String)
  | arr (items : List Json)
  | obj (fields : List (String × Json))
  /-- A form without a value: a string with half of a surrogate pair, an object with such a key, or
  a number that double precision cannot hold. -/
  | unvalued

namespace Json

/-- A natural number. -/
@[match_pattern] abbrev natural (n : Nat) : Json := .int (.ofNat n)

/-- A text or nothing. -/
def ofText? : Option String → Json
  | none => .null
  | some s => .str s

/-! ### Compact text -/

/-- The lower-case hexadecimal digit of a number below sixteen. -/
def hexDigit (n : Nat) : Char := if n < 10 then Char.ofNat (48 + n) else Char.ofNat (87 + n)

/-- A character as it stands between the quotes of a string. -/
def escape (c : Char) : List Char :=
  if c = '"' then ['\\', '"']
  else if c = '\\' then ['\\', '\\']
  else if c = '\x08' then ['\\', 'b']
  else if c = '\t' then ['\\', 't']
  else if c = '\n' then ['\\', 'n']
  else if c = '\x0c' then ['\\', 'f']
  else if c = '\r' then ['\\', 'r']
  else if c.toNat < 32 then
    ['\\', 'u', '0', '0', hexDigit (c.toNat / 16), hexDigit (c.toNat % 16)]
  else [c]

/-- A string with its quotes. -/
def quote (s : String) : List Char := '"' :: (s.toList.flatMap escape ++ ['"'])

/-- The text of a double, with all its digits. -/
def writeDouble (negative : Bool) (x : Binary64) : List Char :=
  let (digits, places) := x.decimal
  (if negative then ['-'] else []) ++ Nat.toDigits 10 digits ++
    if places = 0 then ['.', '0'] else 'e' :: '-' :: Nat.toDigits 10 places

mutual

/-- The compact text of a value. Null stands in for a form without one. -/
def write : Json → List Char
  | .unvalued => ['n', 'u', 'l', 'l']
  | .null => ['n', 'u', 'l', 'l']
  | .bool true => ['t', 'r', 'u', 'e']
  | .bool false => ['f', 'a', 'l', 's', 'e']
  | .int (.ofNat n) => Nat.toDigits 10 n
  | .int (.negSucc n) => '-' :: Nat.toDigits 10 (n + 1)
  | .double negative x => writeDouble negative x
  | .str s => quote s
  | .arr [] => ['[', ']']
  | .arr (item :: rest) => '[' :: (write item ++ writeItems rest)
  | .obj [] => ['{', '}']
  | .obj ((key, value) :: rest) => '{' :: (quote key ++ ':' :: (write value ++ writeFields rest))

/-- The items of an array after the first, with the closing bracket. -/
def writeItems : List Json → List Char
  | [] => [']']
  | item :: rest => ',' :: (write item ++ writeItems rest)

/-- The fields of an object after the first, with the closing brace. -/
def writeFields : List (String × Json) → List Char
  | [] => ['}']
  | (key, value) :: rest => ',' :: (quote key ++ ':' :: (write value ++ writeFields rest))

end

/-- The compact text of a value. -/
def compact (j : Json) : String := String.ofList j.write

end Json

end TwoWayPeg
