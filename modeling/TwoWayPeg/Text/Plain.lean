/-!
# Reading plain text

Configuration values are written by people: blank space around them is dropped, words are compared
without regard to case, and lists are separated by commas.
-/

namespace TwoWayPeg.Text

/-- The characters with the Unicode property White_Space. -/
def isBlank (c : Char) : Bool :=
  let n := c.toNat
  (9 ≤ n && n ≤ 13) || n == 0x20 || n == 0x85 || n == 0xA0 || n == 0x1680 ||
    (0x2000 ≤ n && n ≤ 0x200A) || n == 0x2028 || n == 0x2029 || n == 0x202F || n == 0x205F ||
    n == 0x3000

/-- The text without the blanks at its two ends. -/
def trim (s : String) : String :=
  String.ofList ((s.toList.dropWhile isBlank).reverse.dropWhile isBlank).reverse

/-- A character in lower case, as far as the words of this library can tell: beside the ASCII
capitals only the Kelvin sign has a lower case that is an ASCII letter. -/
def lower (c : Char) : Char := if c = '\u212A' then 'k' else c.toLower

/-- The text in lower case, for comparison with words of ASCII letters. -/
def folded (s : String) : String := String.ofList (s.toList.map lower)

/-- The parts of a list separated by commas, without surrounding blanks and without the parts
that are empty. -/
def commaSeparated (s : String) : List String :=
  ((s.splitOn ",").map trim).filter fun part => !part.isEmpty

/-- The number written by decimal digits, most significant first, after what `acc` spells. -/
def decimalValue (acc : Nat) : List Char → Option Nat
  | [] => some acc
  | c :: rest => if c.isDigit then decimalValue (10 * acc + (c.toNat - 48)) rest else none

/-- The number below `bound` that a text writes in decimal digits, with an optional plus sign. -/
def natBelow? (bound : Nat) (s : String) : Option Nat :=
  let digits := match s.toList with
    | '+' :: rest => rest
    | cs => cs
  if digits.isEmpty then none
  else (decimalValue 0 digits).filter (· < bound)

end TwoWayPeg.Text
