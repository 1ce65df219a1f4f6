import TwoWayPeg.Bytes

/-!
# Reading from the front of a byte string

Transactions, headers and proofs are byte strings made of parts that stand one after another:
numbers of a fixed width, counts of variable width, and lists announced by a count. A reader takes
its part from the front and gives back what follows, or fails.

A count takes one byte below 253 and otherwise a mark and two, four or eight bytes. Only the
shortest form is accepted, so every list of bytes is written in one way.
-/

namespace TwoWayPeg

/-- Takes a value from the front of the input. -/
abbrev Reader (α : Type) := Bytes → Option (α × Bytes)

namespace Reader

/-- The first `n` bytes. -/
def take (n : Nat) : Reader Bytes := fun b =>
  let part := b.take n
  if part.length = n then some (part, b.drop n) else none

/-- The first `n` bytes, as a string of that length. -/
def fixed (n : Nat) : Reader (FixedBytes n) := fun b =>
  (FixedBytes.ofList? n (b.take n)).map fun a => (a, b.drop n)

/-- A number of `width` bytes, least significant first. -/
def number (width : Nat) : Reader Nat := fun b =>
  (take width b).map fun r => (Bytes.toNatLE r.1, r.2)

/-- As many values as `count` says, one after another. -/
def list {α : Type} (item : Reader α) : Nat → Reader (List α)
  | 0 => fun b => some ([], b)
  | count + 1 => fun b =>
    match item b with
    | none => none
    | some (x, b) =>
      match list item count b with
      | none => none
      | some (xs, b) => some (x :: xs, b)

/-- The value of an input that is read to its end. -/
def whole {α : Type} (r : Reader α) (b : Bytes) : Option α :=
  match r b with
  | some (x, []) => some x
  | _ => none

end Reader

namespace CompactSize

/-- A count in its shortest form. -/
def encode (n : Nat) : Bytes :=
  if n < 0xFD then [UInt8.ofNat n]
  else if n < 0x10000 then 0xFD :: Bytes.ofNatLE 2 n
  else if n < 0x100000000 then 0xFE :: Bytes.ofNatLE 4 n
  else 0xFF :: Bytes.ofNatLE 8 n

/-- A number of `width` bytes that is at least `least`. -/
def readAbove (width least : Nat) : Reader Nat := fun b =>
  match Reader.number width b with
  | none => none
  | some (n, b) => if n < least then none else some (n, b)

/-- A count in its shortest form. -/
def read : Reader Nat
  | [] => none
  | mark :: b =>
    if mark = 0xFD then readAbove 2 0xFD b
    else if mark = 0xFE then readAbove 4 0x10000 b
    else if mark = 0xFF then readAbove 8 0x100000000 b
    else some (mark.toNat, b)

/-- Bytes with their count in front. -/
def encodeBytes (b : Bytes) : Bytes := encode b.length ++ b

/-- Bytes with their count in front. -/
def readBytes : Reader Bytes := fun b =>
  match read b with
  | none => none
  | some (n, b) => Reader.take n b

end CompactSize

end TwoWayPeg
