import TwoWayPeg.Bytes

/-!
# Base 32 text of witness programs

The newer form of addresses: a short name of the network, the digit one, and then in base 32 the
version of the program, the program and six digits of a checksum. Version zero uses the first form
of the checksum and all others the second.
-/

namespace TwoWayPeg.Bech32

/-- The digits in order. -/
def alphabet : List Char := "qpzry9x8gf2tvdw0s3jn54khce6mua7l".toList

/-- The digit of a number below 32. -/
def digit (n : Nat) : Char := alphabet.getD n 'q'

/-- The value of a digit in lower case. -/
def value? (c : Char) : Option Nat := alphabet.findIdx? (· == c)

/-! ### The checksum -/

/-- The coefficients that the five top bits of the checksum select. -/
def generators : List Nat := [0x3b6a57b2, 0x26508e6d, 0x1ea119fa, 0x3d4233dd, 0x2a1462b3]

/-- The checksum register after one more digit. -/
def step (register value : Nat) : Nat :=
  let top := register >>> 25
  let shifted := ((register % (1 <<< 25)) <<< 5) ^^^ value
  (generators.zipIdx).foldl (fun acc g => if top.testBit g.2 then acc ^^^ g.1 else acc) shifted

/-- The checksum register after a list of digits. -/
def register (values : List Nat) : Nat := values.foldl step 1

/-- What the register has to hold in the end, for a version of the program. -/
def target (version : Nat) : Nat := if version = 0 then 1 else 0x2bc830a3

/-- The network name as the checksum takes it. -/
def expandName (name : List Char) : List Nat :=
  name.map (fun c => c.toNat / 32) ++ 0 :: name.map (fun c => c.toNat % 32)

/-! ### Groups of five bits -/

/-- The low `count` bits of a number, most significant first. -/
def bits : Nat → Nat → List Bool
  | 0, _ => []
  | count + 1, n => n.testBit count :: bits count n

/-- The number of a list of bits, most significant first. -/
def ofBits (bs : List Bool) : Nat := bs.foldl (fun acc b => 2 * acc + b.toNat) 0

/-- Bits in groups of `width`, at most `fuel` groups, the last one filled up with zeros. -/
def groups (width : Nat) : Nat → List Bool → List Nat
  | 0, _ => []
  | _ + 1, [] => []
  | fuel + 1, bs =>
    let group := bs.take width
    ofBits (group ++ List.replicate (width - group.length) false) ::
      groups width fuel (bs.drop width)

/-- Bytes as numbers of five bits. -/
def toFives (b : Bytes) : List Nat :=
  groups 5 (2 * b.length) (b.flatMap fun x => bits 8 x.toNat)

/-- The bytes of numbers of five bits; what is left over is fewer than five bits, all zero. -/
def ofFives? (values : List Nat) : Option Bytes :=
  let bs := values.flatMap (bits 5)
  let whole := bs.length / 8 * 8
  let padding := bs.drop whole
  if padding.length ≤ 4 ∧ padding.all (!·) then
    some ((groups 8 bs.length (bs.take whole)).map UInt8.ofNat)
  else none

/-! ### Addresses -/

/-- The address of a witness program. -/
def encode (name : String) (version : Nat) (program : Bytes) : String :=
  let values := version :: toFives program
  let sum := register (expandName name.toList ++ values ++ List.replicate 6 0) ^^^ target version
  let check := [25, 20, 15, 10, 5, 0].map fun shift => (sum >>> shift) % 32
  name ++ "1" ++ String.ofList ((values ++ check).map digit)

/-- Whether a program of a version has one of the lengths that the version allows. -/
def validLength (version length : Nat) : Bool :=
  2 ≤ length && length ≤ 40 && (version != 0 || length == 20 || length == 32)

/-- The network name, the version and the program of an address. Letters of both cases do not mix. -/
def decode? (s : String) : Option (String × Nat × Bytes) :=
  let cs := s.toList
  let mixed := cs.any Char.isLower && cs.any Char.isUpper
  if 90 < s.utf8ByteSize ∨ mixed ∨ cs.any (fun c => c.toNat < 33 || 126 < c.toNat) then none
  else
    let cs := cs.map Char.toLower
    let data := (cs.reverse.takeWhile (· != '1')).reverse
    let name := cs.take (cs.length - data.length - 1)
    if data.length = cs.length ∨ name = [] ∨ 83 < name.length then none
    else
      match data.mapM value? with
      | none => none
      | some [] => none
      | some (version :: values) =>
        if 16 < version ∨ values.length < 6 ∨
            register (expandName name ++ version :: values) ≠ target version then none
        else
          match ofFives? (values.take (values.length - 6)) with
          | none => none
          | some program =>
            if validLength version program.length then
              some (String.ofList name, version, program)
            else none

end TwoWayPeg.Bech32
