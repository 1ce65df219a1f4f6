import TwoWayPeg.Hash.Sha256

/-!
# Base 58 text with a checksum

The older form of addresses: bytes with four bytes of their double digest behind them, written as a
number in base 58. Zero bytes at the front are written as ones, which the number would lose.
-/

namespace TwoWayPeg.Base58

/-- The digits in order; letters that look alike are left out. -/
def alphabet : List Char :=
  "123456789ABCDEFGHJKLMNPQRSTUVWXYZabcdefghijkmnopqrstuvwxyz".toList

/-- The digit of a number below 58. -/
def digit (n : Nat) : Char := alphabet.getD n '1'

/-- The value of a digit. -/
def value? (c : Char) : Option Nat := alphabet.findIdx? (· == c)

/-- The digits of a number in base 58, least significant first, at most `fuel` of them. -/
def digits : Nat → Nat → List Char
  | 0, _ => []
  | _ + 1, 0 => []
  | fuel + 1, n => digit (n % 58) :: digits fuel (n / 58)

/-- The bytes of a number without zeros in front, least significant first, at most `fuel`. -/
def lowBytes : Nat → Nat → Bytes
  | 0, _ => []
  | _ + 1, 0 => []
  | fuel + 1, n => UInt8.ofNat n :: lowBytes fuel (n / 256)

/-- Bytes in base 58. -/
def encode (b : Bytes) : String :=
  let zeros := (b.takeWhile (· == 0)).length
  String.ofList (List.replicate zeros '1' ++ (digits (2 * b.length) (Bytes.toNatBE b)).reverse)

/-- The bytes that a text in base 58 spells. -/
def decode? (s : String) : Option Bytes :=
  let cs := s.toList
  match cs.mapM value? with
  | none => none
  | some values =>
    let zeros := (cs.takeWhile (· == '1')).length
    let n := values.foldl (fun acc v => 58 * acc + v) 0
    some (List.replicate zeros 0 ++ (lowBytes cs.length n).reverse)

/-- The four bytes that guard a payload. -/
def checksum (payload : Bytes) : Bytes := (Sha256.double payload).toList.take 4

/-- A payload with its checksum, in base 58. -/
def encodeChecked (payload : Bytes) : String := encode (payload ++ checksum payload)

/-- The payload of a text whose checksum is right. -/
def decodeChecked? (s : String) : Option Bytes :=
  match decode? s with
  | none => none
  | some b =>
    if b.length < 4 then none
    else
      let payload := b.take (b.length - 4)
      if b.drop (b.length - 4) = checksum payload then some payload else none

end TwoWayPeg.Base58
