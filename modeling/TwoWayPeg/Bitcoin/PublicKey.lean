import TwoWayPeg.Curve.Secp256k1
import TwoWayPeg.Bitcoin.Script

/-!
# Public keys

A public key is one of the two encodings of a point of the curve: 33 bytes with the abscissa and the
parity of the ordinate, or 65 bytes with both coordinates. A key keeps the encoding it was given in,
and two encodings of one point are two keys, because scripts carry the bytes.
-/

namespace TwoWayPeg

open Secp256k1 (Point)

namespace PublicKey

/-- The point that bytes encode. -/
def pointOf? : Bytes → Option Point
  | code :: rest =>
    if code = 0x02 ∨ code = 0x03 then
      if rest.length = 32 then Secp256k1.liftX (Bytes.toNatBE rest) (code == 0x03) else none
    else if code = 0x04 ∧ rest.length = 64 then
      let p : Point := ⟨Bytes.toNatBE (rest.take 32), Bytes.toNatBE (rest.drop 32)⟩
      if p.onCurve then some p else none
    else none
  | [] => none

end PublicKey

/-- An encoding of a point of the curve. -/
structure PublicKey where
  /-- The encoding. -/
  bytes : Bytes
  /-- It encodes a point. -/
  valid : (PublicKey.pointOf? bytes).isSome
deriving DecidableEq

namespace PublicKey

/-- Keys of the same bytes are equal. -/
theorem ext {a b : PublicKey} (h : a.bytes = b.bytes) : a = b := by
  cases a; cases b; simp_all

/-- The key that bytes are, if they encode a point. -/
def ofBytes? (b : Bytes) : Option PublicKey :=
  if h : (pointOf? b).isSome then some ⟨b, h⟩ else none

/-- The bytes of a key are read as the key. -/
@[simp] theorem ofBytes?_bytes (k : PublicKey) : ofBytes? k.bytes = some k := by
  simp [ofBytes?, k.valid]

/-- The point of a key. -/
def point (k : PublicKey) : Point := (pointOf? k.bytes).get k.valid

/-- The encoding of a point with both coordinates. -/
def longForm (p : Point) : Bytes := 0x04 :: (Bytes.ofNatBE 32 p.x ++ Bytes.ofNatBE 32 p.y)

/-- The encoding of a point with one coordinate. -/
def shortForm (p : Point) : Bytes :=
  (if p.y % 2 = 0 then 0x02 else 0x03) :: Bytes.ofNatBE 32 p.x

/-- Whether a key has the short encoding. -/
def isCompressed (k : PublicKey) : Bool := k.bytes.length == 33

/-- The key with the short encoding of the same point. -/
def compressed? (k : PublicKey) : Option PublicKey := ofBytes? (shortForm k.point)

/-- The hexadecimal digits of the encoding. -/
def text (k : PublicKey) : String := Hex.encode k.bytes

/-- The key that hexadecimal digits spell. -/
def ofText? (s : String) : Option PublicKey := (Hex.decode? s).bind ofBytes?

/-- The digest that stands for the key in an address. -/
def hash (k : PublicKey) : KeyHash := ⟨hash160 k.bytes⟩

/-- The digest that stands for the short encoding of the key in an address. -/
def shortHash (k : PublicKey) : KeyHash := ⟨hash160 (shortForm k.point)⟩

end PublicKey

end TwoWayPeg
