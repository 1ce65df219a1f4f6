/-!
# The curve secp256k1

Points of `y ^ 2 = x ^ 3 + 7` over the prime field that bitcoin and the host chain share. Coordinates
are naturals below the field order. Multiples of a point are computed in Jacobian coordinates
`(x / z ^ 2, y / z ^ 3)`, where a zero `z` stands for the point at infinity, so that only one
inversion is needed for each result.
-/

namespace TwoWayPeg.Secp256k1

/-! ### The field -/

/-- The order of the field. -/
def fieldOrder : Nat :=
  0xFFFFFFFFFFFFFFFFFFFFFFFFFFFFFFFFFFFFFFFFFFFFFFFFFFFFFFFEFFFFFC2F

/-- The number of multiples of the base point. -/
def groupOrder : Nat :=
  0xFFFFFFFFFFFFFFFFFFFFFFFFFFFFFFFEBAAEDCE6AF48A03BBFD25E8CD0364141

/-- The low `count` bits of a number, most significant first. -/
def bits : Nat → Nat → List Bool
  | 0, _ => []
  | count + 1, n => n.testBit count :: bits count n

/-- A power modulo `m`, for exponents of at most 256 bits. -/
def powMod (m base exponent : Nat) : Nat :=
  (bits 256 exponent).foldl
    (fun acc bit => if bit then acc * acc % m * base % m else acc * acc % m) 1

/-- The inverse modulo a prime. -/
def invMod (m a : Nat) : Nat := powMod m a (m - 2)

/-- A product in the field. -/
def mul (a b : Nat) : Nat := a * b % fieldOrder

/-- A difference in the field. -/
def sub (a b : Nat) : Nat := (a + fieldOrder - b) % fieldOrder

/-- The right-hand side of the curve equation. -/
def cubic (x : Nat) : Nat := (mul (mul x x) x + 7) % fieldOrder

/-! ### Points -/

/-- A point other than the one at infinity. -/
structure Point where
  x : Nat
  y : Nat
deriving DecidableEq

/-- Whether both coordinates are reduced and satisfy the equation. -/
def Point.onCurve (p : Point) : Bool :=
  p.x < fieldOrder && p.y < fieldOrder && mul p.y p.y == cubic p.x

/-- The point with a given abscissa whose ordinate is odd or even as asked for. -/
def liftX (x : Nat) (odd : Bool) : Option Point :=
  if x < fieldOrder then
    let root := powMod fieldOrder (cubic x) ((fieldOrder + 1) / 4)
    if mul root root = cubic x then
      some ⟨x, if (root % 2 == 1) == odd then root else fieldOrder - root⟩
    else none
  else none

/-- The base point. -/
def base : Point :=
  ⟨0x79BE667EF9DCBBAC55A06295CE870B07029BFCDB2DCE28D959F2815B16F81798,
   0x483ADA7726A3C4655DA4FBFC0E1108A8FD17B448A68554199C47D08FFB10D4B8⟩

/-! ### Multiples -/

/-- A point in Jacobian coordinates. -/
structure Jacobian where
  x : Nat
  y : Nat
  z : Nat

namespace Jacobian

/-- The point at infinity. -/
def infinity : Jacobian := ⟨1, 1, 0⟩

/-- A point of the plane. -/
def ofPoint (p : Point) : Jacobian := ⟨p.x, p.y, 1⟩

/-- Twice a point. -/
def double (p : Jacobian) : Jacobian :=
  if p.z = 0 ∨ p.y = 0 then infinity
  else
    let yy := mul p.y p.y
    let s := mul 4 (mul p.x yy)
    let m := mul 3 (mul p.x p.x)
    let x := sub (mul m m) (mul 2 s)
    ⟨x, sub (mul m (sub s x)) (mul 8 (mul yy yy)), mul 2 (mul p.y p.z)⟩

/-- The sum of two points. -/
def add (p q : Jacobian) : Jacobian :=
  if p.z = 0 then q
  else if q.z = 0 then p
  else
    let pzz := mul p.z p.z
    let qzz := mul q.z q.z
    let u := mul p.x qzz
    let s := mul p.y (mul qzz q.z)
    let h := sub (mul q.x pzz) u
    let r := sub (mul q.y (mul pzz p.z)) s
    if h = 0 then
      if r = 0 then double p else infinity
    else
      let hh := mul h h
      let hhh := mul hh h
      let v := mul u hh
      let x := sub (sub (mul r r) hhh) (mul 2 v)
      ⟨x, sub (mul r (sub v x)) (mul s hhh), mul h (mul p.z q.z)⟩

/-- A multiple of a point, the factor having at most 256 bits. -/
def multiple (factor : Nat) (p : Jacobian) : Jacobian :=
  (bits 256 factor).foldl (fun acc bit => if bit then add (double acc) p else double acc) infinity

/-- The point of the plane, unless it is the one at infinity. -/
def toPoint? (p : Jacobian) : Option Point :=
  if p.z = 0 then none
  else
    let i := invMod fieldOrder p.z
    let ii := mul i i
    some ⟨mul p.x ii, mul p.y (mul ii i)⟩

end Jacobian

/-- A multiple of the base point. -/
def baseMultiple (factor : Nat) : Option Point :=
  (Jacobian.multiple factor (.ofPoint base)).toPoint?

end TwoWayPeg.Secp256k1
