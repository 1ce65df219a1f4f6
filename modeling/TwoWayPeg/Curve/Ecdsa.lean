import TwoWayPeg.Curve.Secp256k1
import TwoWayPeg.Hash.Sha256

/-!
# ECDSA signatures

Signatures over secp256k1 in their distinguished encoding, as the peg's members submit them and as
bitcoin scripts carry them.

Reading is strict: lengths and integers must have their shortest form and nothing may follow.
A negative integer, or one that is not below the group order, still reads, as zero, and then no
digest is signed by it. Of the two values `s` and `n - s` that sign alike only the lower one counts
as a signature. Signing draws its nonce from the key and the digest by RFC 6979 and gives the lower
value.
-/

namespace TwoWayPeg.Ecdsa

open Secp256k1

/-- The two halves of a signature, both below the group order. -/
structure Signature where
  r : Nat
  s : Nat
deriving DecidableEq

/-- Whether the second half is the lower of the two that sign alike. -/
def Signature.isLow (sig : Signature) : Bool := sig.s ≤ groupOrder / 2

/-! ### The distinguished encoding -/

/-- A number in as few bytes as possible, most significant first. -/
def shortestBytes (n : Nat) : Bytes := (Bytes.ofNatBE 32 n).dropWhile (· == 0)

/-- The content of an encoded integer: a zero byte stands in front when the first bit would
otherwise read as a sign, and zero itself is one zero byte. -/
def integerContent (n : Nat) : Bytes :=
  match shortestBytes n with
  | [] => [0]
  | b :: rest => if b < 0x80 then b :: rest else 0 :: b :: rest

/-- An encoded integer below `2 ^ 256`. -/
def encodeInteger (n : Nat) : Bytes :=
  let content := integerContent n
  0x02 :: UInt8.ofNat content.length :: content

/-- The distinguished encoding. -/
def Signature.encode (sig : Signature) : Bytes :=
  let body := encodeInteger sig.r ++ encodeInteger sig.s
  0x30 :: UInt8.ofNat body.length :: body

/-- A length in its shortest form, and what follows it; no length reaches past the input. -/
def readLength : Bytes → Option (Nat × Bytes)
  | [] => none
  | b :: rest =>
    if b < 0x80 then some (b.toNat, rest)
    else
      let count := b.toNat - 0x80
      if b = 0xFF ∨ count = 0 ∨ 8 < count ∨ rest.length < count then none
      else
        let length := Bytes.toNatBE (rest.take count)
        let rest' := rest.drop count
        if rest.head? = some 0 ∨ rest'.length < length ∨ length < 128 then none
        else some (length, rest')

/-- Whether the content of an integer has the shortest form. -/
def isShortest : Bytes → Bool
  | [] => false
  | [_] => true
  | a :: b :: _ => !((a == 0x00 && b < 0x80) || (a == 0xFF && 0x80 ≤ b))

/-- The number that the content of an integer stands for, zero if it is no scalar. -/
def scalarOfContent (content : Bytes) : Nat :=
  if content.head?.any (0x80 ≤ ·) then 0
  else
    let n := Bytes.toNatBE content
    if n < groupOrder then n else 0

/-- An encoded integer at the front, as a scalar, and what follows it. -/
def readInteger : Bytes → Option (Nat × Bytes)
  | 0x02 :: rest =>
    match readLength rest with
    | none => none
    | some (length, rest) =>
      if length = 0 ∨ rest.length < length then none
      else
        let content := rest.take length
        if isShortest content then some (scalarOfContent content, rest.drop length) else none
  | _ => none

/-- The signature that bytes encode. -/
def Signature.decode? : Bytes → Option Signature
  | 0x30 :: rest =>
    match readLength rest with
    | none => none
    | some (length, rest) =>
      if length ≠ rest.length then none
      else
        match readInteger rest with
        | none => none
        | some (r, rest) =>
          match readInteger rest with
          | some (s, []) => some ⟨r, s⟩
          | _ => none
  | _ => none

/-! ### Verification -/

/-- Whether a signature with a low second half signs a digest under the key at a point. -/
def verify (digest : FixedBytes 32) (sig : Signature) (key : Point) : Bool :=
  if sig.r = 0 ∨ sig.s = 0 ∨ !sig.isLow then false
  else
    let w := invMod groupOrder sig.s
    let u1 := digest.toNat % groupOrder * w % groupOrder
    let u2 := sig.r * w % groupOrder
    let sum := Jacobian.add (Jacobian.multiple u1 (.ofPoint base))
      (Jacobian.multiple u2 (.ofPoint key))
    match sum.toPoint? with
    | none => false
    | some p => p.x % groupOrder == sig.r

/-! ### Signing -/

/-- The key and the value of the nonce generator. -/
structure NonceState where
  k : Bytes
  v : Bytes

namespace NonceState

/-- The generator seeded with a secret and a digest. -/
def seed (secret digest : Bytes) : NonceState :=
  let v := List.replicate 32 0x01
  let k := (Sha256.hmac (List.replicate 32 0x00) (v ++ 0x00 :: (secret ++ digest))).toList
  let v := (Sha256.hmac k v).toList
  let k := (Sha256.hmac k (v ++ 0x01 :: (secret ++ digest))).toList
  ⟨k, (Sha256.hmac k v).toList⟩

/-- The next candidate and the generator behind it. -/
def next (s : NonceState) : Nat × NonceState :=
  let v := (Sha256.hmac s.k s.v).toList
  let k := (Sha256.hmac s.k (v ++ [0x00])).toList
  (Bytes.toNatBE v, ⟨k, (Sha256.hmac k v).toList⟩)

end NonceState

/-- The signature of a digest with a nonce, its second half made low, if the nonce serves. -/
def signWith (secret digest nonce : Nat) : Option Signature :=
  if nonce = 0 ∨ groupOrder ≤ nonce then none
  else
    match baseMultiple nonce with
    | none => none
    | some p =>
      let r := p.x % groupOrder
      let s := invMod groupOrder nonce * ((digest + r * secret) % groupOrder) % groupOrder
      if r = 0 ∨ s = 0 then none
      else some ⟨r, if s ≤ groupOrder / 2 then s else groupOrder - s⟩

/-- The signature by the first nonce that serves, of at most `attempts`. -/
def signFrom (secret digest : Nat) : Nat → NonceState → Option Signature
  | 0, _ => none
  | attempts + 1, state =>
    let (nonce, state) := state.next
    match signWith secret digest nonce with
    | some sig => some sig
    | none => signFrom secret digest attempts state

/-- The signature of a digest under a secret key. A nonce fails with a chance of about one in
`2 ^ 127`, so sixteen attempts are never used up. -/
def sign (secret digest : FixedBytes 32) : Signature :=
  (signFrom secret.toNat (digest.toNat % groupOrder) 16
    (.seed secret.toList digest.toList)).getD ⟨0, 0⟩

end TwoWayPeg.Ecdsa
