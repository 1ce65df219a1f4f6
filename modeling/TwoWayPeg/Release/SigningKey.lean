import TwoWayPeg.Curve.Ecdsa
import TwoWayPeg.Release.ScriptSig

/-!
# The keys of members

A member signs all inputs of a transaction with one secret key. What is signed for an input is found
through the script that the input carries.
-/

namespace TwoWayPeg

/-- Why nothing is signed. -/
inductive SignerError
  /-- The text is no hexadecimal number. -/
  | unreadableKey
  | wrongLength
  /-- The number is zero or not below the group order. -/
  | outOfRange
  | missingRedeemScript (input : Nat)
deriving DecidableEq

/-- The name of the kind of error. -/
def SignerError.kind : SignerError → String
  | unreadableKey => "InvalidKey"
  | wrongLength => "InvalidKey"
  | outOfRange => "InvalidKey"
  | missingRedeemScript _ => "MissingRedeemScript"

/-- The error in words. -/
def SignerError.message : SignerError → String
  | unreadableKey => "invalid key: "
  | wrongLength => "invalid key: key must be 32 bytes"
  | outOfRange => "invalid key: "
  | missingRedeemScript input => s!"input {input} carries no redeem script"

/-- A secret key with its public key. -/
structure SigningKey where
  secret : FixedBytes 32
  publicKey : PublicKey

namespace SigningKey

/-- What kind of signer this is. -/
def kind : String := "single-key"

/-- The key of a number between zero and the group order. -/
def ofBytes (secret : FixedBytes 32) : Except SignerError SigningKey :=
  let n := secret.toNat
  if n = 0 ∨ Secp256k1.groupOrder ≤ n then .error .outOfRange
  else
    match (Secp256k1.baseMultiple n).bind fun p => PublicKey.ofBytes? (PublicKey.shortForm p) with
    | some publicKey => .ok ⟨secret, publicKey⟩
    | none => .error .outOfRange

/-- The key that hexadecimal digits spell. -/
def ofText (s : String) : Except SignerError SigningKey :=
  match Hex.decode s with
  | .error _ => .error .unreadableKey
  | .ok b =>
    match FixedBytes.ofList? 32 b with
    | none => .error .wrongLength
    | some secret => ofBytes secret

/-- One signature for each input of a transaction. -/
def sign (k : SigningKey) (tx : Transaction) : Except SignerError (List Bytes) :=
  (List.range tx.inputs.length).mapM fun index =>
    match ScriptSig.sighash? tx index with
    | none => .error (.missingRedeemScript index)
    | some digest => .ok (Ecdsa.sign k.secret digest).encode

end SigningKey

end TwoWayPeg
