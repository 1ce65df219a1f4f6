import TwoWayPeg.Curve.Ecdsa
import TwoWayPeg.Host.Account
import TwoWayPeg.Json.Basic
import TwoWayPeg.Release.ScriptSig

/-!
# Collecting signatures

A transaction that is ready to be signed is kept under the host transaction that made it so. Each
member submits one signature for each input. All signatures are checked before anything changes;
then the slots of the inputs are filled in the order of the keys, because the check of a script with
several keys goes through keys and signatures in the same order.

An input whose script does not list the key is left alone, so members of different federations can
sign one transaction together.
-/

namespace TwoWayPeg

/-- What has become of submitted signatures. -/
inductive SigningOutcome
  /-- The key belongs to no live federation. -/
  | unknownFederator
  /-- Nothing is kept under the host transaction. -/
  | noPendingTransaction
  | countMismatch (expected received : Nat)
  /-- A signature does not sign the input with the key. -/
  | invalidSignature (input : Nat)
  /-- The key is listed by no input. -/
  | notAFederationKey (input : Nat)
  /-- An input has no slots, or one that no listed key has signed. -/
  | malformedTransaction (input : Nat)
  | alreadySigned
  | partiallySigned
  /-- All slots are filled, and the transaction is no longer kept. -/
  | fullySigned
deriving DecidableEq

/-- The name of the outcome. -/
def SigningOutcome.name : SigningOutcome → String
  | unknownFederator => "UnknownFederator"
  | noPendingTransaction => "NoPendingTransaction"
  | countMismatch _ _ => "SignatureCountMismatch"
  | invalidSignature _ => "InvalidSignature"
  | notAFederationKey _ => "NotAFederationKey"
  | malformedTransaction _ => "MalformedTransaction"
  | alreadySigned => "AlreadySigned"
  | partiallySigned => "PartiallySigned"
  | fullySigned => "FullySigned"

/-- Whether the signatures were taken. -/
def SigningOutcome.applied : SigningOutcome → Bool
  | partiallySigned => true
  | fullySigned => true
  | _ => false

/-- The outcome as a record, with the numbers that belong to it. -/
def SigningOutcome.toJson (o : SigningOutcome) : Json :=
  .obj <| [("outcome", Json.str o.name), ("applied", .bool o.applied)] ++
    match o with
    | countMismatch expected received =>
      [("expected", .natural expected), ("received", .natural received)]
    | invalidSignature input => [("input", .natural input)]
    | notAFederationKey input => [("input", .natural input)]
    | malformedTransaction input => [("input", .natural input)]
    | _ => []

/-- The transactions that are being signed. -/
abbrev PendingSignatures := SortedMap HostTxHash Transaction

namespace PendingSignatures

/-! ### Checking signatures -/

/-- The byte behind a signature that commits to all inputs and outputs. -/
def commitsToAll : UInt8 := 0x01

/-- The bytes that may stand behind a signature. -/
def commitments : List UInt8 := [0x01, 0x02, 0x03, 0x81, 0x82, 0x83]

/-- The signature that bytes encode, if it signs a digest with a key. -/
def readSignature (der : Bytes) (digest : FixedBytes 32) (key : PublicKey) :
    Option Ecdsa.Signature :=
  match Ecdsa.Signature.decode? der with
  | none => none
  | some sig => if sig.isLow && Ecdsa.verify digest sig key.point then some sig else none

/-- Whether a filled slot holds a signature of a digest with a key. -/
def slotSignedBy (slot : Bytes) (digest : FixedBytes 32) (key : PublicKey) : Bool :=
  match slot.getLast? with
  | none => false
  | some commitment =>
    commitments.contains commitment &&
      match Ecdsa.Signature.decode? slot.dropLast with
      | none => false
      | some sig => Ecdsa.verify digest sig key.point

/-- An input with the digest that is signed for it and the signature. -/
structure CheckedInput where
  input : TxIn
  digest : FixedBytes 32
  signature : Ecdsa.Signature

/-- Checks one signature for each input, from the one with a given index on. -/
def checkFrom (tx : Transaction) (key : PublicKey) :
    Nat → List TxIn → List Bytes → Except SigningOutcome (List CheckedInput)
  | index, input :: inputs, der :: ders =>
    match ScriptSig.sighash? tx index with
    | none => .error (.malformedTransaction index)
    | some digest =>
      match readSignature der digest key with
      | none => .error (.invalidSignature index)
      | some sig =>
        match checkFrom tx key (index + 1) inputs ders with
        | .error e => .error e
        | .ok rest => .ok (⟨input, digest, sig⟩ :: rest)
  | _, _, _ => .ok []

/-! ### Filling slots -/

/-- What signing does to one input. -/
inductive InputSigning
  /-- The input has this script from now on. -/
  | signed (scriptSig : Script)
  | alreadySigned
  /-- The key is not listed. -/
  | foreign
  | malformed
deriving DecidableEq

/-- Where among the filled slots the signature of the key at a place belongs: before the first slot
of a later key. None if a slot in front of it was signed by no key at all. -/
def slotPosition (keys : List PublicKey) (digest : FixedBytes 32) (place : Nat) :
    List Bytes → Option Nat
  | [] => some 0
  | slot :: rest =>
    match keys.findIdx? (slotSignedBy slot digest) with
    | none => none
    | some other =>
      if place < other then some 0 else (slotPosition keys digest place rest).map (· + 1)

/-- The script with some of its slots filled, the filled ones in front. -/
def fill (slots : Nat) (filled : List Bytes) (redeem : Script) : Option Script :=
  Script.ofChunks?
    ([] :: (filled ++ List.replicate (slots - filled.length) [] ++ [redeem]))

/-- Signs one input. -/
def signInput (key : PublicKey) (c : CheckedInput) : InputSigning :=
  match c.input.scriptSig.chunks with
  | none => .malformed
  | some chunks =>
    if chunks.length < 2 then .malformed
    else
      let redeem := chunks.getLastD []
      let slots := (chunks.drop 1).dropLast
      let filled := slots.filter fun slot => !slot.isEmpty
      if filled.any fun slot => slotSignedBy slot c.digest key then .alreadySigned
      else
        let keys := ScriptSig.keysOf redeem
        match keys.findIdx? (· == key) with
        | none => .foreign
        | some place =>
          if slots.length ≤ filled.length then .signed c.input.scriptSig
          else
            match slotPosition keys c.digest place filled with
            | none => .malformed
            | some position =>
              let new := c.signature.encode ++ [commitsToAll]
              match fill slots.length (filled.insertIdx position new) redeem with
              | none => .malformed
              | some script => .signed script

/-- The inputs after signing. -/
structure SignedInputs where
  inputs : List TxIn
  /-- How many of them do not list the key. -/
  foreign : Nat
  /-- Whether signing ended at an input that the key had signed before. -/
  already : Bool

/-- Signs inputs in order, up to one that the key has signed before; a malformed input is named by
its index. -/
def signFrom (key : PublicKey) : Nat → List CheckedInput → Except Nat SignedInputs
  | _, [] => .ok ⟨[], 0, false⟩
  | index, c :: rest =>
    match signInput key c with
    | .malformed => .error index
    | .alreadySigned => .ok ⟨c.input :: rest.map (·.input), 0, true⟩
    | .foreign =>
      match signFrom key (index + 1) rest with
      | .error e => .error e
      | .ok s => .ok { s with inputs := c.input :: s.inputs, foreign := s.foreign + 1 }
    | .signed script =>
      match signFrom key (index + 1) rest with
      | .error e => .error e
      | .ok s => .ok { s with inputs := { c.input with scriptSig := script } :: s.inputs }

/-! ### Submission -/

/-- What becomes of a transaction when a member submits signatures for it: the outcome, and the
transaction as it is kept afterwards. -/
def signTransaction (tx : Transaction) (key : PublicKey) (signatures : List Bytes) :
    SigningOutcome × Transaction :=
  if tx.inputs.length ≠ signatures.length then
    (.countMismatch tx.inputs.length signatures.length, tx)
  else
    match checkFrom tx key 0 tx.inputs signatures with
    | .error outcome => (outcome, tx)
    | .ok checked =>
      match signFrom key 0 checked with
      | .error index => (.malformedTransaction index, tx)
      | .ok s =>
        if !s.already && s.foreign == tx.inputs.length then (.notAFederationKey 0, tx)
        else
          let signed := { tx with inputs := s.inputs }
          if ScriptSig.isFullySigned signed then (.fullySigned, signed)
          else (if s.already then .alreadySigned else .partiallySigned, signed)

/-- Takes the signatures of a member for the transaction kept under a host transaction. -/
def submit (p : PendingSignatures) (hash : HostTxHash) (key : PublicKey)
    (signatures : List Bytes) : SigningOutcome × PendingSignatures :=
  match p.get? hash with
  | none => (.noPendingTransaction, p)
  | some tx =>
    match signTransaction tx key signatures with
    | (.fullySigned, _) => (.fullySigned, p.erase hash)
    | (outcome, tx) => (outcome, p.insert hash tx)

end PendingSignatures

end TwoWayPeg
