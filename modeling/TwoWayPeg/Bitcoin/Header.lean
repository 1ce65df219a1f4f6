import TwoWayPeg.Bitcoin.Transaction

/-!
# Block headers

A header is eighty bytes: it names its parent and commits to the transactions of its block by the
root of their digest tree. The double digest of the eighty bytes is the name of the block.
-/

namespace TwoWayPeg

/-- The header of a block. -/
structure Header where
  version : UInt32
  parent : BlockHash
  /-- The root of the tree over the names of the block's transactions. -/
  merkleRoot : FixedBytes 32
  time : UInt32
  bits : UInt32
  nonce : UInt32
deriving DecidableEq

namespace Header

/-- The eighty bytes. -/
def encode (h : Header) : Bytes :=
  wordBytes h.version ++ h.parent.bytes.toList ++ h.merkleRoot.toList ++ wordBytes h.time ++
    wordBytes h.bits ++ wordBytes h.nonce

/-- The name of the block. -/
def hash (h : Header) : BlockHash := ⟨Sha256.double h.encode⟩

/-- A header at the front of the input. -/
def read : Reader Header := fun b =>
  match Transaction.readWord b with
  | none => none
  | some (version, b) =>
    match Reader.fixed 32 b with
    | none => none
    | some (parent, b) =>
      match Reader.fixed 32 b with
      | none => none
      | some (root, b) =>
        match Reader.list Transaction.readWord 3 b with
        | some ([time, bits, nonce], b) => some (⟨version, ⟨parent⟩, root, time, bits, nonce⟩, b)
        | _ => none

/-- The header that eighty bytes spell. -/
def decode? (b : Bytes) : Option Header := Reader.whole read b

end Header

end TwoWayPeg
