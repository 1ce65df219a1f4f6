import TwoWayPeg.Bitcoin.Digest

/-!
# What can be wrong with a proof of inclusion

A proof that a transaction belongs to a block can be of the wrong size, can be unreadable, can
contradict itself, or can be about other transactions.
-/

namespace TwoWayPeg

/-- How a proof contradicts itself. -/
inductive ProofFlaw
  /-- A tree without leaves. -/
  | noTransactions
  /-- More leaves than a block can hold. -/
  | tooManyTransactions
  /-- More digests than leaves. -/
  | tooManyHashes
  /-- Fewer flags than digests. -/
  | tooFewFlags
  /-- The traversal needs another flag. -/
  | flagsExhausted
  /-- The traversal needs another digest. -/
  | hashesExhausted
  /-- Two siblings are the same digest. -/
  | identicalSiblings
  /-- A whole byte of flags is left. -/
  | flagsLeft
  /-- Digests are left. -/
  | hashesLeft
  /-- A branch longer than the path can number. -/
  | branchTooLong (hashes : Nat)
  /-- A path that turns more often than the branch has digests. -/
  | pathTooLong (path : UInt32) (hashes : Nat)
  /-- A flaw found elsewhere, in words. -/
  | reported (text : String)
deriving DecidableEq

/-- The most digests a branch can have. -/
def maxBranchHashes : Nat := 32

/-- The flaw in words. -/
def ProofFlaw.message : ProofFlaw → String
  | noTransactions => "partial merkle tree contains no transactions"
  | tooManyTransactions => "too many transactions"
  | tooManyHashes => "proof contains more hashes than transactions"
  | tooFewFlags => "proof contains less bits than hashes"
  | flagsExhausted => "overflowed the bits array"
  | hashesExhausted => "overflowed the hashes array"
  | identicalSiblings => "found identical transaction hashes"
  | flagsLeft => "not all bit were consumed"
  | hashesLeft => "not all hashes were consumed"
  | branchTooLong n => s!"{n} hashes exceed the maximum of {maxBranchHashes}"
  | pathTooLong path n =>
    "path 0x" ++ String.ofList (Nat.toDigits 16 path.toNat) ++ s!" has more bits than {n} hashes"
  | reported text => text

/-- Why a transaction is not shown to belong to a block. -/
inductive SpvError
  /-- The proof is longer or shorter than its own counts say. -/
  | unexpectedSize (bytes : Nat)
  | invalidProof (flaw : ProofFlaw)
  | notInProof (txid : Txid)
  /-- The transaction ends before its version does. -/
  | truncatedVersion
  /-- The bytes do not have the form they should have. -/
  | unreadable
deriving DecidableEq

/-- The name of the kind of error. -/
def SpvError.kind : SpvError → String
  | unexpectedSize _ => "UnexpectedSize"
  | invalidProof _ => "InvalidMerkleProof"
  | notInProof _ => "TxNotInProof"
  | truncatedVersion => "ParseError"
  | unreadable => "ParseError"

/-- The error in words. -/
def SpvError.message : SpvError → String
  | unexpectedSize n => s!"unexpected partial merkle tree size: {n} bytes"
  | invalidProof flaw => "invalid merkle proof: " ++ flaw.message
  | notInProof txid => s!"transaction {txid.text} not in merkle proof"
  | truncatedVersion => "parse error: transaction shorter than its version"
  | unreadable => "parse error: "

end TwoWayPeg
