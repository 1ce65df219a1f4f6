import TwoWayPeg.Bitcoin.Header
import TwoWayPeg.Merkle.Flaw
import TwoWayPeg.Merkle.Node

/-!
# Branches

A branch proves one leaf: it lists the siblings of the nodes from the leaf up to the root and says
at each level on which side the sibling stands. The sides are the bits of a 32-bit path, lowest
level first, and no bit stands above the last sibling.
-/

namespace TwoWayPeg.Merkle

/-- The siblings of a leaf and its ancestors. -/
structure Branch where
  /-- The siblings, from the leaf upwards. -/
  hashes : List Node
  /-- A bit is set where the sibling stands on the left. -/
  path : UInt32
  /-- The path can number the levels. -/
  length_le : hashes.length ≤ maxBranchHashes
  /-- The path has no bits beyond them. -/
  path_lt : path.toNat < 1 <<< hashes.length
deriving DecidableEq

namespace Branch

/-- The branch of given siblings along a given path. -/
def make (hashes : List Node) (path : UInt32) : Except SpvError Branch :=
  if h : maxBranchHashes < hashes.length then
    .error (.invalidProof (.branchTooLong hashes.length))
  else if h' : path.toNat < 1 <<< hashes.length then
    .ok ⟨hashes, path, Nat.le_of_not_lt h, h'⟩
  else .error (.invalidProof (.pathTooLong path hashes.length))

/-- The node reached from a node by joining siblings, on the left where the path is odd. -/
def climb : List Node → Nat → Node → Node
  | [], _, node => node
  | sibling :: rest, path, node =>
    climb rest (path / 2) (if path % 2 = 1 then join sibling node else join node sibling)

/-- The root that the branch leads to from a leaf. -/
def rootFrom (b : Branch) (leaf : Txid) : Node := climb b.hashes b.path.toNat leaf.bytes

/-- Whether the branch leads from a leaf to the root in a header. -/
def proves (b : Branch) (leaf : Txid) (header : Header) : Bool :=
  b.rootFrom leaf == header.merkleRoot

end Branch

end TwoWayPeg.Merkle
