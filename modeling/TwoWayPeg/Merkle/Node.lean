import TwoWayPeg.Bitcoin.Digest
import TwoWayPeg.Hash.Sha256

/-!
# Nodes of the digest tree of a block

The names of a block's transactions are the leaves of a binary tree of digests whose root stands in
the header. Where a row has an odd number of nodes its last node is joined with itself.
-/

namespace TwoWayPeg.Merkle

/-- A digest in the tree. -/
abbrev Node := FixedBytes 32

/-- The node above two others. -/
def join (left right : Node) : Node := Sha256.double (left.toList ++ right.toList)

/-- The row above a row. -/
def rowAbove : List Node → List Node
  | [] => []
  | [last] => [join last last]
  | left :: right :: rest => join left right :: rowAbove rest

/-- The number of nodes in the row at a height, over `count` leaves. -/
def width (count height : Nat) : Nat := (count + (1 <<< height) - 1) >>> height

/-- The least height, counted up from `height`, at which the row has a single node. -/
def heightFrom (count : Nat) : Nat → Nat → Nat
  | 0, height => height
  | fuel + 1, height =>
    if width count height ≤ 1 then height else heightFrom count fuel (height + 1)

/-- The height of the tree over `count` leaves. -/
def height (count : Nat) : Nat := heightFrom count count 0

/-- The node at the top of rows that are joined `n` times, starting from the leaves. -/
def topAfter : Nat → List Node → Option Node
  | 0, row => row.head?
  | n + 1, row => topAfter n (rowAbove row)

/-- The root of the tree over a block's transactions. -/
def root? (leaves : List Txid) : Option Node :=
  topAfter (height leaves.length) (leaves.map Txid.bytes)

end TwoWayPeg.Merkle
