import TwoWayPeg.Bitcoin.CompactSize
import TwoWayPeg.Merkle.Flaw
import TwoWayPeg.Merkle.Node

/-!
# Partial trees

A partial tree is what is left of the digest tree of a block when only some leaves are to be
proved: the number of leaves, the digests of the subtrees without a proved leaf, and a flag for each
node that is visited from the root downwards, left before right. A flag says whether a proved leaf
lies below the node; at a leaf it says whether the leaf itself is proved.

Two readers look at the bytes: one adds up the size that the two counts announce, in machine words,
and the other takes the tree apart. The first decides whether the second is asked at all.
-/

namespace TwoWayPeg.Merkle

/-- A partial tree as it is transmitted. -/
structure PartialTree where
  /-- The number of leaves of the whole tree. -/
  count : UInt32
  /-- The digests, in the order of the traversal. -/
  hashes : List Node
  /-- The flags in the order of the traversal, eight to a byte, lowest bit first. -/
  flags : Bytes
deriving DecidableEq

namespace PartialTree

/-! ### Bytes -/

/-- The flags one by one. -/
def flagList (t : PartialTree) : List Bool :=
  t.flags.flatMap fun x => (List.range 8).map x.toNat.testBit

/-- The byte of up to eight flags, lowest bit first. -/
def flagByte (flags : List Bool) : UInt8 :=
  UInt8.ofNat (flags.foldr (fun flag n => flag.toNat + 2 * n) 0)

/-- The bytes of flags, eight to a byte; what is left over takes a byte of its own. -/
def pack : List Bool → Bytes
  | a :: b :: c :: d :: e :: f :: g :: h :: rest => flagByte [a, b, c, d, e, f, g, h] :: pack rest
  | [] => []
  | rest => [flagByte rest]

/-- The bytes of a partial tree. -/
def encode (t : PartialTree) : Bytes :=
  Bytes.ofNatLE 4 t.count.toNat ++ CompactSize.encode t.hashes.length ++
    t.hashes.flatMap FixedBytes.toList ++ CompactSize.encodeBytes (pack t.flagList)

/-- A number as a position in memory, if it fits a machine word. -/
def position? (n : Nat) : Option Nat := if n < UInt64.size then some n else none

/-- What stands from a position on, unless that is behind the end. -/
def tail? (b : Bytes) (position : Nat) : Option Bytes :=
  if position ≤ b.length then some (b.drop position) else none

/-- Where the list would end that a count at a position announces, if its items take `size` bytes
each. They need not be there. -/
def listEnd? (size : Nat) (b : Bytes) (position : Nat) : Option Nat :=
  match tail? b position with
  | none => none
  | some tail =>
    match CompactSize.read tail with
    | none => none
    | some (count, rest) =>
      match position? (position + (tail.length - rest.length)), position? (size * count) with
      | some start, some bytes => position? (start + bytes)
      | _, _ => none

/-- The size that the counts in a serialized tree announce: behind the number of leaves stand the
digests and behind them the bytes of the flags. -/
def declaredSize? (b : Bytes) : Option Nat :=
  match listEnd? 32 b 4 with
  | none => none
  | some position => listEnd? 1 b position

/-- Whether a serialized tree is exactly as long as its counts announce. -/
def hasDeclaredSize (b : Bytes) : Bool := declaredSize? b == some b.length

/-- The most bytes that a list may take together with its count. -/
def maxListSize : Nat := 4000000

/-- Whether a list of `n` items of `size` bytes stays within the limit. -/
def withinLimit (size n : Nat) : Bool := (CompactSize.encode n).length + size * n ≤ maxListSize

/-- A partial tree at the front of the input. -/
def read : Reader PartialTree := fun b =>
  match Reader.number 4 b with
  | none => none
  | some (count, b) =>
    match CompactSize.read b with
    | none => none
    | some (n, b) =>
      if !withinLimit 32 n then none
      else
        match Reader.list (Reader.fixed 32) n b with
        | none => none
        | some (hashes, b) =>
          match CompactSize.readBytes b with
          | none => none
          | some (flags, b) =>
            if withinLimit 1 flags.length then some (⟨UInt32.ofNat count, hashes, flags⟩, b)
            else none

/-- The partial tree that bytes spell. -/
def parse (b : Bytes) : Except SpvError PartialTree :=
  if hasDeclaredSize b then
    match Reader.whole read b with
    | some t => .ok t
    | none => .error .unreadable
  else .error (.unexpectedSize b.length)

/-! ### Traversal -/

/-- What a traversal has found below a node, and the flags and digests it has not used. -/
structure Visit where
  node : Node
  /-- The proved leaves, from left to right. -/
  proved : List Txid
  flags : List Bool
  hashes : List Node

/-- Visits the node at a height and a position, and all that is needed below it. -/
def visit (count : Nat) : Nat → Nat → List Bool → List Node → Except ProofFlaw Visit
  | _, _, [], _ => .error .flagsExhausted
  | 0, _, flag :: flags, hashes =>
    match hashes with
    | [] => .error .hashesExhausted
    | h :: hashes => .ok ⟨h, if flag then [⟨h⟩] else [], flags, hashes⟩
  | _ + 1, _, false :: flags, hashes =>
    match hashes with
    | [] => .error .hashesExhausted
    | h :: hashes => .ok ⟨h, [], flags, hashes⟩
  | height + 1, position, true :: flags, hashes =>
    match visit count height (2 * position) flags hashes with
    | .error e => .error e
    | .ok left =>
      if 2 * position + 1 < width count height then
        match visit count height (2 * position + 1) left.flags left.hashes with
        | .error e => .error e
        | .ok right =>
          if right.node = left.node then .error .identicalSiblings
          else
            .ok ⟨join left.node right.node, left.proved ++ right.proved, right.flags, right.hashes⟩
      else .ok { left with node := join left.node left.node }

/-- The most leaves that fit into a block. -/
def maxTransactions : Nat := 16666

/-- The root of the tree and the proved leaves. -/
def extract (t : PartialTree) : Except ProofFlaw (Node × List Txid) :=
  let count := t.count.toNat
  let flags := t.flagList
  if count = 0 then .error .noTransactions
  else if maxTransactions < count then .error .tooManyTransactions
  else if count < t.hashes.length then .error .tooManyHashes
  else if flags.length < t.hashes.length then .error .tooFewFlags
  else
    match visit count (height count) 0 flags t.hashes with
    | .error e => .error e
    | .ok v =>
      if 8 ≤ v.flags.length then .error .flagsLeft
      else if !v.hashes.isEmpty then .error .hashesLeft
      else .ok (v.node, v.proved)

/-- The root of the tree, provided that a transaction is among the proved leaves. -/
def rootFor (t : PartialTree) (txid : Txid) : Except SpvError Node :=
  match t.extract with
  | .error flaw => .error (.invalidProof flaw)
  | .ok (root, proved) => if txid ∈ proved then .ok root else .error (.notInProof txid)

end PartialTree

end TwoWayPeg.Merkle
