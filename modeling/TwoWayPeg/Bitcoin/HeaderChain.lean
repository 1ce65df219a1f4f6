import TwoWayPeg.Bitcoin.Header

/-!
# The header chain

The peg follows bitcoin by its headers alone. Every header is stored that names a stored parent, and
the best chain is the one that ends in the tip: the first header stored at the greatest height. The
names along the best chain are kept in order, so that a header is found by its height. When a header
outgrows the tip, its branch is followed back to where it leaves the best chain, and from there on
the names are replaced by those of the branch. Work is not checked.

`ChainView` is what the rules of the peg look at: the best height, where the chain begins, and the
headers by height and by name.
-/

namespace TwoWayPeg

/-- A header with its height. -/
structure StoredHeader where
  header : Header
  height : Nat
deriving DecidableEq

/-- Why a header is not stored. -/
inductive ChainError
  | unknownParent (parent : BlockHash)
  | duplicate (hash : BlockHash)
deriving DecidableEq

/-- The name of the kind of error. -/
def ChainError.kind : ChainError → String
  | unknownParent _ => "UnknownParent"
  | duplicate _ => "Duplicate"

/-- The error in words. -/
def ChainError.message : ChainError → String
  | unknownParent h => "parent block not found: " ++ h.text
  | duplicate h => "header already stored: " ++ h.text

/-- What can be asked of a header chain. -/
structure ChainView where
  /-- The height of the tip. -/
  bestHeight : Nat
  /-- The height of the first header. -/
  initialHeight : Nat
  /-- The header of the best chain at a height. -/
  headerAt : Nat → Option Header
  /-- Any stored header, by the name of its block. -/
  stored? : BlockHash → Option StoredHeader

/-- All headers known, and the best chain among them. -/
structure HeaderChain where
  stored : SortedMap BlockHash StoredHeader
  /-- The names along the best chain, from the first header on. -/
  best : List BlockHash
  initialHeight : Nat

namespace HeaderChain

/-- The chain that begins with one header. -/
def startingAt (checkpoint : Header) (height : Nat) : HeaderChain where
  stored := SortedMap.empty.insert checkpoint.hash ⟨checkpoint, height⟩
  best := [checkpoint.hash]
  initialHeight := height

/-- The height of the tip. -/
def bestHeight (c : HeaderChain) : Nat := c.initialHeight + c.best.length - 1

/-- The header of the best chain at a height. -/
def headerAt (c : HeaderChain) (height : Nat) : Option Header :=
  if height < c.initialHeight then none
  else
    match c.best[height - c.initialHeight]? with
    | none => none
    | some hash => (c.stored.get? hash).map (·.header)

/-! ### Another branch -/

/-- The places and names of a header and of those before it that are not on the best chain, latest
first, and `steps` of them at most. -/
def branch (c : HeaderChain) : Nat → StoredHeader → List (Nat × BlockHash)
  | 0, _ => []
  | steps + 1, h =>
    let place := h.height - c.initialHeight
    if c.best[place]? = some h.header.hash then []
    else
      (place, h.header.hash) ::
        match c.stored.get? h.header.parent with
        | none => []
        | some parent => c.branch steps parent

/-- Names with one set at a place, and none behind it. -/
def setLast (e : Nat × BlockHash) (best : List BlockHash) : List BlockHash :=
  best.take e.1 ++ [e.2]

/-- The chain with a stored header as its tip. A branch has no more headers than the tip is above
the first one. -/
def leadTo (c : HeaderChain) (tip : StoredHeader) : HeaderChain :=
  { c with best := (c.branch (tip.height - c.initialHeight + 1) tip).foldr setLast c.best }

/-! ### More headers -/

/-- The chain with a header in store. -/
def store (c : HeaderChain) (new : StoredHeader) : HeaderChain :=
  { c with stored := c.stored.insert new.header.hash new }

/-- The chain with a header taken up. The tip only moves when it is outgrown. -/
def takeUp (c : HeaderChain) (new : StoredHeader) : HeaderChain :=
  if c.bestHeight < new.height then (c.store new).leadTo new else c.store new

/-- The chain with one more header, if it is new and its parent is stored. -/
def add (c : HeaderChain) (header : Header) : Except ChainError HeaderChain :=
  if c.stored.contains header.hash then .error (.duplicate header.hash)
  else
    match c.stored.get? header.parent with
    | none => .error (.unknownParent header.parent)
    | some parent => .ok (c.takeUp ⟨header, parent.height + 1⟩)

/-- The chain with all headers of a list that fit, one after another, and how many did. -/
def addAll (c : HeaderChain) : List Header → HeaderChain × Nat
  | [] => (c, 0)
  | h :: rest =>
    match c.add h with
    | .error _ => c.addAll rest
    | .ok c =>
      let (c, added) := c.addAll rest
      (c, added + 1)

/-- What the rules of the peg see of the chain. -/
def view (c : HeaderChain) : ChainView where
  bestHeight := c.bestHeight
  initialHeight := c.initialHeight
  headerAt := c.headerAt
  stored? := c.stored.get?

end HeaderChain

end TwoWayPeg
