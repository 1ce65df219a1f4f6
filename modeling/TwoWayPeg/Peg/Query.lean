import TwoWayPeg.Merkle.Branch
import TwoWayPeg.Peg.Invocation

/-!
# Queries

What can be asked of the peg without changing it, beyond what the state itself shows.
-/

namespace TwoWayPeg.Query

/-! ### The header chain -/

/-- The name of the block that is some blocks below the tip. -/
def hashAtDepth (i : Invocation) (depth : Nat) : Except PegError BlockHash :=
  let best := i.chain.bestHeight
  let deepest := best - i.chain.initialHeight
  if deepest < depth then
    .error (.illegalArgument s!"depth must be between 0 and {deepest}")
  else
    match i.chain.headerAt (best - depth) with
    | some header => .ok header.hash
    | none => .error (.internal s!"no header at height {best - depth}")

/-- The greatest depth at which confirmations are counted. -/
def maxDepth : Nat := 4320

/-- The confirmations of a transaction that a branch proves to be in a block, or a negative code:
the block is unknown, or too old, or above the tip, or not on the best chain, or the branch does not
prove the transaction. -/
def confirmations (i : Invocation) (txid : Txid) (block : BlockHash) (branch : Merkle.Branch) :
    Int :=
  match i.chain.stored? block with
  | none => -1
  | some stored =>
    let best := i.chain.bestHeight
    if maxDepth < best - stored.height then -4
    else if best < stored.height then -3
    else if (i.chain.headerAt stored.height).map Header.hash ≠ some block then -2
    else if !branch.proves txid stored.header then -5
    else (best - stored.height : Nat) + 1

/-! ### Addresses -/

/-- The addresses of the active and of the retiring federation. -/
def addresses (i : Invocation) (s : State) : Except PegError (String × Option String) := do
  let active ← (i.active s).address.mapError .federation
  let retiring ← (i.retiring s).mapM fun f => f.address.mapError .federation
  return (active, retiring)

/-! ### Records -/

/-- Whether a transaction has been registered. -/
def isProcessed (s : State) (txid : Txid) : Bool := s.processed.contains txid

/-- The host block in which a transaction was registered; -1 if it was not, or if the number of the
block does not fit 63 bits. -/
def processedHeight (s : State) (txid : Txid) : Int :=
  match s.processed.get? txid with
  | none => -1
  | some block => if block.toNat < 1 <<< 63 then block.toNat else -1

/-- The whitelist entry of an address. -/
def whitelistEntry? (i : Invocation) (s : State) (address : String) : Option WhitelistEntry :=
  match Whitelist.keyOf address i.constants.network with
  | .ok key => s.whitelist.get? key
  | .error _ => none

/-- A key of the pending member at a place. -/
def pendingKeyAt? (s : State) (index : Nat) (role : KeyRole) : Option PublicKey :=
  s.federations.pending.bind fun p => p.members[index]?.map fun m => m.key role

/-- A key of the retiring member at a place. -/
def retiringKeyAt? (i : Invocation) (s : State) (index : Nat) (role : KeyRole) :
    Option PublicKey :=
  (i.retiring s).bind fun f => f.keyAt? index role

end TwoWayPeg.Query
