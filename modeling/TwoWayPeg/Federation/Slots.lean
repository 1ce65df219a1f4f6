import TwoWayPeg.Federation.Pending

/-!
# The active and the retiring federation

Two places are kept for federations, a new and an old one, beside the federation the peg began
with. A newly committed federation takes over from the old one only after an age counted in blocks;
from then on the old one is retiring, until its place is cleared.
-/

namespace TwoWayPeg

/-- Where the active federation is kept. -/
inductive FederationSlot
  /-- The federation that the peg began with. -/
  | genesis
  | old
  | new
deriving DecidableEq

/-- The name of the place. -/
def FederationSlot.name : FederationSlot → String
  | genesis => "Genesis"
  | old => "Old"
  | new => "New"

/-- The places for federations. -/
structure FederationSlots where
  new : Option Federation
  old : Option Federation
  pending : Option PendingFederation
deriving DecidableEq

namespace FederationSlots

/-- Nothing has ever been committed. -/
def empty : FederationSlots := ⟨none, none, none⟩

/-- Whether a federation has reached an age, counting from its creation. -/
def hasAge (f : Federation) (age block : Nat) : Bool := age ≤ block - f.creationBlock.toNat

/-- Where the active federation is kept, at a block. -/
def activeSlot (s : FederationSlots) (activationAge block : Nat) : FederationSlot :=
  match s.new, s.old with
  | none, _ => .genesis
  | some _, none => .new
  | some f, some _ => if hasAge f activationAge block then .new else .old

/-- The active federation at a block. -/
def active (s : FederationSlots) (genesis : Federation) (activationAge block : Nat) :
    Federation :=
  match s.activeSlot activationAge block with
  | .genesis => genesis
  | .old => s.old.getD genesis
  | .new => s.new.getD genesis

/-- The old federation, once the new one has taken over. -/
def retiring (s : FederationSlots) (activationAge block : Nat) : Option Federation :=
  match s.new, s.old with
  | some f, some old => if hasAge f activationAge block then some old else none
  | _, _ => none

/-- Whether a committed federation has not yet taken over. -/
def isAwaiting (s : FederationSlots) (activationAge block : Nat) : Bool :=
  s.activeSlot activationAge block == .old

end FederationSlots

end TwoWayPeg
