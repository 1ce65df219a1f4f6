import TwoWayPeg.Peg.Invocation

/-!
# Changes of the whitelist

Those who may change the whitelist do so one call at a time, without a vote. Each change answers
with a code: one if it is made, and a negative number that says why not otherwise.
-/

namespace TwoWayPeg.WhitelistChange

/-- The code of a change that is made. -/
def succeeded : Int := 1

/-- The code of an address that is already listed, or is not listed, and of a height that is already
set. -/
def conflicting : Int := -1

/-- The code of a text that is no address, and of a delay that is none. -/
def invalid : Int := -2

/-- The code of a change that the caller may not make. -/
def refused : Int := -10

/-- Whether an account may change the whitelist. -/
def isAllowed (i : Invocation) (caller : HostAddress) : Bool :=
  i.constants.whitelistAuthorizer.allows caller

/-- Lists an address. -/
def addEntry (i : Invocation) (caller : HostAddress) (entry : WhitelistEntry) (s : State) :
    Int × State :=
  match Whitelist.keyOf entry.address i.constants.network with
  | .error _ => (invalid, s)
  | .ok key =>
    if !isAllowed i caller then (refused, s)
    else
      match s.whitelist.put key entry with
      | .ok whitelist => (succeeded, { s with whitelist })
      | .error _ => (conflicting, s)

/-- Lists an address for a number of locks of limited value. -/
def addOneOff (i : Invocation) (caller : HostAddress) (address : String) (maxValue : Amount)
    (uses : UInt32) (s : State) : Int × State :=
  if uses = 0 then (refused, s) else addEntry i caller ⟨address, .oneOff maxValue uses⟩ s

/-- Lists an address for any number of locks, perhaps up to a total. -/
def addUnlimited (i : Invocation) (caller : HostAddress) (address : String)
    (capacity : Option Amount) (s : State) : Int × State :=
  addEntry i caller ⟨address, .unlimited capacity⟩ s

/-- Strikes an address off the list. -/
def remove (i : Invocation) (caller : HostAddress) (address : String) (s : State) : Int × State :=
  if !isAllowed i caller then (refused, s)
  else
    match Whitelist.keyOf address i.constants.network with
    | .error _ => (invalid, s)
    | .ok key =>
      match s.whitelist.remove key with
      | .ok (_, whitelist) => (succeeded, { s with whitelist })
      | .error _ => (conflicting, s)

/-- The height that is a delay above the best one, where delay and height fit 32 bits. -/
def heightAfter? (best : Nat) (delay : Int) : Option UInt32 :=
  if 0 < delay ∧ delay < UInt32.size ∧ best + delay < UInt32.size then
    some (UInt32.ofNat (best + delay.toNat))
  else none

/-- Opens the whitelist to everyone once the chain has grown by a delay. -/
def disableAfter (i : Invocation) (caller : HostAddress) (delay : Int) (s : State) :
    Int × State :=
  if !isAllowed i caller then (refused, s)
  else if s.whitelist.disableHeight.isSome then (conflicting, s)
  else
    match heightAfter? i.chain.bestHeight delay with
    | none => (invalid, s)
    | some height =>
      match s.whitelist.disableAbove height with
      | .ok whitelist => (succeeded, { s with whitelist })
      | .error _ => (conflicting, s)

end TwoWayPeg.WhitelistChange
