import TwoWayPeg.Bitcoin.Address
import TwoWayPeg.Bitcoin.Amount
import TwoWayPeg.SortedMap

/-!
# The whitelist

Only listed senders may lock bitcoin. An entry allows either a number of locks of limited value or
any number of locks, perhaps up to a total. Entries are kept in the order of the digests that their
addresses pay to. Once a disabling height has been set, every sender is accepted above it.
-/

namespace TwoWayPeg

/-- What an entry allows. -/
inductive Allowance
  /-- A number of locks, each up to a value. -/
  | oneOff (maxValue : Amount) (uses : UInt32)
  /-- Any number of locks, up to a total if there is one. -/
  | unlimited (capacity : Option Amount)
deriving DecidableEq

namespace Allowance

/-- Whether a lock of an amount is allowed. -/
def permits : Allowance → Nat → Bool
  | oneOff maxValue uses, amount => 0 < uses && amount ≤ maxValue.sats
  | unlimited none, _ => true
  | unlimited (some capacity), amount => amount ≤ capacity.sats

/-- What is left after a lock; none when no lock can follow. -/
def charge? : Allowance → Nat → Option Allowance
  | oneOff maxValue uses, _ => if uses ≤ 1 then none else some (oneOff maxValue (uses - 1))
  | unlimited none, _ => some (unlimited none)
  | unlimited (some capacity), amount => some (unlimited (some (capacity.minus amount)))

end Allowance

/-- An entry, with the address as it was given. -/
structure WhitelistEntry where
  address : String
  allowance : Allowance
deriving DecidableEq

/-- The entries, and the height above which they no longer matter. -/
structure Whitelist where
  entries : SortedMap KeyHash WhitelistEntry
  disableHeight : Option UInt32
deriving DecidableEq

/-- Why the whitelist is not changed. -/
inductive WhitelistError
  | alreadyListed (address : String)
  | notListed (key : KeyHash)
  /-- The text is no address of the network. -/
  | invalidAddress
  /-- The address pays neither to a key nor to a script. -/
  | unsupportedAddress (address : String)
  | disableHeightAlreadySet
deriving DecidableEq

/-- The name of the kind of error. -/
def WhitelistError.kind : WhitelistError → String
  | alreadyListed _ => "AlreadyExists"
  | notListed _ => "NotFound"
  | invalidAddress => "InvalidAddress"
  | unsupportedAddress _ => "InvalidAddress"
  | disableHeightAlreadySet => "DisableHeightAlreadySet"

/-- The error in words. -/
def WhitelistError.message : WhitelistError → String
  | alreadyListed address => "address already whitelisted: " ++ address
  | notListed key => "address not whitelisted: " ++ key.text
  | invalidAddress => "invalid address: "
  | unsupportedAddress address => "invalid address: " ++ address ++ " is not p2pkh or p2sh"
  | disableHeightAlreadySet => "disable block height already set"

namespace Whitelist

/-- Nobody is listed. -/
def empty : Whitelist := ⟨.empty, none⟩

/-- The digest that an address stands for. -/
def keyOf (address : String) (network : Network) : Except WhitelistError KeyHash :=
  match Address.parse? network address with
  | none => .error .invalidAddress
  | some (.key h) => .ok h
  | some (.script h) => .ok h
  | some (.witness _ _) => .error (.unsupportedAddress address)

/-- The number of entries. -/
def size (w : Whitelist) : Nat := w.entries.size

/-- The entry of a digest. -/
def get? (w : Whitelist) (key : KeyHash) : Option WhitelistEntry := w.entries.get? key

/-- The entry at a place in the order of the digests. -/
def entryAt? (w : Whitelist) (index : Nat) : Option WhitelistEntry := w.entries.values[index]?

/-- The whitelist with a new entry. -/
def put (w : Whitelist) (key : KeyHash) (entry : WhitelistEntry) :
    Except WhitelistError Whitelist :=
  if w.entries.contains key then .error (.alreadyListed entry.address)
  else .ok { w with entries := w.entries.insert key entry }

/-- An entry, and the whitelist without it. -/
def remove (w : Whitelist) (key : KeyHash) : Except WhitelistError (WhitelistEntry × Whitelist) :=
  match w.entries.get? key with
  | none => .error (.notListed key)
  | some entry => .ok (entry, { w with entries := w.entries.erase key })

/-- Whether the entries no longer matter at a height. -/
def isDisabledAt (w : Whitelist) (height : Nat) : Bool :=
  match w.disableHeight with
  | some disable => disable.toNat < height
  | none => false

/-- Whether a sender may lock an amount at a height. -/
def permits (w : Whitelist) (key : KeyHash) (amount height : Nat) : Bool :=
  w.isDisabledAt height ||
    match w.get? key with
    | some entry => entry.allowance.permits amount
    | none => false

/-- The whitelist after a lock by a sender, without the entry if it is used up. -/
def charge (w : Whitelist) (key : KeyHash) (amount : Nat) : Whitelist :=
  match w.get? key with
  | none => w
  | some entry =>
    match entry.allowance.charge? amount with
    | some left => { w with entries := w.entries.insert key { entry with allowance := left } }
    | none => { w with entries := w.entries.erase key }

/-- The whitelist with its disabling height, which is set once. -/
def disableAbove (w : Whitelist) (height : UInt32) : Except WhitelistError Whitelist :=
  match w.disableHeight with
  | some _ => .error .disableHeightAlreadySet
  | none => .ok { w with disableHeight := some height }

end Whitelist

end TwoWayPeg
