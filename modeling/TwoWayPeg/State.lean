import TwoWayPeg.Federation.Slots
import TwoWayPeg.Election
import TwoWayPeg.Release.Queue
import TwoWayPeg.Release.Signing
import TwoWayPeg.Release.Waiting
import TwoWayPeg.Utxo
import TwoWayPeg.Whitelist

/-!
# The state of a peg

Everything that the peg remembers from one call to the next is one value. Host balances and the
header chain are not part of it: they belong to the host chain and to bitcoin.
-/

namespace TwoWayPeg

/-- All that a peg remembers. -/
structure State where
  federations : FederationSlots
  holdings : Holdings
  requests : ReleaseQueue
  waiting : WaitingList
  pending : PendingSignatures
  /-- The bitcoin transactions that have been registered, with the host block of each. -/
  processed : SortedMap Txid UInt64
  whitelist : Whitelist
  /-- The fee for a thousand bytes, once one has been voted. -/
  feePerKb : Option Amount
  federationElection : Election
  feeElection : Election
deriving DecidableEq

namespace State

/-- What a new peg remembers. -/
def initial : State where
  federations := .empty
  holdings := .empty
  requests := []
  waiting := []
  pending := .empty
  processed := .empty
  whitelist := .empty
  feePerKb := none
  federationElection := .empty
  feeElection := .empty

/-- The state that a peg begins with serves as a default value. -/
instance : Inhabited State := ⟨initial⟩

end State

end TwoWayPeg
