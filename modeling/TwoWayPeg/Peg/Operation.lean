import TwoWayPeg.Peg.FederationVote
import TwoWayPeg.Peg.FeeVote
import TwoWayPeg.Peg.Payout
import TwoWayPeg.Peg.Query
import TwoWayPeg.Peg.Registration
import TwoWayPeg.Peg.WhitelistChange

/-!
# Operations of the peg

All calls that change a peg, in one type, so that a history of a peg is a list of operations.

* `Operation.run` carries out one operation.
* `Operation.runStored` carries it out on a stored state, and stores what it changes only if it
  succeeds.
-/

namespace TwoWayPeg

/-- A call that may change the peg. -/
inductive Operation
  /-- A bitcoin transaction is claimed to be in the block at a height. -/
  | register (raw : Bytes) (height : Int) (proof : Bytes)
  /-- Bitcoin is requested for the value of a host transaction. -/
  | release (tx : HostTransaction)
  | update (hash : HostTxHash)
  | addSignatures (key : PublicKey) (signatures : List Bytes) (hash : HostTxHash)
  | voteFederation (voter : HostAddress) (call : CallSpec)
  | voteFee (voter : HostAddress) (fee : Amount)
  | listOneOff (caller : HostAddress) (address : String) (maxValue : Amount) (uses : UInt32)
  | listUnlimited (caller : HostAddress) (address : String) (capacity : Option Amount)
  | unlist (caller : HostAddress) (address : String)
  /-- The whitelist is to be opened after a number of blocks. -/
  | openWhitelist (caller : HostAddress) (delay : Int)

/-- What an operation answers when it succeeds. -/
inductive Answer
  | done
  | signing (outcome : SigningOutcome)
  | code (n : Int)
deriving DecidableEq

namespace Operation

/-- The answer of an operation that has none of its own. -/
def finished (r : Except PegError Unit × World) : Except PegError Answer × World :=
  (r.1.map fun _ => .done, r.2)

/-- The answer of an operation that gives a code. -/
def coded (r : Int × World) : Except PegError Answer × World := (.ok (.code r.1), r.2)

/-- The answer of an operation that gives a code and only changes the state. -/
def codedState (w : World) (r : Int × State) : Except PegError Answer × World :=
  (.ok (.code r.1), { w with state := r.2 })

/-- Carries out an operation. The world that comes with an error holds what was done before it. -/
def run (i : Invocation) (w : World) : Operation → Except PegError Answer × World
  | register raw height proof => finished (Registration.register i raw height proof w)
  | release tx => finished (Payout.request i tx w)
  | update hash => finished (Payout.update i hash w)
  | addSignatures key signatures hash =>
    let (outcome, state) := Payout.addSignatures i key signatures hash w.state
    (.ok (.signing outcome), { w with state })
  | voteFederation voter call => coded (FederationVote.vote i voter call w)
  | voteFee voter fee => coded (FeeVote.vote i voter fee w)
  | listOneOff caller address maxValue uses =>
    codedState w (WhitelistChange.addOneOff i caller address maxValue uses w.state)
  | listUnlimited caller address capacity =>
    codedState w (WhitelistChange.addUnlimited i caller address capacity w.state)
  | unlist caller address => codedState w (WhitelistChange.remove i caller address w.state)
  | openWhitelist caller delay =>
    codedState w (WhitelistChange.disableAfter i caller delay w.state)

/-- Carries out an operation on the state in a store. The balances of the host chain and the notices
are not kept there and stay as the operation leaves them. -/
def runStored (i : Invocation) (op : Operation) (store : Store) (ledger : Ledger) :
    Except PegError Answer × Store × Ledger × List Notice :=
  Store.transact .storage store (ledger, []) fun state =>
    let (answer, w) := run i ⟨state, ledger, []⟩ op
    (answer, w.state, w.ledger, w.notices)

end Operation

end TwoWayPeg
