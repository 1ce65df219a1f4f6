import TwoWayPeg.Constants
import TwoWayPeg.Error
import TwoWayPeg.Log
import TwoWayPeg.State

/-!
# Calls of the peg

The host chain calls the peg in a block. A call sees the constants, the header chain and the block,
and it works on a `World`: the state of the peg, the balances of the host chain, and the notices
given so far. An operation gives back a world together with its answer or its error; whether the
world is kept after an error is for the caller to decide.

Which federation is active depends on the block, and with it which list of outputs is the active
one.
-/

namespace TwoWayPeg

/-- What a call sees. -/
structure Invocation where
  constants : Constants
  chain : ChainView
  block : ExecutionBlock

/-- What a call works on. -/
structure World where
  state : State
  ledger : Ledger
  /-- The notices given so far, earliest first. -/
  notices : List Notice

namespace World

/-- The world with one more notice. -/
def notify (w : World) (n : Notice) : World := { w with notices := w.notices ++ [n] }

/-- The world with one more alert. -/
def alert (w : World) (kind : AlertKind) (message : String) : World :=
  w.notify (.alert kind message)

/-- The kinds and messages of the alerts. -/
def alerts (w : World) : List (AlertKind × String) := w.notices.filterMap Notice.alert?

end World

namespace Invocation

variable (i : Invocation) (s : State)

/-- The number of the block. -/
def number : Nat := i.block.number.toNat

/-- Where the active federation is kept. -/
def activeSlot : FederationSlot :=
  s.federations.activeSlot i.constants.activationAge i.number

/-- The federation that receives deposits and pays releases. -/
def active : Federation :=
  s.federations.active i.constants.genesis i.constants.activationAge i.number

/-- The federation whose funds are being moved, if there is one. -/
def retiring : Option Federation := s.federations.retiring i.constants.activationAge i.number

/-- The active federation and after it the retiring one. -/
def live : List Federation := i.active s :: (i.retiring s).toList

/-- The outputs of the active federation. -/
def activeUtxos : List Utxo :=
  match i.activeSlot s with
  | .old => s.holdings.old
  | _ => s.holdings.new

/-- The state with other outputs for the active federation. -/
def withActiveUtxos (us : List Utxo) : State :=
  match i.activeSlot s with
  | .old => { s with holdings := { s.holdings with old := us } }
  | _ => { s with holdings := { s.holdings with new := us } }

/-- The fee for a thousand bytes: the voted one, or the one that the peg began with. -/
def feePerKb : Amount := s.feePerKb.getD i.constants.genesisFeePerKb

/-- A script as the peg shows it. -/
def describe (script : Script) : String :=
  Address.describeScript i.constants.network script

end Invocation

end TwoWayPeg
