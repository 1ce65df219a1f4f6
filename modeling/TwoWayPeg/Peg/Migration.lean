import TwoWayPeg.Peg.Invocation

/-!
# Moving funds to the active federation

While a federation is retiring, its funds are moved to the active federation. Within a window of
ages of the active federation each update moves what is worth moving. When the window ends, what is
left is moved once more, and then the retiring federation is forgotten together with whatever could
not be moved.
-/

namespace TwoWayPeg.Migration

/-- A script that pays to the hash of a script, in words. -/
def scriptInWords (f : Federation) : String :=
  "OP_HASH160 OP_PUSHBYTES_20 " ++ f.redeemScript.hash.text ++ " OP_EQUAL"

/-- The state after funds of the retiring federation have been sent to the active one. -/
def move (i : Invocation) (retiring active : Federation) (s : State) :
    Except BuildError State :=
  let destination := active.payScript
  let wallet := Wallet.of s.holdings.old [retiring] destination (i.feePerKb s) i.constants
  match wallet.migrate destination (.clamp (Utxo.total s.holdings.old)) with
  | .error e => .error e
  | .ok built =>
    .ok { s with
      holdings := { s.holdings with old := Utxo.withoutSpent s.holdings.old built.tx }
      waiting := WaitingList.add s.waiting built.tx i.block.number }

/-- The state without the retiring federation and its outputs. -/
def forget (s : State) : State :=
  { s with
    federations := { s.federations with old := none }
    holdings := { s.holdings with old := [] } }

/-- Moves funds within the window, if they are worth more than half of the fee for a thousand
bytes. -/
def moveWithinWindow (i : Invocation) (retiring active : Federation) (w : World) : World :=
  let balance := Utxo.total w.state.holdings.old
  if (i.feePerKb w.state).sats / 2 < balance then
    match move i retiring active w.state with
    | .ok state => { w with state }
    | .error e =>
      w.alert .migrationFailed
        ("migration of " ++ Amount.display balance ++ " to " ++ scriptInWords active ++
          " failed: " ++ (PegError.build e).message)
  else w

/-- Moves all funds that are left, as far as they can be moved. -/
def moveRest (i : Invocation) (retiring active : Federation) (w : World) : World :=
  let balance := Utxo.total w.state.holdings.old
  if 0 < balance then
    match move i retiring active w.state with
    | .ok state => { w with state }
    | .error e =>
      w.alert .migrationFailed
        ("final migration of " ++ Amount.display balance ++
          s!" failed, {w.state.holdings.old.length} UTXOs abandoned: " ++
          (PegError.build e).message)
  else w

/-- Moves what is left and forgets the retiring federation. -/
def finish (i : Invocation) (retiring active : Federation) (age : Nat) (w : World) : World :=
  let w := moveRest i retiring active w
  { w with state := forget w.state }.notify
    (.federation "retiring_federation_cleared"
      (.obj [("redeem_script", .str (Hex.encode retiring.redeemScript)),
        ("age", .natural age), ("block", .natural i.number)]))

/-- What an update does about the retiring federation. -/
def advance (i : Invocation) (w : World) : World :=
  match i.retiring w.state with
  | none => w
  | some retiring =>
    let active := i.active w.state
    let age := i.number - active.creationBlock.toNat
    let windowBegin := i.constants.activationAge + i.constants.migrationBegin
    let windowEnd := i.constants.activationAge + i.constants.migrationEnd
    if windowEnd ≤ age then finish i retiring active age w
    else if windowBegin < age then moveWithinWindow i retiring active w
    else w

end TwoWayPeg.Migration
