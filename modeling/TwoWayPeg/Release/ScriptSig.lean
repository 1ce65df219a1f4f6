import TwoWayPeg.Bitcoin.PublicKey
import TwoWayPeg.Bitcoin.Transaction

/-!
# Scripts that collect signatures

An input that spends a federation's output pushes an empty string, then one slot for each signature
that is needed, and last the script that the signatures satisfy. A slot is empty until a member has
signed.
-/

namespace TwoWayPeg.ScriptSig

/-- The script with all slots empty. -/
def placeholder (redeem : Script) (slots : Nat) : Script :=
  (Script.ofChunks? (List.replicate (slots + 1) [] ++ [redeem])).getD []

/-- The script that an input satisfies: its last push. -/
def redeemScript? (s : Script) : Option Script := s.chunks.bind List.getLast?

/-- The keys that a script checks signatures against, in order. -/
def keysOf (redeem : Script) : List PublicKey := redeem.pushes.filterMap PublicKey.ofBytes?

/-- Whether all slots of an input are filled. -/
def isComplete (s : Script) : Bool :=
  match s.chunks with
  | none => false
  | some chunks => 2 ≤ chunks.length && (chunks.drop 1).dropLast.all fun slot => !slot.isEmpty

/-- Whether all slots of all inputs are filled. -/
def isFullySigned (tx : Transaction) : Bool := tx.inputs.all fun i => isComplete i.scriptSig

/-- The digest that a signature of an input signs, by the script that the input carries. -/
def sighash? (tx : Transaction) (index : Nat) : Option (FixedBytes 32) :=
  match tx.inputs[index]? with
  | none => none
  | some input =>
    match redeemScript? input.scriptSig with
    | none => none
    | some redeem => tx.sighash? index redeem

end TwoWayPeg.ScriptSig
