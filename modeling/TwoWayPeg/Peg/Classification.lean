import TwoWayPeg.Federation.Basic
import TwoWayPeg.Release.ScriptSig

/-!
# Kinds of bitcoin transactions

A registered transaction either pays the live federations from outside, or spends what they hold, or
moves funds from the retiring federation to the active one. What a transaction spends is seen from
the scripts that its inputs carry, and what it pays from its outputs.
-/

namespace TwoWayPeg

/-- What a transaction does to the funds of the federations. -/
inductive TransactionKind
  /-- It pays them from outside. -/
  | pegIn
  /-- It spends what they hold. -/
  | pegOut
  /-- It moves funds of the retiring federation to the active one. -/
  | migration
  | unrecognized
deriving DecidableEq

/-- The name of the kind. -/
def TransactionKind.name : TransactionKind → String
  | pegIn => "PegIn"
  | pegOut => "PegOut"
  | migration => "Migration"
  | unrecognized => "Unrecognized"

namespace Transaction

/-- Whether an input carries the script of a federation. -/
def spendsFrom (tx : Transaction) (f : Federation) : Bool :=
  let redeem := f.redeemScript
  tx.inputs.any fun i => ScriptSig.redeemScript? i.scriptSig == some redeem

/-- The sum of what a transaction pays to a script. -/
def valuePaidTo (tx : Transaction) (script : Script) : Nat :=
  Amount.total ((tx.outputs.filter fun o => o.script == script).map (·.value))

/-- The sum of what a transaction pays to a federation. -/
def valueSentTo (tx : Transaction) (f : Federation) : Nat := tx.valuePaidTo f.payScript

/-- The sum of what a transaction pays to each of some federations. -/
def valueSentToAll (tx : Transaction) (fs : List Federation) : Nat :=
  fs.foldr (fun f sum => tx.valueSentTo f + sum) 0

/-- The kind of a transaction. -/
def classify (tx : Transaction) (active : Federation) (retiring : Option Federation)
    (minimumLock : Nat) : TransactionKind :=
  let live := active :: retiring.toList
  if retiring.any fun f => tx.spendsFrom f && 0 < tx.valueSentTo active then .migration
  else if live.any tx.spendsFrom then .pegOut
  else if minimumLock ≤ tx.valueSentToAll live then .pegIn
  else .unrecognized

/-! ### Rules for all transactions -/

/-- Which rule a transaction breaks. -/
inductive StructureFlaw
  | noInputsOrOutputs
  | valueOutOfRange
  | duplicateInputs
deriving DecidableEq

/-- The flaw in words. -/
def StructureFlaw.message : StructureFlaw → String
  | noInputsOrOutputs => "transaction has no inputs or no outputs"
  | valueOutOfRange => "output value out of range"
  | duplicateInputs => "duplicate inputs"

/-- The sum of all outputs. -/
def totalOutput (tx : Transaction) : Nat := Amount.total (tx.outputs.map (·.value))

/-- Whether no outpoint is spent twice. -/
def hasDistinctInputs (tx : Transaction) : Bool :=
  decide (tx.inputs.map TxIn.previous).Nodup

/-- What can be checked of a transaction by itself. -/
def checkStructure (tx : Transaction) : Except StructureFlaw Unit :=
  if tx.inputs.isEmpty || tx.outputs.isEmpty then .error .noInputsOrOutputs
  else if Amount.maxMoney < tx.totalOutput then .error .valueOutOfRange
  else if !tx.hasDistinctInputs then .error .duplicateInputs
  else .ok ()

end Transaction

end TwoWayPeg
