import TwoWayPeg.Bitcoin.Transaction

/-!
# Unspent outputs

The peg keeps a list of the outputs that its federations can spend. A transaction takes outputs off
such a list by spending them and puts outputs on it by paying to a script; no outpoint is listed
twice.
-/

namespace TwoWayPeg

/-- An output that has not been spent. -/
structure Utxo where
  txid : Txid
  vout : UInt32
  value : Amount
  /-- The height of the block that holds the transaction. -/
  height : UInt32
  isCoinbase : Bool
  script : Script
deriving DecidableEq

namespace Utxo

/-- Which output it is. -/
def outpoint (u : Utxo) : OutPoint := ⟨u.txid, u.vout⟩

/-- The sum of the values. -/
def total (us : List Utxo) : Nat := Amount.total (us.map (·.value))

/-- The outputs of a transaction whose scripts are wanted. -/
def ofOutputs (tx : Transaction) (height : UInt32) (wanted : Script → Bool) : List Utxo :=
  let txid := tx.txid
  tx.outputs.zipIdx.filterMap fun o =>
    if wanted o.1.script then
      some ⟨txid, UInt32.ofNat o.2, o.1.value, height, tx.isCoinbase, o.1.script⟩
    else none

/-- Whether an input of a transaction spends the output. -/
def isSpentBy (u : Utxo) (tx : Transaction) : Bool :=
  tx.inputs.any fun i => i.previous == u.outpoint

/-- The outputs that a transaction leaves unspent. -/
def withoutSpent (us : List Utxo) (tx : Transaction) : List Utxo :=
  us.filter fun u => !u.isSpentBy tx

/-- Whether an outpoint is listed. -/
def isListed (us : List Utxo) (o : OutPoint) : Bool := us.any fun u => u.outpoint == o

/-- The list with one more output behind the others, unless it is already listed. -/
def addOne (us : List Utxo) (u : Utxo) : List Utxo :=
  if isListed us u.outpoint then us else us ++ [u]

/-- The list with all outputs of another that are not yet listed. -/
def addNew (us incoming : List Utxo) : List Utxo := incoming.foldl addOne us

end Utxo

/-- The outputs of the federations in the new and in the old place. -/
structure Holdings where
  new : List Utxo
  old : List Utxo
deriving DecidableEq

/-- Nothing is held. -/
def Holdings.empty : Holdings := ⟨[], []⟩

end TwoWayPeg
