import TwoWayPeg.Constants
import TwoWayPeg.Release.ScriptSig
import TwoWayPeg.Utxo

/-!
# Building releases

Three kinds of transactions spend what the federations hold: one pays an amount and returns the
change, one empties the wallet, and one moves as much as possible to another federation. The
recipient bears the fee, which is taken for the size that the transaction will have when all
signatures are in place.

Coins are spent largest first, and equal ones in the order of their outpoints, so all nodes build
the same transaction whatever the order in which they learnt of the coins.
-/

namespace TwoWayPeg

/-- Why a transaction is not built. -/
inductive BuildError
  | insufficientMoney (required available : Nat)
  /-- What is left for the recipient is too small to be an output. -/
  | cannotAdjust
  | tooLarge (size max : Nat)
  /-- What is left of the whole wallet is too small to be an output. -/
  | dusty
  | migrationExhausted (attempts : Nat)
  | feeOverflow (size : Nat) (feePerKb : Amount)
deriving DecidableEq

namespace BuildError

/-- The name of the kind of error. -/
def kind : BuildError → String
  | insufficientMoney _ _ => "InsufficientMoney"
  | cannotAdjust => "CouldNotAdjustDownwards"
  | tooLarge _ _ => "ExceededMaxTransactionSize"
  | dusty => "Dusty"
  | migrationExhausted _ => "MigrationExhausted"
  | feeOverflow _ _ => "FeeOverflow"

/-- The error in words. -/
def message : BuildError → String
  | insufficientMoney required available =>
    "insufficient money: need " ++ Amount.display required ++ ", have " ++
      Amount.display available
  | cannotAdjust => "could not adjust outputs above the dust threshold"
  | tooLarge size max => s!"transaction of {size} bytes exceeds the maximum of {max}"
  | dusty => "resulting output would be dust"
  | migrationExhausted attempts => s!"migration not possible after {attempts} attempts"
  | feeOverflow size feePerKb =>
    s!"fee for {size} bytes at " ++ Amount.display feePerKb.sats ++ " per kb overflows"

/-- Whether a smaller amount may succeed. -/
def isShrinkable : BuildError → Bool
  | insufficientMoney _ _ => true
  | tooLarge _ _ => true
  | cannotAdjust => true
  | _ => false

end BuildError

/-- An output with the federation that can spend it. -/
structure Coin where
  utxo : Utxo
  owner : Federation

namespace Coin

/-- Whether one coin is spent no later than another. -/
def notAfter (a b : Coin) : Bool :=
  if a.utxo.value.sats = b.utxo.value.sats then
    match KeyOrder.cmp a.utxo.txid b.utxo.txid with
    | .lt => true
    | .gt => false
    | .eq => a.utxo.vout ≤ b.utxo.vout
  else b.utxo.value.sats < a.utxo.value.sats

/-- The sum of the values. -/
def total (cs : List Coin) : Nat := Utxo.total (cs.map (·.utxo))

/-- The coins among outputs that one of the federations can spend, in the order of spending. -/
def ofUtxos (utxos : List Utxo) (federations : List Federation) : List Coin :=
  let owners := federations.map fun f => (f.payScript, f)
  let coins := utxos.filterMap fun u =>
    (owners.find? fun o => o.1 == u.script).map fun o => (⟨u, o.2⟩ : Coin)
  coins.mergeSort notAfter

/-- The input that spends a coin, without signatures. -/
def input (c : Coin) : TxIn :=
  ⟨c.utxo.outpoint, ScriptSig.placeholder c.owner.redeemScript c.owner.threshold, 0xFFFFFFFF, []⟩

end Coin

/-- A transaction with the coins it spends. -/
structure BuiltTransaction where
  tx : Transaction
  coins : List Coin
  fee : Amount

namespace BuiltTransaction

/-- The outputs that are spent. -/
def selected (b : BuiltTransaction) : List Utxo := b.coins.map (·.utxo)

/-- The sum of what is spent. -/
def totalInput (b : BuiltTransaction) : Nat := Coin.total b.coins

end BuiltTransaction

/-- What releases are built from. -/
structure Wallet where
  /-- The coins in the order of spending. -/
  coins : List Coin
  changeScript : Script
  feePerKb : Amount
  minimumOutput : Amount
  maxTransactionSize : Nat
  maxMigrationAttempts : Nat

namespace Wallet

/-- The wallet of what some federations can spend. -/
def of (utxos : List Utxo) (federations : List Federation) (changeScript : Script)
    (feePerKb : Amount) (c : Constants) : Wallet where
  coins := Coin.ofUtxos utxos federations
  changeScript
  feePerKb
  minimumOutput := c.minimumOutput
  maxTransactionSize := c.maxTransactionSize
  maxMigrationAttempts := c.maxMigrationAttempts

/-- The sum of all coins. -/
def balance (w : Wallet) : Nat := Coin.total w.coins

/-! ### Size and fee -/

/-- The bytes kept free for each signature. -/
def signatureSize : Nat := 72

/-- The transaction that spends coins into outputs, without signatures. -/
def unsigned (coins : List Coin) (outputs : List TxOut) : Transaction :=
  ⟨1, coins.map Coin.input, outputs, 0⟩

/-- How many signatures coins need. -/
def signatureCount : List Coin → Nat
  | [] => 0
  | c :: rest => c.owner.threshold + signatureCount rest

/-- The size of a transaction when all signatures of its coins are in place. -/
def signedSize (tx : Transaction) (coins : List Coin) : Nat :=
  tx.encode.length + signatureSize * signatureCount coins

/-- The fee for a transaction that spends coins. -/
def feeFor (w : Wallet) (tx : Transaction) (coins : List Coin) : Except BuildError Amount :=
  let size := signedSize tx coins
  if w.maxTransactionSize < size then .error (.tooLarge size w.maxTransactionSize)
  else
    match Amount.ofNat? (size * w.feePerKb.sats) with
    | none => .error (.feeOverflow size w.feePerKb)
    | some product => .ok (product.dividedBy 1000)

/-! ### Paying an amount -/

/-- Coins from the front until their sum reaches an amount. -/
def gather (amount : Nat) : List Coin → List Coin
  | [] => []
  | c :: rest =>
    if amount = 0 then [] else c :: gather (amount - c.utxo.value.sats) rest

/-- What the recipient and the change receive after the fee: change that is too small to be an
output is topped up from the recipient's share, which itself must not become too small. -/
def adjust (w : Wallet) (amount change fee : Nat) : Except BuildError (Nat × Nat) :=
  let least := w.minimumOutput.sats
  let topped := if 0 < change ∧ change < least then least else change
  let taken := fee + (topped - change)
  if amount < taken ∨ amount - taken < least then .error .cannotAdjust
  else .ok (amount - taken, topped)

/-- The outputs of a payment; change of nothing is no output. -/
def outputs (destination changeScript : Script) (recipient change : Nat) : List TxOut :=
  ⟨.clamp recipient, destination⟩ ::
    if 0 < change then [⟨.clamp change, changeScript⟩] else []

/-- Pays an amount less the fee, and returns the change to a script. -/
def payWithChange (w : Wallet) (destination : Script) (amount : Amount) (changeScript : Script) :
    Except BuildError BuiltTransaction :=
  let coins := gather amount.sats w.coins
  let gathered := Coin.total coins
  if gathered < amount.sats ∨ coins.isEmpty then
    .error (.insufficientMoney amount.sats gathered)
  else
    let change := gathered - amount.sats
    let draft := unsigned coins (outputs destination changeScript amount.sats change)
    match w.feeFor draft coins with
    | .error e => .error e
    | .ok fee =>
      match w.adjust amount.sats change fee.sats with
      | .error e => .error e
      | .ok (recipient, change) =>
        .ok ⟨unsigned coins (outputs destination changeScript recipient change), coins, fee⟩

/-- Pays an amount less the fee, and returns the change to the wallet. -/
def pay (w : Wallet) (destination : Script) (amount : Amount) :
    Except BuildError BuiltTransaction :=
  w.payWithChange destination amount w.changeScript

/-! ### Emptying the wallet -/

/-- Pays everything less the fee. -/
def payAll (w : Wallet) (destination : Script) : Except BuildError BuiltTransaction :=
  let balance := w.balance
  if w.coins.isEmpty then .error (.insufficientMoney w.minimumOutput.sats balance)
  else
    match w.feeFor (unsigned w.coins [⟨.clamp balance, destination⟩]) w.coins with
    | .error e => .error e
    | .ok fee =>
      if balance - fee.sats < w.minimumOutput.sats then .error .dusty
      else
        .ok ⟨unsigned w.coins [⟨.clamp (balance - fee.sats), destination⟩], w.coins, fee⟩

/-! ### Migration -/

/-- Tries amounts, each half of the one before, until one can be moved. -/
def migrateFrom (w : Wallet) (destination : Script) :
    Nat → Amount → Except BuildError BuiltTransaction
  | 0, _ => .error (.migrationExhausted w.maxMigrationAttempts)
  | attempts + 1, target =>
    if target.sats < w.minimumOutput.sats then .error .dusty
    else
      match w.payWithChange destination target destination with
      | .ok built => .ok built
      | .error e =>
        if e.isShrinkable then migrateFrom w destination attempts (target.dividedBy 2)
        else .error e

/-- Moves an amount, or as large a part of it as possible, with all change to the same script. -/
def migrate (w : Wallet) (destination : Script) (amount : Amount) :
    Except BuildError BuiltTransaction :=
  w.migrateFrom destination w.maxMigrationAttempts amount

end Wallet

end TwoWayPeg
