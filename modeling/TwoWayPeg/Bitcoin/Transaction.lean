import TwoWayPeg.Bitcoin.Amount
import TwoWayPeg.Bitcoin.CompactSize
import TwoWayPeg.Bitcoin.Script

/-!
# Transactions

A transaction spends outpoints and creates outputs. Its bytes have two forms: the plain one, and one
with a flag that carries the witnesses behind the outputs. The name of a transaction is the double
digest of its plain form, so witnesses do not change it. What a signature signs is also a digest of
the plain form, with the scripts of all inputs left out but one.

Since a count of zero inputs announces the flag, a transaction without inputs is always written in
the second form.
-/

namespace TwoWayPeg

/-- One output of one transaction. -/
structure OutPoint where
  txid : Txid
  /-- The number of the output, from zero. -/
  vout : UInt32
deriving DecidableEq

/-- An input: what it spends and why it may. -/
structure TxIn where
  previous : OutPoint
  scriptSig : Script
  sequence : UInt32
  witness : List Bytes
deriving DecidableEq

/-- An output: how much it holds and who may spend it. -/
structure TxOut where
  value : Amount
  script : Script
deriving DecidableEq

/-- A bitcoin transaction. -/
structure Transaction where
  version : UInt32
  inputs : List TxIn
  outputs : List TxOut
  lockTime : UInt32
deriving DecidableEq

/-! ### Writing -/

/-- The bytes of a word of 32 bits. -/
def wordBytes (w : UInt32) : Bytes := Bytes.ofNatLE 4 w.toNat

namespace OutPoint

/-- The bytes of an outpoint. -/
def encode (o : OutPoint) : Bytes := o.txid.bytes.toList ++ wordBytes o.vout

/-- The outpoint that stands for newly issued coins. -/
def issuing : OutPoint := ⟨⟨.replicate 32 0⟩, 0xFFFFFFFF⟩

/-- The transaction and the number of the output. -/
def text (o : OutPoint) : String := s!"{o.txid.text}:{o.vout.toNat}"

end OutPoint

/-- The bytes of an input, without its witness. -/
def TxIn.encode (i : TxIn) : Bytes :=
  i.previous.encode ++ CompactSize.encodeBytes i.scriptSig ++ wordBytes i.sequence

/-- The bytes of an output. -/
def TxOut.encode (o : TxOut) : Bytes :=
  Bytes.ofNatLE 8 o.value.sats ++ CompactSize.encodeBytes o.script

namespace Transaction

/-- The bytes of a list of inputs. -/
def encodeInputs (is : List TxIn) : Bytes :=
  CompactSize.encode is.length ++ is.flatMap TxIn.encode

/-- The bytes of a list of outputs. -/
def encodeOutputs (os : List TxOut) : Bytes :=
  CompactSize.encode os.length ++ os.flatMap TxOut.encode

/-- The bytes of a witness. -/
def encodeWitness (w : List Bytes) : Bytes :=
  CompactSize.encode w.length ++ w.flatMap CompactSize.encodeBytes

/-- The plain form. -/
def encodePlain (tx : Transaction) : Bytes :=
  wordBytes tx.version ++ encodeInputs tx.inputs ++ encodeOutputs tx.outputs ++
    wordBytes tx.lockTime

/-- Whether the form with witnesses is needed. -/
def needsFlag (tx : Transaction) : Bool :=
  tx.inputs.isEmpty || tx.inputs.any fun i => !i.witness.isEmpty

/-- The bytes of a transaction. -/
def encode (tx : Transaction) : Bytes :=
  if tx.needsFlag then
    wordBytes tx.version ++ 0x00 :: 0x01 :: (encodeInputs tx.inputs ++ encodeOutputs tx.outputs ++
      tx.inputs.flatMap (fun i => encodeWitness i.witness) ++ wordBytes tx.lockTime)
  else tx.encodePlain

/-- The name of a transaction. -/
def txid (tx : Transaction) : Txid := ⟨Sha256.double tx.encodePlain⟩

/-- Whether a transaction issues new coins. -/
def isCoinbase (tx : Transaction) : Bool :=
  match tx.inputs with
  | [i] => i.previous == .issuing
  | _ => false

/-! ### Reading -/

/-- A word of 32 bits. -/
def readWord : Reader UInt32 := fun b =>
  (Reader.number 4 b).map fun r => (UInt32.ofNat r.1, r.2)

/-- An outpoint. -/
def readOutPoint : Reader OutPoint := fun b =>
  match Reader.fixed 32 b with
  | none => none
  | some (txid, b) => (readWord b).map fun r => (⟨⟨txid⟩, r.1⟩, r.2)

/-- An input; its witness stands elsewhere. -/
def readInput : Reader TxIn := fun b =>
  match readOutPoint b with
  | none => none
  | some (previous, b) =>
    match CompactSize.readBytes b with
    | none => none
    | some (scriptSig, b) => (readWord b).map fun r => (⟨previous, scriptSig, r.1, []⟩, r.2)

/-- An output. -/
def readOutput : Reader TxOut := fun b =>
  match Reader.number 8 b with
  | none => none
  | some (n, b) =>
    match Amount.ofNat? n with
    | none => none
    | some value => (CompactSize.readBytes b).map fun r => (⟨value, r.1⟩, r.2)

/-- A list with its count in front. -/
def readCounted {α : Type} (item : Reader α) : Reader (List α) := fun b =>
  match CompactSize.read b with
  | none => none
  | some (n, b) => Reader.list item n b

/-- The inputs with a witness for each of them. -/
def readWitnesses : List TxIn → Reader (List TxIn)
  | [] => fun b => some ([], b)
  | i :: rest => fun b =>
    match readCounted CompactSize.readBytes b with
    | none => none
    | some (witness, b) =>
      (readWitnesses rest b).map fun r => ({ i with witness := witness } :: r.1, r.2)

/-- What follows the flag: at least one input has a witness, unless there is none at all. -/
def readFlagged (version : UInt32) : Reader Transaction := fun b =>
  match readCounted readInput b with
  | none => none
  | some (inputs, b) =>
    match readCounted readOutput b with
    | none => none
    | some (outputs, b) =>
      match readWitnesses inputs b with
      | none => none
      | some (inputs, b) =>
        if !inputs.isEmpty && inputs.all fun i => i.witness.isEmpty then none
        else (readWord b).map fun r => (⟨version, inputs, outputs, r.1⟩, r.2)

/-- A transaction in either form. -/
def read : Reader Transaction := fun b =>
  match readWord b with
  | none => none
  | some (version, b) =>
    match readCounted readInput b with
    | none => none
    | some ([], 0x01 :: b) => readFlagged version b
    | some ([], _) => none
    | some (inputs, b) =>
      match readCounted readOutput b with
      | none => none
      | some (outputs, b) => (readWord b).map fun r => (⟨version, inputs, outputs, r.1⟩, r.2)

/-- The transaction that bytes spell. -/
def decode? (b : Bytes) : Option Transaction := Reader.whole read b

/-! ### What a signature signs -/

/-- The plain form with one input's script replaced and all others left out. -/
def signingForm (tx : Transaction) (index : Nat) (script : Script) : Transaction :=
  { tx with
    inputs := tx.inputs.zipIdx.map fun i =>
      { i.1 with scriptSig := if i.2 = index then script else [] } }

/-- The digest that a signature of one input signs when it commits to all inputs and outputs. -/
def sighash? (tx : Transaction) (index : Nat) (script : Script) : Option (FixedBytes 32) :=
  if index < tx.inputs.length then
    some (Sha256.double ((tx.signingForm index script).encodePlain ++ wordBytes 1))
  else none

end Transaction

end TwoWayPeg
