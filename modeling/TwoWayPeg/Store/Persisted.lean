import TwoWayPeg.Json.Record
import TwoWayPeg.State

/-!
# Persisted forms

Each part of the state has a form in JSON. Digests, scripts, keys and transactions are written in
hexadecimal digits, amounts in satoshis, and maps as objects in the order of their keys. Reading is
as strict as the types are, but a federation is taken as it was recorded: the rules for forming one
applied when it was formed.
-/

namespace TwoWayPeg

/-- A type of values with a form in JSON. -/
class Persisted (α : Type) where
  /-- The form of a value. -/
  toJson : α → Json
  /-- The value that a form is read as. -/
  ofJson? : Json → Option α

namespace Persisted

/-! ### Texts and numbers -/

/-- A type of values that are written as texts. -/
@[reducible] def ofText {α : Type} (text : α → String) (ofText? : String → Option α) :
    Persisted α where
  toJson x := .str (text x)
  ofJson? j := j.text?.bind ofText?

/-- Any text is a text. -/
instance : Persisted String := ofText id some

/-- Truth values are those of JSON. -/
instance : Persisted Bool where
  toJson := .bool
  ofJson?
    | .bool b => some b
    | _ => none

/-- A word of 32 bits is a number that fits. -/
instance : Persisted UInt32 where
  toJson n := .natural n.toNat
  ofJson? j := (j.naturalBelow? UInt32.size).map UInt32.ofNat

/-- A word of 64 bits is a number that fits. -/
instance : Persisted UInt64 where
  toJson n := .natural n.toNat
  ofJson? j := (j.naturalBelow? UInt64.size).map UInt64.ofNat

/-- An amount is its number of satoshis. -/
instance : Persisted Amount where
  toJson a := .natural a.sats
  ofJson? j := (j.naturalBelow? UInt64.size).bind Amount.ofNat?

/-- Bytes are written in hexadecimal digits. -/
instance : Persisted Bytes := ofText Hex.encode Hex.decode?

/-- Bytes of a known number, in their own order. -/
instance {n : Nat} : Persisted (FixedBytes n) :=
  ofText (fun b => Hex.encode b.toList) (Hex.decodeExactly? n)

/-- The name of a transaction, last byte first. -/
instance : Persisted Txid := ofText Txid.text Txid.ofText?

/-- The name of a block, last byte first. -/
instance : Persisted BlockHash := ofText BlockHash.text BlockHash.ofText?

/-- The digits of a key hash. -/
instance : Persisted KeyHash := ofText KeyHash.text KeyHash.ofText?

/-- The name of a host transaction, with or without the mark of digits when it is read. -/
instance : Persisted HostTxHash :=
  ofText HostTxHash.text fun s => (HostTxHash.ofText s).toOption

/-- A key in the encoding that it was given in. -/
instance : Persisted PublicKey := ofText PublicKey.text PublicKey.ofText?

/-- An account, with or without the mark of digits when it is read. -/
instance : Persisted HostAddress :=
  ofText HostAddress.text fun s => (HostAddress.ofText s).toOption

/-- A network is also read from an object whose only field is its name. -/
instance : Persisted Network where
  toJson n := .str n.name
  ofJson?
    | .str s => Network.ofName? s
    | .obj [(name, .null)] => Network.ofName? name
    | _ => none

/-- The most bytes of a transaction in a record. -/
def maxTransactionSize : Nat := 4000000

/-- The transaction that hexadecimal digits spell. -/
def transactionOfText? (s : String) : Option Transaction :=
  match Hex.decode? s with
  | none => none
  | some b => if maxTransactionSize < b.length then none else Transaction.decode? b

/-- A transaction in the digits of its full encoding. -/
instance : Persisted Transaction := ofText (fun tx => Hex.encode tx.encode) transactionOfText?

/-! ### Lists and maps -/

section

variable {α : Type} [Persisted α]

/-- A list as an array. -/
instance : Persisted (List α) where
  toJson xs := .arr (xs.map toJson)
  ofJson? j := j.items?.bind fun items => items.mapM ofJson?

/-- A value or nothing. -/
instance : Persisted (Option α) where
  toJson
    | none => .null
    | some x => toJson x
  ofJson?
    | .null => some none
    | j => (ofJson? j).map some

/-- A field that counts as empty when it is missing. -/
def optional? : Option Json → Option (Option α)
  | none => some none
  | some j => ofJson? j

/-- A map as an object; of two fields with one key the later one counts. -/
@[reducible] def ofMap {κ : Type} [KeyOrder κ] (text : κ → String) (ofText? : String → Option κ) :
    Persisted (SortedMap κ α) where
  toJson m := .obj (m.entries.map fun e => (text e.1, toJson e.2))
  ofJson? j :=
    j.fields?.bind fun fields =>
      (fields.mapM fun f =>
        (ofText? f.1).bind fun k => (ofJson? f.2).map fun v => (k, v)).map SortedMap.ofList

end

/-- A set as an array. -/
instance : Persisted (SortedSet HostAddress) where
  toJson s := .arr (s.keys.map toJson)
  ofJson? j := (j.items?.bind fun items => items.mapM ofJson?).map SortedSet.ofElements

/-! ### Federations -/

/-- A member as a record of its three keys. -/
instance : Persisted Member where
  toJson m :=
    .obj [("btc_public_key", toJson m.btc), ("host_public_key", toJson m.host),
      ("mst_public_key", toJson m.mst)]
  ofJson? j :=
    match j.fullRecord? ["btc_public_key", "host_public_key", "mst_public_key"] with
    | some [btc, host, mst] => do
      return ⟨← ofJson? btc, ← ofJson? host, ← ofJson? mst⟩
    | _ => none

/-- A federation is taken as it was recorded. -/
instance : Persisted Federation where
  toJson f :=
    .obj [("members", toJson f.members), ("creation_time_ms", toJson f.creationTimeMs),
      ("creation_block_number", toJson f.creationBlock), ("network", toJson f.network)]
  ofJson? j :=
    match j.fullRecord? ["members", "creation_time_ms", "creation_block_number", "network"] with
    | some [members, time, block, network] => do
      return ⟨← ofJson? members, ← ofJson? time, ← ofJson? block, ← ofJson? network⟩
    | _ => none

/-- The record whose only field is the list of members. -/
instance : Persisted PendingFederation where
  toJson p := .obj [("members", toJson p.members)]
  ofJson? j :=
    match j.fullRecord? ["members"] with
    | some [members] => (ofJson? members).map PendingFederation.mk
    | _ => none

/-! ### Outputs and releases -/

/-- An output as a record of all that is kept about it. -/
instance : Persisted Utxo where
  toJson u :=
    .obj [("txid", toJson u.txid), ("vout", toJson u.vout), ("value", toJson u.value),
      ("height", toJson u.height), ("is_coinbase", toJson u.isCoinbase),
      ("script_pubkey", toJson u.script)]
  ofJson? j :=
    match j.fullRecord? ["txid", "vout", "value", "height", "is_coinbase", "script_pubkey"] with
    | some [txid, vout, value, height, isCoinbase, script] => do
      return ⟨← ofJson? txid, ← ofJson? vout, ← ofJson? value, ← ofJson? height,
        ← ofJson? isCoinbase, ← ofJson? script⟩
    | _ => none

/-- A request as a record of its destination and amount. -/
instance : Persisted ReleaseRequest where
  toJson r := .obj [("destination", toJson r.destination), ("amount", toJson r.amount)]
  ofJson? j :=
    match j.fullRecord? ["destination", "amount"] with
    | some [destination, amount] => do return ⟨← ofJson? destination, ← ofJson? amount⟩
    | _ => none

/-- A waiting release with the host block it was made in. -/
instance : Persisted WaitingTransaction where
  toJson w := .obj [("transaction", toJson w.transaction), ("block_number", toJson w.block)]
  ofJson? j :=
    match j.fullRecord? ["transaction", "block_number"] with
    | some [transaction, block] => do return ⟨← ofJson? transaction, ← ofJson? block⟩
    | _ => none

/-- A list that is the only field of a record. -/
def entriesToJson {α : Type} [Persisted α] (xs : List α) : Json := .obj [("entries", toJson xs)]

/-- Reads a list that is the only field of a record. -/
def entriesOfJson? {α : Type} [Persisted α] (j : Json) : Option (List α) :=
  match j.fullRecord? ["entries"] with
  | some [entries] => ofJson? entries
  | _ => none

/-- Transactions by the host transactions they are kept under. -/
instance : Persisted (SortedMap HostTxHash Transaction) :=
  ofMap HostTxHash.text fun s => (HostTxHash.ofText s).toOption

/-- The record whose only field is the map of transactions. -/
def pendingToJson (p : PendingSignatures) : Json := .obj [("transactions", toJson p)]

/-- Reads the record whose only field is the map of transactions. -/
def pendingOfJson? (j : Json) : Option PendingSignatures :=
  match j.fullRecord? ["transactions"] with
  | some [transactions] => ofJson? transactions
  | _ => none

/-- Host blocks by the transactions they recorded. -/
instance : Persisted (SortedMap Txid UInt64) := ofMap Txid.text Txid.ofText?

/-! ### The whitelist -/

/-- Which kind of allowance a tag means: its name, or its place among the kinds. -/
def isOneOff? : Json → Option Bool
  | .str s => if s = "one_off" then some true else if s = "unlimited" then some false else none
  | .natural 0 => some true
  | .natural 1 => some false
  | _ => none

/-- The fields of an allowance. The capacity may be missing, but where it stands it is an amount. -/
def allowanceOfFields? (fields : List (String × Json)) : Option Allowance := do
  let tag ← (← Json.single? "type" fields)
  if ← isOneOff? tag then
    let maxValue ← (← Json.single? "max_transfer_value" fields)
    let uses ← (← Json.single? "remaining_uses" fields)
    return .oneOff (← ofJson? maxValue) (← ofJson? uses)
  else
    match ← Json.single? "remaining_capacity" fields with
    | none => return .unlimited none
    | some capacity => return .unlimited (some (← ofJson? capacity))

/-- How many arrays and objects an entry stands in, itself included: the envelope, the whitelist and
the map of entries. -/
def entryNesting : Nat := 4

/-- An entry is one object that holds the address beside the fields of the allowance. All fields but
the address are taken in before the kind of allowance is known. -/
instance : Persisted WhitelistEntry where
  toJson e :=
    .obj <| ("address", toJson e.address) ::
      match e.allowance with
      | .oneOff maxValue uses =>
        [("type", .str "one_off"), ("max_transfer_value", toJson maxValue),
          ("remaining_uses", toJson uses)]
      | .unlimited capacity => [("type", .str "unlimited"), ("remaining_capacity", toJson capacity)]
  ofJson? j := do
    let fields ← j.fields?
    guard (fields.all fun f => f.1 = "address" || f.2.fits (Json.maxNesting - entryNesting))
    let address ← (← Json.single? "address" fields)
    return ⟨← ofJson? address, ← allowanceOfFields? fields⟩

/-- Whitelist entries by the hashes of their keys. -/
instance : Persisted (SortedMap KeyHash WhitelistEntry) := ofMap KeyHash.text KeyHash.ofText?

/-- The whitelist. Its height may be missing, but not its entries. -/
instance : Persisted Whitelist where
  toJson w :=
    .obj [("entries", toJson w.entries), ("disable_block_height", toJson w.disableHeight)]
  ofJson? j := do
    match ← j.record? ["entries", "disable_block_height"] with
    | [some entries, height] => return ⟨← ofJson? entries, ← optional? height⟩
    | _ => none

/-! ### Elections -/

/-- A call as a record of its function and its arguments. -/
instance : Persisted CallSpec where
  toJson c := .obj [("function", toJson c.function), ("arguments", toJson c.arguments)]
  ofJson? j :=
    match j.fullRecord? ["function", "arguments"] with
    | some [function, arguments] => do return ⟨← ofJson? function, ← ofJson? arguments⟩
    | _ => none

/-- Reads a call with its voters. -/
def ballotOfJson? (j : Json) : Option (CallSpec × SortedSet HostAddress) :=
  match j.fullRecord? ["spec", "voters"] with
  | some [spec, voters] => do return (← ofJson? spec, ← ofJson? voters)
  | _ => none

/-- An election is the list of its ballots. -/
instance : Persisted Election where
  toJson e :=
    .arr (e.ballots.entries.map fun b => .obj [("spec", toJson b.1), ("voters", toJson b.2)])
  ofJson? j :=
    (j.items?.bind fun items => items.mapM ballotOfJson?).map fun ballots =>
      ⟨SortedMap.ofList ballots⟩

end Persisted

end TwoWayPeg
