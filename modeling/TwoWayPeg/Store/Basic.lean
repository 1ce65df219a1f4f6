import TwoWayPeg.Json.Read
import TwoWayPeg.Store.Persisted
import TwoWayPeg.Text.Order

/-!
# The store

The state is kept between calls as texts under keys, one key for each part. A text is an envelope: a
record of a version and the data. Parts without an entry are as in a new peg, and an optional part
that is absent has no entry.

* `Store.load` reads a state, `Store.save` writes one.
* `Store.transact` runs an operation on the stored state and writes the state back only if the
  operation succeeds.
-/

namespace TwoWayPeg

/-- Why a state is not read or written. -/
inductive StorageError
  | database (reason : String)
  | connection (reason : String)
  /-- The text under a key is not the form of what it should hold. -/
  | unreadable (key : String)
  | unsupportedVersion (key : String) (version : Nat)
deriving DecidableEq

/-- The name of the kind of error. -/
def StorageError.kind : StorageError → String
  | database _ => "Database"
  | connection _ => "Connection"
  | unreadable _ => "InvalidData"
  | unsupportedVersion _ _ => "InvalidData"

/-- The error in words. -/
def StorageError.message : StorageError → String
  | database reason => "Database error: " ++ reason
  | connection reason => "Connection error: " ++ reason
  | unreadable key => "Invalid data: " ++ key ++ ": "
  | unsupportedVersion key version =>
    "Invalid data: " ++ key ++ s!": unsupported version {version}"

/-- Texts by key. -/
abbrev Store := SortedMap String String

namespace Store

open Persisted (toJson ofJson?)

/-! ### Envelopes -/

/-- The version of the forms that are written. -/
def version : Nat := 1

/-- Data in its envelope. -/
def enclose (data : Json) : String :=
  (Json.obj [("version", .natural version), ("data", data)]).compact

/-- The data in an envelope of this version. -/
def disclose {α : Type} (read : Json → Option α) (key text : String) : Except StorageError α :=
  match (Json.parse? text).bind (Json.fullRecord? ["version", "data"]) with
  | some [v, data] =>
    match v.naturalBelow? UInt32.size, read data with
    | some v, some value =>
      if v = version then .ok value else .error (.unsupportedVersion key v)
    | _, _ => .error (.unreadable key)
  | _ => .error (.unreadable key)

/-! ### Writing a state -/

/-- Texts to be put under keys, and keys to be cleared. -/
abbrev Batch := List (String × Option String)

/-- The state as texts under its keys. -/
def batchOf (s : State) : Batch :=
  let optional {α : Type} [Persisted α] (x : Option α) := x.map fun x => enclose (toJson x)
  let plain (j : Json) := some (enclose j)
  [("new_federation", optional s.federations.new),
   ("old_federation", optional s.federations.old),
   ("pending_federation", optional s.federations.pending),
   ("new_federation_utxos", plain (toJson s.holdings.new)),
   ("old_federation_utxos", plain (toJson s.holdings.old)),
   ("release_request_queue", plain (Persisted.entriesToJson s.requests)),
   ("release_transaction_set", plain (Persisted.entriesToJson s.waiting)),
   ("pending_signatures", plain (Persisted.pendingToJson s.pending)),
   ("processed_txs", plain (toJson s.processed)),
   ("lock_whitelist", plain (toJson s.whitelist)),
   ("fee_per_kb", optional s.feePerKb),
   ("federation_election", plain (toJson s.federationElection)),
   ("fee_per_kb_election", plain (toJson s.feeElection))]

/-- The store after one change. -/
def put (store : Store) (change : String × Option String) : Store :=
  match change with
  | (key, some text) => store.insert key text
  | (key, none) => store.erase key

/-- The store after a batch. -/
def write (store : Store) (batch : Batch) : Store := batch.foldl put store

/-- The store with a state in it. -/
def save (store : Store) (s : State) : Store := write store (batchOf s)

/-! ### Reading a state -/

/-- The value under a key, or a default where there is none. -/
def readOr {α : Type} (store : Store) (key : String) (read : Json → Option α) (absent : α) :
    Except StorageError α :=
  match store.get? key with
  | none => .ok absent
  | some text => disclose read key text

/-- The value under a key, if there is one. -/
def read? {α : Type} [Persisted α] (store : Store) (key : String) :
    Except StorageError (Option α) :=
  readOr store key (fun j => (ofJson? j).map some) none

/-- The state in a store. -/
def load (store : Store) : Except StorageError State := do
  let new ← read? store "new_federation"
  let old ← read? store "old_federation"
  let pendingFederation ← read? store "pending_federation"
  let newUtxos ← readOr store "new_federation_utxos" ofJson? []
  let oldUtxos ← readOr store "old_federation_utxos" ofJson? []
  let requests ← readOr store "release_request_queue" Persisted.entriesOfJson? []
  let waiting ← readOr store "release_transaction_set" Persisted.entriesOfJson? []
  let pending ← readOr store "pending_signatures" Persisted.pendingOfJson? .empty
  let processed ← readOr store "processed_txs" ofJson? .empty
  let whitelist ← readOr store "lock_whitelist" ofJson? .empty
  let feePerKb ← read? store "fee_per_kb"
  let federationElection ← readOr store "federation_election" ofJson? .empty
  let feeElection ← readOr store "fee_per_kb_election" ofJson? .empty
  return {
    federations := ⟨new, old, pendingFederation⟩
    holdings := ⟨newUtxos, oldUtxos⟩
    requests, waiting, pending, processed, whitelist, feePerKb, federationElection, feeElection }

/-! ### Transactions -/

/-- Runs an operation on the stored state, and keeps what it changes only if it succeeds. An
operation also gives back what it has done beside the state, whether it succeeds or not; the
default stands where it was not run. -/
def transact {ε α β : Type} (ofStorage : StorageError → ε) (store : Store) (absent : β)
    (operation : State → Except ε α × State × β) : Except ε α × Store × β :=
  match load store with
  | .error e => (.error (ofStorage e), store, absent)
  | .ok state =>
    match operation state with
    | (.error e, _, beside) => (.error e, store, beside)
    | (.ok value, state, beside) => (.ok value, save store state, beside)

end Store

end TwoWayPeg
