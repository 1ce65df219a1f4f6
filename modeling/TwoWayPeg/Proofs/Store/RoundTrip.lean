import TwoWayPeg.Peg.Operation
import TwoWayPeg.Proofs.Store.Forms
import TwoWayPeg.Store.Basic

/-!
# Running through the store

A saved state is loaded again, whatever the store has held before: each key is either set or
cleared, and what is set is read back from its text. So procedures that are run on a store, each of
them loading the state and saving it, answer what they answer in memory, and leave the same.

There is one exception. A whitelist entry that allows any number of locks without a total can be
saved but not loaded, and once such an entry has been saved, no procedure is run on the store any
more.

* `Store.load_save`: what is loaded after a state has been saved.
* `Store.stored_save`: one procedure on a saved state.
* `Store.runs_as_in_memory`: any number of procedures.
-/

namespace TwoWayPeg

/-- A state whose transactions can all be recorded. -/
structure State.Recordable (s : State) : Prop where
  waiting : ∀ w ∈ s.waiting, w.transaction.Legible Persisted.maxTransactionSize
  pending : ∀ tx ∈ s.pending.values, tx.Legible Persisted.maxTransactionSize

namespace Store

open Persisted (Form Kept Faithful toJson ofJson?)

/-! ### Envelopes -/

/-- The envelope of a plain form is opened. -/
theorem parse?_enclose {j : Json} (h : j.Plain) :
    (Json.parse? (enclose j)).bind (Json.fullRecord? ["version", "data"]) =
      some [.natural version, j] := by
  have hplain : (Json.obj [("version", .natural version), ("data", j)]).Plain := by
    have hversion : (Json.natural version).Plain := .natural version (by decide)
    apply Persisted.plain_obj
    simp [hversion, h]
  rw [enclose, Json.parse?_compact hplain, Option.bind_some]
  exact Json.fullRecord?_obj rfl (by decide)

/-- **Data that is read back is disclosed from its envelope.** -/
theorem disclose_enclose {α : Type} {read : Json → Option α} {j : Json} {x : α}
    (h : Form read j x) (key : String) : disclose read key (enclose j) = .ok x := by
  rw [disclose, parse?_enclose h.plain]
  simp only [Json.naturalBelow?, h.read_eq]
  rfl

/-- Data that is not read back is reported under its key. -/
theorem disclose_enclose_eq_error {α : Type} {read : Json → Option α} {j : Json}
    (hplain : j.Plain) (h : read j = none) (key : String) :
    disclose read key (enclose j) = .error (.unreadable key) := by
  rw [disclose, parse?_enclose hplain]
  simp only [h]
  split
  · next hread => cases hread
  · rfl

/-! ### What is written is found -/

/-- A change decides what is found under its key. -/
theorem get?_put_self (store : Store) (change : String × Option String) :
    (put store change).get? change.1 = change.2 := by
  obtain ⟨key, text⟩ := change
  cases text with
  | none => exact SortedMap.get?_erase_self store key
  | some text => exact SortedMap.get?_insert_self store key text

/-- A change leaves other keys alone. -/
theorem get?_put_of_ne (store : Store) {change : String × Option String} {key : String}
    (h : key ≠ change.1) : (put store change).get? key = store.get? key := by
  obtain ⟨key', text⟩ := change
  cases text with
  | none => exact SortedMap.get?_erase_ne store h
  | some text => exact SortedMap.get?_insert_ne store text h

/-- A batch leaves all keys alone that it does not name. -/
theorem get?_write_of_notMem (store : Store) {batch : Batch} {key : String}
    (h : key ∉ batch.map Prod.fst) : (write store batch).get? key = store.get? key := by
  induction batch generalizing store with
  | nil => rfl
  | cons change batch ih =>
    rw [List.map_cons, List.mem_cons, not_or] at h
    exact (ih (put store change) h.2).trans (get?_put_of_ne store h.1)

/-- **A batch decides what is found under its keys**, whatever was there before. -/
theorem get?_write (store : Store) {batch : Batch} (hkeys : (batch.map Prod.fst).Nodup)
    {change : String × Option String} (h : change ∈ batch) :
    (write store batch).get? change.1 = change.2 := by
  induction batch generalizing store with
  | nil => cases h
  | cons first batch ih =>
    rw [List.map_cons, List.nodup_cons] at hkeys
    rcases List.mem_cons.mp h with rfl | h
    · exact (get?_write_of_notMem (put store change) hkeys.1).trans (get?_put_self store change)
    · exact ih (put store first) hkeys.2 h

/-! ### A saved state is loaded -/

section

variable {store : Store} {s : State} {key : String}

/-- No key is written twice. -/
theorem nodup_batchOf (s : State) : ((batchOf s).map Prod.fst).Nodup := by
  simp only [batchOf, List.map_cons, List.map_nil]
  decide

/-- What a saved state has under a key. -/
theorem get?_save (store : Store) {text : Option String} (h : (key, text) ∈ batchOf s) :
    (save store s).get? key = text :=
  get?_write store (nodup_batchOf s) h

/-- A part that is always there is read back. -/
theorem readOr_save {α : Type} {read : Json → Option α} {absent x : α} {j : Json}
    (hform : Form read j x) (h : (key, some (enclose j)) ∈ batchOf s) :
    readOr (save store s) key read absent = .ok x := by
  rw [readOr, get?_save store h]
  exact disclose_enclose hform key

/-- A part that may be absent is read back. -/
theorem read?_save {α : Type} [Persisted α] [Faithful α] {x : Option α}
    (h : (key, x.map fun x => enclose (toJson x)) ∈ batchOf s) :
    read? (save store s) key = .ok x := by
  rw [read?, readOr, get?_save store h]
  cases x with
  | none => rfl
  | some x =>
    have hform : Form (fun j => (ofJson? j).map some) (toJson x) (some x) :=
      ⟨Persisted.plain_toJson x, by rw [Persisted.ofJson?_toJson, Option.map_some]⟩
    exact disclose_enclose hform key

/-- The whitelist is read back unless an entry allows any number of locks without a total. -/
theorem readOr_whitelist (store : Store) (s : State) :
    readOr (save store s) "lock_whitelist" ofJson? .empty =
      if s.whitelist.isBoundless then .error (.unreadable "lock_whitelist")
      else .ok s.whitelist := by
  have hread := Persisted.ofJson?_whitelist s.whitelist
  have hplain := Persisted.plain_whitelist s.whitelist
  have hfound : (save store s).get? "lock_whitelist" = some (enclose (toJson s.whitelist)) :=
    get?_save store (by simp [batchOf])
  simp only [readOr, hfound]
  cases hbound : s.whitelist.isBoundless with
  | true =>
    rw [hbound, if_pos rfl] at hread
    exact disclose_enclose_eq_error hplain hread _
  | false =>
    rw [hbound, if_neg Bool.false_ne_true] at hread
    exact disclose_enclose ⟨hplain, hread⟩ _

end

/-- What is loaded after a state has been saved: the state, unless its whitelist cannot be read. -/
def readBack (s : State) : Except StorageError State :=
  if s.whitelist.isBoundless then .error (.unreadable "lock_whitelist") else .ok s

/-- **A saved state is loaded again, whatever the store has held before**, unless an entry of its
whitelist allows any number of locks without a total. -/
theorem load_save (store : Store) {s : State} (h : s.Recordable) :
    load (save store s) = readBack s := by
  have hnew : read? (save store s) "new_federation" = .ok s.federations.new :=
    read?_save (by simp [batchOf])
  have hold : read? (save store s) "old_federation" = .ok s.federations.old :=
    read?_save (by simp [batchOf])
  have hpendingFederation : read? (save store s) "pending_federation" = .ok s.federations.pending :=
    read?_save (by simp [batchOf])
  have hnewUtxos : readOr (save store s) "new_federation_utxos" ofJson? [] = .ok s.holdings.new :=
    readOr_save (Faithful.kept _) (by simp [batchOf])
  have holdUtxos : readOr (save store s) "old_federation_utxos" ofJson? [] = .ok s.holdings.old :=
    readOr_save (Faithful.kept _) (by simp [batchOf])
  have hrequests : readOr (save store s) "release_request_queue" Persisted.entriesOfJson? [] =
      .ok s.requests :=
    readOr_save (Persisted.form_entries fun r _ => Faithful.kept r) (by simp [batchOf])
  have hwaiting : readOr (save store s) "release_transaction_set" Persisted.entriesOfJson? [] =
      .ok s.waiting :=
    readOr_save (Persisted.form_entries fun w hw => Persisted.kept_waiting (h.waiting w hw))
      (by simp [batchOf])
  have hpending : readOr (save store s) "pending_signatures" Persisted.pendingOfJson? .empty =
      .ok s.pending :=
    readOr_save (Persisted.form_pending h.pending) (by simp [batchOf])
  have hprocessed : readOr (save store s) "processed_txs" ofJson? .empty = .ok s.processed :=
    readOr_save (Faithful.kept _) (by simp [batchOf])
  have hfee : read? (save store s) "fee_per_kb" = .ok s.feePerKb :=
    read?_save (by simp [batchOf])
  have hfederationElection : readOr (save store s) "federation_election" ofJson? .empty =
      .ok s.federationElection :=
    readOr_save (Faithful.kept _) (by simp [batchOf])
  have hfeeElection : readOr (save store s) "fee_per_kb_election" ofJson? .empty =
      .ok s.feeElection :=
    readOr_save (Faithful.kept _) (by simp [batchOf])
  simp only [load, hnew, hold, hpendingFederation, hnewUtxos, holdUtxos, hrequests, hwaiting,
    hpending, hprocessed, hfee, hfederationElection, hfeeElection, readOr_whitelist, readBack]
  cases s.whitelist.isBoundless <;> rfl

end Store

/-! ### Procedures -/

/-- A procedure on a state and on what is outside of it: the answer, and both as they are left. -/
abbrev Procedure (ε α σ : Type) := State → σ → Except ε α × State × σ

namespace Procedure

variable {ε α σ : Type}

/-- Runs a procedure in memory. What it changes in the state is dropped if it fails. -/
def inMemory (p : Procedure ε α σ) (s : State) (o : σ) : Except ε α × State × σ :=
  match p s o with
  | (.error e, _, o) => (.error e, s, o)
  | (.ok x, s, o) => (.ok x, s, o)

/-- Runs a procedure on a store. -/
def stored (ofStorage : StorageError → ε) (p : Procedure ε α σ) (store : Store) (o : σ) :
    Except ε α × Store × σ :=
  Store.transact ofStorage store o fun s => p s o

/-- Runs procedures one after another, each on what the one before has left. -/
def runAll {κ : Type} (run : Procedure ε α σ → κ → σ → Except ε α × κ × σ) :
    List (Procedure ε α σ) → κ → σ → List (Except ε α) × κ × σ
  | [], k, o => ([], k, o)
  | p :: rest, k, o =>
    let here := run p k o
    let later := runAll run rest here.2.1 here.2.2
    (here.1 :: later.1, later.2)

/-- The state that procedures leave in memory. -/
def leaves (ps : List (Procedure ε α σ)) (s : State) (o : σ) : State := (runAll inMemory ps s o).2.1

/-- Procedures run one after another in two parts. -/
theorem runAll_append {κ : Type} (run : Procedure ε α σ → κ → σ → Except ε α × κ × σ)
    (front back : List (Procedure ε α σ)) (k : κ) (o : σ) :
    runAll run (front ++ back) k o =
      let first := runAll run front k o
      let second := runAll run back first.2.1 first.2.2
      (first.1 ++ second.1, second.2) := by
  induction front generalizing k o with
  | nil => rfl
  | cons p front ih => simp only [List.cons_append, runAll, ih]

end Procedure

/-- An operation of the peg as a procedure. Balances and notices are outside of the state. -/
def Operation.procedure (i : Invocation) (op : Operation) :
    Procedure PegError Answer (Ledger × List Notice) := fun s o =>
  let (answer, w) := run i ⟨s, o.1, o.2⟩ op
  (answer, w.state, w.ledger, w.notices)

/-- Carrying out an operation on a store is running it as a procedure there. -/
theorem Operation.runStored_eq (i : Invocation) (op : Operation) (store : Store) (ledger : Ledger) :
    op.runStored i store ledger = (op.procedure i).stored .storage store (ledger, []) :=
  rfl

namespace Store

open Procedure

variable {ε α σ : Type} (ofStorage : StorageError → ε)

/-- **A procedure on a saved state answers what it answers in memory**, and the store holds what it
leaves. -/
theorem stored_save (store : Store) {s : State} (hrecordable : s.Recordable)
    (hbound : s.whitelist.isBoundless = false) (p : Procedure ε α σ) (o : σ) :
    ∃ store', p.stored ofStorage (save store s) o =
      ((p.inMemory s o).1, save store' (p.inMemory s o).2.1, (p.inMemory s o).2.2) := by
  have hload : load (save store s) = .ok s := by
    rw [load_save store hrecordable, readBack, hbound]
    rfl
  rw [stored, transact, hload]
  simp only [inMemory]
  cases hanswer : p s o with
  | mk answer left =>
    cases answer with
    | error e => exact ⟨store, rfl⟩
    | ok x => exact ⟨save store s, rfl⟩

/-- Nothing is run on a store that cannot be read. -/
theorem runAll_stored_of_load_error {store : Store} {e : StorageError} (h : load store = .error e)
    (ps : List (Procedure ε α σ)) (o : σ) :
    runAll (stored ofStorage) ps store o =
      (List.replicate ps.length (.error (ofStorage e)), store, o) := by
  induction ps with
  | nil => rfl
  | cons p rest ih =>
    have hrefused : p.stored ofStorage store o = (.error (ofStorage e), store, o) := by
      rw [stored, transact, h]
    rw [runAll, hrefused, ih]
    rfl

/-- Procedures on a saved state answer what they answer in memory, as long as what is saved between
them can be read. -/
theorem runAll_stored_save (store : Store) {ps : List (Procedure ε α σ)} {s : State} {o : σ}
    (hrecordable : ∀ front, front <+: ps → (leaves front s o).Recordable)
    (hbound : ∀ front, front <+: ps → front ≠ ps →
      (leaves front s o).whitelist.isBoundless = false) :
    ∃ store', runAll (stored ofStorage) ps (save store s) o =
      ((runAll inMemory ps s o).1, save store' (leaves ps s o), (runAll inMemory ps s o).2.2) := by
  induction ps generalizing store s o with
  | nil => exact ⟨store, rfl⟩
  | cons p rest ih =>
    have hs : s.Recordable := hrecordable [] List.nil_prefix
    have hreadable : s.whitelist.isBoundless = false := hbound [] List.nil_prefix nofun
    obtain ⟨store', hhere⟩ := stored_save ofStorage store hs hreadable p o
    obtain ⟨store'', hlater⟩ := ih store'
      (fun front hfront => hrecordable (p :: front) (List.cons_prefix_cons.mpr ⟨rfl, hfront⟩))
      (fun front hfront hne => hbound (p :: front) (List.cons_prefix_cons.mpr ⟨rfl, hfront⟩)
        fun heq => hne (List.cons.inj heq).2)
    refine ⟨store'', ?_⟩
    rw [runAll, hhere]
    simp only [hlater]
    rfl

/-- **Running through the store is running in memory, until a whitelist is saved that cannot be
read.** A saved state is loaded again whatever the store has held before, and procedures on it answer
what they answer in memory and leave the same. But the text of an entry that allows any number of
locks without a total is not read back: after such an entry has been saved no procedure is run, and
every one is answered with a storage error. -/
theorem runs_as_in_memory (store : Store) (s : State) (o : σ)
    (ps : List (Procedure ε α σ))
    (hrecordable : ∀ front, front <+: ps → (leaves front s o).Recordable) :
    load (save store s) = readBack s ∧
    ((∀ front, front <+: ps → front ≠ ps → (leaves front s o).whitelist.isBoundless = false) →
      ∃ store', runAll (stored ofStorage) ps (save store s) o =
          ((runAll inMemory ps s o).1, store', (runAll inMemory ps s o).2.2) ∧
        load store' = readBack (leaves ps s o)) ∧
    ∀ front back, ps = front ++ back →
      (∀ first, first <+: front → first ≠ front →
        (leaves first s o).whitelist.isBoundless = false) →
      (leaves front s o).whitelist.isBoundless = true →
      ∃ store', runAll (stored ofStorage) ps (save store s) o =
          ((runAll inMemory front s o).1 ++
              List.replicate back.length (.error (ofStorage (.unreadable "lock_whitelist"))),
            store', (runAll inMemory front s o).2.2) ∧
        load store' = .error (.unreadable "lock_whitelist") := by
  refine ⟨load_save store (hrecordable [] List.nil_prefix), ?_, ?_⟩
  · intro hbound
    obtain ⟨store', hrun⟩ := runAll_stored_save ofStorage store hrecordable hbound
    exact ⟨_, hrun, load_save store' (hrecordable ps (List.prefix_refl ps))⟩
  · rintro front back rfl hbound hboundless
    have hfront : ∀ first, first <+: front → (leaves first s o).Recordable := fun first hfirst =>
      hrecordable first (hfirst.trans (List.prefix_append front back))
    obtain ⟨store', hrun⟩ := runAll_stored_save ofStorage store hfront hbound
    have hload : load (save store' (leaves front s o)) = .error (.unreadable "lock_whitelist") := by
      rw [load_save store' (hfront front (List.prefix_refl front)), readBack, hboundless]
      rfl
    refine ⟨save store' (leaves front s o), ?_, hload⟩
    rw [runAll_append, hrun]
    simp only [runAll_stored_of_load_error ofStorage hload]

/-- Someone is listed for any number of locks without a total. -/
def listBoundless : Procedure PegError Unit Unit := fun s o =>
  let entries := s.whitelist.entries.insert ⟨.replicate 20 0⟩ ⟨"listed", .unlimited none⟩
  (.ok (), { s with whitelist := { s.whitelist with entries } }, o)

/-- The state is looked at and left as it is. -/
def look : Procedure PegError Unit Unit := fun s o => (.ok (), s, o)

/-- A new peg that lists someone without a total answers the next question in memory. Kept in a
store, it answers no more. -/
theorem runs_as_in_memory_listBoundless :
    (runAll inMemory [listBoundless, look] .initial ()).1 = [.ok (), .ok ()] ∧
      (runAll (stored PegError.storage) [listBoundless, look] (save .empty .initial) ()).1 =
        [.ok (), .error (.storage (.unreadable "lock_whitelist"))] := by
  have hrecordable : ∀ front, front <+: [listBoundless, look] →
      (leaves front .initial ()).Recordable := by
    intro front hfront
    have hwaiting : (leaves front .initial ()).waiting = [] ∧
        (leaves front .initial ()).pending = .empty := by
      rcases List.prefix_cons_iff.mp hfront with rfl | ⟨later, rfl, hlater⟩
      · exact ⟨rfl, rfl⟩
      rcases List.prefix_cons_iff.mp hlater with rfl | ⟨last, rfl, hlast⟩
      · exact ⟨rfl, rfl⟩
      rw [List.prefix_nil] at hlast
      subst hlast
      exact ⟨rfl, rfl⟩
    constructor
    · rw [hwaiting.1]
      nofun
    · rw [hwaiting.2]
      nofun
  have hruns := (runs_as_in_memory PegError.storage .empty .initial ()
    [listBoundless, look] hrecordable).2.2
  obtain ⟨store', hanswers, -⟩ := hruns [listBoundless] [look] rfl
    (by
      intro first hfirst hne
      rcases List.prefix_cons_iff.mp hfirst with rfl | ⟨later, rfl, hlater⟩
      · rfl
      · rw [List.prefix_nil.mp hlater] at hne
        exact absurd rfl hne)
    rfl
  refine ⟨rfl, ?_⟩
  rw [hanswers]
  rfl

end Store

end TwoWayPeg
