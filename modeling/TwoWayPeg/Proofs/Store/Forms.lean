import TwoWayPeg.Proofs.Bitcoin.Writing
import TwoWayPeg.Proofs.Json.Reading
import TwoWayPeg.Proofs.SortedMap
import TwoWayPeg.Store.Persisted

/-!
# Persisted forms are read back

The form of a value is *faithful* if it is made of texts, truth values and whole numbers of 64 bits,
so that its text is read as the form, and if the value is read back from it. Most types have
faithful forms for all their values. A transaction has one if it is legible, and so have the records
that hold transactions.

An entry of the whitelist that allows any number of locks without a total is the exception: it is
written with nothing in place of the total, and where there is a field for the total an amount is
asked for.

* `Json.fullRecord?_obj`: a record is taken apart into the values of its fields.
* `Persisted.kept_list`, `Persisted.kept_ofMap`: lists and maps of values with faithful forms.
* `Persisted.kept_transaction`: a legible transaction is read back.
* `Persisted.ofJson?_whitelist`: a whitelist is read back unless it has an unlimited entry without a
  total.
-/

namespace TwoWayPeg

/-! ### Records are taken apart -/

/-- Items that are all accepted give the list of what they stand for. -/
theorem mapM_map_eq_some {α β γ : Type} {read : β → Option γ} {form : α → β} {value : α → γ}
    {xs : List α} (h : ∀ x ∈ xs, read (form x) = some (value x)) :
    (xs.map form).mapM read = some (xs.map value) := by
  induction xs with
  | nil => rfl
  | cons x xs ih =>
    have hx := h x List.mem_cons_self
    have hxs := ih fun y hy => h y (List.mem_cons_of_mem x hy)
    simp only [List.map_cons, List.mapM_cons, hx, hxs, Option.bind_eq_bind, Option.bind_some,
      Option.pure_def]

/-- An item that is not accepted spoils the list. -/
theorem mapM_eq_none {β γ : Type} {read : β → Option γ} {ys : List β} {y : β} (hy : y ∈ ys)
    (h : read y = none) : ys.mapM read = none := by
  induction ys with
  | nil => cases hy
  | cons z ys ih =>
    rw [List.mapM_cons]
    rcases List.mem_cons.mp hy with rfl | hy
    · rw [h]
      rfl
    · rw [ih hy]
      cases read z <;> rfl

namespace Json

/-- A field that stands once has its value. -/
theorem single?_of_mem {fields : List (String × Json)} (hnames : (fields.map Prod.fst).Nodup)
    {field : String × Json} (h : field ∈ fields) : single? field.1 fields = some (some field.2) := by
  have hvalues : valuesOf field.1 fields = [field.2] := by
    induction fields with
    | nil => cases h
    | cons first rest ih =>
      rw [List.map_cons, List.nodup_cons] at hnames
      rcases List.mem_cons.mp h with rfl | h
      · have hrest : valuesOf field.1 rest = [] := by
          rw [valuesOf, List.filterMap_eq_nil_iff]
          intro other hother
          refine if_neg fun heq => hnames.1 ?_
          exact List.mem_map.mpr ⟨other, hother, heq⟩
        simpa [valuesOf] using hrest
      · have hne : first.1 ≠ field.1 := fun heq =>
          hnames.1 (heq ▸ List.mem_map_of_mem h)
        have hrest := ih hnames.2 h
        simpa [valuesOf, hne] using hrest
  rw [single?, hvalues]

/-- **A record is taken apart into the values of its fields**, with the names in the order of the
fields. -/
theorem record?_obj {names : List String} {fields : List (String × Json)}
    (hfields : fields.map Prod.fst = names) (hnames : names.Nodup) :
    record? names (.obj fields) = some (fields.map fun f => some f.2) := by
  subst hfields
  exact mapM_map_eq_some fun f hf => single?_of_mem hnames hf

/-- No field is missing from a record that is written with all of them. -/
theorem fullRecord?_obj {names : List String} {fields : List (String × Json)}
    (hfields : fields.map Prod.fst = names) (hnames : names.Nodup) :
    fullRecord? names (.obj fields) = some (fields.map Prod.snd) := by
  rw [fullRecord?, record?_obj hfields hnames, Option.bind_some]
  exact mapM_map_eq_some fun _ _ => rfl

end Json

namespace Persisted

/-! ### Faithful forms -/

/-- A plain form that is read as the value. -/
structure Form {α : Type} (read : Json → Option α) (j : Json) (x : α) : Prop where
  /-- The form is plain. -/
  plain : j.Plain
  /-- It is read as the value. -/
  read_eq : read j = some x

/-- The form of the value is plain and read back. -/
abbrev Kept {α : Type} [Persisted α] (x : α) : Prop := Form ofJson? (toJson x) x

/-- A type of values that all have faithful forms. -/
class Faithful (α : Type) [Persisted α] : Prop where
  /-- Every value is kept. -/
  kept : ∀ x : α, Kept x

/-- A value with a faithful form is read from it. -/
@[simp] theorem ofJson?_toJson {α : Type} [Persisted α] [Faithful α] (x : α) :
    ofJson? (toJson x) = some x :=
  (Faithful.kept x).read_eq

/-- A faithful form is plain. -/
@[simp] theorem plain_toJson {α : Type} [Persisted α] [Faithful α] (x : α) :
    (toJson x).Plain :=
  (Faithful.kept x).plain

/-- Texts that are read back make faithful forms. -/
theorem faithful_ofText {α : Type} {text : α → String} {ofText? : String → Option α}
    (h : ∀ x, ofText? (text x) = some x) : @Faithful α (ofText text ofText?) :=
  @Faithful.mk α (ofText text ofText?) fun x => ⟨.str _, h x⟩

/-- Texts stand for themselves. -/
instance : Faithful String := faithful_ofText fun _ => rfl

/-- Byte strings are read back from their digits. -/
instance : Faithful Bytes := faithful_ofText fun b => by
  simp [Hex.decode?, Hex.decode_encode, Except.toOption]

/-- Names of transactions are read back from their texts. -/
instance : Faithful Txid := faithful_ofText Txid.ofText?_text

/-- Keys are read back from the digits of their bytes. -/
instance : Faithful PublicKey := faithful_ofText fun k => by
  simp [PublicKey.ofText?, PublicKey.text, Hex.decode?, Hex.decode_encode, Except.toOption]

/-- Accounts are read back from their texts. -/
instance : Faithful HostAddress := faithful_ofText fun a => by
  simp [HostAddress.ofText_text, Except.toOption]

/-- Truth values stand for themselves. -/
instance : Faithful Bool where
  kept b := ⟨.bool b, rfl⟩

/-- Words of 32 bits are whole numbers below the bound that is read. -/
instance : Faithful UInt32 where
  kept n := by
    have hlt : n.toNat < UInt32.size := n.toNat_lt
    exact ⟨.natural _ (Nat.lt_trans hlt (by decide)), by
      simp [toJson, ofJson?, Json.naturalBelow?, hlt]⟩

/-- Words of 64 bits are whole numbers below the bound that is read. -/
instance : Faithful UInt64 where
  kept n := by
    have hlt : n.toNat < UInt64.size := n.toNat_lt
    exact ⟨.natural _ hlt, by simp [toJson, ofJson?, Json.naturalBelow?, hlt]⟩

/-- Amounts are numbers of satoshis that fit. -/
instance : Faithful Amount where
  kept a := ⟨.natural _ a.sats_lt, by simp [toJson, ofJson?, Json.naturalBelow?, a.sats_lt]⟩

/-- Networks are read back from their names. -/
instance : Faithful Network where
  kept n := ⟨.str _, Network.ofName?_name n⟩

/-- **A legible transaction is kept.** -/
theorem kept_transaction {tx : Transaction} (h : tx.Legible maxTransactionSize) : Kept tx where
  plain := .str _
  read_eq := by
    have hlength : ¬ maxTransactionSize < tx.encode.length := Nat.not_lt.mpr h.length
    have hread := Transaction.decode?_encode (by decide) h
    simp [toJson, ofJson?, Json.text?, transactionOfText?, Hex.decode?, Hex.decode_encode,
      Except.toOption, hlength, hread]

/-! ### Lists, maps and sets -/

section

variable {α : Type} [Persisted α]

/-- **A list of kept values is kept.** -/
theorem kept_list {xs : List α} (h : ∀ x ∈ xs, Kept x) : Kept xs where
  plain := by
    apply Json.Plain.arr
    intro j hj
    obtain ⟨x, hx, rfl⟩ := List.mem_map.mp hj
    exact (h x hx).plain
  read_eq := by
    have hread : (xs.map toJson).mapM ofJson? = some (xs.map id) :=
      mapM_map_eq_some fun x hx => (h x hx).read_eq
    rw [List.map_id] at hread
    exact hread

/-- Lists of faithful values are faithful. -/
instance [Faithful α] : Faithful (List α) where
  kept _ := kept_list fun x _ => Faithful.kept x

/-- A value or nothing is kept, if the form of the value is not that of nothing. -/
theorem kept_option {x : Option α} (h : ∀ y ∈ x, Kept y ∧ toJson y ≠ .null) : Kept x := by
  cases x with
  | none => exact ⟨.null, rfl⟩
  | some y =>
    obtain ⟨hkept, hnull⟩ := h y rfl
    refine ⟨hkept.plain, ?_⟩
    have hread : ofJson? (toJson (some y)) = (ofJson? (toJson y)).map (some : α → Option α) := by
      unfold ofJson? instOption
      dsimp only
      split
      · next heq => exact absurd heq hnull
      · rfl
    rw [hread, hkept.read_eq, Option.map_some]

/-- A word that may be missing is never mistaken for nothing. -/
instance : Faithful (Option UInt32) where
  kept _ := kept_option fun y _ => ⟨Faithful.kept y, nofun⟩

variable {κ : Type} [KeyOrder κ]

/-- **A map of kept values under keys that are read back is kept.** -/
theorem kept_ofMap (text : κ → String) (ofText? : String → Option κ)
    (htext : ∀ k, ofText? (text k) = some k) {m : SortedMap κ α}
    (h : ∀ e ∈ m.entries, Kept e.2) : @Kept _ (ofMap text ofText?) m where
  plain := by
    apply Json.Plain.obj
    intro f hf
    obtain ⟨e, he, rfl⟩ := List.mem_map.mp hf
    exact (h e he).plain
  read_eq := by
    have hread : (m.entries.map fun e => (text e.1, toJson e.2)).mapM (fun f =>
        (ofText? f.1).bind fun k => (ofJson? f.2).map fun v => (k, v)) =
          some (m.entries.map id) :=
      mapM_map_eq_some fun e he => by
        simp only [htext, (h e he).read_eq, Option.bind_some, Option.map_some, id]
    rw [List.map_id] at hread
    refine (congrArg (Option.map SortedMap.ofList) hread).trans ?_
    rw [Option.map_some, SortedMap.ofList_entries]

/-- A map with a value that is not read back is not read back. -/
theorem ofJson?_ofMap_eq_none (text : κ → String) (ofText? : String → Option κ)
    {m : SortedMap κ α} {e : κ × α} (he : e ∈ m.entries)
    (h : (ofJson? (toJson e.2) : Option α) = none) :
    @ofJson? (SortedMap κ α) (ofMap text ofText?) (@toJson _ (ofMap text ofText?) m) = none := by
  have hread : (m.entries.map fun e => (text e.1, toJson e.2)).mapM (fun f =>
      (ofText? f.1).bind fun k => (ofJson? f.2 : Option α).map fun v => (k, v)) = none := by
    apply mapM_eq_none (List.mem_map_of_mem he)
    simp only [h, Option.map_none, Option.bind_fun_none]
  exact congrArg (Option.map SortedMap.ofList) hread

end

/-- Sets of accounts are read back from their lists. -/
instance : Faithful (SortedSet HostAddress) where
  kept s := by
    have hkept : Kept s.keys := Faithful.kept s.keys
    refine ⟨hkept.plain, ?_⟩
    have hread : (Json.items? (.arr (s.keys.map toJson))).bind (fun items =>
        items.mapM (ofJson? : Json → Option HostAddress)) = some s.keys := hkept.read_eq
    simp only [toJson, ofJson?] at hread ⊢
    rw [hread, Option.map_some, SortedSet.ofElements_keys]

/-- Host blocks are read back under the transactions they recorded. -/
instance : Faithful (SortedMap Txid UInt64) where
  kept _ := kept_ofMap Txid.text Txid.ofText? Txid.ofText?_text fun e _ => Faithful.kept e.2

/-! ### Records -/

/-- A record is plain if the values of its fields are. -/
theorem plain_obj {fields : List (String × Json)} (h : ∀ j ∈ fields.map Prod.snd, j.Plain) :
    (Json.obj fields).Plain :=
  .obj fields fun f hf => h f.2 (List.mem_map_of_mem hf)

/-- Members are read back from their three keys. -/
instance : Faithful Member where
  kept m := by
    refine ⟨plain_obj (by simp), ?_⟩
    unfold ofJson? toJson instMember
    dsimp only
    rw [Json.fullRecord?_obj (by rfl) (by decide)]
    simp

/-- Federations are read back as they were recorded. -/
instance : Faithful Federation where
  kept f := by
    refine ⟨plain_obj (by simp), ?_⟩
    unfold ofJson? toJson instFederation
    dsimp only
    rw [Json.fullRecord?_obj (by rfl) (by decide)]
    simp

/-- Pending federations are read back from their members. -/
instance : Faithful PendingFederation where
  kept p := by
    refine ⟨plain_obj (by simp), ?_⟩
    unfold ofJson? toJson instPendingFederation
    dsimp only
    rw [Json.fullRecord?_obj (by rfl) (by decide)]
    simp

/-- Outputs are read back from their six fields. -/
instance : Faithful Utxo where
  kept u := by
    refine ⟨plain_obj (by simp), ?_⟩
    unfold ofJson? toJson instUtxo
    dsimp only
    rw [Json.fullRecord?_obj (by rfl) (by decide)]
    simp

/-- Requests are read back from their destination and amount. -/
instance : Faithful ReleaseRequest where
  kept r := by
    refine ⟨plain_obj (by simp), ?_⟩
    unfold ofJson? toJson instReleaseRequest
    dsimp only
    rw [Json.fullRecord?_obj (by rfl) (by decide)]
    simp

/-- Calls are read back from their function and its arguments. -/
instance : Faithful CallSpec where
  kept c := by
    refine ⟨plain_obj (by simp), ?_⟩
    unfold ofJson? toJson instCallSpec
    dsimp only
    rw [Json.fullRecord?_obj (by rfl) (by decide)]
    simp

/-- A list that is the only field of a record is read back with its values. -/
theorem form_entries {α : Type} [Persisted α] {xs : List α} (h : ∀ x ∈ xs, Kept x) :
    Form entriesOfJson? (entriesToJson xs) xs where
  plain := plain_obj (by simp [(kept_list h).plain])
  read_eq := by
    rw [entriesOfJson?, entriesToJson, Json.fullRecord?_obj (by rfl) (by decide)]
    exact (kept_list h).read_eq

/-- A waiting transaction is kept, if it is legible. -/
theorem kept_waiting {w : WaitingTransaction} (h : w.transaction.Legible maxTransactionSize) :
    Kept w where
  plain := plain_obj (by simp [(kept_transaction h).plain])
  read_eq := by
    have htx := (kept_transaction h).read_eq
    unfold ofJson? toJson instWaitingTransaction
    dsimp only
    rw [Json.fullRecord?_obj (by rfl) (by decide)]
    simp [htx]

/-- The transactions that signatures are collected for are read back, if they are legible. -/
theorem form_pending {p : PendingSignatures}
    (h : ∀ tx ∈ p.values, tx.Legible maxTransactionSize) :
    Form pendingOfJson? (pendingToJson p) p := by
  have hkey : ∀ k : HostTxHash, (HostTxHash.ofText k.text).toOption = some k := by
    intro k
    rw [HostTxHash.ofText_text]
    rfl
  have hmap : Kept p := by
    apply kept_ofMap HostTxHash.text (fun s => (HostTxHash.ofText s).toOption) hkey
    intro e he
    have hlegible := h e.2 (List.mem_map_of_mem (f := Prod.snd) he)
    exact kept_transaction hlegible
  refine ⟨plain_obj (by simp [hmap.plain]), ?_⟩
  rw [pendingOfJson?, pendingToJson, Json.fullRecord?_obj (by rfl) (by decide)]
  exact hmap.read_eq

/-- A ballot is read back. -/
theorem form_ballot (b : CallSpec × SortedSet HostAddress) :
    Form ballotOfJson? (.obj [("spec", toJson b.1), ("voters", toJson b.2)]) b where
  plain := plain_obj (by simp)
  read_eq := by
    rw [ballotOfJson?, Json.fullRecord?_obj (by rfl) (by decide)]
    simp

/-- Elections are read back from their ballots. -/
instance : Faithful Election where
  kept e := by
    constructor
    · apply Json.Plain.arr
      intro j hj
      obtain ⟨b, -, rfl⟩ := List.mem_map.mp hj
      exact (form_ballot b).plain
    · have hread : (e.ballots.entries.map fun b =>
          Json.obj [("spec", toJson b.1), ("voters", toJson b.2)]).mapM ballotOfJson? =
            some (e.ballots.entries.map id) :=
        mapM_map_eq_some fun b _ => (form_ballot b).read_eq
      rw [List.map_id] at hread
      refine (congrArg (Option.map fun ballots => Election.mk (SortedMap.ofList ballots))
        hread).trans ?_
      rw [Option.map_some, SortedMap.ofList_entries]

end Persisted

/-! ### The whitelist -/

/-- Whether any number of locks is allowed without a total. -/
def Allowance.isBoundless : Allowance → Bool
  | .unlimited none => true
  | _ => false

/-- Whether an entry allows any number of locks without a total. -/
def Whitelist.isBoundless (w : Whitelist) : Bool :=
  w.entries.values.any fun e => e.allowance.isBoundless

namespace Persisted

/-- The fields of a one-off allowance are read back. -/
theorem allowanceOfFields?_oneOff (address : String) (maxValue : Amount) (uses : UInt32) :
    allowanceOfFields? [("address", toJson address), ("type", .str "one_off"),
      ("max_transfer_value", toJson maxValue), ("remaining_uses", toJson uses)] =
        some (.oneOff maxValue uses) := by
  simp [allowanceOfFields?, Json.single?, Json.valuesOf, isOneOff?]

/-- The fields of an unlimited allowance are read back if there is a total, and refused if there is
none. -/
theorem allowanceOfFields?_unlimited (address : String) (capacity : Option Amount) :
    allowanceOfFields? [("address", toJson address), ("type", .str "unlimited"),
      ("remaining_capacity", toJson capacity)] =
        capacity.map fun total => .unlimited (some total) := by
  have hnothing : (ofJson? (toJson (none : Option Amount)) : Option Amount) = none := rfl
  have htotal : ∀ total : Amount, toJson (some total) = toJson total := fun _ => rfl
  cases capacity with
  | none => simp [allowanceOfFields?, Json.single?, Json.valuesOf, isOneOff?, hnothing]
  | some total => simp [allowanceOfFields?, Json.single?, Json.valuesOf, isOneOff?, htotal]

/-- **An entry is read back unless it allows any number of locks without a total**, and then it is
refused. -/
theorem ofJson?_entry (e : WhitelistEntry) :
    ofJson? (toJson e) = if e.allowance.isBoundless then none else some e := by
  obtain ⟨address, allowance⟩ := e
  have htext : ∀ s : String, (Json.str s).fits (Json.maxNesting - entryNesting) = true :=
    fun _ => rfl
  cases allowance with
  | oneOff maxValue uses =>
    have hvalue : (toJson maxValue).fits (Json.maxNesting - entryNesting) = true := rfl
    have huses : (toJson uses).fits (Json.maxNesting - entryNesting) = true := rfl
    unfold ofJson? toJson instWhitelistEntry
    dsimp only [guard]
    simp [Json.fields?, Json.single?, Json.valuesOf, htext, hvalue, huses,
      allowanceOfFields?_oneOff, Allowance.isBoundless]
  | unlimited capacity =>
    have hcapacity : (toJson capacity).fits (Json.maxNesting - entryNesting) = true := by
      cases capacity <;> rfl
    unfold ofJson? toJson instWhitelistEntry
    dsimp only [guard]
    cases capacity <;>
      simp [Json.fields?, Json.single?, Json.valuesOf, htext, hcapacity,
        allowanceOfFields?_unlimited, Allowance.isBoundless]

/-- The form of an entry is plain. -/
theorem plain_entry (e : WhitelistEntry) : (toJson e).Plain := by
  obtain ⟨address, allowance⟩ := e
  apply plain_obj
  cases allowance with
  | oneOff maxValue uses => simp [Json.Plain.str]
  | unlimited capacity =>
    have hcapacity : (toJson capacity).Plain := by
      cases capacity with
      | none => exact .null
      | some total => exact plain_toJson total
    simp [Json.Plain.str, hcapacity]

/-- The entries of a whitelist are read back unless one of them is refused. -/
theorem ofJson?_entries (w : Whitelist) :
    ofJson? (toJson w.entries) = if w.isBoundless then none else some w.entries := by
  cases hbound : w.isBoundless with
  | true =>
    obtain ⟨entry, hentry, hboundless⟩ := List.any_eq_true.mp hbound
    obtain ⟨e, he, rfl⟩ := List.mem_map.mp hentry
    refine ofJson?_ofMap_eq_none KeyHash.text KeyHash.ofText? he ?_
    rw [ofJson?_entry, if_pos hboundless]
  | false =>
    refine (kept_ofMap KeyHash.text KeyHash.ofText? KeyHash.ofText?_text ?_).read_eq
    intro e he
    have hnot := List.any_eq_false.mp hbound e.2 (List.mem_map_of_mem (f := Prod.snd) he)
    exact ⟨plain_entry e.2, by rw [ofJson?_entry, if_neg hnot]⟩

/-- The form of a whitelist is plain. -/
theorem plain_whitelist (w : Whitelist) : (toJson w).Plain := by
  have hentries : (toJson w.entries).Plain := by
    apply Json.Plain.obj
    intro f hf
    obtain ⟨e, -, rfl⟩ := List.mem_map.mp hf
    exact plain_entry e.2
  exact plain_obj (by simp [hentries])

/-- **A whitelist is read back unless an entry allows any number of locks without a total**, and
then it is refused. -/
theorem ofJson?_whitelist (w : Whitelist) :
    ofJson? (toJson w) = if w.isBoundless then none else some w := by
  have hentries := ofJson?_entries w
  unfold ofJson? toJson instWhitelist
  dsimp only
  rw [Json.record?_obj (by rfl) (by decide)]
  cases hbound : w.isBoundless <;> simp [optional?, hentries, hbound]

end Persisted

end TwoWayPeg
