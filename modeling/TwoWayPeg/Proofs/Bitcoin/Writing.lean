import TwoWayPeg.Proofs.Bitcoin.Reading
import TwoWayPeg.Proofs.Bitcoin.Size

/-!
# Written bytes are read back

A reader *restores* a value when it takes the written form of the value from the front of any input
and leaves the rest. Counts are restored as far as eight bytes go, and so is everything behind a
count that is no longer than that.

* `CompactSize.read_restores`, `Reader.list_restores`: counts and counted lists.
* `Transaction.decode?_encode`: a transaction with inputs and without witnesses is read back from its
  bytes.
-/

namespace TwoWayPeg

namespace Reader

variable {α : Type} {item : Reader α} {encode : α → Bytes}

/-- The reader takes the written form of the value from the front of any input. -/
def Restores (r : Reader α) (encode : α → Bytes) (x : α) : Prop :=
  ∀ rest, r (encode x ++ rest) = some (x, rest)

/-- Bytes of a fixed length are read as they stand. -/
theorem fixed_restores {n : Nat} (a : FixedBytes n) : (fixed n).Restores FixedBytes.toList a := by
  intro rest
  have htake : (a.toList ++ rest).take n = a.toList := List.take_left' a.length_eq
  have hdrop : (a.toList ++ rest).drop n = rest := List.drop_left' a.length_eq
  rw [fixed, htake, hdrop, FixedBytes.ofList?_toList, Option.map_some]

/-- A number that fits its width is read back. -/
theorem number_restores (width : Nat) {n : Nat} (h : n < Bytes.capacity width) :
    (number width).Restores (Bytes.ofNatLE width) n := by
  intro rest
  have htake : take width (Bytes.ofNatLE width n ++ rest) = some (Bytes.ofNatLE width n, rest) :=
    take_eq_some_iff.mpr ⟨rfl, Bytes.length_ofNatLE width n⟩
  rw [number, htake, Option.map_some, Bytes.toNatLE_ofNatLE h]

/-- Values that stand one after another are read one after another. -/
theorem list_restores {xs : List α} (h : ∀ x ∈ xs, item.Restores encode x) :
    (list item xs.length).Restores (fun xs => xs.flatMap encode) xs := by
  induction xs with
  | nil => exact fun rest => rfl
  | cons x xs ih =>
    intro rest
    have hx := h x List.mem_cons_self (xs.flatMap encode ++ rest)
    have hxs := ih (fun y hy => h y (List.mem_cons_of_mem x hy)) rest
    simp only [List.flatMap_cons, List.append_assoc, List.length_cons, list, hx]
    rw [hxs]

end Reader

/-! ### Counts -/

namespace CompactSize

/-- The numbers that a count can be. -/
abbrev limit : Nat := Bytes.capacity 8

/-- A longer form is read where it is needed. -/
theorem readAbove_ofNatLE (width : Nat) {least n : Nat} (hleast : least ≤ n)
    (h : n < Bytes.capacity width) (rest : Bytes) :
    readAbove width least (Bytes.ofNatLE width n ++ rest) = some (n, rest) := by
  have hnumber := Reader.number_restores width h rest
  simp only [readAbove, hnumber, if_neg (Nat.not_lt.mpr hleast)]

/-- **A count of at most eight bytes is read back.** -/
theorem read_restores {n : Nat} (h : n < limit) : Reader.Restores read encode n := by
  intro rest
  unfold encode
  split
  case isTrue hsmall =>
    have hbyte : (UInt8.ofNat n).toNat = n := by
      rw [UInt8.toNat_ofNat']
      omega
    have hmark : ∀ mark : UInt8, 0xFD ≤ mark.toNat → UInt8.ofNat n ≠ mark := by
      rintro mark hmark rfl
      omega
    simp only [List.cons_append, List.nil_append, read, hbyte, if_neg (hmark 0xFD (by decide)),
      if_neg (hmark 0xFE (by decide)), if_neg (hmark 0xFF (by decide))]
  split
  case isTrue hlarge hmedium =>
    rw [List.cons_append, read, if_pos rfl]
    exact readAbove_ofNatLE 2 (by omega) hmedium rest
  split
  case isTrue _ hmedium hlarge =>
    rw [List.cons_append, read, if_neg (by decide), if_pos rfl]
    exact readAbove_ofNatLE 4 (by omega) hlarge rest
  case isFalse _ hmedium hlarge =>
    rw [List.cons_append, read, if_neg (by decide), if_neg (by decide), if_pos rfl]
    exact readAbove_ofNatLE 8 (by omega) h rest

/-- Bytes that a count can announce are read back. -/
theorem readBytes_restores {b : Bytes} (h : b.length < limit) :
    Reader.Restores readBytes encodeBytes b := by
  intro rest
  have hcount := read_restores h (b ++ rest)
  have htake : Reader.take b.length (b ++ rest) = some (b, rest) :=
    Reader.take_eq_some_iff.mpr ⟨rfl, rfl⟩
  rw [encodeBytes, List.append_assoc, readBytes, hcount]
  exact htake

end CompactSize

/-! ### Transactions -/

namespace Transaction

/-- A word is read back. -/
theorem readWord_restores (w : UInt32) : Reader.Restores readWord wordBytes w := by
  intro rest
  have hnumber := Reader.number_restores 4 w.toNat_lt rest
  rw [readWord, wordBytes, hnumber, Option.map_some, UInt32.ofNat_toNat]

/-- An outpoint is read back. -/
theorem readOutPoint_restores (o : OutPoint) : Reader.Restores readOutPoint OutPoint.encode o := by
  intro rest
  have htxid := Reader.fixed_restores o.txid.bytes (wordBytes o.vout ++ rest)
  simp only [readOutPoint, OutPoint.encode, List.append_assoc, htxid, readWord_restores o.vout rest,
    Option.map_some]

/-- An input without a witness is read back, if its script can be announced. -/
theorem readInput_restores {i : TxIn} (hscript : i.scriptSig.length < CompactSize.limit)
    (hwitness : i.witness = []) : Reader.Restores readInput TxIn.encode i := by
  intro rest
  have hprevious := readOutPoint_restores i.previous
    (CompactSize.encodeBytes i.scriptSig ++ (wordBytes i.sequence ++ rest))
  have hread := CompactSize.readBytes_restores hscript (wordBytes i.sequence ++ rest)
  simp only [readInput, TxIn.encode, List.append_assoc, hprevious, hread,
    readWord_restores i.sequence rest, Option.map_some, ← hwitness]

/-- An output is read back, if its script can be announced. -/
theorem readOutput_restores {o : TxOut} (hscript : o.script.length < CompactSize.limit) :
    Reader.Restores readOutput TxOut.encode o := by
  intro rest
  have hvalue := Reader.number_restores 8 o.value.sats_lt
    (CompactSize.encodeBytes o.script ++ rest)
  have hread := CompactSize.readBytes_restores hscript rest
  simp only [readOutput, TxOut.encode, List.append_assoc, hvalue, Amount.ofNat?_sats, hread,
    Option.map_some]

/-- A list is read back, if its items are and a count can announce it. -/
theorem readCounted_restores {α : Type} {item : Reader α} {encode : α → Bytes} {xs : List α}
    (hlength : xs.length < CompactSize.limit) (hitems : ∀ x ∈ xs, item.Restores encode x) :
    (readCounted item).Restores
      (fun xs => CompactSize.encode xs.length ++ xs.flatMap encode) xs := by
  intro rest
  have hcount := CompactSize.read_restores hlength (xs.flatMap encode ++ rest)
  simp only [readCounted, List.append_assoc, hcount]
  exact Reader.list_restores hitems rest

/-- There are no more items than bytes that they take up. -/
theorem count_le_length_flatMap {α : Type} (encode : α → Bytes) {xs : List α}
    (h : ∀ x ∈ xs, 0 < (encode x).length) : xs.length ≤ (xs.flatMap encode).length := by
  induction xs with
  | nil => exact Nat.zero_le _
  | cons x xs ih =>
    have hx := h x List.mem_cons_self
    have hxs := ih fun y hy => h y (List.mem_cons_of_mem x hy)
    rw [List.flatMap_cons, List.length_append, List.length_cons]
    omega

/-- A transaction that can be written down and read back: it spends something, has no witness and
takes no more bytes than a record admits. -/
structure Legible (most : Nat) (tx : Transaction) : Prop where
  inputs : tx.inputs ≠ []
  witness : ∀ i ∈ tx.inputs, i.witness = []
  length : tx.encode.length ≤ most

/-- A transaction with inputs and without witnesses has the plain form. -/
theorem encode_eq_plain {tx : Transaction} (hinputs : tx.inputs ≠ [])
    (hwitness : ∀ i ∈ tx.inputs, i.witness = []) : tx.encode = tx.encodePlain := by
  have hempty : tx.inputs.isEmpty = false := by
    rw [List.isEmpty_eq_false_iff]
    exact hinputs
  have hany : (tx.inputs.any fun i => !i.witness.isEmpty) = false := by
    rw [List.any_eq_false]
    intro i hi
    rw [hwitness i hi]
    decide
  simp only [encode, needsFlag, hempty, hany, Bool.or_false, Bool.false_eq_true, if_false]

/-- **A transaction with inputs and without witnesses is read back from its bytes**, if a count can
announce as many. -/
theorem decode?_encode {most : Nat} (hmost : most < CompactSize.limit) {tx : Transaction}
    (h : tx.Legible most) : decode? tx.encode = some tx := by
  have hplain := encode_eq_plain h.inputs h.witness
  have hlength : tx.encodePlain.length < CompactSize.limit := by
    rw [← hplain]
    exact Nat.lt_of_le_of_lt h.length hmost
  simp only [encodePlain, encodeInputs, encodeOutputs, List.length_append] at hlength
  have hscriptSig : ∀ i ∈ tx.inputs, i.scriptSig.length < CompactSize.limit := by
    intro i hi
    have hwhole : i.encode.length ≤ _ := length_le_flatMap hi
    have hpart := length_encode_input i
    omega
  have hscript : ∀ o ∈ tx.outputs, o.script.length < CompactSize.limit := by
    intro o ho
    have hwhole : o.encode.length ≤ _ := length_le_flatMap ho
    have hpart := length_encode_output o
    omega
  have hinputsLength : tx.inputs.length < CompactSize.limit := by
    have hpos : ∀ i ∈ tx.inputs, 0 < i.encode.length := by
      intro i _
      have hpart := length_encode_input i
      omega
    have hle := count_le_length_flatMap TxIn.encode hpos
    omega
  have houtputsLength : tx.outputs.length < CompactSize.limit := by
    have hpos : ∀ o ∈ tx.outputs, 0 < o.encode.length := by
      intro o _
      have hpart := length_encode_output o
      omega
    have hle := count_le_length_flatMap TxOut.encode hpos
    omega
  have hinputs := readCounted_restores hinputsLength
    (fun i hi => readInput_restores (hscriptSig i hi) (h.witness i hi))
    (encodeOutputs tx.outputs ++ wordBytes tx.lockTime)
  have houtputs := readCounted_restores houtputsLength
    (fun o ho => readOutput_restores (hscript o ho)) (wordBytes tx.lockTime)
  have hlock := readWord_restores tx.lockTime []
  rw [List.append_nil] at hlock
  have hread : read tx.encodePlain = some (tx, []) := by
    have hversion := readWord_restores tx.version
      (encodeInputs tx.inputs ++ (encodeOutputs tx.outputs ++ wordBytes tx.lockTime))
    rw [encodePlain, List.append_assoc, List.append_assoc, read, hversion]
    simp only [encodeInputs]
    rw [hinputs]
    split
    · next heq => cases heq
    · next heq => exact absurd (congrArg Prod.fst (Option.some.inj heq)) h.inputs
    · next heq => exact absurd (congrArg Prod.fst (Option.some.inj heq)) h.inputs
    · next heq =>
      cases heq
      simp only [encodeOutputs, houtputs, hlock, Option.map_some]
  rw [hplain, decode?, Reader.whole, hread]

end Transaction

end TwoWayPeg
