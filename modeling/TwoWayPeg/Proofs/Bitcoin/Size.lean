import Mathlib.Data.List.Flatten
import Mathlib.Tactic.SplitIfs
import TwoWayPeg.Bitcoin.PublicKey
import TwoWayPeg.Bitcoin.Transaction
import TwoWayPeg.Federation.Basic

/-!
# How short things can be

A few bytes hold little: a push carries its data, a transaction its scripts, and a federation's
script the keys of the members.

* `Script.length_lt_of_mem_chunks`: pushed data are shorter than the script.
* `Transaction.length_scripts_le`: a transaction has sixty bytes beside two of its scripts.
* `Federation.length_redeemScript`: the script of a formed federation holds at least one key.
-/

namespace TwoWayPeg

/-! ### Scripts -/

namespace Script

/-- A push takes its data from what follows it. -/
theorem length_le_of_takePush {n : Nat} {rest data : Bytes}
    (h : (takePush n rest).1 = .push data) : data.length ≤ rest.length := by
  unfold takePush at h
  split at h
  · cases h
  · cases h
    exact List.length_take_le' n rest

/-- A push with a written length takes its data from what follows it. -/
theorem length_le_of_takeSizedPush {width : Nat} {rest data : Bytes}
    (h : (takeSizedPush width rest).1 = .push data) : data.length ≤ rest.length := by
  unfold takeSizedPush at h
  split at h
  · cases h
  · have hle := length_le_of_takePush h
    rw [List.length_drop] at hle
    omega

/-- An instruction that pushes takes its data from what follows its code. -/
theorem length_le_of_next {code : UInt8} {rest data : Bytes}
    (h : (next code rest).1 = .push data) : data.length ≤ rest.length := by
  unfold next at h
  split at h
  · exact length_le_of_takePush h
  · split at h
    · exact length_le_of_takeSizedPush h
    · split at h
      · exact length_le_of_takeSizedPush h
      · split at h
        · exact length_le_of_takeSizedPush h
        · cases h

/-- Data that a script pushes are shorter than the script. -/
theorem length_lt_of_push_mem {s : Script} {data : Bytes} (h : .push data ∈ s.instructions) :
    data.length < s.length := by
  induction s using instructions.induct with
  | case1 =>
    rw [instructions] at h
    cases h
  | case2 code rest hle ih =>
    rw [instructions] at h
    rw [List.length_cons]
    rcases List.mem_cons.mp h with h | h
    · have := length_le_of_next h.symm
      omega
    · have := ih h
      omega

/-- Instructions that all push are the pushes of what they push. -/
theorem eq_map_push_of_mapM {is : List Instruction} {cs : List Bytes}
    (h : is.mapM Instruction.data? = some cs) : is = cs.map .push := by
  induction is generalizing cs with
  | nil =>
    cases h
    rfl
  | cons i is ih =>
    rw [List.mapM_cons] at h
    cases i with
    | op code => cases h
    | truncated => cases h
    | push data =>
      obtain ⟨data', hdata, h⟩ := Option.bind_eq_some_iff.mp h
      cases hdata
      obtain ⟨rest, hrest, h⟩ := Option.bind_eq_some_iff.mp h
      cases h
      rw [List.map_cons, ih hrest]

/-- A script that does nothing but push reads as the pushes of its chunks. -/
theorem instructions_of_chunks {s : Script} {cs : List Bytes} (h : s.chunks = some cs) :
    s.instructions = cs.map .push :=
  eq_map_push_of_mapM h

/-- Chunks of a script are shorter than the script. -/
theorem length_lt_of_mem_chunks {s : Script} {cs : List Bytes} {c : Bytes}
    (h : s.chunks = some cs) (hc : c ∈ cs) : c.length < s.length := by
  refine length_lt_of_push_mem ?_
  rw [instructions_of_chunks h]
  exact List.mem_map_of_mem hc

/-- How many bytes a push takes beside data of a length. -/
def pushWidth (n : Nat) : Nat :=
  if n < 76 then 1 else if n < 0x100 then 2 else if n < 0x10000 then 3 else 5

/-- A push is the data behind the bytes that announce them. -/
theorem length_push_eq (data : Bytes) :
    (push data).length = data.length + pushWidth data.length := by
  unfold push pushWidth
  simp only
  split_ifs
  · rfl
  all_goals
    rw [List.length_cons, List.length_append, Bytes.length_ofNatLE]
    omega

/-- A push is longer than its data, by five bytes at most. -/
theorem length_push (data : Bytes) :
    data.length < (push data).length ∧ (push data).length ≤ data.length + 5 := by
  rw [length_push_eq]
  unfold pushWidth
  split_ifs <;> omega

end Script

/-! ### Transactions -/

/-- A part of a flattened list is not longer than the whole. -/
theorem length_le_flatMap {α : Type} {f : α → Bytes} {l : List α} {x : α} (h : x ∈ l) :
    (f x).length ≤ (l.flatMap f).length := by
  have hsub := (List.singleton_sublist.mpr h).flatMap f
  rw [List.flatMap_singleton] at hsub
  exact hsub.length_le

namespace CompactSize

/-- How many bytes a count takes. -/
def width (n : Nat) : Nat :=
  if n < 0xFD then 1 else if n < 0x10000 then 3 else if n < 0x100000000 then 5 else 9

/-- A count takes as many bytes as its width. -/
@[simp] theorem length_encode (n : Nat) : (encode n).length = width n := by
  unfold encode width
  split
  · rfl
  · split
    · simp
    · split
      · simp
      · simp

/-- A count takes at least one byte. -/
theorem one_le_width (n : Nat) : 1 ≤ width n := by
  unfold width
  split_ifs <;> decide

/-- Larger counts take no fewer bytes. -/
theorem width_mono {m n : Nat} (h : m ≤ n) : width m ≤ width n := by
  unfold width
  split_ifs <;> omega

end CompactSize

namespace Transaction

/-- An input is forty bytes, its script and the count of the script. -/
theorem length_input (i : TxIn) :
    i.encode.length = 40 + CompactSize.width i.scriptSig.length + i.scriptSig.length := by
  simp only [TxIn.encode, OutPoint.encode, CompactSize.encodeBytes, wordBytes,
    List.length_append, FixedBytes.length_eq, Bytes.length_ofNatLE, CompactSize.length_encode]
  omega

/-- An output is eight bytes, its script and the count of the script. -/
theorem length_output (o : TxOut) :
    o.encode.length = 8 + CompactSize.width o.script.length + o.script.length := by
  simp only [TxOut.encode, CompactSize.encodeBytes, List.length_append, Bytes.length_ofNatLE,
    CompactSize.length_encode]
  omega

/-- The plain form of a transaction is eight bytes, the inputs, the outputs and their counts. -/
theorem length_encodePlain (tx : Transaction) : tx.encodePlain.length =
    8 + CompactSize.width tx.inputs.length + (tx.inputs.flatMap TxIn.encode).length +
      CompactSize.width tx.outputs.length + (tx.outputs.flatMap TxOut.encode).length := by
  simp only [encodePlain, encodeInputs, encodeOutputs, wordBytes, List.length_append,
    Bytes.length_ofNatLE, CompactSize.length_encode]
  omega

/-- An input has at least forty-one bytes beside its script. -/
theorem length_encode_input (i : TxIn) : 41 + i.scriptSig.length ≤ i.encode.length := by
  have := CompactSize.one_le_width i.scriptSig.length
  rw [length_input]
  omega

/-- An output has at least nine bytes beside its script. -/
theorem length_encode_output (o : TxOut) : 9 + o.script.length ≤ o.encode.length := by
  have := CompactSize.one_le_width o.script.length
  rw [length_output]
  omega

/-- The outputs of a transaction take at least nine bytes each. -/
theorem length_outputs_le (tx : Transaction) : 9 * tx.outputs.length ≤ tx.encodePlain.length := by
  have hflat : 9 * tx.outputs.length ≤ (tx.outputs.flatMap TxOut.encode).length := by
    induction tx.outputs with
    | nil => exact Nat.le_refl 0
    | cons output rest ih =>
      have := length_encode_output output
      rw [List.flatMap_cons, List.length_append, List.length_cons]
      omega
  rw [length_encodePlain]
  omega

/-- A transaction has sixty bytes beside the scripts of one input and one output. -/
theorem length_scripts_le {tx : Transaction} {i : TxIn} {o : TxOut} (hi : i ∈ tx.inputs)
    (ho : o ∈ tx.outputs) : 60 + i.scriptSig.length + o.script.length ≤ tx.encodePlain.length := by
  have hinput := length_encode_input i
  have houtput := length_encode_output o
  have hinputs : i.encode.length ≤ _ := length_le_flatMap hi
  have houtputs : o.encode.length ≤ _ := length_le_flatMap ho
  have := CompactSize.one_le_width tx.inputs.length
  have := CompactSize.one_le_width tx.outputs.length
  rw [length_encodePlain]
  omega

end Transaction

/-! ### Keys and federations -/

/-- Bytes that encode a point are thirty-three or sixty-five. -/
theorem PublicKey.length_of_pointOf? {b : Bytes} (h : (pointOf? b).isSome) :
    b.length = 33 ∨ b.length = 65 := by
  cases b with
  | nil => cases h
  | cons code rest =>
    simp only [pointOf?] at h
    rw [List.length_cons]
    split at h
    · split at h
      · next hlength => exact .inl (by rw [hlength])
      · cases h
    · split at h
      · next hlong => exact .inr (by rw [hlong.2])
      · cases h

/-- Fewer bytes are not a key. -/
theorem PublicKey.ofBytes?_of_short {b : Bytes} (h : b.length < 33) : ofBytes? b = none := by
  unfold ofBytes?
  split
  · next hvalid =>
    have := length_of_pointOf? hvalid
    omega
  · rfl

namespace Federation

/-- A federation that some members have formed. -/
def IsFormed (f : Federation) : Prop :=
  ∃ ms timeMs block network, form ms timeMs block network = .ok f

/-- Members that form a federation are neither none nor too many, and they are the ones it has. -/
theorem members_of_form {ms : List Member} {timeMs block : UInt64} {network : Network}
    {f : Federation} (h : form ms timeMs block network = .ok f) :
    ms ≠ [] ∧ ms.length ≤ maxFederationSize ∧ f.members.Perm ms := by
  unfold form at h
  split at h
  · cases h
  · next hempty =>
    split at h
    · cases h
    · next hlength =>
      simp only at h
      split at h
      · cases h
      · cases h
        refine ⟨fun hnil => hempty (List.isEmpty_iff.mpr hnil), Nat.le_of_not_lt hlength, ?_⟩
        exact List.mergeSort_perm ms _

/-- A formed federation has members. -/
theorem IsFormed.members_ne_nil {f : Federation} (h : f.IsFormed) : f.members ≠ [] := by
  obtain ⟨ms, timeMs, block, network, h⟩ := h
  obtain ⟨hnonempty, -, hperm⟩ := members_of_form h
  exact fun hnil => hnonempty (List.nil_perm.mp (hnil ▸ hperm))

/-- A formed federation has at most fifteen members. -/
theorem IsFormed.size_le {f : Federation} (h : f.IsFormed) : f.size ≤ maxFederationSize := by
  obtain ⟨ms, timeMs, block, network, h⟩ := h
  obtain ⟨-, hlength, hperm⟩ := members_of_form h
  rw [size, hperm.length_eq]
  exact hlength

/-- The script of a formed federation holds at least one key. -/
theorem IsFormed.length_redeemScript {f : Federation} (h : f.IsFormed) :
    33 < f.redeemScript.length := by
  obtain ⟨m, hm⟩ := List.exists_mem_of_ne_nil _ h.members_ne_nil
  have hkey : m.btc ∈ f.btcKeys := List.mem_map_of_mem hm
  have hpush : (Script.push m.btc.bytes).length ≤ _ :=
    length_le_flatMap (f := fun k => Script.push k.bytes) hkey
  obtain ⟨hlong, -⟩ := Script.length_push m.btc.bytes
  have hbytes := PublicKey.length_of_pointOf? m.btc.valid
  simp only [redeemScript, multisigScript, List.length_append]
  omega

end Federation

end TwoWayPeg
