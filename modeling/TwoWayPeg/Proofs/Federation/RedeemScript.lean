import TwoWayPeg.Proofs.Bitcoin.Pushes
import TwoWayPeg.Proofs.Bitcoin.Size
import TwoWayPeg.Release.ScriptSig

/-!
# The script of a formed federation

A formed federation has at most fifteen members, so both numbers in its script have codes of their
own and only the keys are pushed. The script is short enough to be pushed itself, and the keys that
are read from it are the keys of the members in their order.

* `Federation.IsFormed.length_redeemScript_eq`: how long the script is.
* `Federation.IsFormed.redeemScript_lt`: the script fits a push.
* `Federation.IsFormed.instructions_redeemScript`: what the script says.
* `Federation.IsFormed.keysOf_redeemScript`: the keys that are read from it.
-/

namespace TwoWayPeg

/-! ### Small numbers -/

namespace Script

/-- A small number is written as one operation. -/
theorem pushNumber_of_le {n : Nat} (hpos : 0 < n) (hle : n ≤ 16) :
    pushNumber n = [UInt8.ofNat (0x50 + n)] := by
  rw [pushNumber, if_neg (by omega), if_pos hle]

/-- A small number is read as an operation. -/
theorem instructions_pushNumber_append {n : Nat} (hpos : 0 < n) (hle : n ≤ 16) (rest : Bytes) :
    instructions (pushNumber n ++ rest) = .op (UInt8.ofNat (0x50 + n)) :: instructions rest := by
  have hcode : (UInt8.ofNat (0x50 + n)).toNat = 0x50 + n := by
    rw [UInt8.toNat_ofNat']
    omega
  rw [pushNumber_of_le hpos hle, List.singleton_append]
  refine instructions_of_next ?_
  rw [next, hcode, if_neg (by omega), if_neg (by omega), if_neg (by omega), if_neg (by omega)]

end Script

/-! ### The script -/

namespace Federation

variable {f : Federation}

/-- How many keys are given with both coordinates. -/
def longForms (keys : List PublicKey) : Nat := keys.countP fun k => !k.isCompressed

/-- **What pushed keys take**: thirty-four bytes each, and thirty-two more for each one that is
given with both coordinates. -/
theorem length_flatMap_push (keys : List PublicKey) :
    (keys.flatMap fun k => Script.push k.bytes).length =
      34 * keys.length + 32 * longForms keys := by
  induction keys with
  | nil => rfl
  | cons k keys ih =>
    have hpush : (Script.push k.bytes).length = if k.isCompressed then 34 else 66 := by
      rw [Script.length_push_eq, PublicKey.isCompressed]
      rcases PublicKey.length_of_pointOf? k.valid with hbytes | hbytes <;> rw [hbytes] <;> rfl
    have hcount : longForms (k :: keys) = longForms keys + if k.isCompressed then 0 else 1 := by
      rw [longForms, List.countP_cons]
      cases k.isCompressed <;> rfl
    rw [List.flatMap_cons, List.length_append, List.length_cons, ih, hpush, hcount]
    split <;> omega

/-- The numbers in the script of a formed federation are small. -/
theorem IsFormed.numbers (h : f.IsFormed) :
    0 < f.btcKeys.length ∧ f.btcKeys.length ≤ 15 ∧ 0 < f.threshold ∧ f.threshold ≤ 15 := by
  have hsize := h.size_le
  have hpos := List.length_pos_iff.mpr h.members_ne_nil
  simp only [size, maxFederationSize] at hsize
  simp only [btcKeys, List.length_map, threshold, size]
  omega

/-- **The length of the script** of a formed federation: three bytes beside the pushed keys. -/
theorem IsFormed.length_redeemScript_eq (h : f.IsFormed) :
    f.redeemScript.length = 34 * f.btcKeys.length + 32 * longForms f.btcKeys + 3 := by
  obtain ⟨hpos, hkeys, hneeded, hthreshold⟩ := h.numbers
  rw [redeemScript, multisigScript, Script.pushNumber_of_le hneeded (by omega),
    Script.pushNumber_of_le hpos (by omega)]
  simp only [List.length_append, List.length_singleton, length_flatMap_push]
  omega

/-- The script of a formed federation is not long. -/
theorem IsFormed.length_redeemScript_le (h : f.IsFormed) : f.redeemScript.length ≤ 993 := by
  obtain ⟨-, hkeys, -, -⟩ := h.numbers
  have hlong : longForms f.btcKeys ≤ f.btcKeys.length := List.countP_le_length
  rw [h.length_redeemScript_eq]
  omega

/-- **The script of a formed federation fits a push.** -/
theorem IsFormed.redeemScript_lt (h : f.IsFormed) : f.redeemScript.length < UInt32.size :=
  Nat.lt_of_le_of_lt h.length_redeemScript_le (by decide)

/-- The keys in a script are read back, whatever follows them. -/
theorem instructions_keys_append (keys : List PublicKey) (rest : Bytes) :
    Script.instructions ((keys.flatMap fun k => Script.push k.bytes) ++ rest) =
      keys.map (fun k => .push k.bytes) ++ Script.instructions rest := by
  have hshort : ∀ c ∈ keys.map PublicKey.bytes, c.length < UInt32.size := by
    intro c hc
    obtain ⟨k, -, rfl⟩ := List.mem_map.mp hc
    have hbytes := PublicKey.length_of_pointOf? k.valid
    have hfits : 65 < UInt32.size := by decide
    omega
  rw [← List.flatMap_map, Script.instructions_flatMap_push_append hshort, List.map_map]
  rfl

/-- The check at the end of a script is one operation. -/
theorem instructions_check : Script.instructions [0xAE] = [.op 0xAE] := by
  have hnext : Script.next 0xAE [] = (.op 0xAE, []) := by decide
  rw [Script.instructions_of_next hnext, Script.instructions]

/-- **The script of a formed federation**: how many signatures are needed, the keys of the members,
how many there are, and the check. -/
theorem IsFormed.instructions_redeemScript (h : f.IsFormed) :
    f.redeemScript.instructions =
      .op (UInt8.ofNat (0x50 + f.threshold)) :: (f.btcKeys.map (fun k => .push k.bytes) ++
        [.op (UInt8.ofNat (0x50 + f.btcKeys.length)), .op 0xAE]) := by
  obtain ⟨hpos, hkeys, hneeded, hthreshold⟩ := h.numbers
  rw [redeemScript, multisigScript, List.append_assoc, List.append_assoc,
    Script.instructions_pushNumber_append hneeded (by omega), instructions_keys_append,
    Script.instructions_pushNumber_append hpos (by omega), instructions_check]

/-- **The keys that are read from the script** of a formed federation are those of the members. -/
theorem IsFormed.keysOf_redeemScript (h : f.IsFormed) :
    ScriptSig.keysOf f.redeemScript = f.btcKeys := by
  have hnone (code : UInt8) : Script.Instruction.data? (.op code) = none := rfl
  have hkeys : (f.btcKeys.map fun k => Script.Instruction.push k.bytes).filterMap
      Script.Instruction.data? = f.btcKeys.map PublicKey.bytes := by
    rw [List.filterMap_map, ← List.filterMap_eq_map]
    rfl
  rw [ScriptSig.keysOf, Script.pushes, h.instructions_redeemScript,
    List.filterMap_cons_none (hnone _), List.filterMap_append, hkeys,
    List.filterMap_cons_none (hnone _), List.filterMap_cons_none (hnone _), List.filterMap_nil,
    List.append_nil, List.filterMap_map]
  have hread : PublicKey.ofBytes? ∘ PublicKey.bytes = some :=
    funext fun k => PublicKey.ofBytes?_bytes k
  rw [hread, List.filterMap_some]

end Federation

end TwoWayPeg
