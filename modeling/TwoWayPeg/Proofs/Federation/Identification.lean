import TwoWayPeg.Peg.Classification
import TwoWayPeg.Proofs.Federation.CommitHash
import TwoWayPeg.Proofs.Release.Rebuilding

/-!
# An input tells the federation that it spends from

What an input spends is seen from the script at the end of its pushes, whatever stands in the slots
in front of it. The script of a formed federation is found there, and the keys that are read from it
are those of the members, in their order and their encodings. It is the script of no other keys
either: the keys are the pushes between two numbers, and where the numbers stand does not depend on
how they are written. So an input that carries the script spends from exactly the federations with
these keys.

* `Script.exists_instructions_pushNumber`: a number is one instruction.
* `Federation.IsFormed.redeemScript_eq_iff`: federations with one script have the same keys.
* `Transaction.spendsFrom_iff_of_input`: what one input has to do with it.
* `Federation.identified_by_input`: an input tells the federation.
-/

namespace TwoWayPeg

/-! ### Numbers in scripts -/

namespace Script

/-- A number takes no more bytes than bits. -/
theorem length_numberBytes_le (n : Nat) : (numberBytes n).length ≤ n / 8 + 2 := by
  have hlog := Nat.log2_le_self n
  unfold numberBytes
  simp only
  split
  · exact Nat.zero_le _
  · split
    · rw [Bytes.length_ofNatLE]
      omega
    · rw [List.length_append, Bytes.length_ofNatLE, List.length_singleton]
      omega

/-- **A number is read as one instruction**, whether it has a code of its own or is pushed. -/
theorem exists_instructions_pushNumber {n : Nat} (h : n < 0x10000) :
    ∃ i, ∀ rest, instructions (pushNumber n ++ rest) = i :: instructions rest := by
  by_cases hzero : n = 0
  · refine ⟨.push [], fun rest => ?_⟩
    have hempty : ([] : Bytes).length < UInt32.size := by decide
    rw [hzero]
    exact instructions_push_append hempty rest
  by_cases hsmall : n ≤ 16
  · exact ⟨_, instructions_pushNumber_append (Nat.pos_of_ne_zero hzero) hsmall⟩
  · refine ⟨.push (numberBytes n), fun rest => ?_⟩
    have hlength := length_numberBytes_le n
    have hfits : 0x10000 < UInt32.size := by decide
    rw [pushNumber, if_neg hzero, if_neg hsmall]
    exact instructions_push_append (by omega) rest

end Script

/-! ### Scripts of federations -/

namespace Federation

variable {f g : Federation}

/-- A federation has fewer members than its script has bytes. -/
theorem length_btcKeys_lt (g : Federation) : g.btcKeys.length < g.redeemScript.length := by
  have hpushes := length_flatMap_push g.btcKeys
  simp only [redeemScript, multisigScript, List.length_append, List.length_singleton]
  omega

/-- **What a script says** whose numbers are not huge: the keys are the pushes between the numbers.
-/
theorem exists_instructions_redeemScript (h : g.redeemScript.length ≤ 0x10000) :
    ∃ first second, g.redeemScript.instructions =
      first :: (g.btcKeys.map (fun k => .push k.bytes) ++ [second, .op 0xAE]) := by
  have hkeys := length_btcKeys_lt g
  have hsize : g.size = g.btcKeys.length := (List.length_map _).symm
  obtain ⟨first, hfirst⟩ := Script.exists_instructions_pushNumber (n := g.threshold)
    (by rw [threshold]; omega)
  obtain ⟨second, hsecond⟩ := Script.exists_instructions_pushNumber (n := g.btcKeys.length)
    (by omega)
  refine ⟨first, second, ?_⟩
  rw [redeemScript, multisigScript, List.append_assoc, List.append_assoc, hfirst,
    instructions_keys_append, hsecond, instructions_check]

/-- **Federations with one script have the same keys**, and the other way round, as soon as one of
the two is formed. -/
theorem IsFormed.redeemScript_eq_iff (h : f.IsFormed) :
    g.redeemScript = f.redeemScript ↔ g.btcKeys = f.btcKeys := by
  constructor
  · intro hscript
    have hlength := h.length_redeemScript_le
    obtain ⟨first, second, hf⟩ := exists_instructions_redeemScript (g := f) (by omega)
    obtain ⟨first', second', hg⟩ :=
      exists_instructions_redeemScript (g := g) (by rw [hscript]; omega)
    rw [hscript, hf] at hg
    obtain ⟨-, hrest⟩ := List.cons.inj hg
    obtain ⟨hpushes, -⟩ := List.append_inj' hrest rfl
    have hinjective : Function.Injective fun k : PublicKey => Script.Instruction.push k.bytes :=
      fun k k' hk => PublicKey.ext (Script.Instruction.push.inj hk)
    exact (List.map_injective_iff.mpr hinjective hpushes).symm
  · intro hkeys
    exact (PendingFederation.scripts_eq_of_btcKeys hkeys).2.1

end Federation

/-! ### Inputs -/

/-- **What one input has to do with what a transaction spends**: it carries the script, or one of
the other inputs does. -/
theorem Transaction.spendsFrom_iff_of_input {tx : Transaction} {front back : List TxIn} {i : TxIn}
    (h : tx.inputs = front ++ i :: back) (g : Federation) :
    tx.spendsFrom g = true ↔ ScriptSig.redeemScript? i.scriptSig = some g.redeemScript ∨
      ({ tx with inputs := front ++ back } : Transaction).spendsFrom g = true := by
  simp only [spendsFrom, h, List.any_append, List.any_cons, Bool.or_eq_true, beq_iff_eq]
  constructor
  · rintro (hfront | hinput | hback)
    · exact .inr (.inl hfront)
    · exact .inl hinput
    · exact .inr (.inr hback)
  · rintro (hinput | hfront | hback)
    · exact .inr (.inl hinput)
    · exact .inl hfront
    · exact .inr (.inr hback)

namespace Federation

/-- **An input tells the federation that it spends from.** Let members form a federation, and let an
input push an empty string, slots with any contents, and the script of the federation. There is such
a script for the input exactly if the contents of the slots fit a push. It reads as what was pushed,
the script of the federation is found at its end, and the keys that are read from that one are the
keys of the members, in their order and as they were given. A transaction with this input spends
from the federation, and because of this input it spends from exactly the federations with the same
keys. -/
theorem identified_by_input {ms : List Member} {timeMs block : UInt64} {network : Network}
    {f : Federation} (h : form ms timeMs block network = .ok f) (slots : List Bytes) :
    ((∃ s, Script.ofChunks? ([] :: slots ++ [f.redeemScript]) = some s) ↔
        ∀ slot ∈ slots, slot.length < UInt32.size) ∧
      ∀ s, Script.ofChunks? ([] :: slots ++ [f.redeemScript]) = some s →
        s.chunks = some ([] :: slots ++ [f.redeemScript]) ∧
        ScriptSig.redeemScript? s = some f.redeemScript ∧
        ScriptSig.keysOf f.redeemScript = f.members.map (·.btc) ∧ f.members.Perm ms ∧
        ∀ (tx : Transaction) (front back : List TxIn) (i : TxIn),
          tx.inputs = front ++ i :: back → i.scriptSig = s →
            tx.spendsFrom f = true ∧
            ∀ g : Federation, tx.spendsFrom g = true ↔ g.btcKeys = f.btcKeys ∨
              ({ tx with inputs := front ++ back } : Transaction).spendsFrom g = true := by
  have hformed : f.IsFormed := ⟨ms, timeMs, block, network, h⟩
  obtain ⟨-, -, hmembers⟩ := members_of_form h
  constructor
  · rw [Script.exists_ofChunks?_iff]
    constructor
    · intro hchunks slot hslot
      exact hchunks slot (List.mem_append_left _ (List.mem_cons_of_mem _ hslot))
    · intro hslots c hc
      rcases List.mem_append.mp hc with hc | hc
      · rcases List.mem_cons.mp hc with rfl | hc
        · decide
        · exact hslots c hc
      · rw [List.mem_singleton.mp hc]
        exact hformed.redeemScript_lt
  · intro s hs
    have hchunks := Script.chunks_of_ofChunks? hs
    have hredeem : ScriptSig.redeemScript? s = some f.redeemScript := by
      rw [ScriptSig.redeemScript?, hchunks, Option.bind_some, List.getLast?_concat]
    refine ⟨hchunks, hredeem, hformed.keysOf_redeemScript, hmembers, ?_⟩
    intro tx front back i hinputs hi
    have hspends (g : Federation) : tx.spendsFrom g = true ↔ g.btcKeys = f.btcKeys ∨
        ({ tx with inputs := front ++ back } : Transaction).spendsFrom g = true := by
      rw [Transaction.spendsFrom_iff_of_input hinputs, hi, hredeem, Option.some_inj, eq_comm,
        hformed.redeemScript_eq_iff]
    exact ⟨(hspends f).mpr (.inl rfl), hspends⟩

open PendingFederation (shortKey longKey)

/-- A transaction that spends something with an empty script, and something with another script. -/
def spending (s : Script) : Transaction where
  version := 1
  inputs :=
    [⟨⟨⟨.replicate 32 2⟩, 0⟩, [], 0xFFFFFFFF, []⟩, ⟨⟨⟨.replicate 32 3⟩, 0⟩, s, 0xFFFFFFFF, []⟩]
  outputs := []
  lockTime := 0

/-- Two encodings of one point make a federation, and of the two slots one is empty and one holds
three hundred bytes. The input tells the federation, and it tells it from a federation of one of its
keys. -/
theorem identified_by_input_two_encodings :
    let ms : List Member := [.ofKey shortKey, .ofKey longKey]
    let slots : List Bytes := [[], List.replicate 300 7]
    ∃ f s, (form ms 0 0 .regtest = .ok f ∧ f.threshold = slots.length ∧
        Script.ofChunks? ([] :: slots ++ [f.redeemScript]) = some s) ∧
      s.chunks = some ([] :: slots ++ [f.redeemScript]) ∧
      ScriptSig.keysOf f.redeemScript = f.members.map (·.btc) ∧ f.members.Perm ms ∧
      (spending s).spendsFrom f = true ∧
      ∀ g : Federation, (spending s).spendsFrom g = true ↔ g.btcKeys = f.btcKeys := by
  intro ms slots
  have hmembers : ms ≠ [] ∧ ms.length ≤ maxFederationSize ∧ (ms.map (·.btc)).Nodup := by
    decide +kernel
  obtain ⟨hne, hfew, hdistinct⟩ := hmembers
  have hform : form ms 0 0 .regtest = .ok ⟨ordered ms, 0, 0, .regtest⟩ :=
    form_eq_ok_iff.mpr ⟨hne, hfew, hdistinct, rfl⟩
  obtain ⟨hwritten, hread⟩ := identified_by_input hform slots
  have hslots : ∀ slot ∈ slots, slot.length < UInt32.size := by
    intro slot hslot
    simp only [slots, List.mem_cons, List.not_mem_nil, or_false] at hslot
    rcases hslot with rfl | rfl
    · decide
    · rw [List.length_replicate]
      decide
  obtain ⟨s, hs⟩ := hwritten.mpr hslots
  obtain ⟨hchunks, -, hkeys, hperm, hspends⟩ := hread s hs
  obtain ⟨hspendsFrom, hidentified⟩ := hspends (spending s) [_] [] _ rfl rfl
  have hthreshold : (⟨ordered ms, 0, 0, .regtest⟩ : Federation).threshold = slots.length := by
    have hsize : ms.length = 2 := rfl
    rw [threshold, size, hperm.length_eq, hsize]
    rfl
  refine ⟨_, s, ⟨hform, hthreshold, hs⟩, hchunks, hkeys, hperm, hspendsFrom, fun g => ?_⟩
  rw [hidentified g]
  refine or_iff_left fun hother => ?_
  simp [Transaction.spendsFrom, ScriptSig.redeemScript?, Script.chunks,
    Script.instructions] at hother

end Federation

end TwoWayPeg
