import TwoWayPeg.Proofs.Release.Fees
import TwoWayPeg.Proofs.Release.Slots

/-!
# The size of a signed transaction

The fee of a transaction is found before anybody has signed it: to the size with empty slots are
added the most bytes that the signatures can take. The signatures never take more, but they can make
the script of an input so long that its length is written in three bytes and no longer in one. These
bytes are in no estimate, so a signed transaction can be longer than what its fee was found for, and
longer than what is allowed.

* `BuiltTransaction.SignedAs`: a built transaction with signatures in all slots.
* `Federation.shortfall`: the bytes that are not estimated for an input.
* `Wallet.length_le_of_signedAs`, `Wallet.exists_signedAs`: how long a signed transaction is at
  most, and that one is.
* `Federation.IsFormed.shortfall_eq`, `Federation.IsFormed.shortfall_of_compressed`: which
  federations are affected.
* `Wallet.signed_size_of_build`: what is true of everything that is built.
-/

namespace TwoWayPeg

/-! ### Scripts with signatures -/

/-- Data that one byte announces. -/
theorem Script.length_push_of_short {data : Bytes} (h : data.length < 76) :
    (push data).length = data.length + 1 := by
  rw [length_push_eq, pushWidth, if_pos h]

/-- Chunks that one byte each announces. -/
theorem Script.length_flatMap_push_of_short {cs : List Bytes} (h : ∀ c ∈ cs, c.length < 76) :
    (cs.flatMap push).length = cs.flatten.length + cs.length := by
  induction cs with
  | nil => rfl
  | cons c rest ih =>
    have hfirst := length_push_of_short (h c List.mem_cons_self)
    have hrest := ih fun c hc => h c (List.mem_cons_of_mem _ hc)
    rw [List.flatMap_cons, List.flatten_cons, List.length_append, List.length_append,
      List.length_cons]
    omega

/-- Chunks of at most some length. -/
theorem length_flatten_le {cs : List Bytes} {n : Nat} (h : ∀ c ∈ cs, c.length ≤ n) :
    cs.flatten.length ≤ n * cs.length := by
  induction cs with
  | nil => exact Nat.zero_le _
  | cons c rest ih =>
    have hfirst := h c List.mem_cons_self
    have hrest := ih fun c hc => h c (List.mem_cons_of_mem _ hc)
    rw [List.flatten_cons, List.length_append, List.length_cons, Nat.mul_succ]
    omega

/-- Chunks of the same length. -/
theorem length_flatten_eq {cs : List Bytes} {n : Nat} (h : ∀ c ∈ cs, c.length = n) :
    cs.flatten.length = n * cs.length := by
  have hcs : cs.map List.length = List.replicate cs.length n := by
    rw [List.eq_replicate_iff]
    simpa using h
  rw [List.length_flatten, hcs, List.sum_replicate_nat, Nat.mul_comm]

namespace PendingSignatures

variable {slots : Nat} {signatures : List Bytes} {redeem script : Script}

/-- A script that can be filled is short enough to be pushed. -/
theorem redeem_lt_of_fill (h : fill slots signatures redeem = some script) :
    redeem.length < UInt32.size := by
  unfold fill Script.ofChunks? at h
  split at h
  · next hchunks =>
    have hredeem := List.all_eq_true.mp hchunks redeem (by simp)
    exact of_decide_eq_true hredeem
  · cases h

/-- **A script with some of its slots filled** has one byte for each slot and one in front, beside
the signatures and the pushed script. -/
theorem length_of_fill (h : fill slots signatures redeem = some script)
    (hroom : signatures.length ≤ slots) (hshort : ∀ s ∈ signatures, s.length < 76) :
    script.length = slots + 1 + signatures.flatten.length + (Script.push redeem).length := by
  have hchunks : ∀ s ∈ [] :: (signatures ++ List.replicate (slots - signatures.length) []),
      s.length < 76 := by
    intro s hs
    simp only [List.mem_cons, List.mem_append, List.mem_replicate] at hs
    rcases hs with rfl | hs | ⟨-, rfl⟩
    · decide
    · exact hshort s hs
    · decide
  have hslots := Script.length_flatMap_push_of_short hchunks
  simp only [List.flatten_cons, List.flatten_append, List.flatten_replicate_nil, List.length_append,
    List.length_cons, List.length_nil, List.length_replicate] at hslots
  unfold fill Script.ofChunks? at h
  split at h
  · cases h
    rw [← List.cons_append, List.flatMap_append, List.flatMap_singleton, List.length_append, hslots]
    omega
  · cases h

/-- The script with empty slots has none of them filled. -/
theorem length_placeholder (h : redeem.length < UInt32.size) (slots : Nat) :
    (ScriptSig.placeholder redeem slots).length = slots + 1 + (Script.push redeem).length := by
  have hnone : ∀ s ∈ ([] : List Bytes), s.length < 76 := nofun
  obtain ⟨script, hfill⟩ := exists_fill_of_short slots h hnone
  have hscript : ScriptSig.placeholder redeem slots = (fill slots [] redeem).getD [] := rfl
  rw [hscript, hfill, Option.getD_some, length_of_fill hfill (Nat.zero_le _) hnone]
  rfl

/-- **Signatures** make a script longer by their bytes and by nothing else. -/
theorem length_of_fill_eq (h : fill slots signatures redeem = some script)
    (hroom : signatures.length ≤ slots) (hshort : ∀ s ∈ signatures, s.length < 76) :
    script.length = (ScriptSig.placeholder redeem slots).length + signatures.flatten.length := by
  rw [length_of_fill h hroom hshort, length_placeholder (redeem_lt_of_fill h)]
  omega

end PendingSignatures

/-! ### What is not estimated -/

/-- The bytes that are not estimated for an input: how much longer the length of its script is
written when all signatures are in place. -/
def Federation.shortfall (f : Federation) : Nat :=
  let unsigned := (ScriptSig.placeholder f.redeemScript f.threshold).length
  CompactSize.width (unsigned + Wallet.signatureSize * f.threshold) - CompactSize.width unsigned

namespace Federation

variable {f : Federation}

/-- **An input of a formed federation** is estimated two bytes too short if its script takes 253
bytes with all signatures and fewer without them, and exactly otherwise. -/
theorem IsFormed.shortfall_eq (h : f.IsFormed) :
    let unsigned := (ScriptSig.placeholder f.redeemScript f.threshold).length
    f.shortfall =
      if unsigned < 253 ∧ 253 ≤ unsigned + Wallet.signatureSize * f.threshold then 2 else 0 := by
  intro unsigned
  obtain ⟨-, -, -, hthreshold⟩ := h.numbers
  obtain ⟨-, hpush⟩ := Script.length_push f.redeemScript
  have hredeem := h.length_redeemScript_le
  have hlong : unsigned + Wallet.signatureSize * f.threshold < 0x10000 := by
    have hunsigned : unsigned = _ :=
      PendingSignatures.length_placeholder h.redeemScript_lt f.threshold
    rw [hunsigned, Wallet.signatureSize]
    omega
  show CompactSize.width (unsigned + _) - CompactSize.width unsigned = _
  unfold CompactSize.width
  split_ifs <;> omega

/-- A federation all of whose keys are written in thirty-three bytes has thirty-four for each member
in its script. -/
theorem IsFormed.length_redeemScript_of_compressed (h : f.IsFormed)
    (hkeys : ∀ k ∈ f.btcKeys, k.bytes.length = 33) : f.redeemScript.length = 34 * f.size + 3 := by
  have hshort : longForms f.btcKeys = 0 := by
    rw [longForms, List.countP_eq_zero]
    intro k hk
    rw [PublicKey.isCompressed, hkeys k hk]
    decide
  have hsize : f.btcKeys.length = f.size := List.length_map _
  rw [h.length_redeemScript_eq, hshort, hsize]

/-- **The federations that are affected**: with keys of thirty-three bytes these are the ones with
three to seven members. -/
theorem IsFormed.shortfall_of_compressed (h : f.IsFormed)
    (hkeys : ∀ k ∈ f.btcKeys, k.bytes.length = 33) :
    f.shortfall = if 3 ≤ f.size ∧ f.size ≤ 7 then 2 else 0 := by
  have hnumbers : ∀ size ≤ 15,
      CompactSize.width (size / 2 + 1 + 1 + (34 * size + 3 + Script.pushWidth (34 * size + 3)) +
          Wallet.signatureSize * (size / 2 + 1)) -
        CompactSize.width
          (size / 2 + 1 + 1 + (34 * size + 3 + Script.pushWidth (34 * size + 3))) =
      if 3 ≤ size ∧ size ≤ 7 then 2 else 0 := by
    decide
  rw [shortfall, PendingSignatures.length_placeholder h.redeemScript_lt, Script.length_push_eq,
    h.length_redeemScript_of_compressed hkeys]
  exact hnumbers f.size h.size_le

end Federation

/-- The bytes that are not estimated for a transaction that spends coins. -/
def Wallet.shortfall : List Coin → Nat
  | [] => 0
  | c :: rest => c.owner.shortfall + shortfall rest

/-- Nothing is missing in the estimate of a transaction if nothing is for any of its inputs. -/
theorem Wallet.shortfall_eq_zero_iff {coins : List Coin} :
    shortfall coins = 0 ↔ ∀ c ∈ coins, c.owner.shortfall = 0 := by
  induction coins with
  | nil => simp [shortfall]
  | cons c rest ih => simp [shortfall, ih]

/-! ### Signed inputs -/

/-- **An input has signatures in all slots**, none of which takes more bytes than are kept free. -/
def Coin.Signed (c : Coin) (i : TxIn) : Prop :=
  ∃ signatures : List Bytes, signatures.length = c.owner.threshold ∧
    (∀ s ∈ signatures, s.length ≤ Wallet.signatureSize) ∧
    PendingSignatures.fill c.owner.threshold signatures c.owner.redeemScript = some i.scriptSig

namespace Coin

variable {c : Coin} {i : TxIn}

/-- **A signed input** is longer than the unsigned one by its signatures and the shortfall at most.
-/
theorem Signed.length_le (h : c.Signed i) : i.encode.length ≤
    c.input.encode.length + Wallet.signatureSize * c.owner.threshold + c.owner.shortfall := by
  obtain ⟨signatures, hall, hshort, hfill⟩ := h
  have hscript := PendingSignatures.length_of_fill_eq hfill (Nat.le_of_eq hall)
    fun s hs => Nat.lt_of_le_of_lt (hshort s hs) (by decide)
  have hbytes := length_flatten_le hshort
  rw [hall] at hbytes
  have hcount := CompactSize.width_mono (Nat.add_le_add_left hbytes
    (ScriptSig.placeholder c.owner.redeemScript c.owner.threshold).length)
  rw [← hscript] at hcount
  rw [Transaction.length_input, Transaction.length_input]
  simp only [input, Federation.shortfall]
  omega

/-- Signatures of the full length make an input as long as it can be. -/
theorem exists_signed (hfits : c.owner.redeemScript.length < UInt32.size) :
    ∃ i, c.Signed i ∧ i.bare = c.input.bare ∧ i.encode.length =
      c.input.encode.length + Wallet.signatureSize * c.owner.threshold + c.owner.shortfall := by
  obtain ⟨signatures, hall, hlength⟩ : ∃ signatures : List Bytes,
      signatures.length = c.owner.threshold ∧
        ∀ s ∈ signatures, s.length = Wallet.signatureSize := by
    refine ⟨.replicate _ (.replicate Wallet.signatureSize 0), List.length_replicate, ?_⟩
    intro s hs
    rw [List.eq_of_mem_replicate hs, List.length_replicate]
  have hbytes := length_flatten_eq hlength
  rw [hall] at hbytes
  have hshort : ∀ s ∈ signatures, s.length < 76 := by
    intro s hs
    rw [hlength s hs]
    decide
  obtain ⟨script, hfill⟩ := PendingSignatures.exists_fill_of_short c.owner.threshold hfits hshort
  have hscript := PendingSignatures.length_of_fill_eq hfill (Nat.le_of_eq hall) hshort
  have hcount := CompactSize.width_mono (Nat.le_add_right
    (ScriptSig.placeholder c.owner.redeemScript c.owner.threshold).length
    (Wallet.signatureSize * c.owner.threshold))
  refine ⟨{ c.input with scriptSig := script },
    ⟨signatures, hall, fun s hs => Nat.le_of_eq (hlength s hs), hfill⟩, rfl, ?_⟩
  rw [Transaction.length_input, Transaction.length_input]
  simp only [input, Federation.shortfall, hscript, hbytes]
  omega

end Coin

/-! ### Signed transactions -/

/-- **A built transaction with signatures in all slots.** Nothing else of it has changed. -/
structure BuiltTransaction.SignedAs (built : BuiltTransaction) (tx : Transaction) : Prop where
  bare : tx.bare = built.tx.bare
  inputs : List.Forall₂ Coin.Signed built.coins tx.inputs

namespace Wallet

variable {w : Wallet} {built : BuiltTransaction} {tx : Transaction}

/-- Signed inputs are longer than unsigned ones by what is estimated and the shortfall at most. -/
theorem length_inputs_le {coins : List Coin} {inputs : List TxIn}
    (h : List.Forall₂ Coin.Signed coins inputs) : (inputs.flatMap TxIn.encode).length ≤
      ((coins.map Coin.input).flatMap TxIn.encode).length +
        signatureSize * signatureCount coins + shortfall coins := by
  induction h with
  | nil => exact Nat.zero_le _
  | cons hsigned _ ih =>
    have hfirst := hsigned.length_le
    simp only [List.map_cons, List.flatMap_cons, List.length_append, signatureCount, shortfall,
      Nat.mul_add]
    omega

/-- Some signed inputs are as long as they can be. -/
theorem exists_inputs {coins : List Coin}
    (hfits : ∀ c ∈ coins, c.owner.redeemScript.length < UInt32.size) :
    ∃ inputs, List.Forall₂ Coin.Signed coins inputs ∧
      inputs.map TxIn.bare = (coins.map Coin.input).map TxIn.bare ∧
      (inputs.flatMap TxIn.encode).length =
        ((coins.map Coin.input).flatMap TxIn.encode).length +
          signatureSize * signatureCount coins + shortfall coins := by
  induction coins with
  | nil => exact ⟨[], .nil, rfl, rfl⟩
  | cons c rest ih =>
    obtain ⟨i, hsigned, hbare, hlength⟩ := Coin.exists_signed (hfits c List.mem_cons_self)
    obtain ⟨inputs, hinputs, hbares, hlengths⟩ :=
      ih fun c hc => hfits c (List.mem_cons_of_mem _ hc)
    refine ⟨i :: inputs, .cons hsigned hinputs, ?_, ?_⟩
    · rw [List.map_cons, List.map_cons, List.map_cons, hbare, hbares]
    · simp only [List.map_cons, List.flatMap_cons, List.length_append, signatureCount, shortfall,
        Nat.mul_add]
      omega

/-- A transaction whose scripts have changed is longer by what its inputs are longer. -/
theorem length_encode_of_bare (hpriced : w.Priced built) (hbare : tx.bare = built.tx.bare) :
    tx.encode.length + ((built.coins.map Coin.input).flatMap TxIn.encode).length =
      built.tx.encode.length + (tx.inputs.flatMap TxIn.encode).length := by
  have hinputs : tx.inputs.map TxIn.bare = built.tx.inputs.map TxIn.bare :=
    congrArg Transaction.inputs hbare
  have houtputs : tx.outputs = built.tx.outputs := by
    show tx.bare.outputs = built.tx.bare.outputs
    rw [hbare]
  have hcount : tx.inputs.length = built.tx.inputs.length := by
    simpa only [List.length_map] using congrArg List.length hinputs
  have hplain : tx.encode = tx.encodePlain := by
    apply Transaction.encode_eq_plain
    · intro hnil
      rw [hnil, hpriced.inputs, List.length_map] at hcount
      exact hpriced.some (List.length_eq_zero_iff.mp hcount.symm)
    · -- inputs without scripts still have their witnesses
      intro i hi
      have hmem := List.mem_map_of_mem (f := TxIn.bare) hi
      rw [hinputs, hpriced.inputs, List.map_map] at hmem
      obtain ⟨c, -, hc⟩ := List.mem_map.mp hmem
      exact (congrArg TxIn.witness hc).symm
  rw [hplain, hpriced.unsigned, encode_unsigned hpriced.some, Transaction.length_encodePlain,
    Transaction.length_encodePlain, hcount, houtputs, hpriced.inputs]
  simp only [unsigned]
  omega

/-- **A signed transaction** is longer than estimated by the shortfall at most. -/
theorem length_le_of_signedAs (hpriced : w.Priced built) (h : built.SignedAs tx) :
    tx.encode.length ≤ signedSize built.tx built.coins + shortfall built.coins := by
  have hinputs := length_inputs_le h.inputs
  have hlength := length_encode_of_bare hpriced h.bare
  rw [signedSize]
  omega

/-- **Some signed transaction** is longer than estimated by the whole shortfall. -/
theorem exists_signedAs (hpriced : w.Priced built)
    (hfits : ∀ coin ∈ built.coins, coin.owner.redeemScript.length < UInt32.size) :
    ∃ tx, built.SignedAs tx ∧
      tx.encode.length = signedSize built.tx built.coins + shortfall built.coins := by
  obtain ⟨inputs, hsigned, hbare, hinputs⟩ := exists_inputs hfits
  obtain ⟨tx, rfl, hsame⟩ : ∃ tx : Transaction, tx.inputs = inputs ∧ tx.bare = built.tx.bare := by
    refine ⟨{ built.tx with inputs }, rfl, ?_⟩
    rw [Transaction.bare, Transaction.bare, hpriced.inputs, hbare]
  have hlength := length_encode_of_bare hpriced hsame
  refine ⟨tx, ⟨hsame, hsigned⟩, ?_⟩
  rw [signedSize]
  omega

/-- **What is built may be longer when it is signed** than what its fee was found for, by the
shortfall at most, and if so it may be longer than what is allowed. Some signatures make it so much
longer, so the estimate covers all of them exactly if there is no shortfall for any input. -/
theorem signed_size_of_build {us : List Utxo} {federations : List Federation}
    {changeScript destination : Script} {feePerKb : Amount} {c : Constants} {purpose : Purpose}
    (h : (Wallet.of us federations changeScript feePerKb c).build destination purpose =
      .ok built) :
    (∀ tx, built.SignedAs tx →
      tx.encode.length ≤ signedSize built.tx built.coins + shortfall built.coins ∧
      tx.encode.length ≤ c.maxTransactionSize + shortfall built.coins ∧
      (tx.encode.length - shortfall built.coins) * feePerKb.sats / 1000 ≤ built.fee.sats) ∧
    ((∀ f ∈ federations, f.redeemScript.length < UInt32.size) →
      (∃ tx, built.SignedAs tx ∧
        tx.encode.length = signedSize built.tx built.coins + shortfall built.coins) ∧
      ((∀ tx, built.SignedAs tx → tx.encode.length ≤ signedSize built.tx built.coins) ↔
        ∀ coin ∈ built.coins, coin.owner.shortfall = 0)) := by
  have hpriced := priced_of_build h
  obtain ⟨hsize, hfee⟩ := feeFor_eq_ok hpriced.fee
  constructor
  · intro tx hsigned
    have hlength := length_le_of_signedAs hpriced hsigned
    refine ⟨hlength, Nat.le_trans hlength (Nat.add_le_add_right hsize _), ?_⟩
    rw [hfee]
    apply Nat.div_le_div_right
    apply Nat.mul_le_mul_right
    omega
  · intro hfederations
    have hfits : ∀ coin ∈ built.coins, coin.owner.redeemScript.length < UInt32.size :=
      fun coin hcoin => hfederations _ (Coin.owner_mem_of_mem_ofUtxos (hpriced.front.subset hcoin))
    obtain ⟨longest, hlongest, hlength⟩ := exists_signedAs hpriced hfits
    refine ⟨⟨longest, hlongest, hlength⟩, ?_⟩
    rw [← shortfall_eq_zero_iff]
    constructor
    · intro hcovers
      have := hcovers longest hlongest
      omega
    · intro hnone tx hsigned
      have := length_le_of_signedAs hpriced hsigned
      omega

namespace Example

open PendingSignatures.Example

/-- One output. -/
def single : List Utxo := [output 1 1000000]

/-- The presets for tests, with transactions of the estimated size at most. -/
def tight : Constants := { constants with maxTransactionSize := 339 }

/-- A refund of the output is built, with two bytes more than are allowed. -/
theorem payAll_single : ∃ built, (walletOf single tight).build payee .refund = .ok built ∧
    (signedSize built.tx built.coins, shortfall built.coins) = (339, 2) := by
  apply exists_build
  · simp [single, output]
  · decide +kernel
  · decide +kernel

end Example

/-- Two of three members sign a refund of as many bytes as are allowed, and it has two more. -/
theorem signed_size_of_build_two_of_three : ∃ built,
    (Example.walletOf Example.single Example.tight).build Example.payee .refund = .ok built ∧
      Example.tight.maxTransactionSize = 339 ∧
      ∃ tx, built.SignedAs tx ∧ tx.encode.length = 341 := by
  obtain ⟨built, hbuilt, hsizes⟩ := Example.payAll_single
  obtain ⟨hsize, hmissing⟩ := Prod.mk.inj hsizes
  have hfits : ∀ f ∈ [PendingSignatures.Example.federation],
      f.redeemScript.length < UInt32.size :=
    List.forall_mem_singleton.mpr PendingSignatures.Example.federation_isFormed.redeemScript_lt
  obtain ⟨⟨tx, hsigned, hlength⟩, -⟩ := (signed_size_of_build hbuilt).2 hfits
  refine ⟨built, hbuilt, rfl, tx, hsigned, ?_⟩
  rw [hlength, hsize, hmissing]

end Wallet

end TwoWayPeg
