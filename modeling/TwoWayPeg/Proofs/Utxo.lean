import Mathlib.Data.List.Nodup
import TwoWayPeg.Proofs.Release.Building
import TwoWayPeg.Utxo

/-!
# Lists of outputs

How lists of unspent outputs change, in terms of the outpoints that they list.

* `Transaction.nodup_creates`: a transaction creates each outpoint once, as long as its outputs can
  be numbered with 32 bits.
* `Utxo.addNew_eq_append`, `Utxo.addNew_of_unlisted`: outputs are added at the end, and all of them
  are if none is listed yet.
* `Utxo.count_withoutSpent`, `Utxo.append_withoutSpent_perm`: what is spent is not listed any more,
  and nothing else is lost.
-/

namespace TwoWayPeg

/-! ### Sums -/

/-- The sum does not depend on the order. -/
theorem Amount.total_perm {as bs : List Amount} (h : as.Perm bs) : total as = total bs := by
  induction h with
  | nil => rfl
  | cons a _ ih => simp only [total, ih]
  | swap a b as => simp only [total]; omega
  | trans _ _ ih ih' => exact ih.trans ih'

/-- Fewer amounts are worth no more. -/
theorem Amount.total_le_of_subperm {as bs : List Amount} (h : as.Subperm bs) :
    total as ≤ total bs := by
  obtain ⟨part, hperm, hpart⟩ := h
  obtain ⟨rest, hrest⟩ := hpart.exists_perm_append
  rw [← total_perm hperm, total_perm hrest, total_append]
  exact Nat.le_add_right _ _

namespace Utxo

/-- The sum over two lists is the sum of the sums. -/
theorem total_append (us vs : List Utxo) : total (us ++ vs) = total us + total vs := by
  rw [total, List.map_append, Amount.total_append]
  rfl

/-- Outputs in another order are worth the same. -/
theorem total_perm {us vs : List Utxo} (h : us.Perm vs) : total us = total vs :=
  Amount.total_perm (h.map value)

/-- A part of a list is worth no more than the list. -/
theorem total_le_of_subperm {us vs : List Utxo} (h : us.Subperm vs) : total us ≤ total vs := by
  obtain ⟨part, hperm, hpart⟩ := h
  exact Amount.total_le_of_subperm ⟨part.map value, hperm.map value, hpart.map value⟩

end Utxo

/-- The coins of two lists are worth what each list is worth. -/
theorem Coin.total_append (cs cs' : List Coin) : total (cs ++ cs') = total cs + total cs' := by
  rw [total, List.map_append, Utxo.total_append]
  rfl

/-! ### Created outpoints -/

namespace Transaction

/-- The outpoint of a numbered output. -/
def created (tx : Transaction) (o : TxOut × Nat) : OutPoint := ⟨tx.txid, UInt32.ofNat o.2⟩

/-- The outpoints that a transaction creates. -/
def creates (tx : Transaction) : List OutPoint := tx.outputs.zipIdx.map tx.created

/-- All created outpoints bear the name of the transaction. -/
theorem txid_of_mem_creates {tx : Transaction} {o : OutPoint} (h : o ∈ tx.creates) :
    o.txid = tx.txid := by
  obtain ⟨numbered, -, rfl⟩ := List.mem_map.mp h
  rfl

/-- Numbers that fit 32 bits are different outpoints when they are different. -/
theorem nodup_creates {tx : Transaction} (h : tx.outputs.length ≤ UInt32.size) :
    tx.creates.Nodup := by
  have hnumbers : tx.creates =
      (List.range' 0 tx.outputs.length).map fun n => (⟨tx.txid, UInt32.ofNat n⟩ : OutPoint) := by
    rw [← List.zipIdx_map_snd 0 tx.outputs, List.map_map]
    rfl
  rw [hnumbers]
  refine List.Nodup.map_on ?_ (List.nodup_range' 1)
  intro n hn m hm heq
  have hn : n < UInt32.size := by
    have := List.mem_range'_1.mp hn
    omega
  have hm : m < UInt32.size := by
    have := List.mem_range'_1.mp hm
    omega
  have hvout : UInt32.ofNat n = UInt32.ofNat m := congrArg OutPoint.vout heq
  rw [← UInt32.toNat_ofNat_of_lt' hn, ← UInt32.toNat_ofNat_of_lt' hm, hvout]

end Transaction

namespace Utxo

/-- A numbered output of a transaction as an unspent one. -/
def ofOutput (tx : Transaction) (height : UInt32) (o : TxOut × Nat) : Utxo where
  txid := tx.txid
  vout := UInt32.ofNat o.2
  value := o.1.value
  height := height
  isCoinbase := tx.isCoinbase
  script := o.1.script

/-- The outputs whose scripts are wanted, in their order. -/
theorem ofOutputs_eq_map (tx : Transaction) (height : UInt32) (wanted : Script → Bool) :
    ofOutputs tx height wanted =
      (tx.outputs.zipIdx.filter fun o => wanted o.1.script).map (ofOutput tx height) := by
  unfold ofOutputs
  induction tx.outputs.zipIdx with
  | nil => rfl
  | cons o rest ih =>
    cases hwanted : wanted o.1.script with
    | true =>
      simp only [List.filterMap_cons, List.filter_cons, hwanted, if_true, List.map_cons, ih]
      rfl
    | false =>
      simpa only [List.filterMap_cons, List.filter_cons, hwanted, Bool.false_eq_true, if_false]
        using ih

/-- The outpoints of the outputs with wanted scripts. -/
theorem outpoints_ofOutputs (tx : Transaction) (height : UInt32) (wanted : Script → Bool) :
    (ofOutputs tx height wanted).map outpoint =
      (tx.outputs.zipIdx.filter fun o => wanted o.1.script).map tx.created := by
  rw [ofOutputs_eq_map, List.map_map]
  rfl

/-- The values of the outputs with wanted scripts. -/
theorem values_ofOutputs (tx : Transaction) (height : UInt32) (wanted : Script → Bool) :
    (ofOutputs tx height wanted).map value =
      (tx.outputs.filter fun o => wanted o.script).map TxOut.value := by
  have houtputs : tx.outputs.zipIdx.map Prod.fst = tx.outputs := List.zipIdx_map_fst 0 tx.outputs
  rw [ofOutputs_eq_map, List.map_map]
  conv_rhs => rw [← houtputs, List.filter_map, List.map_map]
  rfl

/-- Outputs with wanted scripts are created ones. -/
theorem outpoints_ofOutputs_sublist (tx : Transaction) (height : UInt32)
    (wanted : Script → Bool) :
    ((ofOutputs tx height wanted).map outpoint).Sublist tx.creates := by
  rw [outpoints_ofOutputs]
  exact List.filter_sublist.map _

/-- Where no script is wanted twice, no outpoint is taken twice. -/
theorem outpoints_ofOutputs_append_subperm (tx : Transaction) (height : UInt32)
    {p q : Script → Bool} (hdisjoint : ∀ script, q script → p script = false) :
    ((ofOutputs tx height p ++ ofOutputs tx height q).map outpoint).Subperm tx.creates := by
  rw [List.map_append, outpoints_ofOutputs, outpoints_ofOutputs, ← List.map_append]
  set numbered := tx.outputs.zipIdx
  have hsub : (numbered.filter fun o => q o.1.script).Sublist
      (numbered.filter fun o => !p o.1.script) := by
    refine List.monotone_filter_right numbered fun o ho => ?_
    rw [hdisjoint _ ho]
    rfl
  have hall : (numbered.filter (fun o => p o.1.script) ++
      numbered.filter fun o => !p o.1.script).Perm numbered :=
    List.filter_append_perm _ _
  obtain ⟨part, hperm, hpart⟩ := (hsub.append_left _).subperm.trans hall.subperm
  exact ⟨part.map tx.created, hperm.map _, hpart.map _⟩

/-! ### Adding and spending -/

/-- An outpoint is listed if it is the outpoint of an output in the list. -/
theorem isListed_iff {us : List Utxo} {o : OutPoint} :
    isListed us o = true ↔ o ∈ us.map outpoint := by
  simp only [isListed, List.any_eq_true, beq_iff_eq, List.mem_map]

/-- Outputs are added at the end, some of those that come in. -/
theorem addNew_eq_append (us incoming : List Utxo) :
    ∃ part, part.Sublist incoming ∧ addNew us incoming = us ++ part := by
  induction incoming generalizing us with
  | nil => exact ⟨[], List.Sublist.refl _, (List.append_nil us).symm⟩
  | cons u rest ih =>
    rw [addNew, List.foldl_cons, ← addNew]
    obtain ⟨part, hpart, heq⟩ := ih (addOne us u)
    rw [heq]
    unfold addOne
    split
    · exact ⟨part, hpart.cons u, rfl⟩
    · exact ⟨u :: part, hpart.cons_cons u, by simp⟩

/-- What is added to a list comes from the list or from what comes in. -/
theorem mem_of_mem_addNew {us incoming : List Utxo} {u : Utxo} (h : u ∈ addNew us incoming) :
    u ∈ us ∨ u ∈ incoming := by
  obtain ⟨part, hpart, heq⟩ := addNew_eq_append us incoming
  rw [heq, List.mem_append] at h
  exact h.imp_right fun hu => hpart.subset hu

/-- All outputs that come in are added if no outpoint would be listed twice. -/
theorem addNew_of_unlisted {us incoming : List Utxo}
    (h : ((us ++ incoming).map outpoint).Nodup) : addNew us incoming = us ++ incoming := by
  induction incoming generalizing us with
  | nil => exact (List.append_nil us).symm
  | cons u rest ih =>
    have hsplit : us ++ u :: rest = us ++ [u] ++ rest := by simp
    rw [hsplit] at h
    have hunlisted : ¬ isListed us u.outpoint = true := by
      rw [isListed_iff]
      intro hmem
      rw [List.map_append, List.map_append] at h
      have hdisjoint := (List.nodup_append.mp (List.nodup_append.mp h).1).2.2
      exact hdisjoint _ hmem _ (by simp) rfl
    rw [addNew, List.foldl_cons, ← addNew, addOne, if_neg hunlisted, ih h, hsplit]

/-- No outpoint is listed twice after outputs have been added if none was before. -/
theorem nodup_addNew {us : List Utxo} (h : (us.map outpoint).Nodup) (incoming : List Utxo) :
    ((addNew us incoming).map outpoint).Nodup := by
  induction incoming generalizing us with
  | nil => exact h
  | cons u rest ih =>
    rw [addNew, List.foldl_cons, ← addNew]
    refine ih ?_
    unfold addOne
    split
    · exact h
    · next hunlisted =>
      rw [isListed_iff] at hunlisted
      rw [List.map_append]
      exact List.nodup_append.mpr ⟨h, List.nodup_singleton _, fun o ho o' ho' heq =>
        hunlisted ((List.mem_singleton.mp ho').symm ▸ heq ▸ ho)⟩

/-- An output is spent exactly if its outpoint is. -/
theorem isSpentBy_iff {u : Utxo} {tx : Transaction} :
    u.isSpentBy tx = true ↔ u.outpoint ∈ tx.spends := by
  simp only [isSpentBy, Transaction.spends, List.any_eq_true, beq_iff_eq, List.mem_map]

/-- **What is spent is not listed any more.** When a transaction spends outpoints of a list, the
rest of the list and what it spends are together no more than the list. -/
theorem count_withoutSpent {us : List Utxo} {tx : Transaction}
    (h : tx.spends.Subperm (us.map outpoint)) (o : OutPoint) :
    ((withoutSpent us tx).map outpoint).count o + tx.spends.count o ≤
      (us.map outpoint).count o := by
  by_cases hspent : o ∈ tx.spends
  · have hgone : o ∉ (withoutSpent us tx).map outpoint := by
      intro hmem
      obtain ⟨u, hu, rfl⟩ := List.mem_map.mp hmem
      have hkept := (List.mem_filter.mp hu).2
      rw [isSpentBy_iff.mpr hspent] at hkept
      cases hkept
    rw [List.count_eq_zero_of_not_mem hgone, Nat.zero_add]
    exact h.count_le o
  · have hsub : ((withoutSpent us tx).map outpoint).Sublist (us.map outpoint) :=
      List.filter_sublist.map _
    rw [List.count_eq_zero_of_not_mem hspent, Nat.add_zero]
    exact hsub.count_le o

/-- Where no outpoint is listed twice, a list loses no output but those that are spent. -/
theorem append_withoutSpent_perm {us spent : List Utxo} {tx : Transaction}
    (hdistinct : (us.map outpoint).Nodup) (hpart : spent.Subperm us)
    (hspends : tx.spends = spent.map outpoint) : (spent ++ withoutSpent us tx).Perm us := by
  have hus : us.Nodup := hdistinct.of_map
  have hspent : spent.Nodup := by
    obtain ⟨part, hperm, hsub⟩ := hpart
    exact hperm.nodup_iff.mp (hus.sublist hsub)
  have hinjective := List.inj_on_of_nodup_map hdistinct
  have htaken : spent.Perm (us.filter fun u => u.isSpentBy tx) := by
    refine (List.perm_ext_iff_of_nodup hspent (hus.filter _)).mpr fun u => ?_
    rw [List.mem_filter, isSpentBy_iff, hspends]
    constructor
    · intro hu
      exact ⟨hpart.subset hu, List.mem_map_of_mem hu⟩
    · rintro ⟨hu, hmem⟩
      obtain ⟨v, hv, hsame⟩ := List.mem_map.mp hmem
      rw [← hinjective (hpart.subset hv) hu hsame]
      exact hv
  exact (htaken.append_right _).trans (List.filter_append_perm _ us)

end Utxo

end TwoWayPeg
