import TwoWayPeg.Proofs.Bitcoin.Writing
import TwoWayPeg.Proofs.Release.Balance
import TwoWayPeg.Proofs.Release.Selection

/-!
# What a built transaction costs

The fee is found for a draft, before it is taken off the outputs. Outputs that hold other amounts
are as long as before, so the fee of the draft is the fee of the transaction that is built. The
outputs and the fee add up to what is spent, and no output is too small.

There is one exception. When the whole wallet is paid and the fee is more than the wallet holds,
nothing is left, and whether that is too little is asked of the least amount of an output. Where
every amount will do, the transaction is built all the same, with an output of nothing.

* `Wallet.Priced`: a built transaction spends coins from the front of the wallet and bears the fee
  of its own size.
* `Wallet.least_le_of_build`: no output is too small.
* `Wallet.conserved_of_build_iff`, `Wallet.nothing_paid_of_build`: what outputs and fee add up to.
* `Wallet.accounted_of_build`: the account of everything that is built.
-/

namespace TwoWayPeg

/-! ### Outputs -/

/-- An amount that is no more than a number is no more than the amount nearest to it. -/
theorem Amount.le_clamp {a : Amount} {n : Nat} (h : a.sats ≤ n) : a.sats ≤ (clamp n).sats := by
  have hfits := a.sats_lt
  simp only [clamp]
  omega

/-- The bytes of outputs depend on their scripts only. -/
theorem Transaction.length_outputs_congr {os os' : List TxOut}
    (h : os.map TxOut.script = os'.map TxOut.script) :
    (os.flatMap TxOut.encode).length = (os'.flatMap TxOut.encode).length := by
  have hlength : ∀ o : TxOut, o.encode.length =
      8 + CompactSize.width o.script.length + o.script.length := length_output
  have hsum : ∀ os : List TxOut, os.map (fun o => o.encode.length) =
      (os.map TxOut.script).map fun s => 8 + CompactSize.width s.length + s.length := by
    intro os
    rw [List.map_map]
    exact List.map_congr_left fun o _ => hlength o
  rw [List.length_flatMap, List.length_flatMap, hsum, hsum, h]

namespace Wallet

variable {w : Wallet} {destination changeScript : Script} {amount : Amount}
  {built : BuiltTransaction}

/-! ### The fee of a transaction -/

/-- A transaction that spends a coin has the plain form. -/
theorem encode_unsigned {coins : List Coin} (hsome : coins ≠ []) (outputs : List TxOut) :
    (unsigned coins outputs).encode = (unsigned coins outputs).encodePlain := by
  apply Transaction.encode_eq_plain
  · intro hnil
    exact hsome (List.map_eq_nil_iff.mp hnil)
  · intro i hi
    obtain ⟨c, -, rfl⟩ := List.mem_map.mp hi
    rfl

/-- What outputs hold does not matter for the fee. -/
theorem feeFor_congr (w : Wallet) {coins : List Coin} (hsome : coins ≠ []) {os os' : List TxOut}
    (h : os.map TxOut.script = os'.map TxOut.script) :
    w.feeFor (unsigned coins os) coins = w.feeFor (unsigned coins os') coins := by
  have hcount : os.length = os'.length := by
    simpa using congrArg List.length h
  have hsize : signedSize (unsigned coins os) coins = signedSize (unsigned coins os') coins := by
    unfold signedSize
    rw [encode_unsigned hsome, encode_unsigned hsome, Transaction.length_encodePlain,
      Transaction.length_encodePlain]
    simp only [unsigned, hcount, Transaction.length_outputs_congr h]
  unfold feeFor
  rw [hsize]

/-- The fee is in proportion to the size, and the size is within the limit. -/
theorem feeFor_eq_ok {tx : Transaction} {coins : List Coin} {fee : Amount}
    (h : w.feeFor tx coins = .ok fee) :
    signedSize tx coins ≤ w.maxTransactionSize ∧
      fee.sats = signedSize tx coins * w.feePerKb.sats / 1000 := by
  unfold feeFor at h
  simp only at h
  split at h
  · cases h
  · next hsize =>
    split at h
    · cases h
    · next product hproduct =>
      cases h
      refine ⟨Nat.le_of_not_lt hsize, ?_⟩
      show product.sats / 1000 = _
      rw [Amount.sats_of_ofNat? hproduct]

/-- **A built transaction is priced**: it spends coins from the front of the wallet, at least one,
and bears the fee of its own size. -/
structure Priced (w : Wallet) (built : BuiltTransaction) : Prop where
  some : built.coins ≠ []
  front : built.coins <+: w.coins
  unsigned : built.tx = unsigned built.coins built.tx.outputs
  fee : w.feeFor built.tx built.coins = .ok built.fee

/-- The inputs of a priced transaction are those of its coins. -/
theorem Priced.inputs (h : w.Priced built) : built.tx.inputs = built.coins.map Coin.input := by
  rw [h.unsigned]
  rfl

/-- Change is paid exactly if there was some before it was topped up. -/
theorem scripts_outputs {recipient change recipient' change' : Nat} (h : 0 < change ↔ 0 < change') :
    (outputs destination changeScript recipient change).map TxOut.script =
      (outputs destination changeScript recipient' change').map TxOut.script := by
  unfold outputs
  by_cases hchange : 0 < change
  · rw [if_pos hchange, if_pos (h.mp hchange)]
    rfl
  · rw [if_neg hchange, if_neg (hchange ∘ h.mpr)]
    rfl

/-- A payment is priced. -/
theorem priced_of_payWithChange
    (h : w.payWithChange destination amount changeScript = .ok built) : w.Priced built := by
  obtain ⟨-, hsome, hfee, recipient, topped, hadjust, htx, hcoins⟩ := payWithChange_eq_ok h
  obtain ⟨-, htopped⟩ := adjust_eq_ok hadjust
  rw [← hcoins] at hsome hfee htx htopped
  have hscripts : (outputs destination changeScript recipient topped).map TxOut.script =
      (outputs destination changeScript amount.sats
        (Coin.total built.coins - amount.sats)).map TxOut.script := by
    apply scripts_outputs
    rw [htopped]
    unfold topUp
    split
    · omega
    · omega
  constructor
  case some => exact hsome
  case front =>
    rw [hcoins]
    exact isPrefix_gather _ _
  case unsigned =>
    rw [htx]
    rfl
  case fee =>
    rw [htx, feeFor_congr w hsome hscripts]
    exact hfee

/-- An emptied wallet is priced. -/
theorem priced_of_payAll (h : w.payAll destination = .ok built) : w.Priced built := by
  obtain ⟨hsome, hfee, -, htx, hcoins⟩ := payAll_eq_ok h
  rw [← hcoins] at hsome hfee htx
  constructor
  case some => exact hsome
  case front => exact hcoins ▸ List.prefix_rfl
  case unsigned =>
    rw [htx]
    rfl
  case fee =>
    rw [htx, ← hfee]
    exact feeFor_congr w hsome rfl

/-- **Everything that is built is priced.** -/
theorem priced_of_build {purpose : Purpose} (h : w.build destination purpose = .ok built) :
    w.Priced built := by
  rcases build_eq_ok h with ⟨tried, changeScript, hpay⟩ | ⟨-, hall⟩
  · exact priced_of_payWithChange hpay
  · exact priced_of_payAll hall

/-! ### The least amount of an output -/

/-- What adjusting leaves is not too small, unless there is no change at all. -/
theorem least_le_of_adjust {amount change fee recipient topped : Nat}
    (h : w.adjust amount change fee = .ok (recipient, topped)) :
    w.minimumOutput.sats ≤ recipient ∧ (0 < topped → w.minimumOutput.sats ≤ topped) := by
  simp only [adjust] at h
  split at h
  · split at h
    · cases h
    · next henough =>
      cases h
      exact ⟨by omega, fun _ => Nat.le_refl _⟩
  · next hlarge =>
    split at h
    · cases h
    · next henough =>
      cases h
      exact ⟨by omega, fun hsome => by omega⟩

/-- **No output of a payment is too small.** -/
theorem least_le_of_payWithChange
    (h : w.payWithChange destination amount changeScript = .ok built) :
    ∀ o ∈ built.tx.outputs, w.minimumOutput.sats ≤ o.value.sats := by
  obtain ⟨-, -, -, recipient, topped, hadjust, htx, -⟩ := payWithChange_eq_ok h
  obtain ⟨hrecipient, htopped⟩ := least_le_of_adjust hadjust
  rw [htx]
  intro o ho
  rcases List.mem_cons.mp ho with rfl | ho
  · exact Amount.le_clamp hrecipient
  · split at ho
    · next hsome =>
      rw [List.mem_singleton.mp ho]
      exact Amount.le_clamp (htopped hsome)
    · exact absurd ho List.not_mem_nil

/-- **No output of anything that is built is too small.** -/
theorem least_le_of_build {purpose : Purpose} (h : w.build destination purpose = .ok built) :
    ∀ o ∈ built.tx.outputs, w.minimumOutput.sats ≤ o.value.sats := by
  rcases build_eq_ok h with ⟨tried, changeScript, hpay⟩ | ⟨-, hall⟩
  · exact least_le_of_payWithChange hpay
  · obtain ⟨-, -, hleast, htx, -⟩ := payAll_eq_ok hall
    rw [htx]
    intro o ho
    rw [List.mem_singleton.mp ho]
    exact Amount.le_clamp hleast

/-! ### What is spent -/

/-- **A payment conserves value**: its outputs and its fee are worth what is spent. -/
theorem conserved_of_payWithChange
    (h : w.payWithChange destination amount changeScript = .ok built) :
    Amount.total (built.tx.outputs.map TxOut.value) + built.fee.sats = built.totalInput := by
  obtain ⟨recipient, change, hbalanced⟩ := balanced_of_payWithChange h
  have henough := hbalanced.enough
  have hpaid := hbalanced.paid
  have hreturned := hbalanced.returned
  have houtputs : Amount.total (built.tx.outputs.map TxOut.value) =
      recipient.sats + change.sats := by
    rw [hbalanced.outputs]
    split
    · next hnone =>
      rw [hnone]
      rfl
    · rfl
  rw [houtputs]
  omega

/-- A refund spends what the wallet holds. -/
theorem totalInput_of_payAll (h : w.payAll destination = .ok built) :
    built.totalInput = w.balance := by
  obtain ⟨-, -, -, -, hcoins⟩ := payAll_eq_ok h
  rw [BuiltTransaction.totalInput, hcoins]
  rfl

/-- The output of a refund is worth what the fee leaves of the wallet. -/
theorem total_outputs_of_payAll (h : w.payAll destination = .ok built)
    (hfits : w.balance < UInt64.size) :
    Amount.total (built.tx.outputs.map TxOut.value) = w.balance - built.fee.sats := by
  obtain ⟨-, -, -, htx, -⟩ := payAll_eq_ok h
  have hclamp : (Amount.clamp (w.balance - built.fee.sats)).sats = w.balance - built.fee.sats :=
    Amount.clamp_sats (by omega)
  rw [htx]
  show (Amount.clamp (w.balance - built.fee.sats)).sats + 0 = _
  rw [hclamp, Nat.add_zero]

/-- **Value is conserved** exactly if the fee is no more than what is spent. -/
theorem conserved_of_build_iff {purpose : Purpose} (h : w.build destination purpose = .ok built)
    (hfits : w.balance < UInt64.size) :
    Amount.total (built.tx.outputs.map TxOut.value) + built.fee.sats = built.totalInput ↔
      built.fee.sats ≤ built.totalInput := by
  constructor
  · intro hconserved
    omega
  · intro hle
    rcases build_eq_ok h with ⟨tried, changeScript, hpay⟩ | ⟨-, hall⟩
    · exact conserved_of_payWithChange hpay
    · rw [total_outputs_of_payAll hall hfits]
      rw [totalInput_of_payAll hall] at hle ⊢
      omega

/-- **The fee is more than what is spent** only if the whole wallet is paid and the least output is
nothing. Then nothing is paid. -/
theorem nothing_paid_of_build {purpose : Purpose} (h : w.build destination purpose = .ok built)
    (hless : built.totalInput < built.fee.sats) :
    purpose = .refund ∧ w.minimumOutput.sats = 0 ∧
      built.tx.outputs = [⟨.zero, destination⟩] := by
  rcases build_eq_ok h with ⟨tried, changeScript, hpay⟩ | ⟨hrefund, hall⟩
  · have hconserved := conserved_of_payWithChange hpay
    omega
  · obtain ⟨-, -, hleast, htx, -⟩ := payAll_eq_ok hall
    have hnothing : w.balance - built.fee.sats = 0 := by
      rw [← totalInput_of_payAll hall]
      omega
    rw [hnothing] at hleast htx
    refine ⟨hrefund, Nat.le_zero.mp hleast, ?_⟩
    rw [htx]
    rfl

end Wallet

/-! ### The account -/

/-- **A transaction is accounted for**: it spends, in this order, the selected outputs, which are
owned outputs of the list, and each input has empty slots for the federation that owns the output.
No output is too small. The fee is in proportion to the size that the transaction will have with all
signatures, as far as it is known beforehand, and this size is within the limit. -/
structure BuiltTransaction.Accounted (built : BuiltTransaction) (us : List Utxo)
    (federations : List Federation) (feePerKb : Amount) (c : Constants) : Prop where
  spends : built.tx.spends = built.selected.map Utxo.outpoint
  selected : built.selected.Subperm (us.filter (Coin.isOwned federations))
  owners : ∀ coin ∈ built.coins,
    coin.owner ∈ federations ∧ coin.owner.payScript = coin.utxo.script
  scripts : built.tx.inputs.map TxIn.scriptSig = built.coins.map fun coin =>
    ScriptSig.placeholder coin.owner.redeemScript coin.owner.threshold
  least : ∀ o ∈ built.tx.outputs, c.minimumOutput.sats ≤ o.value.sats
  fee : built.fee.sats = Wallet.signedSize built.tx built.coins * feePerKb.sats / 1000
  size : Wallet.signedSize built.tx built.coins ≤ c.maxTransactionSize

namespace Wallet

variable {us : List Utxo} {federations : List Federation} {changeScript destination : Script}
  {feePerKb : Amount} {c : Constants} {purpose : Purpose} {built : BuiltTransaction}

/-- Whatever is built is accounted for. -/
theorem Priced.accounted (h : (Wallet.of us federations changeScript feePerKb c).Priced built)
    (hleast : ∀ o ∈ built.tx.outputs, c.minimumOutput.sats ≤ o.value.sats) :
    built.Accounted us federations feePerKb c := by
  obtain ⟨hsize, hfee⟩ := feeFor_eq_ok h.fee
  constructor
  case spends =>
    rw [h.unsigned, spends_unsigned, BuiltTransaction.selected, List.map_map]
    rfl
  case selected =>
    have hfront := (h.front.map Coin.utxo).sublist.subperm
    exact hfront.trans (Coin.utxos_ofUtxos_perm us federations).subperm
  case owners =>
    intro coin hcoin
    exact Coin.owner_of_mem (h.front.subset hcoin)
  case scripts =>
    rw [h.unsigned, Wallet.unsigned, List.map_map]
    rfl
  case least => exact hleast
  case fee => exact hfee
  case size => exact hsize

/-- A wallet is worth no more than the list it was made from. -/
theorem balance_lt (hsum : Utxo.total us < UInt64.size) :
    (Wallet.of us federations changeScript feePerKb c).balance < UInt64.size := by
  rw [balance_of]
  have hpart : (us.filter (Coin.isOwned federations)).Subperm us := List.filter_sublist.subperm
  exact Nat.lt_of_le_of_lt (Utxo.total_le_of_subperm hpart) hsum

/-- **What is built is accounted for, and value is conserved** as long as the fee is no more than
what is spent: outputs and fee add up to it. The fee is more only if the whole wallet is paid where
the least output is nothing; then the single output holds nothing. A refund spends everything that
is owned into one output to the destination, and a migration pays nobody else. -/
theorem accounted_of_build (hsum : Utxo.total us < UInt64.size)
    (h : (Wallet.of us federations changeScript feePerKb c).build destination purpose =
      .ok built) :
    built.Accounted us federations feePerKb c ∧
    (Amount.total (built.tx.outputs.map TxOut.value) + built.fee.sats = built.totalInput ↔
      built.fee.sats ≤ built.totalInput) ∧
    (built.totalInput < built.fee.sats →
      purpose = .refund ∧ c.minimumOutput.sats = 0 ∧ built.tx.outputs = [⟨.zero, destination⟩]) ∧
    (purpose = .refund → built.selected.Perm (us.filter (Coin.isOwned federations)) ∧
      ∃ value, built.tx.outputs = [⟨value, destination⟩]) ∧
    ((∃ amount, purpose = .migration amount) → ∀ o ∈ built.tx.outputs, o.script = destination) := by
  refine ⟨(priced_of_build h).accounted (least_le_of_build h),
    conserved_of_build_iff h (balance_lt hsum), nothing_paid_of_build h, ?_, ?_⟩
  · rintro rfl
    obtain ⟨-, -, -, htx, hcoins⟩ := payAll_eq_ok h
    have howned := Coin.utxos_ofUtxos_perm us federations
    rw [BuiltTransaction.selected, hcoins, htx]
    exact ⟨howned, _, rfl⟩
  · rintro ⟨amount, rfl⟩
    exact script_of_migrate h

namespace Example

/-- An output that is worth less than the fee for spending it. -/
def crumb : List Utxo := [output 1 100]

/-- The presets for tests, with outputs of any amount. -/
def anyAmount : Constants := { constants with minimumOutput := .zero }

/-- Everything is paid, and nothing is left of it. -/
theorem payAll_crumb : ∃ built, (walletOf crumb anyAmount).build payee .refund = .ok built ∧
    (built.totalInput, built.fee.sats) = (100, 3390) := by
  apply exists_build
  · simp [crumb, output]
  · decide +kernel
  · decide +kernel

end Example

/-- An output of one hundred is spent for a fee of more than three thousand, and the only output of
the transaction holds nothing. -/
theorem accounted_of_build_crumb :
    Utxo.total Example.crumb < UInt64.size ∧ ∃ built,
      (Example.walletOf Example.crumb Example.anyAmount).build Example.payee .refund = .ok built ∧
      built.totalInput = 100 ∧ built.fee.sats = 3390 ∧
      built.tx.outputs = [⟨.zero, Example.payee⟩] ∧
      Amount.total (built.tx.outputs.map TxOut.value) + built.fee.sats ≠ built.totalInput := by
  have hsum : Utxo.total Example.crumb < UInt64.size := by
    decide +kernel
  obtain ⟨built, hbuilt, hworth⟩ := Example.payAll_crumb
  obtain ⟨hspent, hfee⟩ := Prod.mk.inj hworth
  obtain ⟨-, hconserved, hnothing, -, -⟩ := accounted_of_build hsum hbuilt
  obtain ⟨-, -, houtputs⟩ := hnothing (by omega)
  refine ⟨hsum, built, hbuilt, hspent, hfee, houtputs, ?_⟩
  rw [ne_eq, hconserved]
  omega

end Wallet

end TwoWayPeg
