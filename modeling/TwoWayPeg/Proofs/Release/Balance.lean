import TwoWayPeg.Proofs.Release.Building

/-!
# What a payment adds up to

The coins of a payment are worth the amount or more, and what is more than the amount is change.
Change that is too small to be an output is topped up. The recipient bears the fee and what the
change is topped up by.

* `Wallet.Balanced`: how the outputs of a payment, its fee and its coins belong together.
* `Wallet.total_gather_lt`: the coins are never worth so much more than the amount that the change
  is no amount.
* `Wallet.balanced_of_payWithChange`: a payment that is built is balanced.
-/

namespace TwoWayPeg

namespace Wallet

/-- What change is topped up by: what it lacks to be an output, or nothing if there is no change. -/
def topUp (w : Wallet) (change : Nat) : Nat :=
  if change = 0 then 0 else w.minimumOutput.sats - change

/-- The outputs, the fee and the coins of a payment belong together: the recipient receives the
amount less the fee and less what the change is topped up by. -/
structure Balanced (w : Wallet) (destination changeScript : Script) (amount : Amount)
    (built : BuiltTransaction) (recipient change : Amount) : Prop where
  enough : amount.sats ≤ built.totalInput
  outputs : built.tx.outputs = ⟨recipient, destination⟩ ::
    if change.sats = 0 then [] else [⟨change, changeScript⟩]
  paid : recipient.sats + built.fee.sats + w.topUp (built.totalInput - amount.sats) = amount.sats
  returned : change.sats =
    built.totalInput - amount.sats + w.topUp (built.totalInput - amount.sats)

/-! ### Coins and outputs -/

/-- No coins are gathered for nothing. -/
@[simp] theorem gather_zero (coins : List Coin) : gather 0 coins = [] := by
  cases coins with
  | nil => rfl
  | cons c rest => rfl

/-- What is gathered exceeds the amount by less than the value of one coin. -/
theorem total_gather_lt (amount : Nat) (coins : List Coin) :
    Coin.total (gather amount coins) < amount + UInt64.size := by
  induction coins generalizing amount with
  | nil =>
    rw [gather]
    exact Nat.add_pos_right amount (by decide)
  | cons c rest ih =>
    rw [gather]
    split
    · exact Nat.add_pos_right amount (by decide)
    · have hvalue := c.utxo.value.sats_lt
      have htotal : Coin.total (c :: gather (amount - c.utxo.value.sats) rest) =
          c.utxo.value.sats + Coin.total (gather (amount - c.utxo.value.sats) rest) := rfl
      rw [htotal]
      by_cases hreached : amount ≤ c.utxo.value.sats
      · -- the coin reaches the amount, so it is the last one
        have hnone : Coin.total [] = 0 := rfl
        rw [Nat.sub_eq_zero_of_le hreached, gather_zero, hnone]
        omega
      · have hrest := ih (amount - c.utxo.value.sats)
        omega

/-- Adjusting tops up the change at the cost of the recipient, who pays the fee as well. -/
theorem adjust_eq_ok {w : Wallet} {amount change fee recipient topped : Nat}
    (h : w.adjust amount change fee = .ok (recipient, topped)) :
    recipient + fee + w.topUp change = amount ∧ topped = change + w.topUp change := by
  simp only [adjust] at h
  have hleast : (if 0 < change ∧ change < w.minimumOutput.sats then w.minimumOutput.sats
      else change) = change + w.topUp change := by
    unfold topUp
    split
    · next hsmall =>
      rw [if_neg (Nat.ne_of_gt hsmall.1)]
      omega
    · split
      · rfl
      · omega
  rw [hleast, Nat.add_sub_cancel_left] at h
  split at h
  · cases h
  · next henough =>
    cases h
    rw [not_or, Nat.not_lt] at henough
    exact ⟨by omega, rfl⟩

/-- The outputs of a payment, where the shares are amounts. -/
theorem outputs_eq (destination changeScript : Script) (recipient change : Amount) :
    outputs destination changeScript recipient.sats change.sats = ⟨recipient, destination⟩ ::
      if change.sats = 0 then [] else [⟨change, changeScript⟩] := by
  have hclamp : ∀ a : Amount, Amount.clamp a.sats = a :=
    fun a => Amount.ext (Amount.clamp_sats a.sats_lt)
  rw [outputs, hclamp, hclamp]
  by_cases hnone : change.sats = 0
  · rw [if_neg (by omega), if_pos hnone]
  · rw [if_pos (Nat.pos_of_ne_zero hnone), if_neg hnone]

/-! ### Payments -/

variable {w : Wallet} {destination changeScript : Script} {amount : Amount}
  {built : BuiltTransaction}

/-- **A payment that is built is balanced.** -/
theorem balanced_of_payWithChange
    (h : w.payWithChange destination amount changeScript = .ok built) :
    ∃ recipient change, w.Balanced destination changeScript amount built recipient change := by
  obtain ⟨henough, -, -, recipient, topped, hadjust, htx, hcoins⟩ := payWithChange_eq_ok h
  obtain ⟨hamount, htopped⟩ := adjust_eq_ok hadjust
  have htotal : built.totalInput = Coin.total (gather amount.sats w.coins) := by
    rw [BuiltTransaction.totalInput, hcoins]
  rw [← htotal] at henough hamount htopped
  have hrecipient : recipient < UInt64.size := by
    have hfits := amount.sats_lt
    omega
  have hchange : topped < UInt64.size := by
    have hgathered := total_gather_lt amount.sats w.coins
    have hleast := w.minimumOutput.sats_lt
    rw [← htotal] at hgathered
    unfold topUp at htopped
    split at htopped
    · omega
    · omega
  refine ⟨⟨recipient, hrecipient⟩, ⟨topped, hchange⟩, henough, ?_, hamount, htopped⟩
  rw [htx, ← outputs_eq]
  rfl

/-- The selected outputs are spent, in their order. -/
theorem spends_eq_of_payWithChange
    (h : w.payWithChange destination amount changeScript = .ok built) :
    built.tx.spends = built.selected.map Utxo.outpoint := by
  obtain ⟨-, -, -, recipient, topped, -, htx, hcoins⟩ := payWithChange_eq_ok h
  rw [htx, spends_unsigned, BuiltTransaction.selected, hcoins, List.map_map]
  rfl

/-- A payment selects at least one output. -/
theorem selected_ne_nil_of_payWithChange
    (h : w.payWithChange destination amount changeScript = .ok built) : built.selected ≠ [] := by
  obtain ⟨-, hsome, -, recipient, topped, -, -, hcoins⟩ := payWithChange_eq_ok h
  rw [BuiltTransaction.selected, hcoins]
  simpa using hsome

end Wallet

end TwoWayPeg
