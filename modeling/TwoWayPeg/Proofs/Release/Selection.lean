import TwoWayPeg.Proofs.Release.SpendingOrder
import TwoWayPeg.Proofs.Utxo

/-!
# Which coins a payment takes

A payment takes coins in the order of spending until they are worth the amount. Since the most
valuable coins come first, no other choice of coins that are worth the amount has fewer of them: as
many coins as are in a choice are worth at least as much when they are taken from the front.

* `Utxo.total_le_total_take`: the most valuable outputs are worth most.
* `Utxo.length_le_of_shortest`: no choice is smaller than the shortest sufficient front.
* `Wallet.total_gather_lt_iff`: the coins fall short of an amount only if all coins do.
* `Wallet.total_lt_of_prefix_gather`: no coin is taken after the amount has been reached.
* `Wallet.pay_takes_fewest`: when a payment is refused for lack of money, and what it takes
  otherwise.
-/

namespace TwoWayPeg

/-! ### The most valuable outputs -/

namespace Utxo

/-- One more output in front is worth at least as much as one more output further behind. -/
theorem total_take_succ_le {u : Utxo} {us : List Utxo} (h : ∀ v ∈ us, v.value.sats ≤ u.value.sats)
    (n : Nat) : total (us.take (n + 1)) ≤ u.value.sats + total (us.take n) := by
  rw [List.take_add_one, total_append]
  cases hnext : us[n]? with
  | none =>
    show total (us.take n) + 0 ≤ _
    omega
  | some v =>
    have hvalue := h v (List.mem_of_getElem? hnext)
    show total (us.take n) + (v.value.sats + 0) ≤ _
    omega

/-- **The most valuable outputs are worth most**: no part of a list in which values decrease is
worth more than as many outputs from its front. -/
theorem total_le_total_take {us part : List Utxo}
    (hsorted : us.Pairwise fun u v => v.value.sats ≤ u.value.sats) (hpart : part.Sublist us) :
    total part ≤ total (us.take part.length) := by
  induction hpart with
  | slnil => exact Nat.le_refl 0
  | @cons part us u _ ih =>
    obtain ⟨hfirst, hrest⟩ := List.pairwise_cons.mp hsorted
    apply (ih hrest).trans
    cases hlength : part.length with
    | zero => exact Nat.le_refl 0
    | succ n => exact total_take_succ_le hfirst n
  | @cons_cons part us u _ ih =>
    have hle := ih hsorted.of_cons
    show u.value.sats + total part ≤ u.value.sats + total (us.take part.length)
    omega

/-- **No choice is smaller than the shortest sufficient front**: where values decrease, outputs from
the front that are worth an amount, but not without the last ones of them, are no more than any part
of the list that is worth the amount. -/
theorem length_le_of_shortest {us front choice : List Utxo} {amount : Nat}
    (hsorted : us.Pairwise fun u v => v.value.sats ≤ u.value.sats) (hfront : front <+: us)
    (hshortest : ∀ part, part <+: front → part ≠ front → total part < amount)
    (hchoice : choice.Subperm us) (hworth : amount ≤ total choice) :
    front.length ≤ choice.length := by
  by_contra hfewer
  rw [Nat.not_le] at hfewer
  -- as many outputs from the front are worth at least as much, but they are too few
  obtain ⟨part, hperm, hpart⟩ := hchoice
  have hmost := total_le_total_take hsorted hpart
  rw [total_perm hperm, hperm.length_eq] at hmost
  have htake : us.take choice.length = front.take choice.length := by
    obtain ⟨rest, rfl⟩ := hfront
    rw [List.take_append_of_le_length (Nat.le_of_lt hfewer)]
  have hne : front.take choice.length ≠ front := by
    intro heq
    have hlength := congrArg List.length heq
    rw [List.length_take] at hlength
    omega
  have hshort := hshortest (front.take choice.length) (List.take_prefix _ _) hne
  rw [htake] at hmost
  omega

end Utxo

/-- The coins of a list are spent by decreasing value. -/
theorem Coin.pairwise_value (us : List Utxo) (federations : List Federation) :
    ((ofUtxos us federations).map Coin.utxo).Pairwise fun u v => v.value.sats ≤ u.value.sats := by
  rw [List.pairwise_map]
  apply (pairwise_ofUtxos us federations).imp
  intro a b hab
  rcases notAfter_iff.mp hab with hless | ⟨heq, -⟩
  · exact Nat.le_of_lt hless
  · exact Nat.le_of_eq heq.symm

namespace Wallet

/-! ### Gathering -/

/-- If coins are worth less than the amount, there are no others. -/
theorem gather_of_total_lt {amount : Nat} {coins : List Coin}
    (h : Coin.total (gather amount coins) < amount) : gather amount coins = coins := by
  induction coins generalizing amount with
  | nil => rfl
  | cons c rest ih =>
    unfold gather at h ⊢
    by_cases hzero : amount = 0
    · omega
    · rw [if_neg hzero] at h ⊢
      have hshort : c.utxo.value.sats + Coin.total (gather (amount - c.utxo.value.sats) rest) <
        amount := h
      rw [ih (by omega)]

/-- **The coins fall short of an amount** exactly if all coins of the wallet do. -/
theorem total_gather_lt_iff {amount : Nat} {coins : List Coin} :
    Coin.total (gather amount coins) < amount ↔ Coin.total coins < amount := by
  constructor
  · intro h
    rw [gather_of_total_lt h] at h
    exact h
  · intro h
    obtain ⟨rest, hrest⟩ := isPrefix_gather amount coins
    have htotal := Coin.total_append (gather amount coins) rest
    rw [hrest] at htotal
    omega

/-- **No coin is taken after the amount has been reached**: fewer coins from the front are worth
less. -/
theorem total_lt_of_prefix_gather {amount : Nat} {coins part : List Coin}
    (hpart : part <+: gather amount coins) (hne : part ≠ gather amount coins) :
    Coin.total part < amount := by
  induction coins generalizing amount part with
  | nil => exact absurd (List.prefix_nil.mp hpart) hne
  | cons c rest ih =>
    unfold gather at hpart hne
    by_cases hzero : amount = 0
    · rw [if_pos hzero] at hpart hne
      exact absurd (List.prefix_nil.mp hpart) hne
    rw [if_neg hzero] at hpart hne
    cases part with
    | nil => exact Nat.pos_of_ne_zero hzero
    | cons c' part =>
      obtain ⟨rfl, hpart⟩ := List.cons_prefix_cons.mp hpart
      have hless := ih hpart fun heq => hne (heq ▸ rfl)
      show c'.utxo.value.sats + Coin.total part < amount
      omega

/-- No coins are taken only for nothing or from nothing. -/
theorem gather_eq_nil_iff {amount : Nat} {coins : List Coin} :
    gather amount coins = [] ↔ amount = 0 ∨ coins = [] := by
  cases coins with
  | nil => simp [gather]
  | cons c rest =>
    unfold gather
    by_cases hzero : amount = 0
    · simp [hzero]
    · simp [hzero]

/-! ### Refusals -/

/-- What a fee is refused for. -/
theorem feeFor_eq_error {w : Wallet} {tx : Transaction} {coins : List Coin} {e : BuildError}
    (h : w.feeFor tx coins = .error e) :
    e = .tooLarge (signedSize tx coins) w.maxTransactionSize ∨
      e = .feeOverflow (signedSize tx coins) w.feePerKb := by
  unfold feeFor at h
  simp only at h
  split at h
  · cases h
    exact .inl rfl
  · split at h
    · cases h
      exact .inr rfl
    · cases h

/-- Adjusting has one reason to fail. -/
theorem adjust_eq_error {w : Wallet} {amount change fee : Nat} {e : BuildError}
    (h : w.adjust amount change fee = .error e) : e = .cannotAdjust := by
  simp only [adjust] at h
  generalize (if 0 < change ∧ change < w.minimumOutput.sats then w.minimumOutput.sats
    else change) = topped at h
  split at h
  · cases h
    rfl
  · cases h

/-- **A payment is refused for lack of money** exactly if nothing is to be paid or the wallet has
less than that. -/
theorem payWithChange_insufficientMoney_iff {w : Wallet} {destination changeScript : Script}
    {amount : Amount} :
    (∃ required available, w.payWithChange destination amount changeScript =
        .error (.insufficientMoney required available)) ↔
      amount.sats = 0 ∨ w.balance < amount.sats := by
  have hrefused : Coin.total (gather amount.sats w.coins) < amount.sats ∨
      (gather amount.sats w.coins).isEmpty = true ↔ amount.sats = 0 ∨ w.balance < amount.sats := by
    rw [total_gather_lt_iff, List.isEmpty_iff, gather_eq_nil_iff, ← balance]
    constructor
    · rintro (hless | hzero | hnil)
      · exact .inr hless
      · exact .inl hzero
      · have hbalance : w.balance = 0 := by
          rw [balance, hnil]
          rfl
        omega
    · rintro (hzero | hless)
      · exact .inr (.inl hzero)
      · exact .inl hless
  rw [← hrefused]
  unfold payWithChange
  simp only
  split
  · next hshort => exact iff_of_true ⟨_, _, rfl⟩ hshort
  · next henough =>
    refine iff_of_false ?_ henough
    rintro ⟨required, available, h⟩
    split at h
    · next e hfee =>
      cases h
      rcases feeFor_eq_error hfee with he | he
      · cases he
      · cases he
    · split at h
      · next e hadjust =>
        cases h
        cases adjust_eq_error hadjust
      · cases h

/-! ### Payments -/

/-- The balance of a wallet is what the owned outputs are worth. -/
theorem balance_of (us : List Utxo) (federations : List Federation) (changeScript : Script)
    (feePerKb : Amount) (c : Constants) :
    (Wallet.of us federations changeScript feePerKb c).balance =
      Utxo.total (us.filter (Coin.isOwned federations)) :=
  Utxo.total_perm (Coin.utxos_ofUtxos_perm us federations)

/-- **A payment takes as few outputs as possible.** For any outputs, federations and amount, it is
refused for lack of money exactly if nothing is to be paid or the owned outputs are worth less than
the amount. If it is built, the selected outputs are worth the amount, without the last ones of them
they would not be, and no choice of owned outputs that are worth the amount has fewer of them. -/
theorem pay_takes_fewest (us : List Utxo) (federations : List Federation)
    (changeScript : Script) (feePerKb : Amount) (c : Constants) (destination : Script)
    (amount : Amount) :
    ((∃ required available,
        (Wallet.of us federations changeScript feePerKb c).pay destination amount =
          .error (.insufficientMoney required available)) ↔
      amount.sats = 0 ∨ Utxo.total (us.filter (Coin.isOwned federations)) < amount.sats) ∧
    ∀ built, (Wallet.of us federations changeScript feePerKb c).pay destination amount = .ok built →
      amount.sats ≤ Utxo.total built.selected ∧
      (∀ part, part <+: built.selected → part ≠ built.selected → Utxo.total part < amount.sats) ∧
      ∀ choice : List Utxo, choice.Subperm (us.filter (Coin.isOwned federations)) →
        amount.sats ≤ Utxo.total choice → built.selected.length ≤ choice.length := by
  refine ⟨?_, fun built hbuilt => ?_⟩
  · rw [pay, payWithChange_insufficientMoney_iff, balance_of]
  obtain ⟨henough, -, -, recipient, topped, -, -, hcoins⟩ := payWithChange_eq_ok hbuilt
  have hselected : built.selected =
      (gather amount.sats (Coin.ofUtxos us federations)).map Coin.utxo :=
    congrArg (List.map _) hcoins
  have hshortest : ∀ part, part <+: built.selected → part ≠ built.selected →
      Utxo.total part < amount.sats := by
    intro part hpart hne
    rw [hselected] at hpart hne
    obtain ⟨taken, htaken, rfl⟩ := List.prefix_map_iff.mp hpart
    exact total_lt_of_prefix_gather htaken fun heq => hne (heq ▸ rfl)
  refine ⟨?_, hshortest, fun choice hchoice hworth => ?_⟩
  · rw [hselected]
    exact henough
  · have hfront : built.selected <+: (Coin.ofUtxos us federations).map Coin.utxo := by
      rw [hselected]
      exact (isPrefix_gather _ _).map Coin.utxo
    have howned := (Coin.utxos_ofUtxos_perm us federations).symm.subperm
    exact Utxo.length_le_of_shortest (Coin.pairwise_value us federations) hfront hshortest
      (hchoice.trans howned) hworth

namespace Example

/-- Three outputs of different values. -/
def savings : List Utxo := [output 1 3000000, output 2 2000000, output 3 100000]

/-- A payment that the first of them does not suffice for is built from the first two. -/
theorem pay_savings : ∃ built,
    (walletOf savings constants).build payee (.release (.clamp 4000000)) = .ok built ∧
      built.coins.length = 2 := by
  apply exists_build
  · simp [savings, output]
  · decide +kernel
  · decide +kernel

end Example

/-- Two of three outputs are selected, and no single one would have been enough. -/
theorem pay_takes_fewest_two_of_three : ∃ built,
    (Example.walletOf Example.savings Example.constants).pay Example.payee (.clamp 4000000) =
      .ok built ∧ built.selected.length = 2 ∧
    ∀ choice : List Utxo,
      choice.Subperm (Example.savings.filter
        (Coin.isOwned [PendingSignatures.Example.federation])) →
      4000000 ≤ Utxo.total choice → 2 ≤ choice.length := by
  obtain ⟨built, hbuilt, hlength⟩ := Example.pay_savings
  have htwo : built.selected.length = 2 := by
    rw [BuiltTransaction.selected, List.length_map]
    exact hlength
  obtain ⟨-, -, hfewest⟩ := (pay_takes_fewest Example.savings
    [PendingSignatures.Example.federation] Example.payee Example.constants.genesisFeePerKb
    Example.constants Example.payee (.clamp 4000000)).2 built hbuilt
  refine ⟨built, hbuilt, htwo, fun choice hchoice hworth => ?_⟩
  rw [← htwo]
  exact hfewest choice hchoice hworth

end Wallet

end TwoWayPeg
