import Mathlib.Data.List.Sort
import TwoWayPeg.Proofs.Release.Building
import TwoWayPeg.Proofs.Release.Collecting

/-!
# The order of spending

Nodes learn of the outputs of a federation in different orders, and still they have to build the
same transaction. Coins are spent by value, and coins of one value by their outpoints. Two coins
that neither comes after the other have the same outpoint, so as long as no outpoint is listed twice
there is only one order in which the coins of a list can be spent.

* `Coin.notAfter_iff`: one coin is spent no later than another.
* `Coin.pairwise_ofUtxos`: the coins of a wallet are in their order.
* `Coin.ofUtxos_eq_of_perm`: they do not depend on the order of the list.
* `Wallet.build_eq_of_perm`: neither does anything that is built.
-/

namespace TwoWayPeg

namespace Coin

variable {a b c : Coin} {us us' : List Utxo} {federations : List Federation}

/-! ### Comparing coins -/

/-- The coin that is spent first has more value, or else it comes first by its outpoint. -/
theorem notAfter_iff : a.notAfter b = true ↔
    b.utxo.value.sats < a.utxo.value.sats ∨ a.utxo.value.sats = b.utxo.value.sats ∧
      (KeyOrder.cmp a.utxo.txid b.utxo.txid = .lt ∨
        a.utxo.txid = b.utxo.txid ∧ a.utxo.vout ≤ b.utxo.vout) := by
  unfold notAfter
  by_cases hvalue : a.utxo.value.sats = b.utxo.value.sats
  · rw [if_pos hvalue]
    have hless : ¬ b.utxo.value.sats < a.utxo.value.sats := by omega
    cases hcmp : KeyOrder.cmp a.utxo.txid b.utxo.txid with
    | lt => simp [hvalue]
    | gt =>
      have hne : a.utxo.txid ≠ b.utxo.txid := by
        intro heq
        rw [heq, KeyOrder.cmp_self] at hcmp
        cases hcmp
      simp [hless, hne]
    | eq =>
      have heq := (KeyOrder.cmp_eq_iff _ _).mp hcmp
      simp [hvalue, heq]
  · rw [if_neg hvalue]
    simp [hvalue]

/-- The order is transitive. -/
theorem notAfter_trans (hab : a.notAfter b = true) (hbc : b.notAfter c = true) :
    a.notAfter c = true := by
  rw [notAfter_iff] at hab hbc ⊢
  rcases hab with hab | ⟨hvalue, hab⟩
  · rcases hbc with hbc | ⟨hvalue', -⟩
    · exact .inl (Nat.lt_trans hbc hab)
    · exact .inl (hvalue' ▸ hab)
  rcases hbc with hbc | ⟨hvalue', hbc⟩
  · exact .inl (hvalue ▸ hbc)
  refine .inr ⟨hvalue.trans hvalue', ?_⟩
  rcases hab with hab | ⟨htxid, hab⟩
  · rcases hbc with hbc | ⟨htxid', -⟩
    · exact .inl (KeyOrder.cmp_lt_trans hab hbc)
    · exact .inl (htxid' ▸ hab)
  · rcases hbc with hbc | ⟨htxid', hbc⟩
    · exact .inl (htxid ▸ hbc)
    · exact .inr ⟨htxid.trans htxid', UInt32.le_trans hab hbc⟩

/-- Of two coins one is spent no later than the other. -/
theorem notAfter_total (a b : Coin) : (a.notAfter b || b.notAfter a) = true := by
  rw [Bool.or_eq_true, notAfter_iff, notAfter_iff]
  rcases Nat.lt_trichotomy a.utxo.value.sats b.utxo.value.sats with hless | hvalue | hmore
  · exact .inr (.inl hless)
  · cases hcmp : KeyOrder.cmp a.utxo.txid b.utxo.txid with
    | lt => exact .inl (.inr ⟨hvalue, .inl rfl⟩)
    | gt => exact .inr (.inr ⟨hvalue.symm, .inl ((KeyOrder.cmp_gt_iff _ _).mp hcmp)⟩)
    | eq =>
      have htxid := (KeyOrder.cmp_eq_iff _ _).mp hcmp
      rcases UInt32.le_total a.utxo.vout b.utxo.vout with hle | hle
      · exact .inl (.inr ⟨hvalue, .inr ⟨htxid, hle⟩⟩)
      · exact .inr (.inr ⟨hvalue.symm, .inr ⟨htxid.symm, hle⟩⟩)
  · exact .inl (.inl hmore)

/-- Two coins that neither comes after the other have the same outpoint. -/
theorem outpoint_eq_of_notAfter (hab : a.notAfter b = true) (hba : b.notAfter a = true) :
    a.utxo.outpoint = b.utxo.outpoint := by
  rw [notAfter_iff] at hab hba
  obtain ⟨-, hab⟩ : a.utxo.value.sats = b.utxo.value.sats ∧ _ :=
    hab.resolve_left fun hless => by omega
  obtain ⟨-, hba⟩ : b.utxo.value.sats = a.utxo.value.sats ∧ _ :=
    hba.resolve_left fun hless => by omega
  have htxid : a.utxo.txid = b.utxo.txid ∧ a.utxo.vout ≤ b.utxo.vout := by
    refine hab.resolve_left fun hlt => ?_
    rcases hba with hlt' | ⟨heq, -⟩
    · have hself := KeyOrder.cmp_lt_trans hlt hlt'
      rw [KeyOrder.cmp_self] at hself
      cases hself
    · exact KeyOrder.ne_of_cmp_lt hlt heq.symm
  have hvout : b.utxo.vout ≤ a.utxo.vout := by
    rcases hba with hlt | ⟨-, hle⟩
    · exact absurd htxid.1.symm (KeyOrder.ne_of_cmp_lt hlt)
    · exact hle
  show (⟨a.utxo.txid, a.utxo.vout⟩ : OutPoint) = ⟨b.utxo.txid, b.utxo.vout⟩
  rw [htxid.1, UInt32.le_antisymm htxid.2 hvout]

/-! ### The coins of a list -/

/-- **Coins are in the order of spending.** -/
theorem pairwise_ofUtxos (us : List Utxo) (federations : List Federation) :
    (ofUtxos us federations).Pairwise fun a b => a.notAfter b = true := by
  rw [ofUtxos_eq]
  apply List.pairwise_mergeSort
  · intro a b c
    exact notAfter_trans
  · exact notAfter_total

/-- Lists with the same outputs have the same coins. -/
theorem ofUtxos_perm (h : us.Perm us') (federations : List Federation) :
    (ofUtxos us federations).Perm (ofUtxos us' federations) := by
  rw [ofUtxos_eq, ofUtxos_eq]
  apply (List.mergeSort_perm _ _).trans
  apply (h.filterMap _).trans
  exact (List.mergeSort_perm _ _).symm

/-- Coins of different outputs have different outpoints. -/
theorem nodup_outpoints_ofUtxos (h : (us.map Utxo.outpoint).Nodup) (federations : List Federation) :
    ((ofUtxos us federations).map fun c => c.utxo.outpoint).Nodup := by
  obtain ⟨part, hperm, hpart⟩ := utxos_ofUtxos_subperm us federations
  have hnodup := (hperm.map Utxo.outpoint).nodup_iff.mp (h.sublist (hpart.map Utxo.outpoint))
  rw [List.map_map] at hnodup
  exact hnodup

/-- **There is one order of spending**, whatever the order in which the outputs are listed. -/
theorem ofUtxos_eq_of_perm (hperm : us.Perm us') (hdistinct : (us.map Utxo.outpoint).Nodup)
    (federations : List Federation) : ofUtxos us federations = ofUtxos us' federations := by
  have hcoins := ofUtxos_perm hperm federations
  have hinjective := List.inj_on_of_nodup_map (nodup_outpoints_ofUtxos hdistinct federations)
  have hequal : ∀ a b, a ∈ ofUtxos us federations → b ∈ ofUtxos us' federations →
      a.notAfter b = true → b.notAfter a = true → a = b := by
    intro a b ha hb hab hba
    exact hinjective ha (hcoins.mem_iff.mpr hb) (outpoint_eq_of_notAfter hab hba)
  exact hcoins.eq_of_pairwise hequal (pairwise_ofUtxos us federations)
    (pairwise_ofUtxos us' federations)

end Coin

/-! ### Building -/

namespace Wallet

/-- **What is built does not depend on the order of the list** that the wallet was made from:
neither a payment nor a refund nor a migration, and if none of them can be built, the reason is the
same. -/
theorem build_eq_of_perm {us us' : List Utxo} (hperm : us.Perm us')
    (hdistinct : (us.map Utxo.outpoint).Nodup) (federations : List Federation)
    (changeScript : Script) (feePerKb : Amount) (c : Constants) (destination : Script)
    (purpose : Purpose) :
    (Wallet.of us federations changeScript feePerKb c).build destination purpose =
      (Wallet.of us' federations changeScript feePerKb c).build destination purpose := by
  have hcoins := Coin.ofUtxos_eq_of_perm hperm hdistinct federations
  have hwallet : Wallet.of us federations changeScript feePerKb c =
      Wallet.of us' federations changeScript feePerKb c := by
    unfold Wallet.of
    rw [hcoins]
  rw [hwallet]

namespace Example

open PendingSignatures.Example

/-- An output that pays a federation of three members. -/
def output (name sats : Nat) : Utxo :=
  ⟨⟨.ofNat 32 name⟩, 0, .clamp sats, 1, false, federation.payScript⟩

/-- Where payments go. -/
def payee : Script := .payToKeyHash ⟨.replicate 20 5⟩

/-- A wallet of the federation. -/
def walletOf (us : List Utxo) (c : Constants) : Wallet :=
  .of us [federation] payee c.genesisFeePerKb c

/-- The same wallet by its coins. -/
def walletWith (us : List Utxo) (c : Constants) : Wallet where
  coins := us.map fun u => ⟨u, federation⟩
  changeScript := payee
  feePerKb := c.genesisFeePerKb
  minimumOutput := c.minimumOutput
  maxTransactionSize := c.maxTransactionSize
  maxMigrationAttempts := c.maxMigrationAttempts

/-- Outputs that are listed in the order of spending are the coins of the wallet. -/
theorem walletOf_eq {us : List Utxo} {c : Constants}
    (hpaid : ∀ u ∈ us, u.script = federation.payScript)
    (hordered : (us.map fun u => (⟨u, federation⟩ : Coin)).Pairwise
      fun a b => a.notAfter b = true) : walletOf us c = walletWith us c := by
  unfold walletOf Wallet.of
  rw [Coin.ofUtxos_of_ordered hpaid hordered]
  rfl

/-- What such outputs build, with something that is found of it. -/
theorem exists_build {us : List Utxo} {c : Constants} {purpose : Purpose} {β : Type}
    {f : BuiltTransaction → β} {b : β} (hpaid : ∀ u ∈ us, u.script = federation.payScript)
    (hordered : (us.map fun u => (⟨u, federation⟩ : Coin)).Pairwise fun a b => a.notAfter b = true)
    (hfound : ((walletWith us c).build payee purpose).toOption.map f = some b) :
    ∃ built, (walletOf us c).build payee purpose = .ok built ∧ f built = b := by
  rw [walletOf_eq hpaid hordered]
  exact exists_of_toOption_map hfound

/-- The presets for tests. -/
def constants : Constants := .preset .regtest federation

/-- Two outputs of the same value. -/
def twins : List Utxo := [output 1 1000000, output 2 1000000]

/-- A payment from both is built. -/
theorem pay_twins : ∃ built,
    (walletOf twins constants).build payee (.release (.clamp 1500000)) = .ok built ∧
      built.coins.length = 2 := by
  apply exists_build
  · simp [twins, output]
  · decide +kernel
  · decide +kernel

end Example

/-- Two outputs of the same value are listed in both orders, and the same payment is built. -/
theorem build_eq_of_perm_twins :
    Example.twins.Perm Example.twins.reverse ∧ (Example.twins.map Utxo.outpoint).Nodup ∧
      ∃ built,
        (Example.walletOf Example.twins Example.constants).build Example.payee
          (.release (.clamp 1500000)) = .ok built ∧
        (Example.walletOf Example.twins.reverse Example.constants).build Example.payee
          (.release (.clamp 1500000)) = .ok built := by
  have hperm : Example.twins.Perm Example.twins.reverse := (List.reverse_perm _).symm
  have hdistinct : (Example.twins.map Utxo.outpoint).Nodup := by
    decide +kernel
  obtain ⟨built, hbuilt, -⟩ := Example.pay_twins
  refine ⟨hperm, hdistinct, built, hbuilt, ?_⟩
  rw [← hbuilt]
  exact (build_eq_of_perm hperm hdistinct [PendingSignatures.Example.federation] Example.payee
    Example.constants.genesisFeePerKb Example.constants Example.payee
    (.release (.clamp 1500000))).symm

end Wallet

end TwoWayPeg
