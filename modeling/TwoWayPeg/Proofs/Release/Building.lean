import Mathlib.Data.List.Perm.Subperm
import TwoWayPeg.Release.Builder

/-!
# What a built transaction spends

Every way of building a release ends in the same place: some of the wallet's coins are spent by one
unsigned transaction, one input for each coin. The wallet's coins are outputs of the list it was
made from, so no built transaction spends more of an outpoint than that list holds.

* `Wallet.build`: the three ways of building, by what a transaction is built for.
* `Wallet.payWithChange_eq_ok`, `Wallet.payAll_eq_ok`, `Wallet.migrateFrom_eq_ok`: all that is known
  of a successful build.
* `Wallet.spends_of_pay`, `Wallet.spends_of_payAll`, `Wallet.spends_of_migrate`: the spent outpoints
  are a part of the outpoints the wallet was made from, with multiplicities.
-/

namespace TwoWayPeg

/-- A result that has been found to be a value is this value. -/
theorem eq_ok_of_toOption {ε α : Type} {x : Except ε α} {a : α} (h : x.toOption = some a) :
    x = .ok a := by
  cases x with
  | error e => cases h
  | ok b => exact congrArg Except.ok (Option.some.inj h)

/-- A result of which something has been found is a value of which it holds. -/
theorem exists_of_toOption_map {ε α β : Type} {x : Except ε α} {f : α → β} {b : β}
    (h : x.toOption.map f = some b) : ∃ a, x = .ok a ∧ f a = b := by
  obtain ⟨a, ha, hb⟩ := Option.map_eq_some_iff.mp h
  exact ⟨a, eq_ok_of_toOption ha, hb⟩

/-- The outpoints that a transaction spends. -/
def Transaction.spends (tx : Transaction) : List OutPoint := tx.inputs.map TxIn.previous

/-! ### The wallet -/

namespace Coin

/-- Whether one of some federations can spend an output. -/
def isOwned (federations : List Federation) (u : Utxo) : Bool :=
  ((federations.map fun f => (f.payScript, f)).find? fun o => o.1 == u.script).isSome

/-- The coin of an output, with the first federation that it pays. -/
def of? (federations : List Federation) (u : Utxo) : Option Coin :=
  ((federations.map fun f => (f.payScript, f)).find? fun o => o.1 == u.script).map fun o => ⟨u, o.2⟩

/-- The coins among outputs are the coins of single outputs, in the order of spending. -/
theorem ofUtxos_eq (us : List Utxo) (federations : List Federation) :
    ofUtxos us federations = (us.filterMap (of? federations)).mergeSort notAfter := rfl

/-- An output has a coin if it is owned. -/
theorem utxo_of? (federations : List Federation) (u : Utxo) :
    (of? federations u).map Coin.utxo = Option.guard (isOwned federations) u := by
  cases h : (federations.map fun f => (f.payScript, f)).find? fun o => o.1 == u.script with
  | none =>
    simp only [of?, isOwned, Option.guard, h, Option.map_none, Option.isSome_none,
      Bool.false_eq_true, if_false]
  | some o =>
    simp only [of?, isOwned, Option.guard, h, Option.map_some, Option.isSome_some, if_true]

/-- The outputs of the coins are the owned ones, each as often as it is listed. -/
theorem utxos_ofUtxos_perm (us : List Utxo) (federations : List Federation) :
    ((ofUtxos us federations).map Coin.utxo).Perm (us.filter (isOwned federations)) := by
  have howned : (us.filterMap (of? federations)).map Coin.utxo =
      us.filter (isOwned federations) := by
    rw [List.map_filterMap, funext (utxo_of? federations), List.filterMap_eq_filter]
  rw [ofUtxos_eq, ← howned]
  exact (List.mergeSort_perm _ _).map Coin.utxo

/-- No output is a coin more often than it is listed. -/
theorem utxos_ofUtxos_subperm (us : List Utxo) (federations : List Federation) :
    ((ofUtxos us federations).map Coin.utxo).Subperm us :=
  (utxos_ofUtxos_perm us federations).subperm.trans List.filter_sublist.subperm

/-- An output is owned if one of the federations is paid by it. -/
theorem isOwned_iff {federations : List Federation} {u : Utxo} :
    isOwned federations u = true ↔ ∃ f ∈ federations, f.payScript = u.script := by
  simp [isOwned]

/-- The coins of one federation are the outputs that pay it. -/
theorem ofUtxos_of_paid {us : List Utxo} {f : Federation} (h : ∀ u ∈ us, u.script = f.payScript) :
    ofUtxos us [f] = (us.map fun u => ⟨u, f⟩).mergeSort notAfter := by
  rw [ofUtxos_eq, ← List.filterMap_eq_map]
  congr 1
  apply List.filterMap_congr
  intro u hu
  have hpaid : (f.payScript == u.script) = true := beq_iff_eq.mpr (h u hu).symm
  simp [of?, hpaid]

/-- Outputs that are listed in the order of spending are coins in the order of the list. -/
theorem ofUtxos_of_ordered {us : List Utxo} {f : Federation}
    (hpaid : ∀ u ∈ us, u.script = f.payScript)
    (hordered : (us.map fun u => (⟨u, f⟩ : Coin)).Pairwise fun a b => a.notAfter b = true) :
    ofUtxos us [f] = us.map fun u => ⟨u, f⟩ := by
  rw [ofUtxos_of_paid hpaid, List.mergeSort_of_pairwise hordered]

/-- A coin belongs to a federation that its output pays. -/
theorem owner_of_of? {federations : List Federation} {u : Utxo} {c : Coin}
    (h : of? federations u = some c) :
    c.utxo = u ∧ c.owner ∈ federations ∧ c.owner.payScript = u.script := by
  obtain ⟨o, ho, rfl⟩ := Option.map_eq_some_iff.mp h
  obtain ⟨f, hf, rfl⟩ := List.mem_map.mp (List.mem_of_find?_eq_some ho)
  have hpaid := List.find?_some ho
  exact ⟨rfl, hf, eq_of_beq hpaid⟩

/-- Coins belong to federations that their outputs pay. -/
theorem owner_of_mem {us : List Utxo} {federations : List Federation} {c : Coin}
    (hc : c ∈ ofUtxos us federations) :
    c.owner ∈ federations ∧ c.owner.payScript = c.utxo.script := by
  rw [ofUtxos_eq] at hc
  obtain ⟨u, -, hcoin⟩ := List.mem_filterMap.mp ((List.mergeSort_perm _ _).mem_iff.mp hc)
  obtain ⟨rfl, howner⟩ := owner_of_of? hcoin
  exact howner

/-- Coins belong to the federations that can spend them. -/
theorem owner_mem_of_mem_ofUtxos {us : List Utxo} {federations : List Federation} {c : Coin}
    (hc : c ∈ ofUtxos us federations) : c.owner ∈ federations :=
  (owner_of_mem hc).1

end Coin

namespace Wallet

/-! ### Building -/

/-- What a transaction is built for. -/
inductive Purpose
  /-- An amount is paid, and the change returns to the wallet. -/
  | release (amount : Amount)
  /-- Everything is paid. -/
  | refund
  /-- As much as possible of an amount is moved, and the change goes the same way. -/
  | migration (amount : Amount)

/-- Builds a transaction for a purpose. -/
def build (w : Wallet) (destination : Script) : Purpose → Except BuildError BuiltTransaction
  | .release amount => w.pay destination amount
  | .refund => w.payAll destination
  | .migration amount => w.migrate destination amount

/-! ### Successful builds -/

/-- Coins are gathered from the front. -/
theorem isPrefix_gather (amount : Nat) (coins : List Coin) : gather amount coins <+: coins := by
  induction coins generalizing amount with
  | nil => exact List.prefix_rfl
  | cons c rest ih =>
    unfold gather
    split
    · exact List.nil_prefix
    · exact (List.prefix_cons_inj c).mpr (ih _)

/-- An unsigned transaction spends its coins in their order. -/
@[simp] theorem spends_unsigned (coins : List Coin) (outputs : List TxOut) :
    (unsigned coins outputs).spends = coins.map fun c => c.utxo.outpoint := by
  simp [Transaction.spends, unsigned, Coin.input, Function.comp_def]

/-- What is known of a payment that is built: the first coins that reach the amount are spent, the
fee is that of the draft, and recipient and change are what adjusting leaves. -/
theorem payWithChange_eq_ok {w : Wallet} {destination changeScript : Script} {amount : Amount}
    {built : BuiltTransaction}
    (h : w.payWithChange destination amount changeScript = .ok built) :
    let coins := gather amount.sats w.coins
    let change := Coin.total coins - amount.sats
    amount.sats ≤ Coin.total coins ∧ coins ≠ [] ∧
      w.feeFor (unsigned coins (outputs destination changeScript amount.sats change)) coins =
        .ok built.fee ∧
      ∃ recipient topped,
        w.adjust amount.sats change built.fee.sats = .ok (recipient, topped) ∧
        built.tx = unsigned coins (outputs destination changeScript recipient topped) ∧
        built.coins = coins := by
  intro coins change
  unfold payWithChange at h
  simp only at h
  split at h
  · cases h
  · next henough =>
    split at h
    · cases h
    · next fee hfee =>
      split at h
      · cases h
      · next recipient topped hadjust =>
        cases h
        rw [not_or, Nat.not_lt] at henough
        refine ⟨henough.1, ?_, hfee, recipient, topped, hadjust, rfl, rfl⟩
        intro hnil
        exact henough.2 (List.isEmpty_iff.mpr hnil)

/-- What is known of an emptied wallet: all coins are spent into one output. -/
theorem payAll_eq_ok {w : Wallet} {destination : Script} {built : BuiltTransaction}
    (h : w.payAll destination = .ok built) :
    w.coins ≠ [] ∧
      w.feeFor (unsigned w.coins [⟨.clamp w.balance, destination⟩]) w.coins = .ok built.fee ∧
      w.minimumOutput.sats ≤ w.balance - built.fee.sats ∧
      built.tx = unsigned w.coins [⟨.clamp (w.balance - built.fee.sats), destination⟩] ∧
      built.coins = w.coins := by
  unfold payAll at h
  simp only at h
  split at h
  · cases h
  · next hcoins =>
    split at h
    · cases h
    · next fee hfee =>
      split at h
      · cases h
      · next hdust =>
        cases h
        exact ⟨fun hnil => hcoins (List.isEmpty_iff.mpr hnil), hfee, Nat.le_of_not_lt hdust, rfl,
          rfl⟩

/-- A migration is the payment of one of the amounts that were tried, with the change to the same
script. -/
theorem migrateFrom_eq_ok {w : Wallet} {destination : Script} {attempts : Nat} {target : Amount}
    {built : BuiltTransaction} (h : w.migrateFrom destination attempts target = .ok built) :
    ∃ tried, w.minimumOutput.sats ≤ tried.sats ∧
      w.payWithChange destination tried destination = .ok built := by
  induction attempts generalizing target with
  | zero => cases h
  | succ attempts ih =>
    unfold migrateFrom at h
    split at h
    · cases h
    · next hdust =>
      split at h
      · next hpay =>
        cases h
        exact ⟨target, Nat.le_of_not_lt hdust, hpay⟩
      · split at h
        · exact ih h
        · cases h

/-- **Whatever is built** is a payment with change to some script, or a refund. -/
theorem build_eq_ok {w : Wallet} {destination : Script} {purpose : Purpose}
    {built : BuiltTransaction} (h : w.build destination purpose = .ok built) :
    (∃ tried changeScript, w.payWithChange destination tried changeScript = .ok built) ∨
      purpose = .refund ∧ w.payAll destination = .ok built := by
  cases purpose with
  | release amount => exact .inl ⟨amount, w.changeScript, h⟩
  | refund => exact .inr ⟨rfl, h⟩
  | migration amount =>
    obtain ⟨tried, -, hpay⟩ := migrateFrom_eq_ok h
    exact .inl ⟨tried, destination, hpay⟩

/-- A payment pays nobody but its destination and, if there is change, the change script. -/
theorem script_of_payWithChange {w : Wallet} {destination changeScript : Script} {amount : Amount}
    {built : BuiltTransaction}
    (h : w.payWithChange destination amount changeScript = .ok built) :
    ∀ o ∈ built.tx.outputs, o.script = destination ∨ o.script = changeScript := by
  obtain ⟨-, -, -, recipient, topped, -, htx, -⟩ := payWithChange_eq_ok h
  rw [htx]
  intro o ho
  rcases List.mem_cons.mp ho with rfl | ho
  · exact .inl rfl
  · split at ho
    · rw [List.mem_singleton.mp ho]
      exact .inr rfl
    · exact absurd ho List.not_mem_nil

/-- **A migration pays nobody but its destination.** -/
theorem script_of_migrate {w : Wallet} {destination : Script} {amount : Amount}
    {built : BuiltTransaction} (h : w.migrate destination amount = .ok built) :
    ∀ o ∈ built.tx.outputs, o.script = destination := by
  obtain ⟨tried, -, hpay⟩ := migrateFrom_eq_ok h
  intro o ho
  exact (or_self _).mp (script_of_payWithChange hpay o ho)

/-! ### Spent outpoints -/

variable {us : List Utxo} {federations : List Federation} {script destination : Script}
  {fee : Amount} {c : Constants} {built : BuiltTransaction}

/-- Coins from the front of a wallet stand for outputs it was made from. -/
theorem utxos_subperm_of_prefix {coins : List Coin}
    (h : coins <+: (Wallet.of us federations script fee c).coins) :
    (coins.map Coin.utxo).Subperm us :=
  ((h.map Coin.utxo).sublist.subperm).trans (Coin.utxos_ofUtxos_subperm us federations)

/-- Their outpoints are a part of the outpoints of these outputs. -/
theorem outpoints_subperm_of_prefix {coins : List Coin}
    (h : coins <+: (Wallet.of us federations script fee c).coins) :
    (coins.map fun c => c.utxo.outpoint).Subperm (us.map Utxo.outpoint) := by
  obtain ⟨part, hperm, hsub⟩ := utxos_subperm_of_prefix h
  have hmap : coins.map (fun c => c.utxo.outpoint) = (coins.map Coin.utxo).map Utxo.outpoint := by
    simp [Function.comp_def]
  rw [hmap]
  exact ⟨part.map Utxo.outpoint, hperm.map _, hsub.map _⟩

/-- The outputs that a payment selects are outputs its wallet was made from. -/
theorem selected_subperm_of_payWithChange {changeScript : Script} {amount : Amount}
    (h : (Wallet.of us federations script fee c).payWithChange destination amount changeScript =
      .ok built) : built.selected.Subperm us := by
  obtain ⟨-, -, -, recipient, topped, -, -, hcoins⟩ := payWithChange_eq_ok h
  rw [BuiltTransaction.selected, hcoins]
  exact utxos_subperm_of_prefix (isPrefix_gather _ _)

/-- A payment spends outpoints of the list its wallet was made from. -/
theorem spends_of_payWithChange {changeScript : Script} {amount : Amount}
    (h : (Wallet.of us federations script fee c).payWithChange destination amount changeScript =
      .ok built) : built.tx.spends.Subperm (us.map Utxo.outpoint) := by
  obtain ⟨-, -, -, recipient, topped, -, htx, -⟩ := payWithChange_eq_ok h
  rw [htx, spends_unsigned]
  exact outpoints_subperm_of_prefix (isPrefix_gather _ _)

/-- A payment with change to the wallet spends outpoints of the list its wallet was made from. -/
theorem spends_of_pay {amount : Amount}
    (h : (Wallet.of us federations script fee c).pay destination amount = .ok built) :
    built.tx.spends.Subperm (us.map Utxo.outpoint) :=
  spends_of_payWithChange h

/-- Emptying a wallet spends outpoints of the list it was made from. -/
theorem spends_of_payAll (h : (Wallet.of us federations script fee c).payAll destination =
    .ok built) : built.tx.spends.Subperm (us.map Utxo.outpoint) := by
  obtain ⟨-, -, -, htx, -⟩ := payAll_eq_ok h
  rw [htx, spends_unsigned]
  exact outpoints_subperm_of_prefix List.prefix_rfl

/-- A migration spends outpoints of the list its wallet was made from. -/
theorem spends_of_migrate {amount : Amount}
    (h : (Wallet.of us federations script fee c).migrate destination amount = .ok built) :
    built.tx.spends.Subperm (us.map Utxo.outpoint) := by
  obtain ⟨tried, -, hpay⟩ := migrateFrom_eq_ok h
  exact spends_of_payWithChange hpay

end Wallet

end TwoWayPeg
