import Mathlib.Data.List.Flatten
import TwoWayPeg.Proofs.Release.Building
import TwoWayPeg.Proofs.SortedMap
import TwoWayPeg.Release.Signing
import TwoWayPeg.Release.Waiting

/-!
# What transactions on their way spend

A built transaction waits and is then signed. On its way it is moved between lists and its scripts
are filled, but what it spends never changes, and no transaction is doubled.

* `WaitingList.takeDue_perm`: what is taken out and what is left are the waiting transactions.
* `PendingSignatures.bare_signTransaction`: signing changes nothing but scripts.
* `PendingSignatures.spends_signTransaction`: signing changes no outpoint.
* `PendingSignatures.count_spent_submit`: signatures add nothing to what is spent.
* `Transaction.SignedFrom`: what comes from a transaction by any number of signatures.
-/

namespace TwoWayPeg

/-- The outpoints that some transactions spend. -/
def Transaction.spentBy (txs : List Transaction) : List OutPoint := txs.flatMap Transaction.spends

namespace Transaction

/-- One more transaction spends its own outpoints. -/
theorem count_spentBy_cons (tx : Transaction) (txs : List Transaction) (o : OutPoint) :
    (spentBy (tx :: txs)).count o = tx.spends.count o + (spentBy txs).count o := by
  rw [spentBy, List.flatMap_cons, List.count_append, ← spentBy]

/-- Two lists of transactions spend what each of them spends. -/
theorem count_spentBy_append (txs txs' : List Transaction) (o : OutPoint) :
    (spentBy (txs ++ txs')).count o = (spentBy txs).count o + (spentBy txs').count o := by
  rw [spentBy, List.flatMap_append, List.count_append, ← spentBy, ← spentBy]

/-- Fewer transactions spend no more. -/
theorem count_spentBy_le {txs txs' : List Transaction} (h : txs.Subperm txs') (o : OutPoint) :
    (spentBy txs).count o ≤ (spentBy txs').count o := by
  obtain ⟨part, hperm, hsub⟩ := h
  have hequal : (spentBy part).count o = (spentBy txs).count o :=
    (hperm.flatMap_right spends).count_eq o
  rw [← hequal]
  exact (hsub.flatMap spends).count_le o

end Transaction

/-! ### Waiting -/

namespace WaitingList

/-- The transactions that wait. -/
def transactions (l : WaitingList) : List Transaction := l.map fun w => w.transaction

/-- Adding changes nothing where the name of the transaction is waiting already, and otherwise it
puts the transaction at the end. -/
theorem add_cases (l : WaitingList) (tx : Transaction) (block : UInt64) :
    (∃ w ∈ l, w.transaction.txid = tx.txid) ∧ add l tx block = l ∨
      (¬ ∃ w ∈ l, w.transaction.txid = tx.txid) ∧ add l tx block = l ++ [⟨tx, block⟩] := by
  have hname : (l.any fun w => w.transaction.txid == tx.txid) = true ↔
      ∃ w ∈ l, w.transaction.txid = tx.txid := by
    simp only [List.any_eq_true, beq_iff_eq]
  simp only [add]
  split
  · next hany => exact .inl ⟨hname.mp hany, rfl⟩
  · next hnone => exact .inr ⟨fun h => hnone (hname.mpr h), rfl⟩

/-- Adding puts a transaction at the end, or it changes nothing. -/
theorem add_eq (l : WaitingList) (tx : Transaction) (block : UInt64) :
    add l tx block = l ∨ add l tx block = l ++ [⟨tx, block⟩] :=
  (add_cases l tx block).imp And.right And.right

/-- With one more transaction no more is spent than the old ones and the new one spend. -/
theorem count_spent_add (l : WaitingList) (tx : Transaction) (block : UInt64) (o : OutPoint) :
    (Transaction.spentBy (transactions (add l tx block))).count o ≤
      (Transaction.spentBy (transactions l)).count o + tx.spends.count o := by
  rcases add_eq l tx block with h | h
  · rw [h]
    exact Nat.le_add_right _ _
  · have htransactions : transactions (l ++ [⟨tx, block⟩]) = transactions l ++ [tx] := by
      simp [transactions]
    rw [h, htransactions, Transaction.count_spentBy_append, Transaction.count_spentBy_cons]
    exact Nat.le_refl _

/-- What is taken out and what is left are all transactions. -/
theorem split_perm (ready : WaitingTransaction → Bool) (most : Nat) (l : WaitingList) :
    ((split ready most l).1 ++ transactions (split ready most l).2).Perm (transactions l) := by
  induction l generalizing most with
  | nil =>
    cases most with
    | zero => exact List.Perm.refl _
    | succ most => exact List.Perm.refl _
  | cons w rest ih =>
    cases most with
    | zero => exact List.Perm.refl _
    | succ most =>
      unfold split
      by_cases hready : ready w
      · rw [if_pos hready]
        exact (ih most).cons _
      · rw [if_neg hready]
        exact List.perm_middle.trans ((ih (most + 1)).cons _)

/-- What is taken out and what is left are the waiting transactions. -/
theorem takeDue_perm (l : WaitingList) (block confirmations : Nat) (most : Option Nat) :
    ((takeDue l block confirmations most).1 ++
      transactions (takeDue l block confirmations most).2).Perm (transactions l) :=
  split_perm _ _ l

end WaitingList

/-! ### Being signed -/

/-- An input without its script. -/
def TxIn.bare (i : TxIn) : TxIn := { i with scriptSig := [] }

/-- A transaction without the scripts of its inputs. -/
def Transaction.bare (tx : Transaction) : Transaction :=
  { tx with inputs := tx.inputs.map TxIn.bare }

/-- Without scripts the same outpoints are spent. -/
theorem Transaction.spends_bare (tx : Transaction) : tx.bare.spends = tx.spends := by
  rw [spends, bare, List.map_map]
  rfl

namespace PendingSignatures

/-- The inputs that are checked are the inputs of the transaction. -/
theorem inputs_of_checkFrom {tx : Transaction} {key : PublicKey} {index : Nat}
    {inputs : List TxIn} {ders : List Bytes} {checked : List CheckedInput}
    (h : checkFrom tx key index inputs ders = .ok checked)
    (hlength : inputs.length = ders.length) :
    checked.map (fun c => c.input) = inputs := by
  induction inputs generalizing index ders checked with
  | nil =>
    cases ders with
    | nil =>
      cases h
      rfl
    | cons der ders => cases hlength
  | cons input inputs ih =>
    cases ders with
    | nil => cases hlength
    | cons der ders =>
      unfold checkFrom at h
      split at h
      · cases h
      · split at h
        · cases h
        · split at h
          · cases h
          · next rest hrest =>
            cases h
            rw [List.map_cons, ih hrest (Nat.succ.inj hlength)]

section Inputs

variable {α : Type} {g : TxIn → α} {key : PublicKey}

/-- What every signed input keeps, the inputs keep. -/
theorem map_of_signFrom
    (hg : ∀ c script, signInput key c = .signed script →
      g { c.input with scriptSig := script } = g c.input)
    {index : Nat} {checked : List CheckedInput} {s : SignedInputs}
    (h : signFrom key index checked = .ok s) :
    s.inputs.map g = checked.map fun c => g c.input := by
  induction checked generalizing index s with
  | nil =>
    cases h
    rfl
  | cons c rest ih =>
    unfold signFrom at h
    split at h
    · cases h
    · cases h
      simp
    · split at h
      · cases h
      · next s' hrest =>
        cases h
        rw [List.map_cons, List.map_cons, ih hrest]
    · next script hscript =>
      split at h
      · cases h
      · next s' hrest =>
        cases h
        rw [List.map_cons, List.map_cons, ih hrest, hg c script hscript]

/-- With its inputs signed, a transaction has inputs that keep what every signed input keeps. -/
theorem map_of_signed
    (hg : ∀ c script, signInput key c = .signed script →
      g { c.input with scriptSig := script } = g c.input)
    {tx : Transaction} {signatures : List Bytes} {checked : List CheckedInput} {s : SignedInputs}
    (hlength : tx.inputs.length = signatures.length)
    (hchecked : checkFrom tx key 0 tx.inputs signatures = .ok checked)
    (hsigned : signFrom key 0 checked = .ok s) : s.inputs.map g = tx.inputs.map g := by
  rw [map_of_signFrom hg hsigned, ← inputs_of_checkFrom hchecked hlength, List.map_map]
  rfl

/-- Signing a transaction changes nothing but its inputs, and these keep what every signed input
keeps. -/
theorem exists_inputs_signTransaction
    (hg : ∀ c script, signInput key c = .signed script →
      g { c.input with scriptSig := script } = g c.input)
    (tx : Transaction) (signatures : List Bytes) :
    ∃ inputs, (signTransaction tx key signatures).2 = { tx with inputs } ∧
      inputs.map g = tx.inputs.map g := by
  unfold signTransaction
  split
  · exact ⟨tx.inputs, rfl, rfl⟩
  · next hlength =>
    rw [ne_eq, Decidable.not_not] at hlength
    split
    · exact ⟨tx.inputs, rfl, rfl⟩
    · next checked hchecked =>
      split
      · exact ⟨tx.inputs, rfl, rfl⟩
      · next s hsigned =>
        have hinputs := map_of_signed hg hlength hchecked hsigned
        split
        · exact ⟨tx.inputs, rfl, rfl⟩
        · simp only
          split
          · exact ⟨s.inputs, rfl, hinputs⟩
          · exact ⟨s.inputs, rfl, hinputs⟩

end Inputs

/-- With its inputs signed, a transaction is the same but for scripts. -/
theorem bare_of_signed {tx : Transaction} {key : PublicKey} {signatures : List Bytes}
    {checked : List CheckedInput} {s : SignedInputs}
    (hlength : tx.inputs.length = signatures.length)
    (hchecked : checkFrom tx key 0 tx.inputs signatures = .ok checked)
    (hsigned : signFrom key 0 checked = .ok s) :
    ({ tx with inputs := s.inputs } : Transaction).bare = tx.bare := by
  have hinputs := map_of_signed (g := TxIn.bare) (fun _ _ _ => rfl) hlength hchecked hsigned
  rw [Transaction.bare, hinputs]
  rfl

/-- **Signing changes nothing but scripts.** -/
theorem bare_signTransaction (tx : Transaction) (key : PublicKey) (signatures : List Bytes) :
    (signTransaction tx key signatures).2.bare = tx.bare := by
  obtain ⟨inputs, htx, hinputs⟩ :=
    exists_inputs_signTransaction (g := TxIn.bare) (fun _ _ _ => rfl) tx signatures
  rw [htx, Transaction.bare, hinputs]
  rfl

/-- **Signing changes no outpoint.** -/
theorem spends_signTransaction (tx : Transaction) (key : PublicKey) (signatures : List Bytes) :
    (signTransaction tx key signatures).2.spends = tx.spends := by
  rw [← Transaction.spends_bare, bare_signTransaction, Transaction.spends_bare]

/-- Signatures add nothing to what is spent. -/
theorem count_spent_submit (p : PendingSignatures) (hash : HostTxHash) (key : PublicKey)
    (signatures : List Bytes) (o : OutPoint) :
    (Transaction.spentBy (submit p hash key signatures).2.values).count o ≤
      (Transaction.spentBy p.values).count o := by
  unfold submit
  split
  · exact Nat.le_refl _
  · next tx hfound =>
    split
    · exact Transaction.count_spentBy_le (SortedMap.values_erase_sublist p hash).subperm o
    · next signed _ hsign =>
      -- the signed transaction takes the place of the one it was made from
      obtain ⟨front, back, hvalues, hinsert⟩ := SortedMap.exists_values_of_get? hfound
      have hspends : signed.spends = tx.spends := by
        rw [← spends_signTransaction tx key signatures, hsign]
      rw [hinsert, hvalues]
      simp only [Transaction.count_spentBy_append, Transaction.count_spentBy_cons, hspends]
      exact Nat.le_refl _

end PendingSignatures

/-- A transaction comes from another one by any number of signatures. -/
inductive Transaction.SignedFrom (tx : Transaction) : Transaction → Prop
  | unsigned : SignedFrom tx tx
  | signed {kept : Transaction} (h : SignedFrom tx kept) (key : PublicKey)
    (signatures : List Bytes) :
    SignedFrom tx (PendingSignatures.signTransaction kept key signatures).2

namespace Transaction.SignedFrom

variable {tx kept more : Transaction}

/-- More signatures. -/
theorem trans (h : tx.SignedFrom kept) (hmore : kept.SignedFrom more) : tx.SignedFrom more := by
  induction hmore with
  | unsigned => exact h
  | signed _ key signatures ih => exact .signed ih key signatures

/-- Signatures change nothing but scripts. -/
theorem bare_eq (h : tx.SignedFrom kept) : kept.bare = tx.bare := by
  induction h with
  | unsigned => rfl
  | signed h key signatures ih => rw [PendingSignatures.bare_signTransaction, ih]

/-- Signatures change no outpoint. -/
theorem spends_eq (h : tx.SignedFrom kept) : kept.spends = tx.spends := by
  rw [← Transaction.spends_bare, h.bare_eq, Transaction.spends_bare]

end Transaction.SignedFrom

end TwoWayPeg
