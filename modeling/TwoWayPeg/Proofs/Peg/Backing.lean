import TwoWayPeg.Proofs.Peg.Custody

/-!
# What backs a deposit

A deposit is credited with the sum of what it pays to each live federation, and what it pays is
listed in the places of the live federations. Nothing of it can be listed already, so all of it is
appended. The two sums differ in one case only: when the retiring federation is paid by the same
script as the active one, the outputs are counted for both and listed for one.

* `Registration.exists_savedHoldings`: all outputs that pay live federations are appended.
* `Registration.valueSentToAll_live`: what is counted, in terms of what is appended.
* `Registration.Settled.credited_of_ledger`: only a credit changes balances.
-/

namespace TwoWayPeg

/-! ### Sums -/

/-- No outputs have no value. -/
theorem Utxo.total_nil : total [] = 0 := rfl

/-- Nothing is paid to no federations. -/
theorem Transaction.valueSentToAll_nil (tx : Transaction) : tx.valueSentToAll [] = 0 := rfl

/-- The sum of what is paid to some federations, one after another. -/
theorem Transaction.valueSentToAll_cons (tx : Transaction) (f : Federation)
    (fs : List Federation) :
    tx.valueSentToAll (f :: fs) = tx.valuePaidTo f.payScript + tx.valueSentToAll fs := rfl

namespace Invocation

/-- Whether the retiring federation is paid by the script of the active one. -/
def sharesScript (i : Invocation) (s : State) : Bool :=
  (i.retiring s).any fun f => f.payScript == (i.active s).payScript

/-- How often a deposit to the active federation is counted. -/
def copies (i : Invocation) (s : State) : Nat := if i.sharesScript s then 2 else 1

end Invocation

namespace Registration

variable (i : Invocation) (m : MinedTransaction) (s : State)

/-- The sum of the outputs that pay to a script is the value paid to it. -/
theorem total_paidTo (script : Script) :
    Utxo.total (paidTo m script) = m.tx.valuePaidTo script := by
  rw [paidTo, Utxo.total, Utxo.values_ofOutputs]
  rfl

/-- **What is counted for a deposit** is what is saved of it, twice if the live federations share a
script. -/
theorem valueSentToAll_live :
    m.tx.valueSentToAll (i.live s) =
      i.copies s * Utxo.total (paidTo m (i.active s).payScript ++ paidToRetiring i m s) := by
  rw [Utxo.total_append, total_paidTo, Invocation.live, Transaction.valueSentToAll_cons,
    Invocation.copies, Invocation.sharesScript]
  cases hretiring : i.retiring s with
  | none =>
    rw [paidToRetiring, hretiring]
    simp only [Option.any_none, Option.toList_none, Bool.false_eq_true, if_false,
      Transaction.valueSentToAll_nil, Utxo.total_nil]
    omega
  | some f =>
    rw [paidToRetiring, hretiring, Option.any_some, Option.toList_some,
      Transaction.valueSentToAll_cons, Transaction.valueSentToAll_nil]
    dsimp only
    -- only whether the scripts are the same matters, not what they are
    generalize f.payScript = retiringScript, (i.active s).payScript = activeScript
    by_cases hscript : retiringScript = activeScript
    · simp only [hscript, beq_self_eq_true, if_true, Utxo.total_nil]
      omega
    · simp only [hscript, beq_eq_false_iff_ne.mpr hscript, Bool.false_eq_true, if_false,
        total_paidTo]
      omega

/-! ### Appended outputs -/

variable {i m s}
variable {raw proof : Bytes} {height : Int}

/-- Outputs of a genuine transaction are new to any list of kept ones. -/
theorem Genuine.addNew_eq (h : Genuine i s raw height proof m) (hs : s.Secured)
    (houtputs : m.tx.outputs.length ≤ UInt32.size) {us vs : List Utxo}
    (hus : (us.map Utxo.outpoint).Sublist s.tracked)
    (hvs : (vs.map Utxo.outpoint).Sublist m.tx.creates) : Utxo.addNew us vs = us ++ vs := by
  refine Utxo.addNew_of_unlisted ?_
  rw [List.map_append, List.nodup_append]
  refine ⟨hs.distinct.sublist hus, (Transaction.nodup_creates houtputs).sublist hvs, ?_⟩
  rintro o hold o' hnew rfl
  exact hs.not_mem_tracked h (hvs.subset hnew) (hus.subset hold)

/-- What goes into the old place are outputs of the transaction. -/
theorem paidToRetiring_sublist :
    ((paidToRetiring i m s).map Utxo.outpoint).Sublist m.tx.creates := by
  unfold paidToRetiring
  split
  · exact List.nil_sublist _
  · split
    · exact List.nil_sublist _
    · exact Utxo.outpoints_ofOutputs_sublist m.tx m.height _

/-- Nothing goes into the old place while the active list is there. -/
theorem paidToRetiring_of_old (h : i.activeSlot s = .old) : paidToRetiring i m s = [] := by
  unfold paidToRetiring
  split
  · rfl
  · next f hretiring =>
    rw [i.activeSlot_of_retiring hretiring] at h
    cases h

/-- **All outputs that pay live federations are appended**, since none of them is kept yet. -/
theorem Genuine.exists_savedHoldings (h : Genuine i s raw height proof m) (hs : s.Secured)
    (houtputs : m.tx.outputs.length ≤ UInt32.size) :
    ∃ newer older, savedHoldings i m s = ⟨s.holdings.new ++ newer, s.holdings.old ++ older⟩ ∧
      newer ++ older = paidTo m (i.active s).payScript ++ paidToRetiring i m s := by
  have hpaid : ((paidTo m (i.active s).payScript).map Utxo.outpoint).Sublist m.tx.creates :=
    Utxo.outpoints_ofOutputs_sublist m.tx m.height _
  have hnew := h.addNew_eq hs houtputs s.new_sublist_tracked hpaid
  have hold := h.addNew_eq hs houtputs s.old_sublist_tracked hpaid
  have hretiring := h.addNew_eq hs houtputs s.old_sublist_tracked
    (paidToRetiring_sublist (i := i) (m := m) (s := s))
  cases hslot : i.activeSlot s with
  | old =>
    refine ⟨[], paidTo m (i.active s).payScript, ?_, ?_⟩
    · simp only [savedHoldings, Invocation.replaceActive, Invocation.activeUtxos, hslot,
        paidToRetiring_of_old hslot, hold, List.append_nil]
      rfl
    · rw [paidToRetiring_of_old hslot, List.append_nil, List.nil_append]
  | genesis =>
    refine ⟨paidTo m (i.active s).payScript, paidToRetiring i m s, ?_, rfl⟩
    simp only [savedHoldings, Invocation.replaceActive, Invocation.activeUtxos, hslot, hnew,
      hretiring]
  | new =>
    refine ⟨paidTo m (i.active s).payScript, paidToRetiring i m s, ?_, rfl⟩
    simp only [savedHoldings, Invocation.replaceActive, Invocation.activeUtxos, hslot, hnew,
      hretiring]

/-! ### Credits -/

/-- A settlement that changes balances is a credit. -/
theorem Settled.credited_of_ledger {w after : World} (h : Settled i m w after)
    (hledger : after.ledger ≠ w.ledger) :
    ∃ sender ledger, sender? m.tx = some sender ∧
      Ledger.transfer w.ledger .bridge (.ofKey sender)
        (Amount.toWei (m.tx.valueSentToAll (i.live w.state))) = .ok ledger ∧
      after = keep i m
        (Registration.credited m sender (m.tx.valueSentToAll (i.live w.state)) ledger w) := by
  cases h with
  | untouched _ hstate hsame => exact absurd hsame hledger
  | credited sender ledger hkind hsender hlisted htransfer =>
    exact ⟨sender, ledger, hsender, htransfer, rfl⟩
  | kept hkind => exact absurd rfl hledger
  | refused sender hkind hsender hlisted =>
    refine absurd ?_ hledger
    simp only [refund]
    split
    · rfl
    · rfl

end Registration

namespace Run

/-- **A credit is backed by the outputs that the same call appends**, and the sender is charged what
is credited. Both are the sum of the appended outputs, unless the retiring federation is paid by the
script of the active one: then they are twice that sum. -/
theorem credited_backed {calls : List Call} {s : State} {c : Call} {raw proof : Bytes}
    {height : Int} (h : Run .initial calls s) (hbefore : c.before.state = s)
    (hop : c.operation = .register raw height proof)
    (hnumbered : ∀ d ∈ c :: calls, d.operation.IsNumbered)
    (hledger : c.after.ledger ≠ c.before.ledger) :
    ∃ tx sender newer older,
      Registration.soundTransaction raw = .ok tx ∧ Registration.sender? tx = some sender ∧
      c.after.state.holdings = ⟨s.holdings.new ++ newer, s.holdings.old ++ older⟩ ∧
      Ledger.transfer c.before.ledger .bridge (.ofKey sender)
        (Amount.toWei (c.invocation.copies s * Utxo.total (newer ++ older))) =
          .ok c.after.ledger ∧
      c.after.state.whitelist = s.whitelist.charge sender.hash
        (c.invocation.copies s * Utxo.total (newer ++ older)) := by
  have hsecured := h.secured fun d hd => hnumbered d (List.mem_cons_of_mem _ hd)
  subst hbefore
  have hregister := hnumbered c List.mem_cons_self
  rw [hop] at hregister
  have hafter := Call.after_of_register hop
  rcases Registration.register_cases c.invocation raw height proof c.before with
    ⟨-, hsame⟩ | ⟨m, hmined, hsettled⟩
  · rw [← hafter] at hsame
    exact absurd hsame hledger
  · rw [← hafter] at hsettled
    have hgenuine := Registration.genuine_of_examine hmined
    obtain ⟨sender, ledger, hsender, htransfer, heq⟩ := hsettled.credited_of_ledger hledger
    obtain ⟨newer, older, hsaved, hparts⟩ :=
      hgenuine.exists_savedHoldings hsecured (hregister m.tx hgenuine.sound)
    have htotal := Registration.valueSentToAll_live c.invocation m c.before.state
    rw [← hparts] at htotal
    rw [htotal] at htransfer heq
    refine ⟨m.tx, sender, newer, older, hgenuine.sound, hsender, ?_, ?_, ?_⟩
    · rw [heq, Registration.state_of_keep, ← hsaved]
      rfl
    · rw [heq]
      exact htransfer
    · rw [heq, Registration.state_of_keep]
      rfl

/-- When the members of the first federation are voted in once more, the new federation has the
script of the old one, and while the old one retires a deposit of a hundredth of a bitcoin is
credited as two hundredths. -/
theorem credited_backed_same_members :
    let created := Example.vote "create" [] .initial
    let added := Example.vote "add" [Example.key.bytes] created.after.state
    let committed := Example.vote "commit"
      [(PendingFederation.hash ⟨[.ofKey Example.key]⟩).toList] added.after.state
    let listed := Example.call 1 (.listUnlimited Example.voter
      "mrCDrCybB6J1vRfbwM5hemdJz73FwDBC8r" none) committed.after.state .empty
    let c := Example.call 11 Example.registerDeposit listed.after.state
      (SortedMap.empty.insert .bridge (Amount.toWei 10000000000))
    let s := listed.after.state
    (c.invocation.sharesScript s = true ∧
      c.after.ledger.balance .bridge = Amount.toWei 10000000000 - 2 * Amount.toWei 1000000) ∧
    ∃ tx sender newer older,
      Registration.soundTransaction Example.deposit.encodePlain = .ok tx ∧
      Registration.sender? tx = some sender ∧
      c.after.state.holdings = ⟨s.holdings.new ++ newer, s.holdings.old ++ older⟩ ∧
      Ledger.transfer c.before.ledger .bridge (.ofKey sender)
        (Amount.toWei (c.invocation.copies s * Utxo.total (newer ++ older))) =
          .ok c.after.ledger ∧
      c.after.state.whitelist = s.whitelist.charge sender.hash
        (c.invocation.copies s * Utxo.total (newer ++ older)) := by
  intro created added committed listed c s
  have hrun : Run .initial [created, added, committed, listed] s :=
    .cons (Example.state_before_call _ _ _ _) .kept
      (.cons (Example.state_before_call _ _ _ _) .kept
        (.cons (Example.state_before_call _ _ _ _) .kept
          (.cons (Example.state_before_call _ _ _ _) .kept (.nil _))))
  have hcredit : c.invocation.sharesScript s = true ∧
      c.after.ledger.balance .bridge = Amount.toWei 10000000000 - 2 * Amount.toWei 1000000 := by
    set_option maxRecDepth 100000 in
    decide +kernel
  refine ⟨hcredit, credited_backed hrun (Example.state_before_call _ _ _ _) rfl ?_ ?_⟩
  · have hdeposit : c.operation.IsNumbered :=
      Operation.isNumbered_of_length_le (by decide +kernel)
    rw [List.forall_mem_cons]
    refine ⟨hdeposit, ?_⟩
    simp only [List.forall_mem_cons]
    exact ⟨trivial, trivial, trivial, trivial, fun _ hd => absurd hd List.not_mem_nil⟩
  · intro hsame
    have hbalance := hcredit.2
    rw [hsame] at hbalance
    revert hbalance
    decide +kernel

end Run

end TwoWayPeg
