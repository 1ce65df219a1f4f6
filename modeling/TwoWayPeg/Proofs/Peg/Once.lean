import TwoWayPeg.Proofs.Peg.Run

/-!
# No transaction counts twice

All effects of a registration, on the state and on the balances alike, come together with the record
of the transaction's name, and a name that is recorded is left alone ever after. So over any run at
most one registration of some bytes has an effect, whatever the other ones see.

* `Registration.Settled.recorded`: no effect without the record.
* `Call.recorded_of_settles`: an effective registration finds the name new and leaves it recorded.
* `Run.countP_settles_eq_zero`: once it is recorded, no registration of it has an effect.
-/

namespace TwoWayPeg

/-! ### No effect without a record -/

namespace Registration

/-- Sending back does not touch the records. -/
theorem processed_refund (i : Invocation) (m : MinedTransaction) (sender : PublicKey) (total : Nat)
    (w : World) : (refund i m sender total w).state.processed = w.state.processed := by
  simp only [refund]
  split
  · rfl
  · rfl

/-- **Every effect comes with the record.** A settlement leaves state and balances as they are, or
it records the transaction. -/
theorem Settled.recorded {i : Invocation} {m : MinedTransaction} {w after : World}
    (h : Settled i m w after) :
    (after.state = w.state ∧ after.ledger = w.ledger) ∨
      after.state.processed = w.state.processed.insert m.txid i.block.number := by
  cases h with
  | untouched _ hstate hledger => exact .inl ⟨hstate, hledger⟩
  | credited sender ledger hkind hsender hlisted htransfer =>
    refine .inr ?_
    rw [state_of_keep]
    rfl
  | kept hkind =>
    refine .inr ?_
    rw [state_of_keep]
  | refused sender hkind hsender hlisted =>
    refine .inr ?_
    simp only [markProcessed, processed_refund]

end Registration

/-! ### One effective registration -/

/-- An operation without an answer of its own fails with the error of its function. -/
theorem Operation.eq_error_of_finished {r : Except PegError Unit × World} {e : PegError}
    (h : (finished r).1 = .error e) : r.1 = .error e := by
  obtain ⟨result, w⟩ := r
  cases result with
  | error e' =>
    injection h with h
    rw [h]
  | ok _ => cases h

namespace Call

/-- Whether the call registers bytes with a name. -/
def registers (c : Call) (txid : Txid) : Bool :=
  match c.operation with
  | .register raw _ _ => Registration.rawTxid raw == txid
  | _ => false

/-- Whether the call changes the state or the balances. -/
def isEffective (c : Call) : Bool :=
  c.after.state != c.before.state || c.after.ledger != c.before.ledger

/-- Whether the call registers bytes with a name and has an effect. -/
def settles (c : Call) (txid : Txid) : Bool := c.registers txid && c.isEffective

/-- An effective registration finds the name unrecorded and leaves it recorded. -/
theorem recorded_of_settles {c : Call} {txid : Txid} (h : c.settles txid) :
    c.before.state.processed.contains txid = false ∧
      c.after.state.processed.contains txid = true := by
  obtain ⟨hregisters, heffective⟩ := Bool.and_eq_true_iff.mp h
  unfold registers at hregisters
  split at hregisters
  · next raw height proof hop =>
    have hname : Registration.rawTxid raw = txid := eq_of_beq hregisters
    have hafter := after_of_register hop
    have hchange : ¬ (c.after.state = c.before.state ∧ c.after.ledger = c.before.ledger) := by
      rintro ⟨hstate, hledger⟩
      simp [isEffective, hstate, hledger] at heffective
    rcases Registration.register_cases c.invocation raw height proof c.before with
      hsame | ⟨m, hmined, hsettled⟩
    · rw [← hafter] at hsame
      exact absurd hsame hchange
    · rw [← hafter] at hsettled
      have hgenuine := Registration.genuine_of_examine hmined
      have hm : m.txid = txid := hgenuine.txid_eq_raw.trans hname
      rcases hsettled.recorded with hsame | hrecorded
      · exact absurd hsame hchange
      · refine ⟨hm ▸ hgenuine.fresh, ?_⟩
        rw [hrecorded, hm, SortedMap.contains, SortedMap.get?_insert_self]
        rfl
  · cases hregisters

/-- A failing registration has no effect. -/
theorem not_settles_of_error {c : Call} {e : PegError} (hfailed : c.answer = .error e)
    (txid : Txid) : c.settles txid = false := by
  cases hregisters : c.registers txid with
  | false => rw [settles, hregisters, Bool.false_and]
  | true =>
    unfold registers at hregisters
    split at hregisters
    · next raw height proof hop =>
      have hsame : c.after = c.before := by
        rw [answer, hop] at hfailed
        rw [after, hop]
        exact Registration.eq_of_register_error (Operation.eq_error_of_finished hfailed)
      simp [settles, isEffective, hsame]
    · cases hregisters

end Call

namespace Run

variable {start finish : State} {calls : List Call} {txid : Txid}

/-- Once a name is recorded, no registration of it has an effect. -/
theorem countP_settles_eq_zero (h : Run start calls finish)
    (hstart : start.processed.contains txid = true) :
    calls.countP (fun c => c.settles txid) = 0 := by
  induction h with
  | nil s => rfl
  | @cons s t finish c calls hbefore hleaves hrest ih =>
    have hquiet : c.settles txid = false := by
      refine Bool.eq_false_iff.mpr fun hsettles => ?_
      obtain ⟨hfresh, -⟩ := Call.recorded_of_settles hsettles
      rw [hbefore, hstart] at hfresh
      cases hfresh
    have ht : t.processed.contains txid = true := by
      obtain ⟨block, hblock⟩ := Option.isSome_iff_exists.mp hstart
      have hone : Run s [c] t := .cons hbefore hleaves (.nil t)
      rw [SortedMap.contains, hone.get?_processed hblock]
      rfl
    rw [List.countP_cons, ih ht, hquiet]
    rfl

/-- **No transaction is settled twice.** Over a run from any state, at most one call that registers
bytes with a name changes the state or the balances, and a name that is recorded stays recorded in
the same block. -/
theorem settled_once (h : Run start calls finish) (txid : Txid) :
    calls.countP (fun c => c.settles txid) ≤ 1 ∧
      ∀ block, start.processed.get? txid = some block →
        finish.processed.get? txid = some block := by
  refine ⟨?_, fun block => h.get?_processed⟩
  induction h with
  | nil s => exact Nat.zero_le 1
  | @cons s t finish c calls hbefore hleaves hrest ih =>
    rw [List.countP_cons]
    cases hsettles : c.settles txid with
    | false => exact ih
    | true =>
      -- the first effective one records the name, so that all others find it recorded
      have ht : t.processed.contains txid = true := by
        cases hleaves with
        | kept => exact (Call.recorded_of_settles hsettles).2
        | discarded e hfailed =>
          rw [Call.not_settles_of_error hfailed] at hsettles
          cases hsettles
      rw [hrest.countP_settles_eq_zero ht]
      exact Nat.le_refl 1

/-- A deposit that is registered in one block and again in the next is settled by the first
registration. -/
theorem settled_once_deposit :
    let first := Example.call 5 Example.registerDeposit .initial .empty
    let again := Example.call 6 Example.registerDeposit first.after.state .empty
    first.settles Example.deposit.txid = true ∧
      [first, again].countP (fun c => c.settles Example.deposit.txid) ≤ 1 := by
  intro first again
  have hrun : Run .initial [first, again] again.after.state :=
    .cons (Example.state_before_call _ _ _ _) .kept
      (.cons (Example.state_before_call _ _ _ _) .kept (.nil _))
  refine ⟨?_, (settled_once hrun Example.deposit.txid).1⟩
  set_option maxRecDepth 100000 in
  decide +kernel

end Run

end TwoWayPeg
