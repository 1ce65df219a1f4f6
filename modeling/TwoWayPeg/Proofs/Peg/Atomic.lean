import TwoWayPeg.Proofs.Peg.Once

/-!
# A registration is all or nothing

A registration moves balances, charges the whitelist, lists outputs and makes transactions wait. All
this is done together with the record of the transaction's name or not at all: every way out of a
registration lies before the first effect or behind the last one. Parts of the state that have
nothing to do with deposits are never touched.

* `Registration.Settled.rest_eq`: what no way of settling touches.
* `Registration.all_or_nothing`: the two things that a registration can leave, and that one that
  fails leaves nothing at all.
-/

namespace TwoWayPeg

/-- Two states have the parts in common that deposits do not concern. -/
structure State.RestEq (s t : State) : Prop where
  federations : t.federations = s.federations
  requests : t.requests = s.requests
  pending : t.pending = s.pending
  feePerKb : t.feePerKb = s.feePerKb
  federationElection : t.federationElection = s.federationElection
  feeElection : t.feeElection = s.feeElection

namespace Registration

/-- Keeping a transaction changes its record and the outputs only. -/
theorem rest_eq_keep (i : Invocation) (m : MinedTransaction) (w : World) :
    w.state.RestEq (keep i m w).state := by
  rw [state_of_keep]
  exact ⟨rfl, rfl, rfl, rfl, rfl, rfl⟩

/-- Sending back changes the waiting transactions only. -/
theorem rest_eq_refund (i : Invocation) (m : MinedTransaction) (sender : PublicKey) (total : Nat)
    (w : World) : w.state.RestEq (refund i m sender total w).state := by
  simp only [refund]
  split
  · exact ⟨rfl, rfl, rfl, rfl, rfl, rfl⟩
  · exact ⟨rfl, rfl, rfl, rfl, rfl, rfl⟩

/-- No way of settling touches what deposits do not concern. -/
theorem Settled.rest_eq {i : Invocation} {m : MinedTransaction} {w after : World}
    (h : Settled i m w after) : w.state.RestEq after.state := by
  cases h with
  | untouched _ hstate hledger =>
    rw [hstate]
    exact ⟨rfl, rfl, rfl, rfl, rfl, rfl⟩
  | credited sender ledger hkind hsender hlisted htransfer =>
    -- the charge on the whitelist is not among the parts in question
    have hkeep := rest_eq_keep i m
      (Registration.credited m sender (m.tx.valueSentToAll (i.live w.state)) ledger w)
    exact ⟨hkeep.federations, hkeep.requests, hkeep.pending, hkeep.feePerKb,
      hkeep.federationElection, hkeep.feeElection⟩
  | kept hkind => exact rest_eq_keep i m w
  | refused sender hkind hsender hlisted =>
    have hrefund := rest_eq_refund i m sender (m.tx.valueSentToAll (i.live w.state)) w
    exact ⟨hrefund.federations, hrefund.requests, hrefund.pending, hrefund.feePerKb,
      hrefund.federationElection, hrefund.feeElection⟩

/-- **A registration is all or nothing.** Either it succeeds, and then the name of the bytes is new
and is recorded with the block, and the parts of the state that deposits do not concern are as
before; or the whole state and all balances are as before. A registration that fails leaves
everything as it was and raises no alert. -/
theorem all_or_nothing (i : Invocation) (raw : Bytes) (height : Int) (proof : Bytes) (w : World) :
    (((register i raw height proof w).1 = .ok () ∧
        w.state.processed.contains (rawTxid raw) = false ∧
        (register i raw height proof w).2.state.processed =
          w.state.processed.insert (rawTxid raw) i.block.number ∧
        w.state.RestEq (register i raw height proof w).2.state) ∨
      ((register i raw height proof w).2.state = w.state ∧
        (register i raw height proof w).2.ledger = w.ledger)) ∧
    ∀ e, (register i raw height proof w).1 = .error e → (register i raw height proof w).2 = w := by
  refine ⟨?_, fun e hfailed => eq_of_register_error hfailed⟩
  cases hanswer : (register i raw height proof w).1 with
  | error e =>
    have hafter := eq_of_register_error hanswer
    exact .inr ⟨congrArg World.state hafter, congrArg World.ledger hafter⟩
  | ok _ =>
    rcases register_cases i raw height proof w with hnothing | ⟨m, hexamine, hsettled⟩
    · exact .inr hnothing
    · have hgenuine := genuine_of_examine hexamine
      rcases hsettled.recorded with hnothing | hrecorded
      · exact .inr hnothing
      · rw [hgenuine.txid_eq_raw] at hrecorded
        exact .inl ⟨rfl, hgenuine.unprocessed, hrecorded, hsettled.rest_eq⟩

end Registration

end TwoWayPeg
