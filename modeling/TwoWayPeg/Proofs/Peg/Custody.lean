import TwoWayPeg.Proofs.Bitcoin.Size
import TwoWayPeg.Proofs.Peg.Run
import TwoWayPeg.Proofs.Release.InFlight
import TwoWayPeg.Proofs.Utxo

/-!
# Custody of the outputs

Each output of bitcoin that the peg has learnt of is in one place at most: on one of the two lists
of unspent outputs, or spent by one transaction on its way. Lists are only checked one by one when
an output is added, so nothing in a single operation says so. What says so is that outputs are only
taken from transactions which have not been recorded before, and that from then on an outpoint is
moved and dropped, but never copied.

* `State.Secured`: the invariant.
* `Operation.Move.tracked_cases`: what a move does to the outpoints that are kept.
* `State.Secured.move`, `State.Gone.move`: every move keeps the invariant, and what is gone stays
  gone.
* `Run.secured`: it holds after every run of a new peg.

Outputs are numbered with 32 bits. A transaction with more than `2 ^ 32` outputs would have two of
one number, so the registered ones must have fewer. It would take more than 36 GiB to write one.
-/

namespace TwoWayPeg

/-! ### Numbered outputs -/

/-- The outputs of a transaction that is registered can be numbered with 32 bits. -/
def Operation.IsNumbered : Operation → Prop
  | register raw _ _ => ∀ tx, Registration.soundTransaction raw = .ok tx →
    tx.outputs.length ≤ UInt32.size
  | _ => True

/-- Transactions of up to `9 * 2 ^ 32` bytes have outputs that can be numbered. -/
theorem Operation.isNumbered_of_length_le {raw proof : Bytes} {height : Int}
    (h : raw.length ≤ 9 * UInt32.size) : (register raw height proof).IsNumbered := by
  intro tx hsound
  obtain ⟨⟨n, tail, hcount, hn⟩, hdecode, -⟩ := Registration.soundTransaction_eq_ok hsound
  have hplain := (Transaction.plain_of_decode? hdecode hcount hn).1
  have houtputs := tx.length_outputs_le
  rw [hplain] at h
  omega

/-! ### The invariant -/

namespace State

/-- The outpoints that are listed as unspent, in the new and in the old place. -/
def listed (s : State) : List OutPoint := (s.holdings.new ++ s.holdings.old).map Utxo.outpoint

/-- The transactions on their way: the waiting ones, and those being signed. -/
def inFlight (s : State) : List Transaction :=
  WaitingList.transactions s.waiting ++ s.pending.values

/-- The outpoints that transactions on their way spend. -/
def committed (s : State) : List OutPoint := Transaction.spentBy s.inFlight

/-- All outpoints that the peg keeps. -/
def tracked (s : State) : List OutPoint := s.listed ++ s.committed

/-- No outpoint is kept twice, and all come from recorded transactions. -/
structure Secured (s : State) : Prop where
  distinct : s.tracked.Nodup
  recorded : ∀ o ∈ s.tracked, s.processed.contains o.txid = true

/-- How often an outpoint is kept, place by place. -/
theorem count_tracked (s : State) (o : OutPoint) :
    s.tracked.count o =
      (s.holdings.new.map Utxo.outpoint).count o + (s.holdings.old.map Utxo.outpoint).count o +
        ((Transaction.spentBy (WaitingList.transactions s.waiting)).count o +
          (Transaction.spentBy s.pending.values).count o) := by
  rw [tracked, listed, committed, inFlight, List.count_append, List.map_append, List.count_append,
    Transaction.count_spentBy_append]

/-- The outputs in the new place are kept. -/
theorem new_sublist_tracked (s : State) :
    (s.holdings.new.map Utxo.outpoint).Sublist s.tracked := by
  rw [tracked, listed, List.map_append, List.append_assoc]
  exact List.sublist_append_left _ _

/-- The outputs in the old place are kept. -/
theorem old_sublist_tracked (s : State) :
    (s.holdings.old.map Utxo.outpoint).Sublist s.tracked := by
  rw [tracked, listed, List.map_append]
  exact (List.sublist_append_right _ _).trans (List.sublist_append_left _ _)

/-- A new peg keeps nothing. -/
theorem secured_initial : State.initial.Secured where
  distinct := List.Pairwise.nil
  recorded := fun _ h => absurd h List.not_mem_nil

namespace Secured

variable {s t : State}

/-- The invariant is kept when nothing is added. -/
theorem of_count_le (hs : s.Secured) (hcount : ∀ o, t.tracked.count o ≤ s.tracked.count o)
    (hprocessed : t.processed = s.processed) : t.Secured where
  distinct := by
    rw [List.nodup_iff_count_le_one]
    intro o
    exact Nat.le_trans (hcount o) (List.nodup_iff_count_le_one.mp hs.distinct o)
  recorded := by
    intro o ho
    have hpositive : 0 < s.tracked.count o :=
      Nat.lt_of_lt_of_le (List.count_pos_iff.mpr ho) (hcount o)
    rw [hprocessed]
    exact hs.recorded o (List.count_pos_iff.mp hpositive)

/-- An outpoint of a genuine transaction is not kept yet, for lack of a record. -/
theorem not_mem_tracked {i : Invocation} {raw proof : Bytes} {height : Int}
    {m : Registration.MinedTransaction} (hs : s.Secured)
    (hgenuine : Registration.Genuine i s raw height proof m) {o : OutPoint}
    (ho : o ∈ m.tx.creates) : o ∉ s.tracked := by
  intro hmem
  have hcontains := hs.recorded o hmem
  rw [Transaction.txid_of_mem_creates ho, hgenuine.txid_eq, hgenuine.fresh] at hcontains
  cases hcontains

/-- The invariant is kept when a genuine transaction is recorded and outpoints of it are added. -/
theorem of_recorded {i : Invocation} {raw proof : Bytes} {height : Int}
    {m : Registration.MinedTransaction} (hs : s.Secured)
    (hgenuine : Registration.Genuine i s raw height proof m)
    (hnumbered : (Operation.register raw height proof).IsNumbered)
    (hcount : ∀ o, t.tracked.count o ≤ s.tracked.count o + m.tx.creates.count o)
    (hprocessed : t.processed = s.processed.insert m.txid i.block.number) : t.Secured where
  distinct := by
    rw [List.nodup_iff_count_le_one]
    intro o
    have hold := List.nodup_iff_count_le_one.mp hs.distinct o
    have hnew := List.nodup_iff_count_le_one.mp
      (Transaction.nodup_creates (hnumbered m.tx hgenuine.sound)) o
    have hle := hcount o
    by_cases hcreated : o ∈ m.tx.creates
    · have hunknown := List.count_eq_zero.mpr (hs.not_mem_tracked hgenuine hcreated)
      omega
    · have hnot := List.count_eq_zero.mpr hcreated
      omega
  recorded := by
    intro o ho
    have hpositive : 0 < s.tracked.count o + m.tx.creates.count o :=
      Nat.lt_of_lt_of_le (List.count_pos_iff.mpr ho) (hcount o)
    rw [hprocessed, SortedMap.contains]
    by_cases hname : o.txid = m.txid
    · rw [hname, SortedMap.get?_insert_self]
      rfl
    · rw [SortedMap.get?_insert_ne _ _ hname]
      have hnot : o ∉ m.tx.creates := fun h =>
        hname ((Transaction.txid_of_mem_creates h).trans hgenuine.txid_eq)
      rw [List.count_eq_zero.mpr hnot, Nat.add_zero] at hpositive
      exact hs.recorded o (List.count_pos_iff.mp hpositive)

end Secured

end State

/-! ### Places -/

/-- Replacing the active list exchanges its outpoints for others. -/
theorem Invocation.count_replaceActive (i : Invocation) (s : State) (us : List Utxo)
    (o : OutPoint) :
    ((i.replaceActive s us).new.map Utxo.outpoint).count o +
        ((i.replaceActive s us).old.map Utxo.outpoint).count o +
        ((i.activeUtxos s).map Utxo.outpoint).count o =
      (s.holdings.new.map Utxo.outpoint).count o + (s.holdings.old.map Utxo.outpoint).count o +
        (us.map Utxo.outpoint).count o := by
  rcases i.replaceActive_cases s us with ⟨hactive, hplaces⟩ | ⟨hactive, hplaces⟩
  · rw [hactive, hplaces]
    simp only
    omega
  · rw [hactive, hplaces]
    simp only
    omega

namespace Registration

variable (i : Invocation) (m : MinedTransaction) (s : State)

/-- What is saved in the two places are different outputs of the transaction. -/
theorem paid_subperm :
    ((paidTo m (i.active s).payScript ++ paidToRetiring i m s).map Utxo.outpoint).Subperm
      m.tx.creates := by
  have hactive : ((paidTo m (i.active s).payScript).map Utxo.outpoint).Subperm m.tx.creates :=
    (Utxo.outpoints_ofOutputs_sublist m.tx m.height _).subperm
  unfold paidToRetiring
  split
  · rw [List.append_nil]
    exact hactive
  · next f hretiring =>
    split
    · rw [List.append_nil]
      exact hactive
    · next hscript =>
      refine Utxo.outpoints_ofOutputs_append_subperm m.tx m.height ?_
      intro script hpaid
      have hpaid : script = f.payScript := eq_of_beq hpaid
      rw [hpaid]
      exact beq_eq_false_iff_ne.mpr hscript

/-- Saving outputs lists outpoints that the transaction creates, none of them twice. -/
theorem count_savedHoldings (o : OutPoint) :
    ((savedHoldings i m s).new.map Utxo.outpoint).count o +
        ((savedHoldings i m s).old.map Utxo.outpoint).count o ≤
      (s.holdings.new.map Utxo.outpoint).count o +
        (s.holdings.old.map Utxo.outpoint).count o + m.tx.creates.count o := by
  have hpaid := (paid_subperm i m s).count_le o
  rw [List.map_append, List.count_append] at hpaid
  obtain ⟨part, hpart, hactive⟩ :=
    Utxo.addNew_eq_append (i.activeUtxos s) (paidTo m (i.active s).payScript)
  have hpart := (hpart.map Utxo.outpoint).count_le o
  have hplaces := i.count_replaceActive s (i.activeUtxos s ++ part) o
  rw [List.map_append, List.count_append] at hplaces
  simp only [savedHoldings, hactive]
  obtain ⟨oldPart, holdPart, hold⟩ := Utxo.addNew_eq_append
    (i.replaceActive s (i.activeUtxos s ++ part)).old (paidToRetiring i m s)
  have holdPart := (holdPart.map Utxo.outpoint).count_le o
  rw [hold, List.map_append, List.count_append]
  omega

end Registration

/-- Building a release takes what it spends off the active list. -/
theorem Payout.count_tracked_record {i : Invocation} {s : State} {tx : Transaction}
    (h : tx.spends.Subperm ((i.activeUtxos s).map Utxo.outpoint)) (o : OutPoint) :
    (record i tx s).tracked.count o ≤ s.tracked.count o := by
  have hspent := Utxo.count_withoutSpent h o
  have hplaces := i.count_replaceActive s (Utxo.withoutSpent (i.activeUtxos s) tx) o
  have hwaiting := WaitingList.count_spent_add s.waiting tx i.block.number o
  rw [record, Invocation.withActiveUtxos_eq, State.count_tracked, State.count_tracked]
  simp only
  omega

/-- A transaction that is passed on to be signed does not wait any more. -/
theorem Payout.count_tracked_promote (i : Invocation) (hash : HostTxHash) (s : State)
    (o : OutPoint) : (promote i hash s).tracked.count o ≤ s.tracked.count o := by
  have hperm := WaitingList.takeDue_perm s.waiting i.number i.constants.hostConfirmations (some 1)
  have htaken := Transaction.count_spentBy_le hperm.subperm o
  rw [Transaction.count_spentBy_append] at htaken
  rw [promote]
  split
  · next tx rest waiting hdue =>
    rw [hdue, Transaction.count_spentBy_cons] at htaken
    have hpending := Transaction.count_spentBy_le
      (SortedMap.values_insert_subperm s.pending hash tx) o
    rw [Transaction.count_spentBy_cons] at hpending
    rw [State.count_tracked, State.count_tracked]
    simp only at htaken ⊢
    omega
  · next waiting hdue =>
    rw [hdue] at htaken
    rw [State.count_tracked, State.count_tracked]
    simp only at htaken ⊢
    omega

/-! ### Every move keeps it -/

/-- **What a move does to the outpoints that are kept**: it adds none and leaves the records, or it
records a genuine transaction and adds outpoints of this one. -/
theorem Operation.Move.tracked_cases {i : Invocation} {op : Operation} {s t : State}
    (h : op.Move i s t) :
    ((∀ o, t.tracked.count o ≤ s.tracked.count o) ∧ t.processed = s.processed) ∨
      ∃ raw height proof m, op = .register raw height proof ∧
        Registration.Genuine i s raw height proof m ∧
        (∀ o, t.tracked.count o ≤ s.tracked.count o + m.tx.creates.count o) ∧
        t.processed = s.processed.insert m.txid i.block.number := by
  cases h with
  | keep _ m hmined =>
    refine .inr ⟨_, _, _, m, rfl, Registration.genuine_of_examine hmined, fun o => ?_, rfl⟩
    have hsaved := Registration.count_savedHoldings i m s o
    rw [State.count_tracked, State.count_tracked]
    simp only
    omega
  | mark _ m hmined =>
    refine .inr ⟨_, _, _, m, rfl, Registration.genuine_of_examine hmined, fun o => ?_, rfl⟩
    exact Nat.le_add_right _ _
  | refund _ m destination built hmined hbuilt =>
    -- the outputs that are sent back were never listed: they go straight to a waiting transaction
    refine .inr ⟨_, _, _, m, rfl, Registration.genuine_of_examine hmined, fun o => ?_, rfl⟩
    have hspent := (Wallet.spends_of_payAll hbuilt).count_le o
    have hcreated := (Utxo.outpoints_ofOutputs_sublist m.tx m.height
      fun script => (i.live s).any fun f => f.payScript == script).count_le o
    have hwaiting := WaitingList.count_spent_add s.waiting built.tx i.block.number o
    rw [State.count_tracked, State.count_tracked]
    simp only
    omega
  | migrate _ retiring built hretiring hbuilt =>
    have hspends := Wallet.spends_of_migrate hbuilt
    refine .inl ⟨fun o => ?_, rfl⟩
    have hspent := Utxo.count_withoutSpent hspends o
    have hwaiting := WaitingList.count_spent_add s.waiting built.tx i.block.number o
    rw [State.count_tracked, State.count_tracked]
    simp only
    omega
  | forget _ retiring hretiring hage =>
    refine .inl ⟨fun o => ?_, rfl⟩
    rw [State.count_tracked, State.count_tracked]
    simp only [Migration.forget, List.map_nil, List.count_nil]
    omega
  | build _ r built hbuilt =>
    refine .inl ⟨Payout.count_tracked_record (Wallet.spends_of_pay hbuilt), ?_⟩
    rw [Payout.record, Invocation.withActiveUtxos_eq]
  | promote _ =>
    refine .inl ⟨Payout.count_tracked_promote i _ s, ?_⟩
    rw [Payout.promote]
    split
    · rfl
    · rfl
  | @sign key signatures hash _ hlive =>
    refine .inl ⟨fun o => ?_, rfl⟩
    have hsigned := PendingSignatures.count_spent_submit s.pending hash key signatures o
    rw [State.count_tracked, State.count_tracked]
    simp only
    omega
  | install _ hash p new hpending hcode hformed =>
    refine .inl ⟨fun o => ?_, rfl⟩
    rw [State.count_tracked, State.count_tracked]
    simp only [FederationVote.install, List.map_nil, List.count_nil]
    omega
  | _ => exact .inl ⟨fun _ => Nat.le_refl _, rfl⟩

namespace State

variable {i : Invocation} {op : Operation} {s t : State}

/-- Every move keeps the invariant, as long as the outputs of what is registered are numbered. -/
theorem Secured.move (hs : s.Secured) (hnumbered : op.IsNumbered) (h : op.Move i s t) :
    t.Secured := by
  rcases h.tracked_cases with ⟨hcount, hprocessed⟩ | ⟨raw, height, proof, m, rfl, hgenuine, hcount,
    hprocessed⟩
  · exact hs.of_count_le hcount hprocessed
  · exact hs.of_recorded hgenuine hnumbered hcount hprocessed

/-- The invariant is kept all through a call. -/
theorem Secured.moves (hs : s.Secured) (hnumbered : op.IsNumbered) (h : op.Moves i s t) :
    t.Secured := by
  induction h with
  | refl => exact hs
  | tail _ hlast ih => exact ih.move hnumbered hlast

/-- The outpoint comes from a recorded transaction, and it is not kept any more. -/
def Gone (s : State) (o : OutPoint) : Prop := s.processed.contains o.txid = true ∧ o ∉ s.tracked

/-- **What is gone stays gone**: outpoints are only added together with the record of their
transaction. -/
theorem Gone.move {o : OutPoint} (hs : s.Gone o) (h : op.Move i s t) : t.Gone o := by
  obtain ⟨hrecorded, hgone⟩ := hs
  have hnone := List.count_eq_zero.mpr hgone
  rcases h.tracked_cases with ⟨hcount, hprocessed⟩ | ⟨raw, height, proof, m, -, hgenuine, hcount,
    hprocessed⟩
  · refine ⟨hprocessed ▸ hrecorded, List.count_eq_zero.mp ?_⟩
    have hle := hcount o
    omega
  · have hcreated : o ∉ m.tx.creates := by
      intro ho
      rw [Transaction.txid_of_mem_creates ho, hgenuine.txid_eq, hgenuine.fresh] at hrecorded
      cases hrecorded
    have hle := hcount o
    rw [List.count_eq_zero.mpr hcreated] at hle
    refine ⟨?_, List.count_eq_zero.mp (by omega)⟩
    rw [hprocessed, SortedMap.contains]
    by_cases hname : o.txid = m.txid
    · rw [hname, SortedMap.get?_insert_self]
      rfl
    · rw [SortedMap.get?_insert_ne _ _ hname]
      exact hrecorded

end State

/-! ### Runs -/

namespace Run

variable {finish : State} {calls : List Call}

/-- The invariant holds after every run of a new peg. -/
theorem secured (h : Run .initial calls finish)
    (hnumbered : ∀ c ∈ calls, c.operation.IsNumbered) : finish.Secured :=
  h.preserves (fun c hc _ _ hmove hs => hs.move (hnumbered c hc) hmove) State.secured_initial

/-- **No output is kept twice.** After every run of a new peg, the listed outpoints are different
from each other, the outpoints that transactions on their way spend are different from each other
and from the listed ones, and all of them come from transactions that have been recorded. -/
theorem held_once (h : Run .initial calls finish)
    (hnumbered : ∀ c ∈ calls, c.operation.IsNumbered) :
    finish.listed.Nodup ∧ finish.committed.Nodup ∧
      (∀ o ∈ finish.committed, o ∉ finish.listed) ∧
      ∀ o ∈ finish.listed ++ finish.committed, finish.processed.contains o.txid = true := by
  have hsecured := h.secured hnumbered
  obtain ⟨hlisted, hcommitted, hapart⟩ := List.nodup_append.mp hsecured.distinct
  refine ⟨hlisted, hcommitted, ?_, hsecured.recorded⟩
  intro o hspent hlist
  exact hapart o hlist o hspent rfl

/-- A deposit of an unlisted sender is sent back, and the change of a release is listed: then one
outpoint is listed and another one is spent on its way. -/
theorem held_once_refund_and_change :
    let first := Example.call 5 Example.registerDeposit .initial .empty
    let second := Example.call 6 Example.registerChange first.after.state .empty
    let finish := second.after.state
    (finish.listed.length, finish.committed.length) = (1, 1) ∧
      finish.listed.Nodup ∧ finish.committed.Nodup ∧
      (∀ o ∈ finish.committed, o ∉ finish.listed) ∧
      ∀ o ∈ finish.listed ++ finish.committed, finish.processed.contains o.txid = true := by
  intro first second finish
  have hrun : Run .initial [first, second] finish :=
    .cons (Example.state_before_call _ _ _ _) .kept
      (.cons (Example.state_before_call _ _ _ _) .kept (.nil _))
  refine ⟨?_, held_once hrun ?_⟩
  · set_option maxRecDepth 100000 in
    decide +kernel
  · intro c hc
    rcases List.mem_cons.mp hc with rfl | hc
    · exact Operation.isNumbered_of_length_le (by decide +kernel)
    · rw [List.mem_singleton.mp hc]
      exact Operation.isNumbered_of_length_le (by decide +kernel)

end Run

end TwoWayPeg
