import TwoWayPeg.Proofs.Peg.Custody
import TwoWayPeg.Proofs.Peg.Ownership

/-!
# The last move of funds

At the end of the window, what the retiring federation still holds is moved once more, and then its
list is cleared. If nothing can be moved an alert says so. But the amount is halved until it can be
moved, and if a part of it could be, then the rest is cleared without a word.

* `Migration.finish_cases`: the three ways in which the window ends.
* `Payout.Follows`: what building releases keeps of a world.
* `Wallet.value_of_not_spent`: a payment of the whole balance leaves nothing of value.
* `Run.lost_in_sweep_iff`: which outputs are lost silently.
-/

namespace TwoWayPeg

/-! ### Payments of a part -/

namespace Amount

/-- An amount is no more than a sum that it is in. -/
theorem le_total {a : Amount} {as : List Amount} (h : a ∈ as) : a.sats ≤ total as := by
  induction as with
  | nil => exact absurd h List.not_mem_nil
  | cons b rest ih =>
    simp only [total]
    rcases List.mem_cons.mp h with rfl | h
    · exact Nat.le_add_right _ _
    · exact Nat.le_trans (ih h) (Nat.le_add_left _ _)

end Amount

namespace Wallet

variable {w : Wallet} {f : Federation} {us : List Utxo} {destination script : Script}
  {tried : Amount} {built : BuiltTransaction} {u : Utxo}

/-- **A payment of the whole balance leaves nothing of value**: if an output of value is not spent,
then less has been paid than the wallet holds. -/
theorem value_of_not_spent (hw : w.Holds f us)
    (h : w.payWithChange destination tried script = .ok built) (hu : u ∈ us)
    (hspent : u.outpoint ∉ built.tx.spends) (hvalue : 0 < u.value.sats) :
    tried.sats < Utxo.total us := by
  obtain ⟨hgathered, -, -, recipient, topped, -, htx, -⟩ := payWithChange_eq_ok h
  obtain ⟨rest, hrest⟩ := isPrefix_gather tried.sats w.coins
  obtain ⟨c, hc, rfl⟩ := List.mem_map.mp (hw.all.mem_iff.mpr hu)
  -- the coin was not gathered, so it is in the rest
  have hleft : c ∈ rest := by
    rw [← hrest, List.mem_append] at hc
    refine hc.resolve_left fun hmem => hspent ?_
    rw [htx, spends_unsigned]
    exact List.mem_map_of_mem hmem
  have hle : c.utxo.value.sats ≤ Coin.total rest :=
    Amount.le_total (List.mem_map_of_mem (List.mem_map_of_mem hleft))
  have htotal : Utxo.total us = Coin.total (gather tried.sats w.coins) + Coin.total rest := by
    rw [← Coin.total_append, hrest]
    exact hw.balance.symm
  omega

end Wallet

/-! ### The end of the window -/

/-- An alert is the last one. -/
theorem World.alerts_alert (w : World) (kind : AlertKind) (message : String) :
    (w.alert kind message).alerts = w.alerts ++ [(kind, message)] := by
  simp [alert, notify, alerts, Notice.alert?]

namespace Migration

/-- The wallet of all that the retiring federation holds. -/
def wallet (i : Invocation) (retiring : Federation) (s : State) : Wallet :=
  .of s.holdings.old [retiring] (i.active s).payScript (i.feePerKb s) i.constants

/-- The transaction that moves the whole wallet to the active federation, or as much as can be
moved. -/
def sweep (i : Invocation) (retiring : Federation) (s : State) :
    Except BuildError BuiltTransaction :=
  (wallet i retiring s).migrate (i.active s).payScript (.clamp (Utxo.total s.holdings.old))

/-- Moving funds is making the transaction and letting it wait. -/
theorem move_eq (i : Invocation) (retiring : Federation) (s : State) :
    move i retiring (i.active s) s = (sweep i retiring s).map fun built =>
      { s with
        holdings := { s.holdings with old := Utxo.withoutSpent s.holdings.old built.tx }
        waiting := WaitingList.add s.waiting built.tx i.block.number } := by
  unfold move sweep wallet
  simp only
  split
  · next h => rw [h]; rfl
  · next h => rw [h]; rfl

/-- How the window of a migration ends: nothing of value is left, or an alert is raised, or a
transaction waits to be signed. The retiring federation and its outputs are forgotten all the
same. -/
theorem finish_cases (i : Invocation) (retiring : Federation) (age : Nat) (w : World) :
    let after := finish i retiring (i.active w.state) age w
    (Utxo.total w.state.holdings.old = 0 ∧ after.alerts = w.alerts ∧
        after.state = forget w.state) ∨
      (∃ e message, sweep i retiring w.state = .error e ∧ 0 < Utxo.total w.state.holdings.old ∧
        after.alerts = w.alerts ++ [(.migrationFailed, message)] ∧
        after.state = forget w.state) ∨
      ∃ built, sweep i retiring w.state = .ok built ∧ 0 < Utxo.total w.state.holdings.old ∧
        after.alerts = w.alerts ∧
        after.state = { forget w.state with
          waiting := WaitingList.add w.state.waiting built.tx i.block.number } := by
  intro after
  have halerts : after.alerts = (moveRest i retiring (i.active w.state) w).alerts := by
    simp [after, finish, World.alerts, World.notify, Notice.alert?]
  have hstate : after.state = forget (moveRest i retiring (i.active w.state) w).state := rfl
  rw [halerts, hstate]
  by_cases htotal : 0 < Utxo.total w.state.holdings.old
  · simp only [moveRest, htotal, if_true, move_eq]
    rcases sweep i retiring w.state with e | built
    · exact .inr (.inl ⟨e, _, rfl, trivial, World.alerts_alert w _ _, rfl⟩)
    · exact .inr (.inr ⟨built, rfl, trivial, rfl, rfl⟩)
  · rw [moveRest, if_neg htotal]
    exact .inl ⟨by omega, rfl, rfl⟩

end Migration

/-! ### What follows in the same update -/

namespace WaitingList

/-- What waits goes on waiting when another transaction is added. -/
theorem subset_add (l : WaitingList) (tx : Transaction) (block : UInt64) : l ⊆ add l tx block := by
  rcases add_eq l tx block with h | h
  · rw [h]
    exact List.Subset.refl _
  · rw [h]
    exact List.subset_append_left _ _

/-- A transaction whose name is waiting already is not added. -/
theorem add_of_waiting {l : WaitingList} {tx : Transaction} (block : UInt64)
    (h : ∃ w ∈ l, w.transaction.txid = tx.txid) : add l tx block = l := by
  rcases add_cases l tx block with ⟨-, hsame⟩ | ⟨hnone, -⟩
  · exact hsame
  · exact absurd h hnone

/-- A transaction waits once it has been added, unless its name was waiting already. -/
theorem mem_transactions_add {l : WaitingList} {tx : Transaction} (block : UInt64)
    (h : ¬ ∃ w ∈ l, w.transaction.txid = tx.txid) : tx ∈ transactions (add l tx block) := by
  rcases add_cases l tx block with ⟨hwaiting, -⟩ | ⟨-, hadded⟩
  · exact absurd hwaiting h
  · rw [hadded, transactions, List.map_append]
    exact List.mem_append_right _ (List.mem_singleton.mpr rfl)

/-- One entry at most is asked for: none is ready, or the first of those that are is taken out. -/
theorem split_one_cases (ready : WaitingTransaction → Bool) (l : WaitingList) :
    (∀ w ∈ l, ready w = false) ∧ split ready 1 l = ([], l) ∨
      ∃ front w back, l = front ++ w :: back ∧ (∀ v ∈ front, ready v = false) ∧ ready w = true ∧
        split ready 1 l = ([w.transaction], front ++ back) := by
  induction l with
  | nil => exact .inl ⟨fun _ h => absurd h List.not_mem_nil, rfl⟩
  | cons v rest ih =>
    have hnone : split ready 0 rest = ([], rest) := by cases rest <;> rfl
    unfold split
    cases hready : ready v with
    | true =>
      rw [if_pos rfl, hnone]
      exact .inr ⟨[], v, rest, rfl, fun _ h => absurd h List.not_mem_nil, hready, rfl⟩
    | false =>
      rw [if_neg Bool.false_ne_true]
      rcases ih with ⟨hrest, hsplit⟩ | ⟨front, w, back, hrest, hfront, hw, hsplit⟩
      · rw [hsplit]
        exact .inl ⟨List.forall_mem_cons.mpr ⟨hready, hrest⟩, rfl⟩
      · rw [hsplit, hrest]
        exact .inr ⟨v :: front, w, back, rfl, List.forall_mem_cons.mpr ⟨hready, hfront⟩, hw, rfl⟩

end WaitingList

/-- A value that is set is among the values. -/
theorem SortedMap.mem_values_insert {κ ν : Type} [KeyOrder κ] (m : SortedMap κ ν) (k : κ) (v : ν) :
    v ∈ (m.insert k v).values := by
  obtain ⟨front, back, hvalues, -⟩ := exists_values_of_get? (get?_insert_self m k v)
  rw [hvalues]
  exact List.mem_append_right _ List.mem_cons_self

namespace Payout

/-- What building releases keeps of a world: no alert is raised, the federations stay, what waits
goes on waiting, and no outpoint is added to those that are kept. -/
structure Follows (before after : World) : Prop where
  alerts : after.alerts = before.alerts
  federations : after.state.federations = before.state.federations
  waiting : before.state.waiting ⊆ after.state.waiting
  count : ∀ o, after.state.tracked.count o ≤ before.state.tracked.count o

namespace Follows

/-- Nothing changes when nothing is built. -/
theorem refl (w : World) : Follows w w := ⟨rfl, rfl, List.Subset.refl _, fun _ => Nat.le_refl _⟩

/-- One build follows the other. -/
theorem trans {u v w : World} (huv : Follows u v) (hvw : Follows v w) : Follows u w where
  alerts := hvw.alerts.trans huv.alerts
  federations := hvw.federations.trans huv.federations
  waiting := List.Subset.trans huv.waiting hvw.waiting
  count := fun o => Nat.le_trans (hvw.count o) (huv.count o)

end Follows

/-- A notice about a release is no alert. -/
theorem alerts_notify_release (w : World) (event id : String) (sats : Nat) (destination : String)
    (txid failure : Option String) :
    (w.notify (.release event id sats destination txid failure)).alerts = w.alerts := by
  simp [World.alerts, World.notify, Notice.alert?]

/-- Building one release. -/
theorem build_follows (i : Invocation) (r : ReleaseRequest) (w : World) :
    Follows w (build i r w).2 := by
  simp only [build]
  split
  · exact ⟨alerts_notify_release w _ _ _ _ _ _, rfl, List.Subset.refl _, fun _ => Nat.le_refl _⟩
  · next built hbuilt =>
    have hrecord : Follows w { w with state := record i built.tx w.state } := by
      refine ⟨rfl, ?_, ?_, count_tracked_record (Wallet.spends_of_pay hbuilt)⟩
      · simp only [record, Invocation.withActiveUtxos_eq]
      · simp only [record, Invocation.withActiveUtxos_eq]
        exact WaitingList.subset_add _ _ _
    split
    · exact hrecord
    · exact hrecord.trans ⟨alerts_notify_release _ _ _ _ _ _ _, rfl, List.Subset.refl _,
        fun _ => Nat.le_refl _⟩

/-- Building the queued releases. -/
theorem buildQueued_follows (i : Invocation) (w : World) : Follows w (buildQueued i w).2 := by
  have hpass : Follows w
      (ReleaseQueue.pass w.state.requests i.constants.maxReleaseRounds (build i) w).state :=
    ReleaseQueue.passRounds_induct Follows.refl (fun huv hvw => huv.trans hvw) (build_follows i)
      _ _ _ _
  exact hpass.trans ⟨rfl, rfl, List.Subset.refl _, fun _ => Nat.le_refl _⟩

/-- **Passing on**: nothing is due and nothing happens, or the earliest entry that is due is taken
out and filed. -/
theorem promote_eq_cases (i : Invocation) (hash : HostTxHash) (s : State) :
    (∀ w ∈ s.waiting, w.isDue i.number i.constants.hostConfirmations = false) ∧
        promote i hash s = s ∨
      ∃ front w back, s.waiting = front ++ w :: back ∧
        (∀ v ∈ front, v.isDue i.number i.constants.hostConfirmations = false) ∧
        w.isDue i.number i.constants.hostConfirmations = true ∧
        promote i hash s =
          { s with waiting := front ++ back, pending := s.pending.insert hash w.transaction } := by
  unfold promote WaitingList.takeDue
  rcases WaitingList.split_one_cases (·.isDue i.number i.constants.hostConfirmations) s.waiting with
    ⟨hnone, hsplit⟩ | ⟨front, w, back, hqueue, hfront, hw, hsplit⟩
  · rw [Option.getD_some, hsplit]
    exact .inl ⟨hnone, rfl⟩
  · rw [Option.getD_some, hsplit]
    exact .inr ⟨front, w, back, hqueue, hfront, hw, rfl⟩

/-- What waits is on its way still when an entry has been passed on. -/
theorem mem_inFlight_promote (i : Invocation) (hash : HostTxHash) {s : State} {tx : Transaction}
    (h : tx ∈ WaitingList.transactions s.waiting) : tx ∈ (promote i hash s).inFlight := by
  rcases promote_eq_cases i hash s with ⟨-, heq⟩ | ⟨front, w, back, hqueue, -, -, heq⟩
  · rw [heq]
    exact List.mem_append_left _ h
  · obtain ⟨v, hv, rfl⟩ := List.mem_map.mp h
    rw [heq]
    rw [hqueue, List.mem_append, List.mem_cons, or_left_comm, ← List.mem_append] at hv
    rcases hv with rfl | hv
    · exact List.mem_append_right _ (SortedMap.mem_values_insert _ _ _)
    · exact List.mem_append_left _ (List.mem_map_of_mem hv)

/-- What the second and the third part of an update keep of what its first part leaves: no alert is
raised, the federations stay, what waits is on its way, and no outpoint is added to those that are
kept. -/
theorem update_after (i : Invocation) (hash : HostTxHash) (w : World) :
    let advanced := Migration.advance i w
    let after := (update i hash w).2
    after.alerts = advanced.alerts ∧
      after.state.federations = advanced.state.federations ∧
      WaitingList.transactions advanced.state.waiting ⊆ after.state.inFlight ∧
      ∀ o, after.state.tracked.count o ≤ advanced.state.tracked.count o := by
  intro advanced after
  have hfollows := buildQueued_follows i advanced
  have hwaiting := List.map_subset WaitingTransaction.transaction hfollows.waiting
  simp only [after, update]
  split
  · next hqueued =>
    rw [hqueued] at hfollows hwaiting
    exact ⟨hfollows.alerts, hfollows.federations,
      List.Subset.trans hwaiting (List.subset_append_left _ _), hfollows.count⟩
  · next built hqueued =>
    rw [hqueued] at hfollows hwaiting
    refine ⟨hfollows.alerts, ?_, fun tx htx => mem_inFlight_promote i hash (hwaiting htx),
      fun o => Nat.le_trans (count_tracked_promote i hash _ o) (hfollows.count o)⟩
    rw [← hfollows.federations]
    unfold promote
    split
    · rfl
    · rfl

end Payout

/-! ### What is lost -/

namespace State

variable {s : State} {u : Utxo}

/-- The outpoints that a transaction on its way spends are committed. -/
theorem mem_committed {tx : Transaction} (htx : tx ∈ s.inFlight) {o : OutPoint}
    (ho : o ∈ tx.spends) : o ∈ s.committed :=
  List.mem_flatMap_of_mem htx ho

/-- What is not kept is not committed. -/
theorem not_mem_committed {o : OutPoint} (h : s.tracked.count o = 0) : o ∉ s.committed := by
  intro ho
  exact List.count_eq_zero.mp h (List.mem_append_right _ ho)

/-- An old output is kept nowhere once it has been forgotten. -/
theorem Secured.count_forget (hs : s.Secured) (hu : u ∈ s.holdings.old) :
    (Migration.forget s).tracked.count u.outpoint = 0 := by
  have hone := List.nodup_iff_count_le_one.mp hs.distinct u.outpoint
  have hold : 0 < (s.holdings.old.map Utxo.outpoint).count u.outpoint :=
    List.count_pos_iff.mpr (List.mem_map_of_mem hu)
  rw [count_tracked] at hone ⊢
  simp only [Migration.forget, List.map_nil, List.count_nil]
  omega

/-- An old output is kept nowhere either if a transaction is made that is not added or does not
spend it. -/
theorem Secured.count_forget_add (hs : s.Secured) (hu : u ∈ s.holdings.old) {tx : Transaction}
    (block : UInt64)
    (h : u.outpoint ∉ tx.spends ∨ ∃ w ∈ s.waiting, w.transaction.txid = tx.txid) :
    ({ Migration.forget s with waiting := WaitingList.add s.waiting tx block } :
      State).tracked.count u.outpoint = 0 := by
  have hgone := hs.count_forget hu
  rcases h with hspent | hwaiting
  · have hadd := WaitingList.count_spent_add s.waiting tx block u.outpoint
    rw [List.count_eq_zero_of_not_mem hspent] at hadd
    rw [count_tracked] at hgone ⊢
    simp only [Migration.forget] at hgone ⊢
    omega
  · rw [WaitingList.add_of_waiting block hwaiting]
    exact hgone

end State

namespace Call

/-- The alerts that a call raises. -/
def raised (c : Call) : List (AlertKind × String) := c.after.alerts.drop c.before.alerts.length

/-- An output is lost silently: after the call no transaction on its way spends it, and the call
raises no alert about it. -/
def Loses (c : Call) (u : Utxo) : Prop :=
  u.outpoint ∉ c.after.state.committed ∧ ∀ message, (.migrationFailed, message) ∉ c.raised

variable {c : Call} {hash : HostTxHash} {retiring : Federation} {u : Utxo}

/-- What is kept nowhere is lost silently if no alert is raised. -/
theorem loses_of_count (hraised : c.raised = [])
    (hgone : c.after.state.tracked.count u.outpoint = 0) : c.Loses u := by
  refine ⟨State.not_mem_committed hgone, fun message => ?_⟩
  rw [hraised]
  exact List.not_mem_nil

/-- What the update at the end of the window leaves: the old federation is forgotten, and either
nothing of value was left, or an alert has been raised, or the last transaction is on its way. -/
theorem after_last_move (hop : c.operation = .update hash)
    (hretiring : c.invocation.retiring c.before.state = some retiring)
    (hage : c.invocation.constants.activationAge + c.invocation.constants.migrationEnd ≤
      c.invocation.number - (c.invocation.active c.before.state).creationBlock.toNat) :
    let s := c.before.state
    c.after.state.federations.old = none ∧
      ((Utxo.total s.holdings.old = 0 ∧ c.raised = [] ∧
          ∀ o, c.after.state.tracked.count o ≤ (Migration.forget s).tracked.count o) ∨
        (∃ e message, Migration.sweep c.invocation retiring s = .error e ∧
          0 < Utxo.total s.holdings.old ∧ c.raised = [(.migrationFailed, message)]) ∨
        ∃ built, Migration.sweep c.invocation retiring s = .ok built ∧
          0 < Utxo.total s.holdings.old ∧ c.raised = [] ∧
          ((∃ w ∈ s.waiting, w.transaction.txid = built.tx.txid) ∨
            built.tx ∈ c.after.state.inFlight) ∧
          ∀ o, c.after.state.tracked.count o ≤ ({ Migration.forget s with
            waiting := WaitingList.add s.waiting built.tx
              c.invocation.block.number } : State).tracked.count o) := by
  intro s
  have hafter : c.after = (Payout.update c.invocation hash c.before).2 := by
    rw [after, hop]
    rfl
  obtain ⟨halerts, hfederations, hwaiting, hcount⟩ :=
    Payout.update_after c.invocation hash c.before
  have hadvance : Migration.advance c.invocation c.before = Migration.finish c.invocation retiring
      (c.invocation.active s)
      (c.invocation.number - (c.invocation.active s).creationBlock.toNat) c.before := by
    simp only [Migration.advance, hretiring, hage, if_true, s]
  rw [← hafter, hadvance] at halerts hfederations hwaiting hcount
  refine ⟨by rw [hfederations]; rfl, ?_⟩
  rw [raised, halerts]
  rcases Migration.finish_cases c.invocation retiring
      (c.invocation.number - (c.invocation.active s).creationBlock.toNat) c.before with
    ⟨htotal, hnone, hstate⟩ | ⟨e, message, hsweep, htotal, hone, -⟩ |
      ⟨built, hsweep, htotal, hnone, hstate⟩
  · rw [hstate] at hcount
    exact .inl ⟨htotal, by rw [hnone, List.drop_length], hcount⟩
  · exact .inr (.inl ⟨e, message, hsweep, htotal, by rw [hone, List.drop_left]⟩)
  · rw [hstate] at hwaiting hcount
    refine .inr (.inr ⟨built, hsweep, htotal, by rw [hnone, List.drop_length], ?_, hcount⟩)
    by_cases hname : ∃ w ∈ s.waiting, w.transaction.txid = built.tx.txid
    · exact .inl hname
    · exact .inr (hwaiting (WaitingList.mem_transactions_add c.invocation.block.number hname))

end Call

namespace Run

/-- **What the last move loses.** After every run of a new peg, consider the update that ends the
window. Nothing is left in the old place, and an old output is lost silently exactly if all of them
were worth nothing or if a transaction could be made that does not spend it, perhaps one for a part
of the balance only. (A transaction whose name is waiting already is not added. That would take two
different ones with the same name.) But no output of value is lost unless less than the whole
balance has been moved. -/
theorem lost_in_sweep_iff {calls : List Call} {c : Call}
    {hash : HostTxHash} {retiring : Federation} {u : Utxo}
    (h : Run .initial calls c.before.state) (hnumbered : ∀ c ∈ calls, c.operation.IsNumbered)
    (hconstants : ∀ c' ∈ calls, c'.invocation.constants = c.invocation.constants)
    (hop : c.operation = .update hash)
    (hretiring : c.invocation.retiring c.before.state = some retiring)
    (hage : c.invocation.constants.activationAge + c.invocation.constants.migrationEnd ≤
      c.invocation.number - (c.invocation.active c.before.state).creationBlock.toNat)
    (hu : u ∈ c.before.state.holdings.old) :
    c.after.state.holdings.old = [] ∧
      (c.Loses u ↔ Utxo.total c.before.state.holdings.old = 0 ∨
        ∃ built, Migration.sweep c.invocation retiring c.before.state = .ok built ∧
          (u.outpoint ∉ built.tx.spends ∨
            ∃ w ∈ c.before.state.waiting, w.transaction.txid = built.tx.txid)) ∧
      ∀ built, Migration.sweep c.invocation retiring c.before.state = .ok built →
        u.outpoint ∉ built.tx.spends → 0 < u.value.sats →
        ∃ tried, tried.sats < Utxo.total c.before.state.holdings.old ∧
          (Migration.wallet c.invocation retiring c.before.state).payWithChange
            (c.invocation.active c.before.state).payScript tried
            (c.invocation.active c.before.state).payScript = .ok built := by
  have hsecured := h.secured hnumbered
  obtain ⟨hold, hcases⟩ := Call.after_last_move hop hretiring hage
  refine ⟨(h.orderly.moves c.moves).holdings_of_old hold, ?_, ?_⟩
  · rcases hcases with ⟨htotal, hraised, hcount⟩ | ⟨e, message, hsweep, htotal, hraised⟩ |
      ⟨built, hsweep, htotal, hraised, hadded, hcount⟩
    · have hgone := hcount u.outpoint
      rw [hsecured.count_forget hu, Nat.le_zero] at hgone
      exact iff_of_true (Call.loses_of_count hraised hgone) (.inl htotal)
    · refine iff_of_false (fun hlost => hlost.2 message ?_) ?_
      · rw [hraised]
        exact List.mem_singleton.mpr rfl
      · rintro (hzero | ⟨built, hbuilt, -⟩)
        · exact absurd hzero (Nat.ne_of_gt htotal)
        · rw [hsweep] at hbuilt
          cases hbuilt
    · constructor
      · rintro ⟨huncommitted, -⟩
        refine .inr ⟨built, hsweep, hadded.symm.imp_left fun hflight hspent => ?_⟩
        exact huncommitted (State.mem_committed hflight hspent)
      · rintro (hzero | ⟨built', hbuilt, hcause⟩)
        · exact absurd hzero (Nat.ne_of_gt htotal)
        · rw [hsweep] at hbuilt
          cases hbuilt
          have hgone := hcount u.outpoint
          rw [hsecured.count_forget_add hu _ hcause, Nat.le_zero] at hgone
          exact Call.loses_of_count hraised hgone
  · intro built hsweep hspent hvalue
    obtain ⟨tried, -, hpay⟩ := Wallet.migrateFrom_eq_ok hsweep
    obtain ⟨hretired, -⟩ := c.invocation.retiring_eq_some_iff.mp hretiring
    have hholds := Wallet.holds_of_owns ((h.owned hconstants).owns_old hretired)
      (c.invocation.active c.before.state).payScript (c.invocation.feePerKb c.before.state)
      c.invocation.constants
    exact ⟨tried, Wallet.value_of_not_spent hholds hpay hu hspent hvalue, hpay⟩

end Run

/-! ### A peg with small transactions -/

namespace Example

/-- A release of the federation with two outputs as change, one ten times the other. -/
def twoChanges : Transaction where
  version := 1
  inputs :=
    [⟨⟨⟨.replicate 32 3⟩, 0⟩, Script.push [0x30] ++ Script.push federation.redeemScript,
      0xFFFFFFFF, []⟩]
  outputs := [⟨.clamp 1000000, federation.payScript⟩, ⟨.clamp 100000, federation.payScript⟩]
  lockTime := 0

/-- The digest of the release. -/
def twoChangesDigest : FixedBytes 32 :=
  .ofNat 32 0xf3fef42fede6fec6c80b94a1b0df0d1a0965bf695963d81f1a76549805ca64e9

/-- The larger output. -/
def largeChange : Utxo :=
  ⟨⟨twoChangesDigest⟩, 0, .clamp 1000000, 0, false, federation.payScript⟩

/-- The smaller output. -/
def smallChange : Utxo :=
  ⟨⟨twoChangesDigest⟩, 1, .clamp 100000, 0, false, federation.payScript⟩

/-- The constants with room for one input in a transaction. -/
def tightConstants : Constants := { constants with maxTransactionSize := 300 }

/-- An operation in a host block under these constants. -/
def tightCall (block : UInt64) (op : Operation) (s : State) : Call where
  invocation :=
    { constants := tightConstants
      chain := { chain with headerAt := fun _ => some (headerWith twoChangesDigest) }
      block := ⟨block, 0⟩ }
  operation := op
  before := ⟨s, .empty, []⟩

/-- The state before the call. -/
theorem state_before_tightCall (block : UInt64) (op : Operation) (s : State) :
    (tightCall block op s).before.state = s := rfl

/-- A vote in the first host block under these constants. -/
def tightVote (function : String) (arguments : List Bytes) (s : State) : Call :=
  tightCall 1 (.voteFederation voter ⟨function, arguments⟩) s

/-- The release is registered, the only transaction of its block. -/
def tightRegistered : Call :=
  tightCall 1 (.register twoChanges.encodePlain 0
    ([1, 0, 0, 0, 1] ++ twoChangesDigest.toList ++ [1, 1])) .initial

/-- A pending federation is created. -/
def tightCreated : Call := tightVote "create" [] tightRegistered.after.state

/-- The holder of the key joins it. -/
def tightAdded : Call := tightVote "add" [key.bytes] tightCreated.after.state

/-- The pending federation is committed. -/
def tightCommitted : Call := tightVote "commit" [pendingHash.toList] tightAdded.after.state

/-- The update at the end of the window. -/
def tightSweep : Call :=
  tightCall 111 (.update ⟨.replicate 32 0⟩) tightCommitted.after.state

/-- The calls before the update. -/
theorem run_tightSweep :
    Run .initial [tightRegistered, tightCreated, tightAdded, tightCommitted]
      tightSweep.before.state := by
  rw [tightSweep, state_before_tightCall]
  exact .cons (state_before_tightCall _ _ _) .kept
    (.cons (state_before_tightCall _ _ _) .kept
      (.cons (state_before_tightCall _ _ _) .kept
        (.cons (state_before_tightCall _ _ _) .kept (.nil _))))

/-- The coins of the two outputs, larger one first. -/
theorem coins_twoChanges : Coin.ofUtxos [largeChange, smallChange] [federation] =
    [⟨largeChange, federation⟩, ⟨smallChange, federation⟩] := by
  apply Coin.ofUtxos_of_ordered
  · intro u hu
    rcases List.mem_pair.mp hu with rfl | rfl <;> rfl
  · exact List.pairwise_pair.mpr (by decide +kernel)

/-- The federation of the key. -/
def successor : Federation := ⟨[.ofKey key], 0, 1, .regtest⟩

/-- The commit leaves both outputs in the old place. -/
theorem before_tightSweep :
    tightSweep.before.state.holdings = ⟨[], [largeChange, smallChange]⟩ ∧
      tightSweep.before.state.federations = ⟨some successor, some federation, none⟩ ∧
      tightSweep.before.state.feePerKb = none := by
  set_option maxRecDepth 100000 in
  decide +kernel

/-- The window of the migration ends with the update. -/
theorem window_tightSweep :
    tightSweep.invocation.retiring tightSweep.before.state = some federation ∧
      tightSweep.invocation.active tightSweep.before.state = successor ∧
      tightSweep.invocation.constants.activationAge +
        tightSweep.invocation.constants.migrationEnd ≤
        tightSweep.invocation.number - successor.creationBlock.toNat := by
  rw [Invocation.retiring, Invocation.active, before_tightSweep.2.1]
  decide +kernel

/-- The wallet of the two outputs. -/
def tightWallet : Wallet where
  coins := [⟨largeChange, federation⟩, ⟨smallChange, federation⟩]
  changeScript := successor.payScript
  feePerKb := constants.genesisFeePerKb
  minimumOutput := constants.minimumOutput
  maxTransactionSize := 300
  maxMigrationAttempts := constants.maxMigrationAttempts

/-- Only one of the two outputs goes into a transaction. -/
theorem sweep_tightSweep : ∃ built,
    Migration.sweep tightSweep.invocation federation tightSweep.before.state = .ok built ∧
      smallChange.outpoint ∉ built.tx.spends := by
  obtain ⟨hheld, -, hfee⟩ := before_tightSweep
  have hwallet : Wallet.of [largeChange, smallChange] [federation] successor.payScript
      (tightSweep.invocation.feePerKb tightSweep.before.state) tightSweep.invocation.constants =
      tightWallet := by
    rw [Wallet.of, coins_twoChanges, Invocation.feePerKb, hfee]
    rfl
  rw [Migration.sweep, Migration.wallet, window_tightSweep.2.1, hheld, hwallet]
  have hbuilt : ((tightWallet.migrate successor.payScript
      (.clamp (Utxo.total [largeChange, smallChange]))).toOption.map fun built =>
        built.tx.spends.contains smallChange.outpoint) = some false := by
    decide +kernel
  obtain ⟨built, hmigrate, hnot⟩ := exists_of_toOption_map hbuilt
  refine ⟨built, hmigrate, fun hspent => ?_⟩
  rw [List.contains_iff_mem.mpr hspent] at hnot
  cases hnot

end Example

namespace Run

open Example

/-- The last move finds two outputs that do not go into one transaction. It moves the larger one and
loses the other one silently. -/
theorem lost_in_sweep_half :
    (tightSweep.invocation.retiring tightSweep.before.state = some federation ∧
        tightSweep.invocation.constants.activationAge +
          tightSweep.invocation.constants.migrationEnd ≤ tightSweep.invocation.number -
            (tightSweep.invocation.active tightSweep.before.state).creationBlock.toNat ∧
        smallChange ∈ tightSweep.before.state.holdings.old) ∧
      tightSweep.after.state.holdings.old = [] ∧ tightSweep.Loses smallChange := by
  have hnumbered : ∀ c ∈ [tightRegistered, tightCreated, tightAdded, tightCommitted],
      c.operation.IsNumbered := by
    simp only [List.forall_mem_cons, List.not_mem_nil, false_implies, implies_true, and_true]
    exact ⟨Operation.isNumbered_of_length_le (by decide +kernel), trivial, trivial, trivial⟩
  have hconstants : ∀ c ∈ [tightRegistered, tightCreated, tightAdded, tightCommitted],
      c.invocation.constants = tightConstants := by
    simp only [List.forall_mem_cons, List.not_mem_nil, false_implies, implies_true, and_true]
    exact ⟨rfl, rfl, rfl, rfl⟩
  have hsame : tightConstants = tightSweep.invocation.constants := rfl
  rw [hsame] at hconstants
  have hheld : smallChange ∈ tightSweep.before.state.holdings.old := by
    rw [before_tightSweep.1]
    exact List.mem_cons_of_mem _ List.mem_cons_self
  obtain ⟨hretiring, hactive, hage⟩ := window_tightSweep
  rw [← hactive] at hage
  obtain ⟨built, hsweep, hspent⟩ := sweep_tightSweep
  obtain ⟨hcleared, hlost, -⟩ :=
    lost_in_sweep_iff run_tightSweep hnumbered hconstants rfl hretiring hage hheld
  exact ⟨⟨hretiring, hage, hheld⟩, hcleared, hlost.mpr (.inr ⟨built, hsweep, .inl hspent⟩)⟩

end Run

end TwoWayPeg
