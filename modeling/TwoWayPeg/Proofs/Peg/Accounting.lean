import TwoWayPeg.Proofs.Peg.Burning
import TwoWayPeg.Proofs.Peg.Custody
import TwoWayPeg.Proofs.Peg.Succession
import TwoWayPeg.Proofs.Release.Balance
import TwoWayPeg.Proofs.Release.Pass

/-!
# The books of a release

When a release is built, the active list loses what the release spends, the requester is paid, the
federation gets its change back, and on the host chain something may be burned. Whether anything is
burned is found out from the built transaction, by looking at its second output; what the change is
topped up by is found out earlier, when the transaction is built. Nothing in the code says that these
are the same, but if they differed the peg would hold less bitcoin than it has locked, or more.

* `Payout.Booked`: how lists, outputs, fee and balances belong together.
* `Payout.unbacked_of_balanced`: what is burned is what the change has been topped up by.
* `State.Distinct.move`: no list holds an outpoint twice, whatever is registered.
* `Run.booked_or_kept`: in every state that can be reached, a release is booked or its request is
  kept and nothing else happens.
-/

namespace TwoWayPeg

/-! ### Lists without repetitions -/

namespace State

/-- Neither list holds an outpoint twice. -/
structure Distinct (s : State) : Prop where
  new : (s.holdings.new.map Utxo.outpoint).Nodup
  old : (s.holdings.old.map Utxo.outpoint).Nodup

/-- A new peg holds nothing. -/
theorem distinct_initial : State.initial.Distinct := ⟨List.nodup_nil, List.nodup_nil⟩

namespace Distinct

variable {i : Invocation} {op : Operation} {s t : State}

/-- The active list is one of them. -/
theorem activeUtxos (hs : s.Distinct) (i : Invocation) :
    ((i.activeUtxos s).map Utxo.outpoint).Nodup := by
  unfold Invocation.activeUtxos
  split
  · exact hs.old
  · exact hs.new

/-- The active list may be replaced by another one without repetitions. -/
theorem replaceActive (hs : s.Distinct) {us : List Utxo} (hus : (us.map Utxo.outpoint).Nodup) :
    ({ s with holdings := i.replaceActive s us } : State).Distinct := by
  unfold Invocation.replaceActive
  split
  · exact ⟨hs.new, hus⟩
  · exact ⟨hus, hs.old⟩

/-- The lists depend on the holdings alone. -/
theorem of_holdings (hs : s.Distinct) (h : t.holdings = s.holdings) : t.Distinct := by
  refine ⟨?_, ?_⟩
  · rw [h]
    exact hs.new
  · rw [h]
    exact hs.old

/-- What a transaction leaves of a list has no repetitions either. -/
theorem withoutSpent {us : List Utxo} (h : (us.map Utxo.outpoint).Nodup) (tx : Transaction) :
    ((Utxo.withoutSpent us tx).map Utxo.outpoint).Nodup :=
  h.sublist (List.filter_sublist.map _)

/-- Outputs that are saved are not listed twice, even if their transaction numbers two outputs
alike. -/
theorem savedHoldings (hs : s.Distinct) (m : Registration.MinedTransaction) :
    ({ s with holdings := Registration.savedHoldings i m s } : State).Distinct := by
  have hreplaced := hs.replaceActive (i := i) (Utxo.nodup_addNew (hs.activeUtxos i)
    (Registration.paidTo m (i.active s).payScript))
  exact ⟨hreplaced.new, Utxo.nodup_addNew hreplaced.old _⟩

/-- Every move keeps the lists without repetitions. -/
theorem move (hs : s.Distinct) (h : op.Move i s t) : t.Distinct := by
  cases h with
  | keep _ m hmined => exact (hs.savedHoldings m).of_holdings rfl
  | migrate _ retiring built hretiring hbuilt => exact ⟨hs.new, withoutSpent hs.old built.tx⟩
  | forget _ retiring hretiring hage => exact ⟨hs.new, List.nodup_nil⟩
  | build _ r built hbuilt =>
    rw [Payout.record, Invocation.withActiveUtxos_eq]
    exact (hs.replaceActive (withoutSpent (hs.activeUtxos i) built.tx)).of_holdings rfl
  | promote _ =>
    rw [Payout.promote]
    split
    · exact hs.of_holdings rfl
    · exact hs.of_holdings rfl
  | install _ hash p new hpending hcode hformed => exact ⟨List.nodup_nil, hs.new⟩
  | _ => exact hs.of_holdings rfl

/-- The lists stay without repetitions all through a call. -/
theorem moves (hs : s.Distinct) (h : op.Moves i s t) : t.Distinct := by
  induction h with
  | refl => exact hs
  | tail _ hlast ih => exact ih.move hlast

end Distinct

end State

/-- No list holds an outpoint twice after a run of a new peg. -/
theorem Run.distinct {calls : List Call} {s : State} (h : Run .initial calls s) : s.Distinct :=
  h.preserves (fun _ _ _ _ hmove hs => hs.move hmove) State.distinct_initial

/-! ### The books -/

namespace Payout

open Ledger (Burned)

variable {i : Invocation}

/-- How a release that has been built is booked. -/
structure Booked (i : Invocation) (r : ReleaseRequest) (before after : World)
    (built : BuiltTransaction) (recipient change : Amount) (burned : Nat) : Prop where
  /-- Each selected output is spent by one input. -/
  spends : built.tx.spends = built.selected.map Utxo.outpoint
  /-- The active list loses the selected outputs, each of them once. -/
  taken : (built.selected ++ i.activeUtxos after.state).Perm (i.activeUtxos before.state)
  /-- What is left of the active list is in its order. -/
  ordered : (i.activeUtxos after.state).Sublist (i.activeUtxos before.state)
  /-- The other list is as before. -/
  holdings : after.state.holdings =
    i.replaceActive before.state (i.activeUtxos after.state)
  /-- The requester is paid first, and whatever change there is goes to the active federation. -/
  outputs : built.tx.outputs = ⟨recipient, r.destination⟩ ::
    if change.sats = 0 then [] else [⟨change, (i.active before.state).payScript⟩]
  enough : r.amount.sats ≤ built.totalInput
  paid : recipient.sats + built.fee.sats + burned = r.amount.sats
  returned : change.sats = built.totalInput - r.amount.sats + burned
  /-- What is burned is what the change lacked to be an output, if there was any change. -/
  burned_eq : burned =
    if r.amount.sats < built.totalInput then
      i.constants.minimumOutput.sats - (built.totalInput - r.amount.sats)
    else 0
  ledger : Burned before.ledger after.ledger burned

/-- **What is burned is what the change has been topped up by.** -/
theorem unbacked_of_balanced {w : Wallet} {destination changeScript : Script} {amount : Amount}
    {built : BuiltTransaction} {recipient change : Amount}
    (h : w.Balanced destination changeScript amount built recipient change) :
    unbacked built amount.sats = w.topUp (built.totalInput - amount.sats) := by
  have henough := h.enough
  have hpaid := h.paid
  have hreturned := h.returned
  unfold unbacked
  rw [h.outputs]
  by_cases hnone : change.sats = 0
  · -- where there is no change, none was left to be topped up
    have htopUp : w.topUp (built.totalInput - amount.sats) = 0 := by omega
    rw [if_pos hnone, List.getElem?_cons_succ, List.getElem?_nil, htopUp]
  · rw [if_neg hnone, List.getElem?_cons_succ, List.getElem?_cons_zero]
    simp only
    omega

/-- A new active list is the active list, as the federations stay. -/
theorem activeUtxos_record (tx : Transaction) (s : State) :
    i.activeUtxos (record i tx s) = Utxo.withoutSpent (i.activeUtxos s) tx := by
  rw [record, Invocation.withActiveUtxos_eq]
  unfold Invocation.activeUtxos Invocation.replaceActive
  have hslot : ∀ holdings waiting,
      i.activeSlot { s with holdings, waiting } = i.activeSlot s := fun _ _ => rfl
  simp only [hslot]
  cases i.activeSlot s with
  | old => rfl
  | new => rfl
  | genesis => rfl

/-- The holdings after a release has been built. -/
theorem holdings_record (tx : Transaction) (s : State) :
    (record i tx s).holdings = i.replaceActive s (i.activeUtxos (record i tx s)) := by
  rw [activeUtxos_record, record, Invocation.withActiveUtxos_eq]

/-- The waiting transactions after a release has been built. -/
theorem waiting_record (tx : Transaction) (s : State) :
    (record i tx s).waiting = WaitingList.add s.waiting tx i.block.number := by
  rw [record, Invocation.withActiveUtxos_eq]

/-- A release that has been built is booked, where the active list has no repetitions. -/
theorem booked_of_build {r : ReleaseRequest} {w after : World} (hdistinct : w.state.Distinct)
    (h : build i r w = (.ok true, after)) :
    ∃ built recipient change burned,
      (wallet i w.state).pay r.destination r.amount = .ok built ∧
      after.state = record i built.tx w.state ∧
      Booked i r w after built recipient change burned := by
  rcases build_cases (i := i) r w with ⟨e, left, -, hbuild, -⟩ | ⟨built, hpay, hbuilt⟩
  · rw [hbuild] at h
    cases h
  rcases hbuilt with ⟨left, hbuild, hstate, hburn⟩ | ⟨e, left, hbuild, -⟩
  · rw [hbuild] at h
    obtain rfl : left = after := congrArg Prod.snd h
    obtain ⟨recipient, change, hbalanced⟩ := Wallet.balanced_of_payWithChange hpay
    have hspends := Wallet.spends_eq_of_payWithChange hpay
    have hunbacked := unbacked_of_balanced hbalanced
    have hactive : i.activeUtxos left.state =
        Utxo.withoutSpent (i.activeUtxos w.state) built.tx := by
      rw [hstate, activeUtxos_record]
    refine ⟨built, recipient, change, unbacked built r.amount.sats, hpay, hstate, ?_⟩
    exact
      { spends := hspends
        taken := by
          rw [hactive]
          exact Utxo.append_withoutSpent_perm (hdistinct.activeUtxos i)
            (Wallet.selected_subperm_of_payWithChange hpay) hspends
        ordered := by
          rw [hactive]
          exact List.filter_sublist
        holdings := by
          rw [hstate]
          exact holdings_record built.tx w.state
        outputs := hbalanced.outputs
        enough := hbalanced.enough
        paid := by
          rw [hunbacked]
          exact hbalanced.paid
        returned := by
          rw [hunbacked]
          exact hbalanced.returned
        burned_eq := by
          rw [hunbacked, Wallet.topUp]
          by_cases hleft : r.amount.sats < built.totalInput
          · rw [if_neg (by omega), if_pos hleft]
            rfl
          · rw [if_pos (by omega), if_neg hleft]
        ledger := burned_of_burn hburn }
  · rw [hbuild] at h
    cases h

end Payout

/-! ### Transactions that wait -/

/-- What the active list holds is listed. -/
theorem Invocation.mem_listed_of_active {i : Invocation} {s : State} {o : OutPoint}
    (h : o ∈ (i.activeUtxos s).map Utxo.outpoint) : o ∈ s.listed := by
  unfold activeUtxos at h
  rw [State.listed, List.map_append, List.mem_append]
  split at h
  · exact .inr h
  · exact .inl h

/-- A transaction that spends something of the active list is not on its way yet. -/
theorem State.Secured.not_mem_inFlight {i : Invocation} {s : State} {tx : Transaction}
    (hs : s.Secured) (hsome : tx.spends ≠ [])
    (hactive : tx.spends ⊆ (i.activeUtxos s).map Utxo.outpoint) : tx ∉ s.inFlight := by
  intro hmem
  obtain ⟨o, ho⟩ := List.exists_mem_of_ne_nil _ hsome
  have hcommitted : o ∈ s.committed := List.mem_flatMap.mpr ⟨tx, hmem, ho⟩
  have hlisted := Invocation.mem_listed_of_active (hactive ho)
  exact (List.nodup_append.mp hs.distinct).2.2 o hlisted o hcommitted rfl

/-! ### Runs -/

namespace Run

variable {calls : List Call} {s : State}

/-- **The books of a release.** At every moment of an update after a run of a new peg, and for every
request: if its release succeeds, then it is booked, and the transaction waits from the current block
on unless another one of its name waits already. If no transaction can be built, then state and
balances are as before, and the request is still queued when the pass is over. And if one can be
built, then the release succeeds, or what it owes cannot be burned. -/
theorem booked_or_kept (h : Run .initial calls s) (i : Invocation) (hash : HostTxHash) {w : World}
    (hmoves : (Operation.update hash).Moves i s w.state) (r : ReleaseRequest) :
    (∀ after, Payout.build i r w = (.ok true, after) →
      ∃ built recipient change burned,
        (Payout.wallet i w.state).pay r.destination r.amount = .ok built ∧
        Payout.Booked i r w after built recipient change burned ∧
        (after.state.waiting = w.state.waiting ++ [⟨built.tx, i.block.number⟩] ∨
          ∃ kept ∈ w.state.waiting, kept.transaction.txid = built.tx.txid ∧
            after.state.waiting = w.state.waiting ∧
            ((∀ c ∈ calls, c.operation.IsNumbered) → kept.transaction ≠ built.tx))) ∧
      (∀ e, (Payout.wallet i w.state).pay r.destination r.amount = .error e →
        ∃ after, Payout.build i r w = (.ok false, after) ∧ after.state = w.state ∧
          after.ledger = w.ledger ∧
          ∀ (rounds released : Nat) (q : ReleaseQueue), rounds ≤ q.length →
            ∃ looked kept, looked ≤ rounds ∧ kept.Sublist (q.take looked) ∧
              (ReleaseQueue.passRounds (Payout.build i) (rounds + 1) released (r :: q) w).queue =
                q.drop looked ++ r :: kept) ∧
      ∀ built, (Payout.wallet i w.state).pay r.destination r.amount = .ok built →
        ∃ after, Payout.build i r w = (.ok true, after) ∨
          ∃ e, Payout.build i r w = (.error (.ledger e), after) ∧
            Payout.burn (Payout.unbacked built r.amount.sats) w.ledger = .error e := by
  refine ⟨?_, ?_, ?_⟩
  · intro after hbuild
    obtain ⟨built, recipient, change, burned, hpay, hstate, hbooked⟩ :=
      Payout.booked_of_build (h.distinct.moves hmoves) hbuild
    refine ⟨built, recipient, change, burned, hpay, hbooked, ?_⟩
    rw [hstate, Payout.waiting_record]
    rcases WaitingList.add_cases w.state.waiting built.tx i.block.number with
      ⟨⟨kept, hkept, hname⟩, hadded⟩ | ⟨-, hadded⟩
    swap
    · exact .inl hadded
    · refine .inr ⟨kept, hkept, hname, hadded, fun hnumbered hsame => ?_⟩
      have hupdate : (Operation.update hash).IsNumbered := trivial
      have hsecured := (h.secured hnumbered).moves hupdate hmoves
      have hsome : built.tx.spends ≠ [] := by
        rw [hbooked.spends]
        simpa using Wallet.selected_ne_nil_of_payWithChange hpay
      refine hsecured.not_mem_inFlight hsome (Wallet.spends_of_pay hpay).subset ?_
      rw [State.inFlight, List.mem_append, ← hsame]
      exact .inl (List.mem_map_of_mem hkept)
  · intro e hfailed
    rcases Payout.build_cases (i := i) r w with
      ⟨e', after, -, hbuild, hstate, hledger⟩ | ⟨built, hpay, -⟩
    · exact ⟨after, hbuild, hstate, hledger, fun rounds released q hrounds =>
        ReleaseQueue.exists_queue_of_kept hbuild hrounds⟩
    · rw [hfailed] at hpay
      cases hpay
  · intro built hpay
    rcases Payout.build_cases (i := i) r w with ⟨e, after, hfailed, -⟩ | ⟨built', hpay', hbuilt⟩
    · rw [hpay] at hfailed
      cases hfailed
    rw [hpay] at hpay'
    cases hpay'
    rcases hbuilt with ⟨after, hbuild, -⟩ | ⟨e, after, hbuild, -, hburn⟩
    · exact ⟨after, .inl hbuild⟩
    · exact ⟨after, .inr ⟨e, hbuild, hburn⟩⟩

end Run

/-! ### A release that leaves too little change -/

namespace Example

/-- The output that is registered. -/
def listedChange : Utxo := ⟨⟨changeDigest⟩, 0, .clamp 100000, 1, false, federation.payScript⟩

/-- The output is listed, and the peg has the value of a hundred bitcoin. -/
def afterRegistered : World :=
  ⟨registered.after.state, SortedMap.empty.insert .bridge (Amount.toWei 10000000000), []⟩

/-- A request for all of the output but a hundred satoshis. -/
def nearlyAll : ReleaseRequest := ⟨Script.payToKeyHash ⟨.replicate 20 5⟩, .clamp 99900⟩

/-- A request for more than the output. -/
def tooMuch : ReleaseRequest := ⟨Script.payToKeyHash ⟨.replicate 20 5⟩, .clamp 100100⟩

/-- One registration is a run. -/
theorem run_registered : Run .initial [registered] afterRegistered.state := by
  simp only [afterRegistered]
  exact .cons (state_before_call _ _ _ _) .kept (.nil _)

/-- The output is listed and nothing else has changed; the first request is paid from it, and what
that owes can be burned. -/
theorem states_afterRegistered :
    (afterRegistered.state.federations = .empty ∧ afterRegistered.state.feePerKb = none ∧
        afterRegistered.state.holdings = ⟨[listedChange], []⟩) ∧
      (((walletOf [⟨listedChange, federation⟩]).pay nearlyAll.destination
        nearlyAll.amount).toOption.map fun built =>
          (Payout.unbacked built nearlyAll.amount.sats, built.totalInput)) = some (446, 100000) ∧
      (Payout.burn 446 afterRegistered.ledger).toOption.isSome = true := by
  set_option maxRecDepth 100000 in
  decide +kernel

/-- The wallet holds the output. -/
theorem wallet_afterRegistered : Payout.wallet hostBlock afterRegistered.state =
    walletOf [⟨listedChange, federation⟩] := by
  obtain ⟨⟨hfederations, hfee, hholdings⟩, -⟩ := states_afterRegistered
  exact wallet_eq (coins_single rfl) hfederations hfee hholdings

/-- The other one cannot be paid. -/
theorem pay_tooMuch : (walletOf [⟨listedChange, federation⟩]).pay tooMuch.destination
    tooMuch.amount = .error (.insufficientMoney 100100 100000) := rfl

end Example

namespace Run

open Example

/-- A hundred satoshis of change are topped up by 446, and these are burned. A request for more than
there is changes nothing. -/
theorem booked_or_kept_dust :
    (∃ after built recipient change,
      Payout.build hostBlock nearlyAll afterRegistered = (.ok true, after) ∧
      Payout.Booked hostBlock nearlyAll afterRegistered after built recipient change 446) ∧
    ∃ after, Payout.build hostBlock tooMuch afterRegistered = (.ok false, after) ∧
      after.state = afterRegistered.state ∧ after.ledger = afterRegistered.ledger := by
  have hbooks := booked_or_kept (w := afterRegistered) run_registered hostBlock
    ⟨.replicate 32 0⟩ .refl
  refine ⟨?_, ?_⟩
  · obtain ⟨-, hpaid, hburn⟩ := states_afterRegistered
    obtain ⟨built, hpay, hboth⟩ := exists_of_toOption_map hpaid
    obtain ⟨hdue, htotal⟩ := Prod.mk.inj hboth
    rw [← wallet_afterRegistered] at hpay
    obtain ⟨hsucceeds, -, hends⟩ := hbooks nearlyAll
    obtain ⟨after, hbuild | ⟨e, -, hfailed⟩⟩ := hends built hpay
    · obtain ⟨built', recipient, change, burned, hpay', hbooked, -⟩ := hsucceeds after hbuild
      rw [hpay] at hpay'
      cases hpay'
      have hburned : burned = 446 := by
        rw [hbooked.burned_eq, htotal]
        rfl
      exact ⟨after, built, recipient, change, hbuild, hburned ▸ hbooked⟩
    · rw [hdue] at hfailed
      rw [hfailed] at hburn
      cases hburn
  · have hfailed := pay_tooMuch
    rw [← wallet_afterRegistered] at hfailed
    obtain ⟨after, hbuild, hstate, hledger, -⟩ := (hbooks tooMuch).2.1 _ hfailed
    exact ⟨after, hbuild, hstate, hledger⟩

end Run

end TwoWayPeg
