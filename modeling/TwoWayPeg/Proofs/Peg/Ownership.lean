import TwoWayPeg.Proofs.Peg.Succession
import TwoWayPeg.Proofs.Utxo

/-!
# Every list belongs to one federation

The outputs in the new place pay the new federation, or the first one until another is committed,
and the outputs in the old place pay the old federation. So whichever list is the active one in a
block, the active federation can spend all of it, and a wallet made from the list leaves nothing
out.

* `State.Owned`: each list pays the federation of its place.
* `State.Owned.move`, `Run.owned`: every move keeps it, as long as the peg's first federation stays
  the same.
* `Wallet.holds_of_owns`: a wallet of what one federation owns holds all of it.
* `Run.custody`: what this means for releases and for migrations.
-/

namespace TwoWayPeg

/-- All outputs of a list pay to the federation. -/
def Federation.Owns (f : Federation) (us : List Utxo) : Prop := ∀ u ∈ us, u.script = f.payScript

/-! ### Wallets of one federation -/

namespace Coin

variable {f : Federation} {us : List Utxo}

/-- None of what one federation owns is left out of its coins. -/
theorem utxos_ofUtxos_of_owns (h : f.Owns us) : ((ofUtxos us [f]).map Coin.utxo).Perm us := by
  have hall : us.filter (isOwned [f]) = us := by
    apply List.filter_eq_self.mpr
    intro u hu
    exact isOwned_iff.mpr ⟨f, List.mem_singleton_self f, (h u hu).symm⟩
  have hperm := utxos_ofUtxos_perm us [f]
  rw [hall] at hperm
  exact hperm

/-- The coins of one federation are all its own. -/
theorem owner_of_mem_ofUtxos {c : Coin} (hc : c ∈ ofUtxos us [f]) : c.owner = f :=
  List.mem_singleton.mp (owner_mem_of_mem_ofUtxos hc)

/-- The sum of the coins is the sum of the list. -/
theorem total_ofUtxos_of_owns (h : f.Owns us) : total (ofUtxos us [f]) = Utxo.total us :=
  Amount.total_perm ((utxos_ofUtxos_of_owns h).map Utxo.value)

end Coin

/-- A wallet holds all of a list for one federation: each output is a coin as often as it is listed,
all coins belong to the federation, and their sum is the sum of the list. -/
structure Wallet.Holds (w : Wallet) (f : Federation) (us : List Utxo) : Prop where
  all : (w.coins.map Coin.utxo).Perm us
  owner : ∀ c ∈ w.coins, c.owner = f
  balance : w.balance = Utxo.total us

/-- **A wallet of what one federation owns holds all of it.** -/
theorem Wallet.holds_of_owns {f : Federation} {us : List Utxo} (h : f.Owns us)
    (changeScript : Script) (feePerKb : Amount) (c : Constants) :
    (Wallet.of us [f] changeScript feePerKb c).Holds f us where
  all := Coin.utxos_ofUtxos_of_owns h
  owner := fun _ hc => Coin.owner_of_mem_ofUtxos hc
  balance := Coin.total_ofUtxos_of_owns h

/-! ### Outputs that a transaction pays -/

namespace Registration

variable {i : Invocation} {m : MinedTransaction} {s : State} {u : Utxo}

/-- Outputs that pay to a script have it. -/
theorem script_of_mem_paidTo {script : Script} (h : u ∈ paidTo m script) : u.script = script := by
  rw [paidTo, Utxo.ofOutputs_eq_map] at h
  obtain ⟨o, ho, rfl⟩ := List.mem_map.mp h
  exact eq_of_beq (List.mem_filter.mp ho).2

/-- What goes into the old place pays the old federation. -/
theorem owner_of_mem_paidToRetiring (h : u ∈ paidToRetiring i m s) :
    ∃ f, s.federations.old = some f ∧ u.script = f.payScript := by
  unfold paidToRetiring at h
  split at h
  · cases h
  · next f hretiring =>
    split at h
    · cases h
    · obtain ⟨hold, -⟩ := i.retiring_eq_some_iff.mp hretiring
      exact ⟨f, hold, script_of_mem_paidTo h⟩

end Registration

/-! ### The active list -/

/-- The active federation stands in the old place, or it is the new one or else the first one. -/
theorem Invocation.active_cases (i : Invocation) (s : State) :
    (i.activeSlot s = .old ∧ s.federations.old = some (i.active s)) ∨
      (i.activeSlot s ≠ .old ∧ i.active s = s.federations.new.getD i.constants.genesis) := by
  unfold active FederationSlots.active activeSlot FederationSlots.activeSlot
  rcases s.federations.new with - | new
  · exact .inr ⟨by simp, rfl⟩
  · rcases s.federations.old with - | old
    · exact .inr ⟨by simp, rfl⟩
    · by_cases hage : FederationSlots.hasAge new i.constants.activationAge i.number = true
      · exact .inr ⟨by simp [hage], by simp [hage]⟩
      · exact .inl ⟨by simp [hage], by simp [hage]⟩

namespace State

/-- Each list pays the federation of its place. -/
structure Owned (genesis : Federation) (s : State) : Prop where
  new : (s.federations.new.getD genesis).Owns s.holdings.new
  old : ∀ u ∈ s.holdings.old, ∃ f, s.federations.old = some f ∧ u.script = f.payScript

/-- A new peg holds nothing. -/
theorem owned_initial (genesis : Federation) : State.initial.Owned genesis where
  new := fun _ h => absurd h List.not_mem_nil
  old := fun _ h => absurd h List.not_mem_nil

namespace Owned

variable {genesis : Federation} {i : Invocation} {op : Operation} {s t : State}

/-- What the old place holds pays the old federation. -/
theorem owns_old (hs : s.Owned genesis) {f : Federation} (hold : s.federations.old = some f) :
    f.Owns s.holdings.old := by
  intro u hu
  obtain ⟨f', hf', hscript⟩ := hs.old u hu
  rw [hold] at hf'
  cases hf'
  exact hscript

/-- **The active federation owns the active list**, in every block. -/
theorem owns_activeUtxos (hs : s.Owned i.constants.genesis) :
    (i.active s).Owns (i.activeUtxos s) := by
  unfold Invocation.activeUtxos
  rcases i.active_cases s with ⟨hslot, hold⟩ | ⟨hslot, hactive⟩
  · simp only [hslot]
    exact hs.owns_old hold
  · rw [hactive]
    split
    · next heq => exact absurd heq hslot
    · exact hs.new

/-- The lists stay owned when outputs are taken off them and the federations stay. -/
theorem of_subset (hs : s.Owned genesis) (hnew : t.federations.new = s.federations.new)
    (hold : t.federations.old = s.federations.old)
    (hholdings : t.holdings.new ⊆ s.holdings.new ∧ t.holdings.old ⊆ s.holdings.old) :
    t.Owned genesis where
  new := by
    rw [hnew]
    exact fun u hu => hs.new u (hholdings.1 hu)
  old := by
    rw [hold]
    exact fun u hu => hs.old u (hholdings.2 hu)

/-- The lists stay owned when the active one is replaced by outputs of the active federation. -/
theorem replaceActive (hs : s.Owned i.constants.genesis) {us : List Utxo}
    (hus : (i.active s).Owns us) :
    ({ s with holdings := i.replaceActive s us } : State).Owned i.constants.genesis := by
  unfold Invocation.replaceActive
  rcases i.active_cases s with ⟨hslot, hold⟩ | ⟨hslot, hactive⟩
  · simp only [hslot]
    exact ⟨hs.new, fun u hu => ⟨_, hold, hus u hu⟩⟩
  · rw [hactive] at hus
    split
    · next heq => exact absurd heq hslot
    · exact ⟨hus, hs.old⟩

/-- The lists stay owned when the outputs of a transaction are saved. -/
theorem savedHoldings (hs : s.Owned i.constants.genesis) (m : Registration.MinedTransaction) :
    ({ s with holdings := Registration.savedHoldings i m s } : State).Owned
      i.constants.genesis := by
  have hactive : (i.active s).Owns (Utxo.addNew (i.activeUtxos s)
      (Registration.paidTo m (i.active s).payScript)) := by
    intro u hu
    rcases Utxo.mem_of_mem_addNew hu with hu | hu
    · exact hs.owns_activeUtxos u hu
    · exact Registration.script_of_mem_paidTo hu
  have hreplaced := hs.replaceActive hactive
  refine ⟨hreplaced.new, fun u hu => ?_⟩
  rcases Utxo.mem_of_mem_addNew hu with hu | hu
  · exact hreplaced.old u hu
  · exact Registration.owner_of_mem_paidToRetiring hu

/-- **Every move keeps the lists owned**, as long as the places are filled in order. -/
theorem move (hs : s.Owned i.constants.genesis) (horderly : s.Orderly) (h : op.Move i s t) :
    t.Owned i.constants.genesis := by
  cases h with
  | keep _ m hmined =>
    exact (hs.savedHoldings m).of_subset rfl rfl ⟨List.Subset.refl _, List.Subset.refl _⟩
  | migrate _ retiring built hretiring hbuilt =>
    exact hs.of_subset rfl rfl ⟨List.Subset.refl _, List.filter_subset_self _⟩
  | forget _ retiring hretiring hage =>
    exact ⟨hs.new, fun u hu => absurd hu List.not_mem_nil⟩
  | build _ r built hbuilt =>
    rw [Payout.record, Invocation.withActiveUtxos_eq]
    have hleft : (i.active s).Owns (Utxo.withoutSpent (i.activeUtxos s) built.tx) :=
      fun u hu => hs.owns_activeUtxos u (List.mem_of_mem_filter hu)
    exact (hs.replaceActive hleft).of_subset rfl rfl ⟨List.Subset.refl _, List.Subset.refl _⟩
  | promote _ =>
    rw [Payout.promote]
    split
    · exact hs.of_subset rfl rfl ⟨List.Subset.refl _, List.Subset.refl _⟩
    · exact hs.of_subset rfl rfl ⟨List.Subset.refl _, List.Subset.refl _⟩
  | install _ hash p new hpending hcode hformed =>
    -- the old place is empty, so the active federation is the one that owns the new list
    have hactive := i.active_of_old_none (horderly.old_of_pending p hpending)
    refine ⟨fun u hu => absurd hu List.not_mem_nil, fun u hu => ⟨i.active s, rfl, ?_⟩⟩
    rw [hactive]
    exact hs.new u hu
  | _ => exact hs.of_subset rfl rfl ⟨List.Subset.refl _, List.Subset.refl _⟩

/-- The lists stay owned all through a call. -/
theorem moves (hs : s.Owned i.constants.genesis) (horderly : s.Orderly) (h : op.Moves i s t) :
    t.Owned i.constants.genesis := by
  induction h with
  | refl => exact hs
  | tail hfirst hlast ih => exact ih.move (horderly.moves hfirst) hlast

end Owned

end State

/-! ### Runs -/

namespace Run

variable {constants : Constants} {calls : List Call} {s : State}

/-- The lists are owned after every run of a new peg under the same constants. -/
theorem owned (h : Run .initial calls s)
    (hconstants : ∀ c ∈ calls, c.invocation.constants = constants) :
    s.Owned constants.genesis := by
  have hboth : s.Orderly ∧ s.Owned constants.genesis := by
    refine h.preserves (P := fun s => s.Orderly ∧ s.Owned constants.genesis) ?_
      ⟨State.orderly_initial, State.owned_initial _⟩
    rintro c hc s t hmove ⟨horderly, howned⟩
    rw [← hconstants c hc] at howned ⊢
    exact ⟨horderly.move hmove, howned.move horderly hmove⟩
  exact hboth.2

/-- **Custody.** After every run of a new peg under the same constants, the outputs in the new place
pay the new federation, or the first one while there is no other, and those in the old place pay the
old federation. So in every block the active federation owns the active list. And at every moment
of the next call, the wallet that pays requests holds all of the active list, and the wallet that
moves funds holds all of the old one. -/
theorem custody (h : Run .initial calls s)
    (hconstants : ∀ c ∈ calls, c.invocation.constants = constants) :
    (s.federations.new.getD constants.genesis).Owns s.holdings.new ∧
      (∀ u ∈ s.holdings.old, ∃ f, s.federations.old = some f ∧ u.script = f.payScript) ∧
      ∀ (i : Invocation) (op : Operation) (t : State), i.constants = constants → op.Moves i s t →
        (i.active t).Owns (i.activeUtxos t) ∧
        (Wallet.of (i.activeUtxos t) [i.active t] (i.active t).payScript (i.feePerKb t)
          i.constants).Holds (i.active t) (i.activeUtxos t) ∧
        ∀ f, i.retiring t = some f →
          (Wallet.of t.holdings.old [f] (i.active t).payScript (i.feePerKb t)
            i.constants).Holds f t.holdings.old := by
  have hs := h.owned hconstants
  refine ⟨hs.new, hs.old, ?_⟩
  rintro i op t rfl hmoves
  have ht := hs.moves h.orderly hmoves
  refine ⟨ht.owns_activeUtxos, Wallet.holds_of_owns ht.owns_activeUtxos _ _ _, ?_⟩
  intro f hretiring
  obtain ⟨hold, -⟩ := i.retiring_eq_some_iff.mp hretiring
  exact Wallet.holds_of_owns (ht.owns_old hold) _ _ _

end Run

namespace Example

/-- What a call sees in a host block in which the committed federation is old enough. -/
def afterActivation : Invocation := ⟨constants, chain, ⟨20, 0⟩⟩

/-- The calls up to the commit. -/
theorem run_committed :
    Run .initial [registered, created, added, committed] committed.after.state :=
  .cons (state_before_call _ _ _ _) .kept
    (.cons (state_before_call _ _ _ _) .kept
      (.cons (state_before_call _ _ _ _) .kept
        (.cons (state_before_call _ _ _ _) .kept (.nil _))))

end Example

namespace Run

/-- The change of the first federation is in the old place after a commit. Once the new federation
is old enough, the wallet that moves funds holds it. -/
theorem custody_change :
    ((∀ c ∈ [Example.registered, Example.created, Example.added, Example.committed],
        c.invocation.constants = Example.constants) ∧
      Example.committed.after.state.holdings.old.length = 1 ∧
      Example.afterActivation.retiring Example.committed.after.state = some Example.federation) ∧
      (Wallet.of Example.committed.after.state.holdings.old [Example.federation]
        (Example.afterActivation.active Example.committed.after.state).payScript
        (Example.afterActivation.feePerKb Example.committed.after.state)
        Example.afterActivation.constants).Holds Example.federation
          Example.committed.after.state.holdings.old := by
  have hconstants : ∀ c ∈ [Example.registered, Example.created, Example.added,
      Example.committed], c.invocation.constants = Example.constants := by
    simp only [List.forall_mem_cons, List.not_mem_nil, false_implies, implies_true, and_true]
    exact ⟨rfl, rfl, rfl, rfl⟩
  have hcommitted : Example.committed.after.state.holdings.old.length = 1 ∧
      Example.afterActivation.retiring Example.committed.after.state =
        some Example.federation := by
    set_option maxRecDepth 100000 in
    decide +kernel
  have hcustody := (custody Example.run_committed hconstants).2.2 Example.afterActivation
    (.update ⟨.replicate 32 0⟩) _ rfl .refl
  exact ⟨⟨hconstants, hcommitted⟩, hcustody.2.2 _ hcommitted.2⟩

end Run

end TwoWayPeg
