import TwoWayPeg.Proofs.Peg.Mined
import TwoWayPeg.Proofs.Peg.Succession

/-!
# How long a federation is live

A federation is live while it is active and while it retires. Later blocks only add to the live
federations, and so does a commit: the federation that was active goes into the old place, where it
is active until the new one is old enough and retires from then on. So a federation that is live
once stays live, until an update at the end of a migration window forgets it.

* `Operation.Move.slots_cases`: what a move does to the places of federations.
* `Invocation.Precedes.live_subset`: later blocks only add to the live federations.
* `Run.live_or`: a live federation stays live, or some update has ended its window.
* `Run.retained_or`: an old federation stays in its place, or some update has ended its window.
* `Run.meetsFormed`: all federations that are met have been formed from members.
-/

namespace TwoWayPeg

/-! ### Places of federations -/

namespace Invocation

variable {i j : Invocation} {s t : State} {f : Federation}

/-- Another block of the same peg that is no earlier. -/
structure Precedes (i j : Invocation) : Prop where
  constants : j.constants = i.constants
  number : i.number ≤ j.number

/-- An update in the block ends the window of a federation: it is retiring, and the new one is old
enough for it to be forgotten. -/
def EndsWindow (i : Invocation) (s : State) (f : Federation) : Prop :=
  i.retiring s = some f ∧
    i.constants.activationAge + i.constants.migrationEnd ≤
      i.number - (i.active s).creationBlock.toNat

/-- Which federations are live depends on the new and the old place only. -/
theorem live_congr (hnew : t.federations.new = s.federations.new)
    (hold : t.federations.old = s.federations.old) : i.live t = i.live s := by
  unfold live active retiring FederationSlots.active FederationSlots.activeSlot
    FederationSlots.retiring
  rw [hnew, hold]

/-- The federation in the old place is live: it waits to be replaced, or it retires. -/
theorem mem_live_of_old {new : Federation} (hnew : s.federations.new = some new)
    (hold : s.federations.old = some f) : f ∈ i.live s := by
  by_cases hage : FederationSlots.hasAge new i.constants.activationAge i.number = true
  · have hretiring : i.retiring s = some f := i.retiring_eq_some_iff.mpr ⟨hold, new, hnew, hage⟩
    rw [live, hretiring]
    exact List.mem_cons_of_mem _ List.mem_cons_self
  · have hactive : i.active s = f := by
      simp [active, FederationSlots.active, FederationSlots.activeSlot, hnew, hold, hage]
    rw [live, hactive]
    exact List.mem_cons_self

/-- While the old place is empty, only the active federation is live. -/
theorem live_of_old_none (hold : s.federations.old = none) :
    i.live s = [s.federations.new.getD i.constants.genesis] := by
  rw [live, i.retiring_eq_none hold, i.active_of_old_none hold]
  rfl

/-- The new federation is live as soon as it is old enough. -/
theorem active_of_retiring (h : i.retiring s = some f) :
    s.federations.new = some (i.active s) := by
  have hslot := i.activeSlot_of_retiring h
  obtain ⟨-, new, hnew, -⟩ := i.retiring_eq_some_iff.mp h
  have hactive : i.active s = new := by
    unfold active FederationSlots.active
    unfold activeSlot at hslot
    rw [hslot, hnew]
    rfl
  rw [hactive]
  exact hnew

namespace Precedes

/-- A federation that is old enough is so in later blocks. -/
theorem hasAge (h : i.Precedes j)
    (hage : FederationSlots.hasAge f i.constants.activationAge i.number = true) :
    FederationSlots.hasAge f j.constants.activationAge j.number = true := by
  have hnumber := h.number
  unfold FederationSlots.hasAge at hage ⊢
  rw [decide_eq_true_eq] at hage ⊢
  rw [h.constants]
  omega

/-- What retires goes on retiring in later blocks, behind the same active federation. -/
theorem retiring (h : i.Precedes j) (hretiring : i.retiring s = some f) :
    j.retiring s = some f ∧ j.active s = i.active s := by
  obtain ⟨hold, new, hnew, hage⟩ := i.retiring_eq_some_iff.mp hretiring
  have hlater : j.retiring s = some f :=
    j.retiring_eq_some_iff.mpr ⟨hold, new, hnew, h.hasAge hage⟩
  refine ⟨hlater, ?_⟩
  have hactive := active_of_retiring hlater
  rw [active_of_retiring hretiring, Option.some.injEq] at hactive
  exact hactive.symm

/-- **Later blocks only add to the live federations.** -/
theorem live_subset (h : i.Precedes j) : i.live s ⊆ j.live s := by
  rcases hold : s.federations.old with - | old
  · rw [live_of_old_none hold, live_of_old_none hold, h.constants]
    exact List.Subset.refl _
  rcases hnew : s.federations.new with - | new
  · have hnone : ∀ k : Invocation, k.live s = [k.constants.genesis] := by
      intro k
      simp [live, active, Invocation.retiring, FederationSlots.active, FederationSlots.activeSlot,
        FederationSlots.retiring, hnew]
    rw [hnone, hnone, h.constants]
    exact List.Subset.refl _
  by_cases hage : FederationSlots.hasAge new i.constants.activationAge i.number = true
  · obtain ⟨hlater, hactive⟩ := h.retiring (i.retiring_eq_some_iff.mpr ⟨hold, new, hnew, hage⟩)
    rw [live, live, hlater, hactive, i.retiring_eq_some_iff.mpr ⟨hold, new, hnew, hage⟩]
    exact List.Subset.refl _
  · -- the old federation is the active one in the first block, and it is live in all blocks
    have hlive : i.live s = [old] := by
      simp [live, active, Invocation.retiring, FederationSlots.active, FederationSlots.activeSlot,
        FederationSlots.retiring, hnew, hold, hage]
    rw [hlive, List.cons_subset]
    exact ⟨mem_live_of_old hnew hold, List.nil_subset _⟩

end Precedes

end Invocation

/-- **What a move does to the places of federations**: it leaves the new and the old one, it forgets
the old one at the end of its window, or it commits a federation formed of members while the old
place is empty. -/
theorem Operation.Move.slots_cases {i : Invocation} {op : Operation} {s t : State}
    (hs : s.Orderly) (h : op.Move i s t) :
    (t.federations.new = s.federations.new ∧ t.federations.old = s.federations.old) ∨
      (∃ hash f, op = .update hash ∧ i.EndsWindow s f ∧
        t.federations.new = s.federations.new ∧ t.federations.old = none) ∨
      ∃ voter call new, op = .voteFederation voter call ∧ new.IsFormed ∧
        s.federations.old = none ∧ t.federations = ⟨some new, some (i.active s), none⟩ := by
  cases h with
  | build _ r built hbuilt =>
    rw [Payout.record, Invocation.withActiveUtxos_eq]
    exact .inl ⟨rfl, rfl⟩
  | promote _ =>
    rw [Payout.promote]
    split
    · exact .inl ⟨rfl, rfl⟩
    · exact .inl ⟨rfl, rfl⟩
  | @forget hash _ retiring hretiring hage =>
    exact .inr (.inl ⟨hash, retiring, rfl, ⟨hretiring, hage⟩, rfl, rfl⟩)
  | install _ hash p new hpending hcode hformed =>
    exact .inr (.inr ⟨_, _, new, rfl, ⟨_, _, _, _, hformed⟩, hs.old_of_pending p hpending, rfl⟩)
  | _ => exact .inl ⟨rfl, rfl⟩

namespace Invocation

variable {i : Invocation} {s t : State} {f : Federation}

/-- Whether a window ends depends on the new and the old place only. -/
theorem EndsWindow.congr (h : i.EndsWindow t f) (hnew : t.federations.new = s.federations.new)
    (hold : t.federations.old = s.federations.old) : i.EndsWindow s f := by
  unfold EndsWindow active retiring FederationSlots.active FederationSlots.activeSlot
    FederationSlots.retiring at h ⊢
  rw [hnew, hold] at h
  exact h

/-- Nothing ends while the old place is empty. -/
theorem not_endsWindow (hold : s.federations.old = none) : ¬ i.EndsWindow s f := by
  intro h
  rw [EndsWindow, i.retiring_eq_none hold] at h
  cases h.1

/-- No window ends in a block with a small number. -/
theorem not_endsWindow_of_number_lt
    (h : i.number < i.constants.activationAge + i.constants.migrationEnd) :
    ¬ i.EndsWindow s f := by
  rintro ⟨-, hage⟩
  omega

/-- Where a window ends, the federation that ends is the one in the old place. -/
theorem EndsWindow.old (h : i.EndsWindow s f) : s.federations.old = some f :=
  (i.retiring_eq_some_iff.mp h.1).1

/-- The federation that forgetting leaves is the one that was active. -/
theorem mem_live_of_forgotten {g : Federation} (hends : i.EndsWindow s g)
    (hnew : t.federations.new = s.federations.new) (hold : t.federations.old = none) :
    i.active s ∈ i.live t := by
  rw [live_of_old_none hold, hnew, active_of_retiring hends.1]
  exact List.mem_cons_self

/-- Committing makes the live federations live on: only one is live, and it gets into the old
place. -/
theorem mem_live_of_installed {new : Federation} (hnone : s.federations.old = none)
    (ht : t.federations = ⟨some new, some (i.active s), none⟩) (hf : f ∈ i.live s) :
    f ∈ i.live t := by
  rw [live_of_old_none hnone, ← i.active_of_old_none hnone, List.mem_singleton] at hf
  have hnew : t.federations.new = some new := by rw [ht]
  rw [hf]
  exact mem_live_of_old hnew (by rw [ht])

end Invocation

/-! ### One call -/

section Moves

variable {i : Invocation} {op : Operation} {s t : State} {f : Federation}

/-- After a move, a live federation is live still, unless the move is one of an update that ends its
window. -/
theorem Operation.Move.live_or (h : op.Move i s t) (hs : s.Orderly) (hf : f ∈ i.live s) :
    f ∈ i.live t ∨ (∃ hash, op = .update hash) ∧ i.EndsWindow s f := by
  rcases h.slots_cases hs with ⟨hnew, hold⟩ | ⟨hash, g, hop, hends, hnew, hold⟩ |
    ⟨-, -, new, -, -, hnone, hplaces⟩
  · rw [Invocation.live_congr hnew hold]
    exact .inl hf
  · rcases List.mem_cons.mp hf with rfl | hretiring
    · exact .inl (Invocation.mem_live_of_forgotten hends hnew hold)
    · rw [hends.1, Option.toList_some, List.mem_singleton] at hretiring
      exact .inr ⟨⟨hash, hop⟩, hretiring ▸ hends⟩
  · exact .inl (Invocation.mem_live_of_installed hnone hplaces hf)

/-- An update makes no window end in the middle that does not end at its beginning. -/
theorem Operation.Move.endsWindow_of (h : op.Move i s t) (hs : s.Orderly)
    (hop : ∃ hash, op = .update hash) (hends : i.EndsWindow t f) : i.EndsWindow s f := by
  rcases h.slots_cases hs with ⟨hnew, hold⟩ | ⟨-, -, -, -, -, hnone⟩ |
    ⟨voter, call, new, hvote, -, -, -⟩
  · exact hends.congr hnew hold
  · exact absurd hends (Invocation.not_endsWindow hnone)
  · obtain ⟨hash, hupdate⟩ := hop
    rw [hvote] at hupdate
    cases hupdate

/-- All through a call, a live federation stays live, unless the call is an update that ends its
window. -/
theorem Operation.Moves.live_or (h : op.Moves i s t) (hs : s.Orderly) (hf : f ∈ i.live s) :
    f ∈ i.live t ∨ (∃ hash, op = .update hash) ∧ i.EndsWindow s f := by
  induction h using Relation.ReflTransGen.head_induction_on with
  | refl => exact .inl hf
  | head hmove _ ih =>
    rcases hmove.live_or hs hf with hlive | hended
    · rcases ih (hs.move hmove) hlive with hlive | ⟨hop, hends⟩
      · exact .inl hlive
      · exact .inr ⟨hop, hmove.endsWindow_of hs hop hends⟩
    · exact .inr hended

/-- All through a call, the federation in the old place stays there, behind the same new one, unless
the call is an update that ends its window. -/
theorem Operation.Moves.retained_or (h : op.Moves i s t) (hs : s.Orderly)
    (hold : s.federations.old = some f) :
    t.federations.new = s.federations.new ∧ t.federations.old = some f ∨
      (∃ hash, op = .update hash) ∧ i.EndsWindow s f := by
  induction h using Relation.ReflTransGen.head_induction_on with
  | refl => exact .inl ⟨rfl, hold⟩
  | head hmove _ ih =>
    rcases hmove.slots_cases hs with ⟨hnew, hsame⟩ | ⟨hash, g, hop, hends, -, -⟩ |
      ⟨-, -, -, -, -, hnone, -⟩
    · rcases ih (hs.move hmove) (hsame.trans hold) with ⟨hnew', hold'⟩ | ⟨hop, hends⟩
      · exact .inl ⟨hnew'.trans hnew, hold'⟩
      · exact .inr ⟨hop, hmove.endsWindow_of hs hop hends⟩
    · have hg := hends.old.symm.trans hold
      exact .inr ⟨⟨hash, hop⟩, Option.some.inj hg ▸ hends⟩
    · rw [hold] at hnone
      cases hnone

end Moves

namespace Call

variable {c : Call} {t : State} {f : Federation}

/-- The call is an update that ends the window of a federation. -/
def EndsWindow (c : Call) (f : Federation) : Prop :=
  (∃ hash, c.operation = .update hash) ∧ c.invocation.EndsWindow c.before.state f

/-- After a call, a live federation is live still, or the call has ended its window. -/
theorem Leaves.live_or (h : c.Leaves t) (hs : c.before.state.Orderly)
    (hf : f ∈ c.invocation.live c.before.state) :
    f ∈ c.invocation.live t ∨ c.EndsWindow f := by
  cases h with
  | discarded e hfailed => exact .inl hf
  | kept => exact c.moves.live_or hs hf

/-- After a call, the old federation is where it was, or the call has ended its window. -/
theorem Leaves.retained_or (h : c.Leaves t) (hs : c.before.state.Orderly)
    (hold : c.before.state.federations.old = some f) :
    t.federations.new = c.before.state.federations.new ∧ t.federations.old = some f ∨
      c.EndsWindow f := by
  cases h with
  | discarded e hfailed => exact .inl ⟨rfl, hold⟩
  | kept => exact c.moves.retained_or hs hold

end Call

/-! ### Runs -/

namespace Run

variable {start finish : State} {calls : List Call} {i j : Invocation} {f : Federation}

/-- The places stay filled in order. -/
theorem orderly_of (h : Run start calls finish) (hs : start.Orderly) : finish.Orderly :=
  h.preserves (fun _ _ _ _ hmove hs => hs.move hmove) hs

/-- **A live federation stays live** in a run, unless an update ends its window. -/
theorem live_or (h : Run start calls finish) (hs : start.Orderly)
    (hfirst : ∀ c ∈ calls, i.Precedes c.invocation)
    (hcalls : calls.Pairwise fun c d => c.invocation.Precedes d.invocation)
    (hlast : ∀ c ∈ calls, c.invocation.Precedes j) (hij : i.Precedes j)
    (hf : f ∈ i.live start) : f ∈ j.live finish ∨ ∃ c ∈ calls, c.EndsWindow f := by
  induction h generalizing i with
  | nil s => exact .inl (hij.live_subset hf)
  | @cons s t finish c calls hbefore hleaves hrest ih =>
    rw [← hbefore] at hs hf
    have hc := hfirst c List.mem_cons_self
    rcases hleaves.live_or hs (hc.live_subset hf) with hlive | hends
    · rw [List.pairwise_cons] at hcalls
      have hrun : Run c.before.state [c] t := .cons rfl hleaves (.nil _)
      rcases ih (hrun.orderly_of hs) hcalls.1 hcalls.2
        (fun d hd => hlast d (List.mem_cons_of_mem _ hd)) (hlast c List.mem_cons_self) hlive with
        hlive | ⟨d, hd, hends⟩
      · exact .inl hlive
      · exact .inr ⟨d, List.mem_cons_of_mem _ hd, hends⟩
    · exact .inr ⟨c, List.mem_cons_self, hends⟩

/-- **The old federation stays in its place** in a run, behind the same new one, unless an update
ends its window. -/
theorem retained_or (h : Run start calls finish) (hs : start.Orderly)
    (hold : start.federations.old = some f) :
    finish.federations.new = start.federations.new ∧ finish.federations.old = some f ∨
      ∃ c ∈ calls, c.EndsWindow f := by
  induction h with
  | nil s => exact .inl ⟨rfl, hold⟩
  | @cons s t finish c calls hbefore hleaves hrest ih =>
    rw [← hbefore] at hs hold
    rcases hleaves.retained_or hs hold with ⟨hnew, hsame⟩ | hends
    · have hrun : Run c.before.state [c] t := .cons rfl hleaves (.nil _)
      rcases ih (hrun.orderly_of hs) hsame with ⟨hnew', hold'⟩ | ⟨d, hd, hends⟩
      · exact .inl ⟨hnew'.trans (hbefore ▸ hnew), hold'⟩
      · exact .inr ⟨d, List.mem_cons_of_mem _ hd, hends⟩
    · exact .inr ⟨c, List.mem_cons_self, hends⟩

end Run

/-- Whether all federations are formed does not depend on the block. -/
theorem Invocation.MeetsFormed.congr {i j : Invocation} {s : State} (h : i.MeetsFormed s)
    (hconstants : j.constants = i.constants) : j.MeetsFormed s :=
  ⟨hconstants ▸ h.genesis, h.new, h.old⟩

/-- After a move all federations are formed, if all are before. -/
theorem Invocation.MeetsFormed.move {i : Invocation} {op : Operation} {s t : State}
    (h : i.MeetsFormed s) (hs : s.Orderly) (hmove : op.Move i s t) : i.MeetsFormed t := by
  rcases hmove.slots_cases hs with ⟨hnew, hold⟩ | ⟨-, -, -, -, hnew, hold⟩ |
    ⟨-, -, new, -, hformed, -, hplaces⟩
  · refine ⟨h.genesis, ?_, ?_⟩
    · rw [hnew]
      exact h.new
    · rw [hold]
      exact h.old
  · refine ⟨h.genesis, ?_, ?_⟩
    · rw [hnew]
      exact h.new
    · rw [hold]
      exact fun f hf => nomatch hf
  · refine ⟨h.genesis, ?_, ?_⟩
    · rw [hplaces]
      rintro f ⟨⟩
      exact hformed
    · rw [hplaces]
      rintro f ⟨⟩
      exact h.active

/-- **All federations that are met after a run are formed**, if all are before. -/
theorem Run.meetsFormed {start finish : State} {calls : List Call} {i : Invocation}
    (h : Run start calls finish) (hs : start.Orderly) (hformed : i.MeetsFormed start)
    (hconstants : ∀ c ∈ calls, c.invocation.constants = i.constants) : i.MeetsFormed finish := by
  have hboth : finish.Orderly ∧ i.MeetsFormed finish := by
    refine h.preserves (P := fun s => s.Orderly ∧ i.MeetsFormed s) ?_ ⟨hs, hformed⟩
    rintro c hc s t hmove ⟨horderly, hformed⟩
    have hmet := (hformed.congr (hconstants c hc)).move horderly hmove
    exact ⟨horderly.move hmove, hmet.congr (hconstants c hc).symm⟩
  exact hboth.2

end TwoWayPeg
