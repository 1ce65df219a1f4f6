import TwoWayPeg.Proofs.Peg.Run

/-!
# One change of federation at a time

Committing a federation moves the active one into the old place together with its outputs, and it
does not look whether something is there already. It need not: a pending federation is only created
while the old place is empty, only a commit fills the old place, and a commit also takes the pending
federation away. Which federation is active depends on the block, but none of this does, so it holds
for calls in any blocks.

* `State.Orderly`: what the places hold at the same time.
* `State.Orderly.move`, `Run.orderly`: every move keeps it, so it holds after every run of a new
  peg.
* `FederationVote.executed?`: the change that a vote executes, and `FederationVote.vote_slots` for
  what it does to federations and outputs.
* `Run.commit_orderly`: a commit finds the old place empty and drops nothing.
-/

namespace TwoWayPeg

/-! ### Places of federations -/

namespace Invocation

variable (i : Invocation) {s : State}

/-- A federation retires from the old place, behind a new one that is old enough. -/
theorem retiring_eq_some_iff {f : Federation} :
    i.retiring s = some f ↔ s.federations.old = some f ∧
      ∃ new, s.federations.new = some new ∧
        FederationSlots.hasAge new i.constants.activationAge i.number = true := by
  unfold retiring FederationSlots.retiring
  rcases s.federations.new with - | new
  · simp
  · rcases s.federations.old with - | old
    · simp
    · by_cases hage : FederationSlots.hasAge new i.constants.activationAge i.number = true
      · simp [hage]
      · simp [hage]

/-- The old place is the active one only if a federation is there. -/
theorem activeSlot_ne_old (h : s.federations.old = none) : i.activeSlot s ≠ .old := by
  unfold activeSlot FederationSlots.activeSlot
  rw [h]
  rcases s.federations.new with - | new
  · simp
  · simp

/-- Nothing retires from an empty place. -/
theorem retiring_eq_none (h : s.federations.old = none) : i.retiring s = none := by
  rcases hretiring : i.retiring s with - | f
  · rfl
  · obtain ⟨hold, -⟩ := i.retiring_eq_some_iff.mp hretiring
    rw [h] at hold
    cases hold

/-- With the old place empty, the new federation is active, or else the first one. -/
theorem active_of_old_none (h : s.federations.old = none) :
    i.active s = s.federations.new.getD i.constants.genesis := by
  unfold active FederationSlots.active FederationSlots.activeSlot
  rw [h]
  rcases s.federations.new with - | new
  · rfl
  · rfl

/-- The new list takes the outputs of the active federation while the old place is empty. -/
theorem old_replaceActive (h : s.federations.old = none) (us : List Utxo) :
    (i.replaceActive s us).old = s.holdings.old := by
  have hslot := i.activeSlot_ne_old h
  unfold replaceActive
  split
  · next heq => exact absurd heq hslot
  · rfl

end Invocation

/-- Saving outputs leaves the old list alone while the old place is empty. -/
theorem Registration.old_savedHoldings {i : Invocation} {s : State} (h : s.federations.old = none)
    (m : MinedTransaction) : (savedHoldings i m s).old = s.holdings.old := by
  have hnothing : paidToRetiring i m s = [] := by
    rw [paidToRetiring, i.retiring_eq_none h]
  simp only [savedHoldings, hnothing]
  exact i.old_replaceActive h _

/-! ### What the places hold at the same time -/

namespace State

/-- The places are filled in order: no old federation beside a pending one, none without a new one,
and no old outputs without it. -/
structure Orderly (s : State) : Prop where
  old_of_pending : ∀ p, s.federations.pending = some p → s.federations.old = none
  old_of_new : s.federations.new = none → s.federations.old = none
  holdings_of_old : s.federations.old = none → s.holdings.old = []

/-- A new peg has nothing in any place. -/
theorem orderly_initial : State.initial.Orderly where
  old_of_pending := fun _ _ => rfl
  old_of_new := fun _ => rfl
  holdings_of_old := fun _ => rfl

namespace Orderly

variable {i : Invocation} {op : Operation} {s t : State}

/-- The order is kept when the federations stay and the old list, too, where there is no old
federation. -/
theorem of_federations_eq (hs : s.Orderly) (hfederations : t.federations = s.federations)
    (hheld : s.federations.old = none → t.holdings.old = s.holdings.old) : t.Orderly where
  old_of_pending := by
    rw [hfederations]
    exact hs.old_of_pending
  old_of_new := by
    rw [hfederations]
    exact hs.old_of_new
  holdings_of_old := by
    intro hold
    rw [hfederations] at hold
    rw [hheld hold]
    exact hs.holdings_of_old hold

/-- The order is kept when a pending federation is created, changed or dropped, provided that the
old place is empty or that there was one before. -/
theorem withPending (hs : s.Orderly) (pending : Option PendingFederation)
    (h : ∀ p, pending = some p → s.federations.old = none) :
    (FederationVote.withPending s pending).Orderly where
  old_of_pending := h
  old_of_new := hs.old_of_new
  holdings_of_old := hs.holdings_of_old

/-- A pending federation is only created while the old place is empty: a federation there either
waits for the new one to take over or retires. -/
theorem old_of_judgeCreate (hs : s.Orderly) (h : ¬ FederationVote.judgeCreate i s < 0) :
    s.federations.old = none := by
  rcases hold : s.federations.old with - | old
  · rfl
  · rcases hnew : s.federations.new with - | new
    · rw [hs.old_of_new hnew] at hold
      cases hold
    · refine absurd ?_ h
      unfold FederationVote.judgeCreate FederationSlots.isAwaiting FederationSlots.activeSlot
        Invocation.retiring FederationSlots.retiring
      simp only [hnew, hold]
      split
      · decide
      · by_cases hage : FederationSlots.hasAge new i.constants.activationAge i.number = true
        · simp [hage]
        · simp [hage]

/-- **Every move keeps the order.** -/
theorem move (hs : s.Orderly) (h : op.Move i s t) : t.Orderly := by
  cases h with
  | keep _ m hmined =>
    exact hs.of_federations_eq rfl fun hold => Registration.old_savedHoldings hold m
  | migrate _ retiring built hretiring hbuilt =>
    -- something retires, so the old place is not empty
    refine hs.of_federations_eq rfl fun hold => ?_
    rw [i.retiring_eq_none hold] at hretiring
    cases hretiring
  | forget _ retiring hretiring hage =>
    exact ⟨fun _ _ => rfl, fun _ => rfl, fun _ => rfl⟩
  | build _ r built hbuilt =>
    rw [Payout.record, Invocation.withActiveUtxos_eq]
    exact hs.of_federations_eq rfl fun hold => i.old_replaceActive hold _
  | promote _ =>
    rw [Payout.promote]
    split
    · exact hs.of_federations_eq rfl fun _ => rfl
    · exact hs.of_federations_eq rfl fun _ => rfl
  | create _ hcode =>
    have hcreated := hs.withPending (some .empty) fun _ _ => hs.old_of_judgeCreate hcode
    exact hcreated.of_federations_eq rfl fun _ => rfl
  | addMember _ m p hpending hcode =>
    exact hs.withPending _ fun _ _ => hs.old_of_pending p hpending
  | install _ hash p new hpending hcode hformed =>
    refine ⟨?_, ?_, ?_⟩
    · intro p h
      cases h
    · intro h
      cases h
    · intro h
      cases h
  | rollback _ hcode =>
    have hdropped := hs.withPending none fun p h => by cases h
    exact hdropped.of_federations_eq rfl fun _ => rfl
  | _ => exact hs.of_federations_eq rfl fun _ => rfl

/-- The order is kept all through a call. -/
theorem moves (hs : s.Orderly) (h : op.Moves i s t) : t.Orderly := by
  induction h with
  | refl => exact hs
  | tail _ hlast ih => exact ih.move hlast

end Orderly

end State

/-- The places are filled in order after every run of a new peg. -/
theorem Run.orderly {finish : State} {calls : List Call} (h : Run .initial calls finish) :
    finish.Orderly :=
  h.preserves (fun _ _ _ _ hmove hs => hs.move hmove) State.orderly_initial

/-! ### What a vote executes -/

namespace FederationVote

/-- The election with a vote for a call, if the vote is taken. -/
def taken? (i : Invocation) (voter : HostAddress) (call : CallSpec) (s : State) :
    Option Election :=
  if i.constants.federationAuthorizer.allows voter then
    (changeOf? call).bind fun change =>
      if judge i s change < 0 then none
      else s.federationElection.vote? call voter i.constants.federationAuthorizer
  else none

/-- The change that a winning call makes: the one that it asks for, if that is possible. -/
def made? (i : Invocation) (s : State) (winner : CallSpec) : Option FederationChange :=
  (changeOf? winner).bind fun change => if judge i s change < 0 then none else some change

/-- The change that a vote executes: the one that the call makes which wins by it. -/
def executed? (i : Invocation) (voter : HostAddress) (call : CallSpec) (s : State) :
    Option FederationChange :=
  ((taken? i voter call s).bind fun election =>
    election.winner? i.constants.federationAuthorizer).bind (made? i s)

/-- What an executed change leaves. -/
def performed (i : Invocation) (w : World) : Option FederationChange → State
  | none => w.state
  | some change => (perform i w change).state

/-- Federations and outputs are the same in two states. -/
def SameSlots (s t : State) : Prop := t.federations = s.federations ∧ t.holdings = s.holdings

/-- Being the same is transitive. -/
theorem SameSlots.trans {s t u : State} (hst : SameSlots s t) (htu : SameSlots t u) :
    SameSlots s u :=
  ⟨htu.1.trans hst.1, htu.2.trans hst.2⟩

/-- A change does the same to federations and outputs whatever votes there are. -/
theorem performed_withElection (i : Invocation) (w : World) (election : Election)
    (change : Option FederationChange) :
    SameSlots (performed i w change)
      (performed i { w with state := { w.state with federationElection := election } }
        change) := by
  rcases change with - | change
  · exact ⟨rfl, rfl⟩
  cases change with
  | create => exact ⟨rfl, rfl⟩
  | rollback => exact ⟨rfl, rfl⟩
  | add m =>
    unfold performed perform
    rcases w.state.federations.pending with - | p
    · exact ⟨rfl, rfl⟩
    · exact ⟨rfl, rfl⟩
  | commit hash =>
    unfold performed perform
    rcases w.state.federations.pending with - | p
    · exact ⟨rfl, rfl⟩
    · rcases hformed : formed i p with e | new
      · simp only [hformed]
        exact ⟨rfl, rfl⟩
      · simp only [hformed]
        exact ⟨rfl, rfl⟩

/-- A winning call leaves federations and outputs as its change does, if it makes one. -/
theorem conclude_slots (i : Invocation) (winner : CallSpec) (w : World) :
    SameSlots (performed i w (made? i w.state winner)) (conclude i winner w).2.state := by
  unfold made? conclude
  rcases changeOf? winner with - | change
  · exact ⟨rfl, rfl⟩
  · by_cases hcode : judge i w.state change < 0
    · simp only [execute, hcode, if_true, Option.bind_some]
      exact ⟨rfl, rfl⟩
    · simp only [execute, hcode, if_false, Option.bind_some]
      exact ⟨rfl, rfl⟩

/-- What a vote leaves: a vote that is taken stays in the election, and a winner is concluded. -/
theorem state_of_vote (i : Invocation) (voter : HostAddress) (call : CallSpec) (w : World) :
    (vote i voter call w).2.state =
      match taken? i voter call w.state with
      | none => w.state
      | some election =>
        let voted := { w with state := { w.state with federationElection := election } }
        match election.winner? i.constants.federationAuthorizer with
        | none => voted.state
        | some winner => (conclude i winner voted).2.state := by
  unfold taken? vote
  by_cases hallowed : i.constants.federationAuthorizer.allows voter = true
  · rcases changeOf? call with - | change
    · simp [hallowed, answer, World.notify]
    · by_cases hcode : judge i w.state change < 0
      · simp [hallowed, hcode, answer, World.notify]
      · rcases hvote : w.state.federationElection.vote? call voter
          i.constants.federationAuthorizer with - | election
        · simp [hallowed, hcode, hvote, answer, World.notify]
        · rcases hwinner : election.winner? i.constants.federationAuthorizer with - | winner
          · simp [hallowed, hcode, hvote, hwinner, answer, World.notify]
          · simp [hallowed, hcode, hvote, hwinner, answer, World.notify]
  · simp [hallowed, answer, World.notify]

/-- **A vote leaves federations and outputs as the change does that it executes**, if it executes
one, and as they are otherwise. -/
theorem vote_slots (i : Invocation) (voter : HostAddress) (call : CallSpec) (w : World) :
    SameSlots (performed i w (executed? i voter call w.state)) (vote i voter call w).2.state := by
  rw [state_of_vote, executed?]
  rcases taken? i voter call w.state with - | election
  · exact ⟨rfl, rfl⟩
  · rcases hwinner : election.winner? i.constants.federationAuthorizer with - | winner
    · simp only [Option.bind_some, hwinner]
      exact ⟨rfl, rfl⟩
    · simp only [Option.bind_some, hwinner]
      -- whether the change is possible does not depend on the votes
      exact (performed_withElection i w election (made? i w.state winner)).trans
        (conclude_slots i winner
          { w with state := { w.state with federationElection := election } })

/-- What a vote executes is possible. -/
theorem possible_of_executed? {i : Invocation} {voter : HostAddress} {call : CallSpec} {s : State}
    {change : FederationChange} (h : executed? i voter call s = some change) :
    ¬ judge i s change < 0 := by
  obtain ⟨winner, -, hmade⟩ := Option.bind_eq_some_iff.mp h
  obtain ⟨asked, -, hasked⟩ := Option.bind_eq_some_iff.mp hmade
  split at hasked
  · cases hasked
  · next hcode =>
    cases hasked
    exact hcode

/-- A commit is possible if the pending members form a federation. -/
theorem formed_of_judgeCommit {i : Invocation} {s : State} {hash : FixedBytes 32}
    (h : ¬ judgeCommit i s hash < 0) :
    ∃ p new, s.federations.pending = some p ∧ p.hash = hash ∧ formed i p = .ok new := by
  unfold judgeCommit at h
  rcases hpending : s.federations.pending with - | p
  · simp [hpending] at h
  · simp only [hpending] at h
    split at h
    · exact absurd (by decide) h
    · split at h
      · exact absurd (by decide) h
      · next hhash =>
        rcases hformed : formed i p with e | new
        · rw [hformed] at h
          exact absurd (show refused < 0 by decide) h
        · exact ⟨p, new, rfl, Decidable.not_not.mp hhash, hformed⟩

/-- **An executed commit installs the federation of the pending members.** -/
theorem slots_of_commit {i : Invocation} {voter : HostAddress} {call : CallSpec} {w : World}
    {hash : FixedBytes 32} (h : executed? i voter call w.state = some (.commit hash)) :
    ∃ p new, w.state.federations.pending = some p ∧ p.hash = hash ∧ formed i p = .ok new ∧
      SameSlots (install i new w.state) (vote i voter call w).2.state := by
  obtain ⟨p, new, hpending, hhash, hformed⟩ := formed_of_judgeCommit (possible_of_executed? h)
  have hslots := vote_slots i voter call w
  rw [h] at hslots
  simp only [performed, perform, hpending, hformed] at hslots
  exact ⟨p, new, hpending, hhash, hformed, hslots⟩

end FederationVote

namespace Run

/-- **A commit drops nothing, and changes of federation never overlap.** After every run of a new
peg, no old federation is stored beside a pending one or without a new one, and no old outputs
without an old federation. So every commit that a vote executes finds no old outputs, makes the new
outputs the old ones as they are, and stores the federation that was active as the old one. -/
theorem commit_orderly {calls : List Call} {s : State} (h : Run .initial calls s) :
    (∀ p, s.federations.pending = some p → s.federations.old = none) ∧
      (s.federations.new = none → s.federations.old = none) ∧
      (s.federations.old = none → s.holdings.old = []) ∧
      ∀ (c : Call) voter call hash, c.before.state = s → c.operation = .voteFederation voter call →
        FederationVote.executed? c.invocation voter call s = some (.commit hash) →
        s.holdings.old = [] ∧ c.after.state.holdings = ⟨[], s.holdings.new⟩ ∧
          ∃ p new, s.federations.pending = some p ∧ p.hash = hash ∧
            FederationVote.formed c.invocation p = .ok new ∧
            c.after.state.federations = ⟨some new, some (c.invocation.active s), none⟩ := by
  have horderly := h.orderly
  refine ⟨horderly.old_of_pending, horderly.old_of_new, horderly.holdings_of_old, ?_⟩
  rintro c voter call hash rfl hop hexecuted
  obtain ⟨p, new, hpending, hhash, hformed, hfederations, hholdings⟩ :=
    FederationVote.slots_of_commit hexecuted
  have hafter : c.after.state = (FederationVote.vote c.invocation voter call c.before).2.state := by
    rw [Call.after, hop]
    rfl
  rw [hafter]
  refine ⟨horderly.holdings_of_old (horderly.old_of_pending p hpending), hholdings, p, new,
    hpending, hhash, hformed, hfederations⟩

end Run

/-! ### A small change of federation -/

namespace Example

/-- The change of a release is registered. -/
def registered : Call := call 1 registerChange .initial .empty

/-- A pending federation is created. -/
def created : Call := vote "create" [] registered.after.state

/-- The holder of the key joins it. -/
def added : Call := vote "add" [key.bytes] created.after.state

/-- The digest of the pending federation. -/
def pendingHash : FixedBytes 32 := PendingFederation.hash ⟨[.ofKey key]⟩

/-- The pending federation is committed. -/
def committed : Call := vote "commit" [pendingHash.toList] added.after.state

/-- The calls before the commit. -/
theorem run_added : Run .initial [registered, created, added] added.after.state :=
  .cons (state_before_call _ _ _ _) .kept
    (.cons (state_before_call _ _ _ _) .kept
      (.cons (state_before_call _ _ _ _) .kept (.nil _)))

end Example

namespace Run

/-- The change of a release is listed for the first federation, and becomes an old output when
another federation is committed. -/
theorem commit_orderly_change :
    let c := Example.committed
    let s := Example.added.after.state
    (FederationVote.executed? c.invocation Example.voter ⟨"commit", [Example.pendingHash.toList]⟩
        s = some (.commit Example.pendingHash) ∧ s.holdings.new.length = 1) ∧
      s.holdings.old = [] ∧ c.after.state.holdings = ⟨[], s.holdings.new⟩ ∧
        ∃ p new, s.federations.pending = some p ∧ p.hash = Example.pendingHash ∧
          FederationVote.formed c.invocation p = .ok new ∧
          c.after.state.federations = ⟨some new, some (c.invocation.active s), none⟩ := by
  have hexecuted : FederationVote.executed? Example.committed.invocation Example.voter
      ⟨"commit", [Example.pendingHash.toList]⟩ Example.added.after.state =
        some (.commit Example.pendingHash) ∧
      Example.added.after.state.holdings.new.length = 1 := by
    set_option maxRecDepth 100000 in
    decide +kernel
  exact ⟨hexecuted, (commit_orderly Example.run_added).2.2.2 Example.committed _ _
    Example.pendingHash (Example.state_before_call _ _ _ _) rfl hexecuted.1⟩

end Run

end TwoWayPeg
