import TwoWayPeg.Proofs.Peg.Quorum

/-!
# What wins is executed at once

The winner of an election is the first call in the order of calls that has enough votes, which need
not be the one that has just been voted for. It is that one all the same, because no call ever keeps
enough votes: the vote that completes them is also the call in which they are executed and dropped.
And what is executed has been rehearsed by the vote before, with the same code, since a rehearsal
makes the same checks and none of them looks at the election.

* `FederationVote.attempt`: a change as a single sequence of checks and effects, which a rehearsal
  leaves before the effects.
* `Election.Undecided`: no call has enough votes; `Election.eq_of_winner?`: then only what is voted
  for next can win.
* `FederationVote.vote_of_undecided`, `FeeVote.vote_of_undecided`: what a vote does then.
* `Run.winner_executed`: no election is ever decided between calls.
-/

namespace TwoWayPeg

/-! ### Rehearsals -/

namespace FederationVote

variable {i : Invocation} {w : World}

/-- Attempts to create a pending federation. -/
def attemptCreate (rehearsal : Bool) (i : Invocation) (w : World) : Int × World :=
  if w.state.federations.pending.isSome then (-1, w)
  else if w.state.federations.isAwaiting i.constants.activationAge i.number then (-2, w)
  else if (i.retiring w.state).isSome then (-3, w)
  else if rehearsal then (succeeded, w)
  else (succeeded, create i w)

/-- Attempts to add a member. -/
def attemptAdd (rehearsal : Bool) (m : Member) (w : World) : Int × World :=
  match w.state.federations.pending with
  | none => (-1, w)
  | some p =>
    if p.conflictsWith m then (-2, w)
    else if rehearsal then (succeeded, w)
    else (succeeded, addMember m p w)

/-- Attempts to commit the pending federation. -/
def attemptCommit (rehearsal : Bool) (i : Invocation) (hash : FixedBytes 32) (w : World) :
    Int × World :=
  match w.state.federations.pending with
  | none => (-1, w)
  | some p =>
    if !p.isComplete i.constants.minimumPendingSize then (-2, w)
    else if p.hash ≠ hash then (-3, w)
    else
      match formed i p with
      | .error _ => (refused, w)
      | .ok new => if rehearsal then (succeeded, w) else (succeeded, commit i new w)

/-- Attempts to drop the pending federation. -/
def attemptRollback (rehearsal : Bool) (i : Invocation) (w : World) : Int × World :=
  if w.state.federations.pending.isNone then (-1, w)
  else if rehearsal then (succeeded, w)
  else (succeeded, rollback i w)

/-- Attempts a change: the checks one after another, and then the effects, unless this is only a
rehearsal. -/
def attempt (rehearsal : Bool) (i : Invocation) (w : World) : FederationChange → Int × World
  | .create => attemptCreate rehearsal i w
  | .add m => attemptAdd rehearsal m w
  | .commit hash => attemptCommit rehearsal i hash w
  | .rollback => attemptRollback rehearsal i w

/-- An attempt gives the code of the change, and performs it in earnest if it is possible. -/
theorem attempt_eq (rehearsal : Bool) (i : Invocation) (w : World) (change : FederationChange) :
    attempt rehearsal i w change =
      (judge i w.state change,
        if judge i w.state change < 0 ∨ rehearsal = true then w else perform i w change) := by
  cases change with
  | create =>
    simp only [attempt, attemptCreate, judge, judgeCreate, perform]
    split_ifs <;> simp_all [succeeded]
  | add m =>
    rcases hpending : w.state.federations.pending with - | p
    · simp [attempt, attemptAdd, judge, judgeAdd, hpending]
    · simp only [attempt, attemptAdd, judge, judgeAdd, perform, hpending]
      split_ifs <;> simp_all [succeeded]
  | commit hash =>
    rcases hpending : w.state.federations.pending with - | p
    · simp [attempt, attemptCommit, judge, judgeCommit, hpending]
    · rcases hformed : formed i p with e | new
      · simp only [attempt, attemptCommit, judge, judgeCommit, perform, hpending, hformed]
        split_ifs <;> simp_all [refused]
      · simp only [attempt, attemptCommit, judge, judgeCommit, perform, hpending, hformed]
        split_ifs <;> simp_all [succeeded]
  | rollback =>
    simp only [attempt, attemptRollback, judge, judgeRollback, perform]
    split_ifs <;> simp_all [succeeded]

/-- **A rehearsal judges the change and does nothing.** -/
theorem attempt_rehearsed (i : Invocation) (w : World) (change : FederationChange) :
    attempt true i w change = (judge i w.state change, w) := by
  rw [attempt_eq, if_pos (.inr rfl)]

/-- **An attempt in earnest judges the change and performs it.** -/
theorem attempt_earnest (i : Invocation) (w : World) (change : FederationChange) :
    attempt false i w change = execute i change w := by
  rw [attempt_eq, execute]
  by_cases hcode : judge i w.state change < 0
  · rw [if_pos (.inl hcode)]
    simp only [hcode, if_true]
  · rw [if_neg (by simp [hcode])]
    simp only [hcode, if_false]

/-- No check looks at the election. -/
theorem judge_withElection (i : Invocation) (s : State) (election : Election)
    (change : FederationChange) :
    judge i { s with federationElection := election } change = judge i s change := by
  cases change with
  | create => rfl
  | add m => rfl
  | commit hash => rfl
  | rollback => rfl

end FederationVote

/-! ### Elections without a winner -/

namespace Election

variable {e e' : Election} {a : Authorizer} {call x : CallSpec} {voter : HostAddress}

/-- No call has enough votes. -/
def Undecided (e : Election) (a : Authorizer) : Prop :=
  ∀ ballot ∈ e.ballots.entries, ballot.2.size < a.requiredVotes

/-- There are no votes in an empty election. -/
theorem undecided_empty (a : Authorizer) : empty.Undecided a :=
  fun _ hballot => absurd hballot List.not_mem_nil

/-- An election is undecided if it has no winner. -/
theorem winner?_eq_none_iff : e.winner? a = none ↔ e.Undecided a := by
  rw [winner?, Option.map_eq_none_iff, List.find?_eq_none]
  refine forall₂_congr fun ballot _ => ?_
  rw [decide_eq_true_eq, Nat.not_le]

/-- The ballots for anything else are what they were before a vote. -/
theorem get?_of_vote? (h : e.vote? call voter a = some e') (hother : x ≠ call) :
    e'.ballots.get? x = e.ballots.get? x := by
  simp only [vote?] at h
  split at h
  · cases h
    exact SortedMap.get?_insert_ne _ _ hother
  · cases h

/-- Anything else has too few votes after a vote. -/
theorem Undecided.size_lt_of_vote? (hu : e.Undecided a) (h : e.vote? call voter a = some e')
    {voters : SortedSet HostAddress} (hother : x ≠ call)
    (hvoters : e'.ballots.get? x = some voters) : voters.size < a.requiredVotes := by
  rw [get?_of_vote? h hother] at hvoters
  exact hu (x, voters) ((e.ballots.get?_eq_some_iff x voters).mp hvoters)

/-- **Only what has been voted for can win** in an election that was undecided before. -/
theorem Undecided.eq_of_winner? (hu : e.Undecided a) (h : e.vote? call voter a = some e')
    (hwinner : e'.winner? a = some x) : x = call := by
  obtain ⟨⟨y, voters⟩, hfound, rfl⟩ := Option.map_eq_some_iff.mp hwinner
  by_contra hother
  have hfew := hu.size_lt_of_vote? h hother
    ((e'.ballots.get?_eq_some_iff y voters).mpr (List.mem_of_find?_eq_some hfound))
  have henough := List.find?_some hfound
  exact absurd hfew (Nat.not_lt.mpr (of_decide_eq_true henough))

/-- **Taking the winner out leaves the election undecided** if it was before the vote. -/
theorem Undecided.withoutWinner (hu : e.Undecided a) (h : e.vote? call voter a = some e') :
    (e'.withoutWinner a).Undecided a := by
  rcases hwinner : e'.winner? a with - | winner
  · rw [Election.withoutWinner, hwinner]
    exact winner?_eq_none_iff.mp hwinner
  · obtain rfl := hu.eq_of_winner? h hwinner
    rw [Election.withoutWinner, hwinner]
    rintro ⟨x, voters⟩ hballot
    have hvoters := ((e'.ballots.erase winner).get?_eq_some_iff x voters).mpr hballot
    have hother : x ≠ winner := by
      rintro rfl
      rw [SortedMap.get?_erase_self] at hvoters
      cases hvoters
    rw [SortedMap.get?_erase_ne _ hother] at hvoters
    exact hu.size_lt_of_vote? h hother hvoters

end Election

namespace Poll.Fair

variable {β : Type} {p : Poll β} {a : Authorizer}

/-- A call leaves an election undecided if every vote does. -/
theorem undecided_of_leaves (hp : p.Fair)
    (hvote : ∀ i w v b, (p.election w.state).Undecided (p.authorizer i.constants) →
      (p.election ((p.vote v b).run i w).2.state).Undecided (p.authorizer i.constants))
    {c : Call} {t : State} (hleaves : c.Leaves t)
    (hu : (p.election c.before.state).Undecided (p.authorizer c.invocation.constants)) :
    (p.election t).Undecided (p.authorizer c.invocation.constants) := by
  rcases hp.leaves_cases hleaves with ⟨v, b, hop, hafter⟩ | ⟨-, hsame⟩
  · rw [hafter, Call.after, hop]
    exact hvote _ _ v b hu
  · rw [hsame]
    exact hu

/-- **An election stays undecided throughout a run** in which the same accounts may vote. -/
theorem undecided (hp : p.Fair)
    (hvote : ∀ i w v b, (p.election w.state).Undecided (p.authorizer i.constants) →
      (p.election ((p.vote v b).run i w).2.state).Undecided (p.authorizer i.constants))
    {start finish : State} {calls : List Call} (h : Run start calls finish)
    (hauthorizer : ∀ c ∈ calls, p.authorizer c.invocation.constants = a)
    (hstart : (p.election start).Undecided a) : (p.election finish).Undecided a := by
  induction h with
  | nil s => exact hstart
  | @cons s t finish c calls hbefore hleaves hrest ih =>
    obtain ⟨hthis, hcalls⟩ := List.forall_mem_cons.mp hauthorizer
    rw [← hbefore, ← hthis] at hstart
    have hleft := hp.undecided_of_leaves hvote hleaves hstart
    rw [hthis] at hleft
    exact ih hcalls hleft

end Poll.Fair

/-- A notice that is no alert leaves the alerts as they are. -/
theorem World.alerts_notify {w : World} {n : Notice} (h : n.alert? = none) :
    (w.notify n).alerts = w.alerts := by
  rw [alerts, notify, List.filterMap_append, List.filterMap_cons_none h, List.filterMap_nil,
    List.append_nil]
  rfl

/-! ### Votes on the federation -/

namespace FederationVote

variable {i : Invocation} {voter : HostAddress} {call : CallSpec} {change : FederationChange}
  {w : World}

/-- The world without the votes for what has won. -/
def settleElection (i : Invocation) (w : World) : World :=
  let election := w.state.federationElection.withoutWinner i.constants.federationAuthorizer
  { w with state := { w.state with federationElection := election } }

/-- The world with a vote in the election. -/
def withVote (election : Election) (w : World) : World :=
  { w with state := { w.state with federationElection := election } }

/-- A winner whose change is possible is executed with the code of its change. -/
theorem conclude_of_possible (hchange : changeOf? call = some change)
    (hcode : ¬ judge i w.state change < 0) :
    conclude i call w =
      (judge i w.state change, settleElection i (attempt false i w change).2) := by
  rw [attempt_earnest]
  unfold conclude execute settleElection
  simp only [hchange, hcode, if_false]

/-- **What a vote does in an undecided election.** It is not taken, and has a negative code; or it
is taken, as its change is possible, and then nothing wins, or what has been voted for wins and is
executed with the same code. -/
theorem vote_of_undecided (voter : HostAddress) (call : CallSpec)
    (hu : w.state.federationElection.Undecided i.constants.federationAuthorizer) :
    (taken? i voter call w.state = none ∧
        ∃ n < 0, vote i voter call w = answer call.function voter n w) ∨
      ∃ change election, changeOf? call = some change ∧ ¬ judge i w.state change < 0 ∧
        taken? i voter call w.state = some election ∧
        (election.winner? i.constants.federationAuthorizer = none ∧
            vote i voter call w =
              answer call.function voter (judge i w.state change) (withVote election w) ∨
          election.winner? i.constants.federationAuthorizer = some call ∧
            vote i voter call w =
              answer call.function voter (judge i w.state change)
                (settleElection i (attempt false i (withVote election w) change).2)) := by
  have hrefused : refused < 0 := by decide
  unfold taken? vote
  by_cases hallowed : i.constants.federationAuthorizer.allows voter = true
  swap
  · exact .inl ⟨if_neg hallowed, refused, hrefused, by simp [hallowed]⟩
  rcases hchange : changeOf? call with - | change
  · exact .inl ⟨by simp [hallowed], refused, hrefused, by simp [hallowed]⟩
  by_cases hcode : judge i w.state change < 0
  · exact .inl ⟨by simp [hallowed, hcode], _, hcode, by simp [hallowed, hcode]⟩
  rcases hvote : w.state.federationElection.vote? call voter i.constants.federationAuthorizer
    with - | election
  · exact .inl ⟨by simp, refused, hrefused, by simp [hallowed, hcode, hvote]⟩
  refine .inr ⟨change, election, rfl, hcode, by simp [hallowed, hcode], ?_⟩
  rcases hwinner : election.winner? i.constants.federationAuthorizer with - | winner
  · exact .inl ⟨rfl, by simp [hallowed, hcode, hvote, hwinner, withVote]⟩
  · obtain rfl := hu.eq_of_winner? hvote hwinner
    have hsame := judge_withElection i w.state election change
    have hconclude := conclude_of_possible (w := withVote election w) hchange
      (by rw [withVote, hsame]; exact hcode)
    refine .inr ⟨rfl, ?_⟩
    rw [withVote] at hconclude ⊢
    simp only [hallowed, hcode, hvote, hwinner, hconclude, hsame]
    rfl

/-- A vote leaves an undecided election undecided. -/
theorem undecided_vote
    (hu : w.state.federationElection.Undecided i.constants.federationAuthorizer) :
    (vote i voter call w).2.state.federationElection.Undecided
      i.constants.federationAuthorizer := by
  rcases vote_of_undecided voter call hu with
    ⟨-, n, -, hvote⟩ | ⟨change, election, -, hcode, htaken, ⟨hnone, hvote⟩ | ⟨-, hvote⟩⟩
  · rw [hvote]
    exact hu
  · rw [hvote]
    exact Election.winner?_eq_none_iff.mp hnone
  · have hcode' : ¬ judge i (withVote election w).state change < 0 := by
      rw [withVote, judge_withElection]
      exact hcode
    have hleft := election_of_perform (w := withVote election w) hcode'
    rw [hvote, attempt_earnest, execute]
    simp only [hcode', if_false, answer, World.notify, settleElection, hleft]
    split
    · exact Election.undecided_empty _
    · exact hu.withoutWinner (vote?_of_taken? htaken)

/-- Performing a change raises no alert. -/
theorem alerts_perform (i : Invocation) (w : World) (change : FederationChange) :
    (perform i w change).alerts = w.alerts := by
  cases change with
  | create => exact World.alerts_notify rfl
  | add m =>
    simp only [perform]
    rcases w.state.federations.pending with - | p
    · rfl
    · exact World.alerts_notify rfl
  | commit hash =>
    simp only [perform]
    rcases w.state.federations.pending with - | p
    · rfl
    · simp only
      rcases formed i p with e | new
      · rfl
      · exact World.alerts_notify rfl
  | rollback => exact World.alerts_notify rfl

/-- A vote in an undecided election raises no alert. -/
theorem alerts_vote
    (hu : w.state.federationElection.Undecided i.constants.federationAuthorizer) :
    (vote i voter call w).2.alerts = w.alerts := by
  have hanswer : ∀ (n : Int) (after : World), after.alerts = w.alerts →
      (answer call.function voter n after).2.alerts = w.alerts := fun n after hafter =>
    (World.alerts_notify rfl).trans hafter
  rcases vote_of_undecided voter call hu with
    ⟨-, n, -, hvote⟩ | ⟨change, election, -, -, -, ⟨-, hvote⟩ | ⟨-, hvote⟩⟩
  · rw [hvote]
    exact hanswer _ _ rfl
  · rw [hvote]
    exact hanswer _ _ rfl
  · rw [hvote, attempt_earnest, execute]
    refine hanswer _ _ ?_
    split
    · rfl
    · exact alerts_perform i (withVote election w) change

/-- A vote in an undecided election changes nothing if its code is negative. -/
theorem state_of_vote_negative
    (hu : w.state.federationElection.Undecided i.constants.federationAuthorizer)
    (hnegative : (vote i voter call w).1 < 0) : (vote i voter call w).2.state = w.state := by
  rcases vote_of_undecided voter call hu with
    ⟨-, n, -, hvote⟩ | ⟨change, election, -, hcode, -, ⟨-, hvote⟩ | ⟨-, hvote⟩⟩
  · rw [hvote]
    rfl
  · rw [hvote] at hnegative
    exact absurd hnegative hcode
  · rw [hvote] at hnegative
    exact absurd hnegative hcode

/-- **What wins in an undecided election** is what has been voted for, and it is executed with the
code of its rehearsal. -/
theorem vote_of_winner {election : Election} {winner : CallSpec}
    (hu : w.state.federationElection.Undecided i.constants.federationAuthorizer)
    (htaken : taken? i voter call w.state = some election)
    (hwinner : election.winner? i.constants.federationAuthorizer = some winner) :
    winner = call ∧ ∃ change, changeOf? call = some change ∧
      (vote i voter call w).1 = (attempt true i w change).1 ∧
      (attempt false i (withVote election w) change).1 = (attempt true i w change).1 ∧
      (vote i voter call w).2.state =
        (settleElection i (attempt false i (withVote election w) change).2).state := by
  rcases vote_of_undecided voter call hu with
    ⟨hnone, -⟩ | ⟨change, taken, hchange, hcode, hsame, ⟨hnone, -⟩ | ⟨hcall, hvote⟩⟩
  · rw [hnone] at htaken
    cases htaken
  · rw [htaken, Option.some.injEq] at hsame
    rw [hsame, hnone] at hwinner
    cases hwinner
  · rw [htaken, Option.some.injEq] at hsame
    subst hsame
    rw [hwinner, Option.some.injEq] at hcall
    refine ⟨hcall, change, hchange, ?_, ?_, ?_⟩
    · rw [hvote, attempt_rehearsed]
      rfl
    · rw [attempt_rehearsed, attempt_eq, withVote, judge_withElection]
    · rw [hvote]
      rfl

end FederationVote

/-! ### Votes on the fee -/

namespace FeeVote

variable {i : Invocation} {voter : HostAddress} {fee : Amount} {w : World}

/-- **What a vote on the fee does in an undecided election.** It is not taken, and has a negative
code; or it is taken, and then nothing wins, or the fee that has been voted for is set. -/
theorem vote_of_undecided (voter : HostAddress) (fee : Amount)
    (hu : w.state.feeElection.Undecided i.constants.feeAuthorizer) :
    (taken? i voter fee w.state = none ∧ ∃ n < 0, vote i voter fee w = answer voter n w) ∨
      ∃ election, taken? i voter fee w.state = some election ∧
        (election.winner? i.constants.feeAuthorizer = none ∧
            vote i voter fee w =
              answer voter succeeded { w with state := { w.state with feeElection := election } } ∨
          election.winner? i.constants.feeAuthorizer = some (callFor fee) ∧
            vote i voter fee w =
              answer voter succeeded { w with state := setFee fee w.state }) := by
  have hrefused : refused < 0 := by decide
  have hrepeated : repeated < 0 := by decide
  unfold taken? vote
  by_cases hallowed : i.constants.feeAuthorizer.allows voter = true
  swap
  · exact .inl ⟨by simp [hallowed], refused, hrefused, by simp [hallowed]⟩
  by_cases hpossible : isPossible fee = true
  swap
  · exact .inl ⟨by simp [hpossible], refused, hrefused, by simp [hpossible]⟩
  rcases hvote : w.state.feeElection.vote? (callFor fee) voter i.constants.feeAuthorizer
    with - | election
  · exact .inl ⟨by simp, repeated, hrepeated, by simp [hallowed, hpossible, hvote]⟩
  refine .inr ⟨election, by simp [hallowed, hpossible], ?_⟩
  rcases hwinner : election.winner? i.constants.feeAuthorizer with - | winner
  · exact .inl ⟨rfl, by simp [hallowed, hpossible, hvote, hwinner]⟩
  · obtain rfl := hu.eq_of_winner? hvote hwinner
    exact .inr ⟨rfl, by simp [hallowed, hpossible, hvote, hwinner, feeOf?_callFor, setFee]⟩

/-- A vote leaves an undecided election undecided. -/
theorem undecided_vote (hu : w.state.feeElection.Undecided i.constants.feeAuthorizer) :
    (vote i voter fee w).2.state.feeElection.Undecided i.constants.feeAuthorizer := by
  rcases vote_of_undecided voter fee hu with
    ⟨-, n, -, hvote⟩ | ⟨election, -, ⟨hnone, hvote⟩ | ⟨-, hvote⟩⟩
  · rw [hvote]
    exact hu
  · rw [hvote]
    exact Election.winner?_eq_none_iff.mp hnone
  · rw [hvote]
    exact Election.undecided_empty _

/-- A vote on the fee in an undecided election raises no alert, and it changes nothing if its code is
negative. -/
theorem vote_unremarkable (voter : HostAddress) (fee : Amount)
    (hu : w.state.feeElection.Undecided i.constants.feeAuthorizer) :
    (vote i voter fee w).2.alerts = w.alerts ∧
      ((vote i voter fee w).1 < 0 → (vote i voter fee w).2.state = w.state) := by
  have hsucceeded : ¬ succeeded < 0 := by decide
  rcases vote_of_undecided voter fee hu with
    ⟨-, n, -, hvote⟩ | ⟨election, -, ⟨-, hvote⟩ | ⟨-, hvote⟩⟩
  · rw [hvote]
    exact ⟨World.alerts_notify rfl, fun _ => rfl⟩
  · rw [hvote]
    exact ⟨World.alerts_notify rfl, fun hnegative => absurd hnegative hsucceeded⟩
  · rw [hvote]
    exact ⟨World.alerts_notify rfl, fun hnegative => absurd hnegative hsucceeded⟩

/-- **What wins in an undecided election** is the fee that has been voted for, and it is set. -/
theorem vote_of_winner {election : Election} {winner : CallSpec}
    (hu : w.state.feeElection.Undecided i.constants.feeAuthorizer)
    (htaken : taken? i voter fee w.state = some election)
    (hwinner : election.winner? i.constants.feeAuthorizer = some winner) :
    winner = callFor fee ∧ (vote i voter fee w).1 = succeeded ∧
      (vote i voter fee w).2.state = setFee fee w.state := by
  rcases vote_of_undecided voter fee hu with
    ⟨hnone, -⟩ | ⟨taken, hsame, ⟨hnone, -⟩ | ⟨hcall, hvote⟩⟩
  · rw [hnone] at htaken
    cases htaken
  · rw [htaken, Option.some.injEq] at hsame
    rw [hsame, hnone] at hwinner
    cases hwinner
  · rw [htaken, Option.some.injEq] at hsame
    rw [hsame, hcall, Option.some.injEq] at hwinner
    rw [hvote]
    exact ⟨hwinner.symm, rfl, rfl⟩

end FeeVote

/-! ### All votes -/

namespace Run

/-- **A winning vote always executes and never lingers.** A rehearsal of a change does nothing and has
the code of the change in earnest, in every state. Take any run from empty elections in which the
same accounts may vote all along. Then no call has enough votes in either election. So if something
wins by a vote on the federation, it is what has been voted for, it is executed with the code that
its rehearsal has given before the vote, and the vote answers with this code. If something wins by a
vote on the fee, it is the fee that has been voted for, and it is set. No vote raises an alert, and no
vote with a negative code changes the state. -/
theorem winner_executed {start s : State} {calls : List Call}
    {federationVoters feeVoters : Authorizer}
    (h : Run start calls s) (hfederation : start.federationElection = .empty)
    (hfee : start.feeElection = .empty)
    (hvoters : ∀ c ∈ calls, c.invocation.constants.federationAuthorizer = federationVoters ∧
      c.invocation.constants.feeAuthorizer = feeVoters) :
    (∀ i w change, (FederationVote.attempt true i w change).2 = w ∧
        (FederationVote.attempt true i w change).1 = (FederationVote.attempt false i w change).1 ∧
        FederationVote.attempt false i w change = FederationVote.execute i change w) ∧
      s.federationElection.Undecided federationVoters ∧ s.feeElection.Undecided feeVoters ∧
      ∀ c : Call, c.before.state = s →
        c.invocation.constants.federationAuthorizer = federationVoters →
        c.invocation.constants.feeAuthorizer = feeVoters →
        (∀ voter call, c.operation = .voteFederation voter call →
          (∀ election winner, FederationVote.taken? c.invocation voter call s = some election →
            election.winner? federationVoters = some winner →
            winner = call ∧ ∃ change, FederationVote.changeOf? call = some change ∧
              let rehearsed := FederationVote.attempt true c.invocation c.before change
              let executed := FederationVote.attempt false c.invocation
                (FederationVote.withVote election c.before) change
              c.answer = .ok (.code rehearsed.1) ∧ executed.1 = rehearsed.1 ∧
                c.after.state = (FederationVote.settleElection c.invocation executed.2).state) ∧
          c.after.alerts = c.before.alerts ∧
          ∀ n, c.answer = .ok (.code n) → n < 0 → c.after.state = s) ∧
        ∀ voter fee, c.operation = .voteFee voter fee →
          (∀ election winner, FeeVote.taken? c.invocation voter fee s = some election →
            election.winner? feeVoters = some winner →
            winner = FeeVote.callFor fee ∧ c.answer = .ok (.code FeeVote.succeeded) ∧
              c.after.state = FeeVote.setFee fee s) ∧
          c.after.alerts = c.before.alerts ∧
          ∀ n, c.answer = .ok (.code n) → n < 0 → c.after.state = s := by
  have hfederationNone : s.federationElection.Undecided federationVoters := by
    apply FederationVote.fair_poll.undecided (fun _ _ _ _ => FederationVote.undecided_vote) h
      fun c hc => (hvoters c hc).1
    show start.federationElection.Undecided federationVoters
    rw [hfederation]
    exact Election.undecided_empty _
  have hfeeNone : s.feeElection.Undecided feeVoters := by
    apply FeeVote.fair_poll.undecided (fun _ _ _ _ => FeeVote.undecided_vote) h
      fun c hc => (hvoters c hc).2
    show start.feeElection.Undecided feeVoters
    rw [hfee]
    exact Election.undecided_empty _
  refine ⟨fun i w change => ?_, hfederationNone, hfeeNone, ?_⟩
  · rw [FederationVote.attempt_rehearsed, FederationVote.attempt_eq false]
    exact ⟨rfl, rfl, (FederationVote.attempt_eq false i w change).symm.trans
      (FederationVote.attempt_earnest i w change)⟩
  rintro c rfl rfl rfl
  constructor
  · intro voter call hop
    have hanswer : c.answer =
        .ok (.code (FederationVote.vote c.invocation voter call c.before).1) := by
      rw [Call.answer, hop]
      rfl
    have hafter : c.after = (FederationVote.vote c.invocation voter call c.before).2 := by
      rw [Call.after, hop]
      rfl
    rw [hanswer, hafter]
    refine ⟨fun election winner htaken hwinner => ?_,
      FederationVote.alerts_vote hfederationNone, fun n hn hnegative => ?_⟩
    · obtain ⟨hcall, change, hchange, hcode, hsame, hstate⟩ :=
        FederationVote.vote_of_winner hfederationNone htaken hwinner
      exact ⟨hcall, change, hchange, by rw [hcode], hsame, hstate⟩
    · cases hn
      exact FederationVote.state_of_vote_negative hfederationNone hnegative
  · intro voter fee hop
    have hanswer : c.answer = .ok (.code (FeeVote.vote c.invocation voter fee c.before).1) := by
      rw [Call.answer, hop]
      rfl
    have hafter : c.after = (FeeVote.vote c.invocation voter fee c.before).2 := by
      rw [Call.after, hop]
      rfl
    rw [hanswer, hafter]
    obtain ⟨halerts, hunchanged⟩ :=
      FeeVote.vote_unremarkable voter fee hfeeNone
    refine ⟨fun election winner htaken hwinner => ?_, halerts, fun n hn hnegative => ?_⟩
    · obtain ⟨hcall, hcode, hstate⟩ := FeeVote.vote_of_winner hfeeNone htaken hwinner
      exact ⟨hcall, by rw [hcode], hstate⟩
    · cases hn
      exact hunchanged hnegative

open Example in
/-- Two accounts have to agree, and the second one votes for what the first one has voted for: a
pending federation is created, and a fee is set. -/
theorem winner_executed_two_voters :
    (∃ election winner, FederationVote.taken? bothForCreate.invocation otherVoter ⟨"create", []⟩
        oneForFee.after.state = some election ∧ election.winner? bothVoters = some winner ∧
      winner = ⟨"create", []⟩ ∧ ∃ change, FederationVote.changeOf? ⟨"create", []⟩ = some change ∧
        bothForCreate.answer = .ok (.code
          (FederationVote.attempt true bothForCreate.invocation bothForCreate.before change).1)) ∧
      (∃ election winner, FeeVote.taken? bothForFee.invocation otherVoter (.clamp 20000)
        oneForFee.after.state = some election ∧ election.winner? bothVoters = some winner ∧
        winner = FeeVote.callFor (.clamp 20000) ∧
        bothForFee.after.state = FeeVote.setFee (.clamp 20000) oneForFee.after.state) ∧
      bothForCreate.after.alerts = [] ∧ bothForFee.after.alerts = [] := by
  have hwon : (FederationVote.won? bothForCreate.invocation otherVoter ⟨"create", []⟩
        oneForFee.after.state).isSome ∧
      ((FeeVote.taken? bothForFee.invocation otherVoter (.clamp 20000)
        oneForFee.after.state).bind fun e => e.winner? bothVoters).isSome := by
    set_option maxRecDepth 100000 in
    decide +kernel
  have hvoters : ∀ c ∈ [oneForCreate, oneForFee],
      c.invocation.constants.federationAuthorizer = bothVoters ∧
        c.invocation.constants.feeAuthorizer = bothVoters := by
    simp only [List.forall_mem_cons, List.not_mem_nil, false_implies, implies_true, and_true]
    exact ⟨⟨rfl, rfl⟩, rfl, rfl⟩
  obtain ⟨-, -, -, hnext⟩ := winner_executed run_oneForFee rfl rfl hvoters
  obtain ⟨hcreated, hquiet, -⟩ :=
    (hnext bothForCreate (state_before_sharedCall _ _) rfl rfl).1 _ _ rfl
  obtain ⟨hset, hquiet', -⟩ :=
    (hnext bothForFee (state_before_sharedCall _ _) rfl rfl).2 _ _ rfl
  obtain ⟨winner, hwinner⟩ := Option.isSome_iff_exists.mp hwon.1
  obtain ⟨election, htaken, hwinner⟩ := Option.bind_eq_some_iff.mp hwinner
  obtain ⟨fee, hfee⟩ := Option.isSome_iff_exists.mp hwon.2
  obtain ⟨feeElection, hfeeTaken, hfee⟩ := Option.bind_eq_some_iff.mp hfee
  obtain ⟨hcall, change, hchange, hanswer, -⟩ := hcreated election winner htaken hwinner
  obtain ⟨hfeeCall, -, hstate⟩ := hset feeElection fee hfeeTaken hfee
  exact ⟨⟨election, winner, htaken, hwinner, hcall, change, hchange, hanswer⟩,
    ⟨feeElection, fee, hfeeTaken, hfee, hfeeCall, hstate⟩, hquiet, hquiet'⟩

end Run

end TwoWayPeg
