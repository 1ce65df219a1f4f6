import TwoWayPeg.Proofs.Peg.Poll
import TwoWayPeg.Proofs.Peg.Succession

/-!
# Nothing privileged happens without a quorum

The federation and the fee are changed by votes. Each of the two elections has its own way to drop
votes: a change of the federation clears all of them unless it adds a member, and what has won is
taken out in any case; a fee that is set clears all. What is executed is read anew from what has won,
not from the last vote. Both elections are fair all the same, so every change has enough voters.

* `FederationVote.counts_of_vote`, `FeeVote.counts_of_vote`: what one vote leaves of an election.
* `FederationVote.fair_poll`, `FeeVote.fair_poll`: both elections are fair.
* `Run.quorum`: every change of a federation and every change of the fee has a quorum.
-/

namespace TwoWayPeg

/-! ### Votes on the federation -/

namespace FederationVote

variable {i : Invocation} {voter : HostAddress} {call x : CallSpec} {w : World} {s : State}
  {v : HostAddress}

/-- The call that wins by a vote. -/
def won? (i : Invocation) (voter : HostAddress) (call : CallSpec) (s : State) : Option CallSpec :=
  (taken? i voter call s).bind fun election => election.winner? i.constants.federationAuthorizer

/-- What is executed is what the call asks for that wins. -/
theorem executed?_eq (i : Invocation) (voter : HostAddress) (call : CallSpec) (s : State) :
    executed? i voter call s = (won? i voter call s).bind (made? i s) := rfl

/-- Whether a change clears all votes: all do but the addition of a member. -/
def clearsVotes : FederationChange → Bool
  | .add _ => false
  | _ => true

/-- A vote that is taken is in the election. -/
theorem vote?_of_taken? {election : Election} (h : taken? i voter call s = some election) :
    s.federationElection.vote? call voter i.constants.federationAuthorizer = some election := by
  unfold taken? at h
  split at h
  · obtain ⟨change, -, h⟩ := Option.bind_eq_some_iff.mp h
    split at h
    · cases h
    · exact h
  · cases h

/-- What a winner makes is what it asks for. -/
theorem changeOf?_of_made? {change : FederationChange} (h : made? i s x = some change) :
    changeOf? x = some change := by
  obtain ⟨asked, hasked, h⟩ := Option.bind_eq_some_iff.mp h
  split at h
  · cases h
  · rw [hasked, h]

/-- What a change leaves of the votes. -/
theorem election_of_perform {change : FederationChange} (hcode : ¬ judge i w.state change < 0) :
    (perform i w change).state.federationElection =
      if clearsVotes change then .empty else w.state.federationElection := by
  cases change with
  | create => rfl
  | rollback => rfl
  | add m =>
    simp only [perform]
    rcases w.state.federations.pending with - | p
    · rfl
    · rfl
  | commit hash =>
    obtain ⟨p, new, hpending, -, hformed⟩ := formed_of_judgeCommit hcode
    simp only [perform, hpending, hformed]
    rfl

/-- A winning call leaves the votes as its change does, if it makes one, less those for the winner
that there is then. -/
theorem election_of_conclude (i : Invocation) (winner : CallSpec) (w : World) :
    (conclude i winner w).2.state.federationElection =
      (performed i w (made? i w.state winner)).federationElection.withoutWinner
        i.constants.federationAuthorizer := by
  unfold made? conclude
  rcases changeOf? winner with - | change
  · rfl
  · by_cases hcode : judge i w.state change < 0
    · simp only [execute, hcode, if_true, Option.bind_some]
      rfl
    · simp only [execute, hcode, if_false, Option.bind_some]
      rfl

/-- Who stands in the election after a winner has been concluded stood there before, not for the
winner, and the winner has made no change that clears the votes. -/
theorem counts_of_conclude {winner : CallSpec}
    (hwinner : w.state.federationElection.winner? i.constants.federationAuthorizer = some winner)
    (h : (conclude i winner w).2.state.federationElection.Counts x v) :
    w.state.federationElection.Counts x v ∧ x ≠ winner ∧
      ∀ change, made? i w.state winner = some change → ¬ clearsVotes change = true := by
  rw [election_of_conclude] at h
  obtain ⟨hcounts, hother⟩ := Election.counts_of_withoutWinner h
  rcases hmade : made? i w.state winner with - | change
  · rw [hmade] at hcounts hother
    refine ⟨hcounts, fun heq => hother ?_, nofun⟩
    rw [heq]
    exact hwinner
  · obtain ⟨asked, -, hasked⟩ := Option.bind_eq_some_iff.mp hmade
    split at hasked
    · cases hasked
    next hcode =>
    cases hasked
    rw [hmade, performed, election_of_perform hcode] at hcounts hother
    by_cases hclears : clearsVotes change = true
    · rw [if_pos hclears] at hcounts
      exact absurd hcounts Election.not_counts_empty
    · rw [if_neg hclears] at hcounts hother
      refine ⟨hcounts, fun heq => hother ?_, fun other hother => ?_⟩
      · rw [heq]
        exact hwinner
      · cases hother
        exact hclears

/-- **What a vote leaves of the election**: who stands in it stood there before or has voted, not
for what has won, and no change has been executed that clears the votes. -/
theorem counts_of_vote (h : (vote i voter call w).2.state.federationElection.Counts x v) :
    (w.state.federationElection.Counts x v ∨
        (x = call ∧ v = voter ∧ (taken? i voter call w.state).isSome)) ∧
      won? i voter call w.state ≠ some x ∧
      ∀ change, executed? i voter call w.state = some change → ¬ clearsVotes change = true := by
  rw [state_of_vote] at h
  rw [executed?_eq, won?]
  rcases htaken : taken? i voter call w.state with - | election
  · rw [htaken] at h
    exact ⟨.inl h, nofun, nofun⟩
  have hvoted : election.Counts x v → w.state.federationElection.Counts x v ∨
      (x = call ∧ v = voter ∧ (some election).isSome) := fun hcounts =>
    ((Election.counts_of_vote? (vote?_of_taken? htaken)).mp hcounts).imp_right fun hnew =>
      ⟨hnew.1, hnew.2, rfl⟩
  simp only [htaken] at h
  rw [Option.bind_some]
  rcases hwinner : election.winner? i.constants.federationAuthorizer with - | winner
  · rw [hwinner] at h
    exact ⟨hvoted h, nofun, nofun⟩
  · rw [hwinner] at h
    obtain ⟨hcounts, hother, hclears⟩ := counts_of_conclude
      (w := { w with state := { w.state with federationElection := election } }) hwinner h
    exact ⟨hvoted hcounts, fun heq => hother (Option.some.inj heq).symm, hclears⟩

/-- Only votes on the federation change its election. -/
theorem federationElection_of_move {i : Invocation} {op : Operation} {s t : State}
    (h : op.Move i s t) (hop : ∀ v call, op ≠ .voteFederation v call) :
    t.federationElection = s.federationElection := by
  cases h with
  | build _ r built hbuilt => rw [Payout.record, Invocation.withActiveUtxos_eq]
  | promote _ =>
    rw [Payout.promote]
    split
    · rfl
    · rfl
  | ballot _ election hvote => exact absurd rfl (hop _ _)
  | create _ hcode => exact absurd rfl (hop _ _)
  | addMember _ m p hpending hcode => exact absurd rfl (hop _ _)
  | install _ hash p new hpending hcode hformed => exact absurd rfl (hop _ _)
  | rollback _ hcode => exact absurd rfl (hop _ _)
  | conclude _ => exact absurd rfl (hop _ _)
  | _ => rfl

/-- The election about the federation. Votes for a call are dropped when it wins, and all votes are
when a change is executed that clears them. -/
def poll : Poll CallSpec where
  election := State.federationElection
  authorizer := Constants.federationAuthorizer
  vote := .voteFederation
  spec := id
  taken? := taken?
  Dropped i v call s x := won? i v call s = some x ∨
    ∃ change, executed? i v call s = some change ∧ clearsVotes change

/-- **The election about the federation is fair.** -/
theorem fair_poll : poll.Fair where
  answer := fun i w v call => ⟨(vote i v call w).1, rfl⟩
  injective := Operation.voteFederation.inj
  counted := vote?_of_taken?
  step := by
    intro i w v call x u hcounts
    obtain ⟨hstood, hwon, hexecuted⟩ := counts_of_vote hcounts
    refine ⟨hstood, ?_⟩
    rintro (hdropped | ⟨change, hchange, hclears⟩)
    · exact hwon hdropped
    · exact hexecuted change hchange hclears
  other := federationElection_of_move

/-- A vote that changes a federation executes what the call asks for that wins by it. -/
theorem exists_won_of_changed
    (h : (vote i voter call w).2.state.federations ≠ w.state.federations) :
    ∃ winner change, won? i voter call w.state = some winner ∧ changeOf? winner = some change ∧
      executed? i voter call w.state = some change := by
  rcases hexecuted : executed? i voter call w.state with - | change
  · have hslots := vote_slots i voter call w
    rw [hexecuted] at hslots
    exact absurd hslots.1 h
  · rw [executed?_eq] at hexecuted
    obtain ⟨winner, hwon, hmade⟩ := Option.bind_eq_some_iff.mp hexecuted
    exact ⟨winner, change, hwon, changeOf?_of_made? hmade, rfl⟩

end FederationVote

/-! ### Votes on the fee -/

namespace FeeVote

variable {i : Invocation} {voter : HostAddress} {fee : Amount} {w : World} {s : State}
  {x : CallSpec} {v : HostAddress}

/-- The election with a vote for a fee, if the vote is taken. -/
def taken? (i : Invocation) (voter : HostAddress) (fee : Amount) (s : State) : Option Election :=
  if i.constants.feeAuthorizer.allows voter && isPossible fee then
    s.feeElection.vote? (callFor fee) voter i.constants.feeAuthorizer
  else none

/-- The fee that wins by a vote. -/
def won? (i : Invocation) (voter : HostAddress) (fee : Amount) (s : State) : Option Amount :=
  ((taken? i voter fee s).bind fun election =>
    election.winner? i.constants.feeAuthorizer).bind feeOf?

/-- Whether an amount can be a fee. -/
theorem isPossible_iff {fee : Amount} :
    isPossible fee = true ↔ 0 < fee.sats ∧ fee.sats ≤ Amount.maxMoney := by
  simp [isPossible]

/-- What a vote on the fee leaves: a vote that is taken stays in the election, or the fee is set
that wins by it. -/
theorem state_of_vote (i : Invocation) (voter : HostAddress) (fee : Amount) (w : World) :
    (vote i voter fee w).2.state =
      match taken? i voter fee w.state with
      | none => w.state
      | some election =>
        match won? i voter fee w.state with
        | none => { w.state with feeElection := election }
        | some won => setFee won w.state := by
  unfold won? taken? vote
  by_cases hallowed : i.constants.feeAuthorizer.allows voter = true
  · by_cases hpossible : isPossible fee = true
    · rcases hvote : w.state.feeElection.vote? (callFor fee) voter i.constants.feeAuthorizer with
        - | election
      · simp [hallowed, hpossible, hvote, answer, World.notify]
      · rcases hwinner : election.winner? i.constants.feeAuthorizer with - | winner
        · simp [hallowed, hpossible, hvote, hwinner, answer, World.notify]
        · rcases hfee : feeOf? winner with - | won
          · simp [hallowed, hpossible, hvote, hwinner, hfee]
          · simp [hallowed, hpossible, hvote, hwinner, hfee, answer, World.notify, setFee]
    · simp [hallowed, hpossible, answer, World.notify]
  · simp [hallowed, answer, World.notify]

/-- A vote that is taken is in the election, and it is for a fee that can be. -/
theorem vote?_of_taken? {election : Election} (h : taken? i voter fee s = some election) :
    s.feeElection.vote? (callFor fee) voter i.constants.feeAuthorizer = some election ∧
      isPossible fee = true := by
  unfold taken? at h
  split at h
  · next hguard =>
    rw [Bool.and_eq_true] at hguard
    exact ⟨h, hguard.2⟩
  · cases h

/-- The call for a fee sets this fee. -/
theorem feeOf?_callFor (fee : Amount) : feeOf? (callFor fee) = some fee := by
  have hfits : fee.sats < Bytes.capacity 8 := fee.sats_lt
  simp only [callFor, feeOf?, Bytes.length_ofNatBE, if_true, Bytes.toNatBE_ofNatBE hfits,
    Amount.ofNat?_sats]

/-- **What a vote on the fee leaves of the election**: who stands in it stood there before or has
voted, and no fee has been set. -/
theorem counts_of_vote (h : (vote i voter fee w).2.state.feeElection.Counts x v) :
    (w.state.feeElection.Counts x v ∨
        (x = callFor fee ∧ v = voter ∧ (taken? i voter fee w.state).isSome)) ∧
      won? i voter fee w.state = none := by
  rw [state_of_vote] at h
  rcases htaken : taken? i voter fee w.state with - | election
  · rw [htaken] at h
    refine ⟨.inl h, ?_⟩
    rw [won?, htaken]
    rfl
  · simp only [htaken] at h
    rcases hwon : won? i voter fee w.state with - | won
    · rw [hwon] at h
      refine ⟨((Election.counts_of_vote? (vote?_of_taken? htaken).1).mp h).imp_right ?_, rfl⟩
      exact fun hnew => ⟨hnew.1, hnew.2, rfl⟩
    · rw [hwon] at h
      exact absurd h Election.not_counts_empty

/-- Only votes on the fee change the fee or its election. -/
theorem fee_of_move {i : Invocation} {op : Operation} {s t : State} (h : op.Move i s t)
    (hop : ∀ v fee, op ≠ .voteFee v fee) :
    t.feeElection = s.feeElection ∧ t.feePerKb = s.feePerKb := by
  cases h with
  | build _ r built hbuilt =>
    rw [Payout.record, Invocation.withActiveUtxos_eq]
    exact ⟨rfl, rfl⟩
  | promote _ =>
    rw [Payout.promote]
    split
    · exact ⟨rfl, rfl⟩
    · exact ⟨rfl, rfl⟩
  | feeBallot _ election hvote => exact absurd rfl (hop _ _)
  | setFee _ winner won hwinner hwon => exact absurd rfl (hop _ _)
  | _ => exact ⟨rfl, rfl⟩

/-- The election about the fee. All votes are dropped when a fee is set. -/
def poll : Poll Amount where
  election := State.feeElection
  authorizer := Constants.feeAuthorizer
  vote := .voteFee
  spec := callFor
  taken? := taken?
  Dropped i v fee s _ := (won? i v fee s).isSome

/-- **The election about the fee is fair.** -/
theorem fair_poll : poll.Fair where
  answer := fun i w v fee => ⟨(vote i v fee w).1, rfl⟩
  injective := Operation.voteFee.inj
  counted := fun h => (vote?_of_taken? h).1
  step := by
    intro i w v fee x u hcounts
    obtain ⟨hstood, hwon⟩ := counts_of_vote hcounts
    refine ⟨hstood, fun hdropped => ?_⟩
    have hset : (won? i v fee w.state).isSome := hdropped
    rw [hwon] at hset
    cases hset
  other := fun h hop => (fee_of_move h hop).1

/-- A call that changes the fee is a vote by which a fee wins, and this is the fee that it sets. -/
theorem exists_won_of_changed {c : Call} (h : c.after.state.feePerKb ≠ c.before.state.feePerKb) :
    ∃ v fee won, c.operation = .voteFee v fee ∧
      won? c.invocation v fee c.before.state = some won ∧ c.after.state.feePerKb = some won := by
  by_cases hop : ∃ v fee, c.operation = .voteFee v fee
  · obtain ⟨v, fee, hop⟩ := hop
    have hafter : c.after.state = (vote c.invocation v fee c.before).2.state := by
      rw [Call.after, hop]
      rfl
    rw [hafter, state_of_vote] at h ⊢
    rcases htaken : taken? c.invocation v fee c.before.state with - | e
    · rw [htaken] at h
      exact absurd rfl h
    · rcases hwon : won? c.invocation v fee c.before.state with - | won
      · simp only [htaken, hwon] at h
        exact absurd rfl h
      · exact ⟨v, fee, won, hop, hwon, rfl⟩
  · have hsame := (Call.Leaves.kept (c := c)).preserves
      (P := fun t => t.feePerKb = c.before.state.feePerKb)
      (fun _ _ hmove hs => (fee_of_move hmove fun v fee heq => hop ⟨v, fee, heq⟩).2.trans hs) rfl
    exact absurd hsame h

end FeeVote

/-! ### All changes -/

namespace Run

/-- **Nothing privileged happens without a quorum.** Take any run from empty elections in which the
same accounts may vote all along. Then every ballot holds accounts that may vote and no others. If a
vote in the next call changes a federation, then it executes what the call asks for that wins by it,
and that call has a quorum. If the next call changes the fee, then to one that can be, and that fee
has a quorum. -/
theorem quorum {start s : State} {calls : List Call} {federationVoters feeVoters : Authorizer}
    (h : Run start calls s) (hfederation : start.federationElection = .empty)
    (hfee : start.feeElection = .empty)
    (hvoters : ∀ c ∈ calls, c.invocation.constants.federationAuthorizer = federationVoters ∧
      c.invocation.constants.feeAuthorizer = feeVoters) :
    (∀ ballot ∈ s.federationElection.ballots.entries, ∀ v ∈ ballot.2.keys,
        federationVoters.allows v = true) ∧
      (∀ ballot ∈ s.feeElection.ballots.entries, ∀ v ∈ ballot.2.keys,
        feeVoters.allows v = true) ∧
      ∀ c : Call, c.before.state = s →
        c.invocation.constants.federationAuthorizer = federationVoters →
        c.invocation.constants.feeAuthorizer = feeVoters →
        (∀ voter call, c.operation = .voteFederation voter call →
          c.after.state.federations ≠ s.federations →
          ∃ winner change, FederationVote.won? c.invocation voter call s = some winner ∧
            FederationVote.changeOf? winner = some change ∧
            FederationVote.executed? c.invocation voter call s = some change ∧
            FederationVote.poll.HasQuorum federationVoters calls c winner) ∧
        (c.after.state.feePerKb ≠ s.feePerKb →
          ∃ fee, c.after.state.feePerKb = some fee ∧ 0 < fee.sats ∧ fee.sats ≤ Amount.maxMoney ∧
            FeeVote.poll.HasQuorum feeVoters calls c fee) := by
  refine ⟨FederationVote.fair_poll.allows_of_mem h hfederation fun c hc => (hvoters c hc).1,
    FeeVote.fair_poll.allows_of_mem h hfee fun c hc => (hvoters c hc).2, ?_⟩
  rintro c rfl hthis hthis'
  constructor
  · intro voter call hop hchanged
    have hafter : c.after.state =
        (FederationVote.vote c.invocation voter call c.before).2.state := by
      rw [Call.after, hop]
      rfl
    rw [hafter] at hchanged
    obtain ⟨winner, change, hwon, hasked, hexecuted⟩ :=
      FederationVote.exists_won_of_changed hchanged
    obtain ⟨e, htaken, hwinner⟩ := Option.bind_eq_some_iff.mp hwon
    rw [hthis] at hwinner
    refine ⟨winner, change, hwon, hasked, hexecuted, ?_⟩
    exact FederationVote.fair_poll.hasQuorum h hfederation
      (List.forall_mem_cons.mpr ⟨hthis, fun d hd => (hvoters d hd).1⟩) hop htaken hwinner
      fun other hother => hother
  · intro hchanged
    obtain ⟨voter, fee, won, hop, hwon, hset⟩ := FeeVote.exists_won_of_changed hchanged
    obtain ⟨winner, hwinner, hread⟩ := Option.bind_eq_some_iff.mp hwon
    obtain ⟨e, htaken, hwinner⟩ := Option.bind_eq_some_iff.mp hwinner
    rw [hthis'] at hwinner
    have honly : ∀ other, FeeVote.callFor other = winner → other = won := by
      rintro other rfl
      rw [FeeVote.feeOf?_callFor] at hread
      exact Option.some.inj hread
    have hquorum : FeeVote.poll.HasQuorum feeVoters calls c won :=
      FeeVote.fair_poll.hasQuorum h hfee
        (List.forall_mem_cons.mpr ⟨hthis', fun d hd => (hvoters d hd).2⟩) hop htaken hwinner honly
    have hallows := Election.allows_of_vote? (FeeVote.fair_poll.counted htaken)
    rw [← hthis'] at hquorum
    obtain ⟨d, v, -, htaken'⟩ := hquorum.exists_takes (Authorizer.requiredVotes_pos hallows)
    obtain ⟨e', htaken'⟩ := Option.isSome_iff_exists.mp htaken'
    obtain ⟨hpositive, hmost⟩ := FeeVote.isPossible_iff.mp (FeeVote.vote?_of_taken? htaken').2
    rw [hthis'] at hquorum
    exact ⟨won, hset, hpositive, hmost, hquorum⟩

end Run

/-! ### Two voters -/

namespace Example

/-- Another account that may vote. -/
def otherVoter : HostAddress := ⟨.replicate 20 8⟩

/-- Two accounts that have to agree. -/
def bothVoters : Authorizer := ⟨SortedSet.ofElements [voter, otherVoter], .all⟩

/-- An operation where two accounts have to agree. -/
def sharedCall (op : Operation) (s : State) : Call where
  invocation :=
    { constants := { constants with
        federationAuthorizer := bothVoters
        feeAuthorizer := bothVoters }
      chain := chain
      block := ⟨1, 0⟩ }
  operation := op
  before := ⟨s, .empty, []⟩

/-- The state before the call. -/
theorem state_before_sharedCall (op : Operation) (s : State) :
    (sharedCall op s).before.state = s := rfl

/-- The first account votes for a pending federation. -/
def oneForCreate : Call := sharedCall (.voteFederation voter ⟨"create", []⟩) .initial

/-- The first account votes for a fee of 20000 satoshis. -/
def oneForFee : Call := sharedCall (.voteFee voter (.clamp 20000)) oneForCreate.after.state

/-- The other account votes for a pending federation, too. -/
def bothForCreate : Call :=
  sharedCall (.voteFederation otherVoter ⟨"create", []⟩) oneForFee.after.state

/-- The other account votes for the fee, too. -/
def bothForFee : Call := sharedCall (.voteFee otherVoter (.clamp 20000)) oneForFee.after.state

/-- The calls before the votes of the other account. -/
theorem run_oneForFee : Run .initial [oneForCreate, oneForFee] oneForFee.after.state :=
  .cons (state_before_sharedCall _ _) .kept (.cons (state_before_sharedCall _ _) .kept (.nil _))

end Example

namespace Run

open Example

/-- Both accounts vote for a pending federation and for a fee: only the second votes have an effect,
and then there is a quorum. -/
theorem quorum_two_voters :
    (bothForCreate.after.state.federations ≠ oneForFee.after.state.federations ∧
        bothForFee.after.state.feePerKb ≠ oneForFee.after.state.feePerKb) ∧
      (∃ winner change, FederationVote.won? bothForCreate.invocation otherVoter ⟨"create", []⟩
          oneForFee.after.state = some winner ∧ FederationVote.changeOf? winner = some change ∧
        FederationVote.executed? bothForCreate.invocation otherVoter ⟨"create", []⟩
          oneForFee.after.state = some change ∧
        FederationVote.poll.HasQuorum bothVoters [oneForCreate, oneForFee] bothForCreate winner) ∧
      ∃ fee, bothForFee.after.state.feePerKb = some fee ∧ 0 < fee.sats ∧
        fee.sats ≤ Amount.maxMoney ∧
        FeeVote.poll.HasQuorum bothVoters [oneForCreate, oneForFee] bothForFee fee := by
  have hchanged : bothForCreate.after.state.federations ≠ oneForFee.after.state.federations ∧
      bothForFee.after.state.feePerKb ≠ oneForFee.after.state.feePerKb := by
    set_option maxRecDepth 100000 in
    decide +kernel
  have hvoters : ∀ c ∈ [oneForCreate, oneForFee],
      c.invocation.constants.federationAuthorizer = bothVoters ∧
        c.invocation.constants.feeAuthorizer = bothVoters := by
    simp only [List.forall_mem_cons, List.not_mem_nil, false_implies, implies_true, and_true]
    exact ⟨⟨rfl, rfl⟩, rfl, rfl⟩
  obtain ⟨-, -, hnext⟩ := quorum run_oneForFee rfl rfl hvoters
  exact ⟨hchanged,
    (hnext bothForCreate (state_before_sharedCall _ _) rfl rfl).1 _ _ rfl hchanged.1,
    (hnext bothForFee (state_before_sharedCall _ _) rfl rfl).2 hchanged.2⟩

end Run

end TwoWayPeg
