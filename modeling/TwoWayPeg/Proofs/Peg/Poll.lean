import TwoWayPeg.Proofs.Peg.Run
import TwoWayPeg.Proofs.SortedMap

/-!
# Elections over many calls

The peg holds two elections, and votes are collected in them over any number of calls. Votes for one
thing stay while other things win, and a vote may make something win that it was not for. But whoever
stands in an election has got there by a call of his own, and nothing has dropped his vote since.

* `Election.counts_of_vote?`, `Election.exists_voters_of_winner?`: what a vote adds, and what a
  winner has.
* `Poll`: what the two elections have in common, and `Poll.Fair`: what a single call may do to one.
* `Poll.Fair.counts_or_stands`: all votes go back to calls, by induction on the run.
* `Poll.Fair.hasQuorum`: what wins has enough voters.
-/

namespace TwoWayPeg

/-! ### Elections -/

/-- Some account that may vote has to agree. -/
theorem Authorizer.requiredVotes_pos {a : Authorizer} {voter : HostAddress}
    (h : a.allows voter = true) : 0 < a.requiredVotes := by
  have hsome : 0 < a.addresses.size := by
    have hmem := (a.addresses.mem_keys_iff voter).mpr h
    rw [SortedMap.keys] at hmem
    have hlength := List.length_pos_of_mem hmem
    rwa [List.length_map] at hlength
  unfold requiredVotes
  split
  · exact Nat.one_pos
  · exact Nat.succ_pos _
  · exact hsome

namespace Election

variable {e e' : Election} {a : Authorizer} {call x : CallSpec} {voter v : HostAddress}

/-- An account stands in the election with a vote for a call. -/
def Counts (e : Election) (x : CallSpec) (v : HostAddress) : Prop :=
  (e.votersFor x).contains v = true

/-- There is no vote in an empty election. -/
theorem not_counts_empty : ¬ empty.Counts x v := by
  intro h
  cases h

/-- What is written down as voters of a call are its voters. -/
theorem votersFor_of_mem {voters : SortedSet HostAddress} (h : (x, voters) ∈ e.ballots.entries) :
    e.votersFor x = voters := by
  rw [votersFor, (e.ballots.get?_eq_some_iff x voters).mpr h]
  rfl

/-- Only votes of those who may vote are taken. -/
theorem allows_of_vote? (h : e.vote? call voter a = some e') : a.allows voter = true := by
  simp only [vote?] at h
  split at h
  · next hguard =>
    rw [Bool.and_eq_true] at hguard
    exact hguard.1
  · cases h

/-- **Taking a vote** adds this one and no other. -/
theorem counts_of_vote? (h : e.vote? call voter a = some e') :
    e'.Counts x v ↔ e.Counts x v ∨ (x = call ∧ v = voter) := by
  simp only [vote?] at h
  split at h
  · cases h
    unfold Counts votersFor
    by_cases hcall : x = call
    · subst hcall
      rw [SortedMap.get?_insert_self, Option.getD_some, SortedSet.add, SortedMap.contains]
      by_cases hvoter : v = voter
      · subst hvoter
        rw [SortedMap.get?_insert_self]
        simp
      · rw [SortedMap.get?_insert_ne _ _ hvoter]
        simp [hvoter, SortedMap.contains]
    · rw [SortedMap.get?_insert_ne _ _ hcall]
      simp [hcall]
  · cases h

/-- Who stands for something after the winner has been taken out stood for it before, and it is not
the winner. -/
theorem counts_of_withoutWinner (h : (e.withoutWinner a).Counts x v) :
    e.Counts x v ∧ e.winner? a ≠ some x := by
  unfold withoutWinner at h
  split at h
  · next winner hwinner =>
    have hother : x ≠ winner := by
      rintro rfl
      rw [Counts, votersFor, SortedMap.get?_erase_self] at h
      cases h
    rw [Counts, votersFor, SortedMap.get?_erase_ne _ hother] at h
    refine ⟨h, fun heq => hother ?_⟩
    rw [hwinner] at heq
    exact (Option.some.inj heq).symm
  · next hwinner => exact ⟨h, by rw [hwinner]; simp⟩

/-- **A winner has enough different voters.** -/
theorem exists_voters_of_winner? (h : e.winner? a = some x) :
    ∃ voters : List HostAddress,
      voters.Nodup ∧ a.requiredVotes ≤ voters.length ∧ ∀ v ∈ voters, e.Counts x v := by
  unfold winner? at h
  obtain ⟨⟨y, voters⟩, hfound, rfl⟩ := Option.map_eq_some_iff.mp h
  refine ⟨voters.keys, voters.nodup_keys, ?_, fun v hv => ?_⟩
  · have henough := List.find?_some hfound
    rw [SortedMap.keys, List.length_map]
    exact of_decide_eq_true henough
  · rw [Counts, votersFor_of_mem (List.mem_of_find?_eq_some hfound)]
    exact (voters.mem_keys_iff v).mp hv

end Election

/-! ### Votes of calls -/

/-- An election of the peg: where its votes are kept, who may vote, which operation is a vote for a
choice, what the choice is written down as, and what a vote does: the election with it, if it is
taken, and whether the votes for something are dropped by it. -/
structure Poll (β : Type) where
  election : State → Election
  authorizer : Constants → Authorizer
  vote : HostAddress → β → Operation
  spec : β → CallSpec
  taken? : Invocation → HostAddress → β → State → Option Election
  Dropped : Invocation → HostAddress → β → State → CallSpec → Prop

namespace Poll

variable {β : Type} (p : Poll β)

/-- The call takes a vote of an account for a choice. -/
def Takes (c : Call) (v : HostAddress) (b : β) : Prop :=
  c.operation = p.vote v b ∧ (p.taken? c.invocation v b c.before.state).isSome

/-- The call drops the votes for what is written down. -/
def Drops (c : Call) (x : CallSpec) : Prop :=
  ∃ v b, c.operation = p.vote v b ∧ p.Dropped c.invocation v b c.before.state x

/-- A vote stands after some calls: one of them has taken it, and neither this one nor a later one
has dropped it. -/
def Stands (calls : List Call) (v : HostAddress) (b : β) : Prop :=
  ∃ front c back, calls = front ++ c :: back ∧ p.Takes c v b ∧
    ∀ d ∈ c :: back, ¬ p.Drops d (p.spec b)

/-- A choice has a quorum in a call that comes after others: enough different accounts that may vote
stand behind it, or do so with the vote of this call. -/
def HasQuorum (a : Authorizer) (calls : List Call) (c : Call) (b : β) : Prop :=
  ∃ voters : List HostAddress, voters.Nodup ∧ a.requiredVotes ≤ voters.length ∧
    ∀ v ∈ voters, a.allows v = true ∧ (p.Stands calls v b ∨ p.Takes c v b)

variable {p} in
/-- Somebody has voted for a choice with a quorum, unless no votes are required. -/
theorem HasQuorum.exists_takes {a : Authorizer} {calls : List Call} {c : Call} {b : β}
    (h : p.HasQuorum a calls c b) (hpos : 0 < a.requiredVotes) : ∃ d v, p.Takes d v b := by
  obtain ⟨voters, -, henough, hvoters⟩ := h
  obtain ⟨v, hv⟩ := List.exists_mem_of_length_pos (Nat.lt_of_lt_of_le hpos henough)
  rcases (hvoters v hv).2 with ⟨front, d, back, -, htakes, -⟩ | htakes
  · exact ⟨d, v, htakes⟩
  · exact ⟨c, v, htakes⟩

/-- **An election is fair** if only votes change it, a vote that is taken is counted as one, and
whoever stands in it after a vote stood there before or has voted, for something that the vote has
not dropped. -/
structure Fair (p : Poll β) : Prop where
  answer : ∀ i w v b, ∃ n, ((p.vote v b).run i w).1 = .ok (.code n)
  injective : ∀ {v b v' b'}, p.vote v b = p.vote v' b' → v = v' ∧ b = b'
  counted : ∀ {i s v b e}, p.taken? i v b s = some e →
    (p.election s).vote? (p.spec b) v (p.authorizer i.constants) = some e
  step : ∀ {i w v b x u}, (p.election ((p.vote v b).run i w).2.state).Counts x u →
    ((p.election w.state).Counts x u ∨
        (x = p.spec b ∧ u = v ∧ (p.taken? i v b w.state).isSome)) ∧
      ¬ p.Dropped i v b w.state x
  other : ∀ {i op s t}, op.Move i s t → (∀ v b, op ≠ p.vote v b) → p.election t = p.election s

namespace Fair

variable {p} {start finish : State} {calls : List Call} {c : Call} {x : CallSpec}
  {v : HostAddress}

/-- A vote is only taken of an account that may vote. -/
theorem allows_of_takes (hp : p.Fair) {b : β} (h : p.Takes c v b) :
    (p.authorizer c.invocation.constants).allows v = true := by
  obtain ⟨e, htaken⟩ := Option.isSome_iff_exists.mp h.2
  exact Election.allows_of_vote? (hp.counted htaken)

/-- **One call**: it is a vote, which does not fail, or it leaves the election as it is. -/
theorem leaves_cases (hp : p.Fair) {t : State} (hleaves : c.Leaves t) :
    (∃ voter b, c.operation = p.vote voter b ∧ t = c.after.state) ∨
      ((∀ voter b, c.operation ≠ p.vote voter b) ∧
        p.election t = p.election c.before.state) := by
  by_cases hop : ∃ voter b, c.operation = p.vote voter b
  · obtain ⟨voter, b, hop⟩ := hop
    refine .inl ⟨voter, b, hop, ?_⟩
    obtain ⟨n, hanswer⟩ := hp.answer c.invocation c.before voter b
    rw [← hop] at hanswer
    cases hleaves with
    | kept => rfl
    | discarded e hfailed =>
      rw [Call.answer, hanswer] at hfailed
      cases hfailed
  · have hnone : ∀ voter b, c.operation ≠ p.vote voter b := fun voter b heq =>
      hop ⟨voter, b, heq⟩
    exact .inr ⟨hnone, hleaves.preserves (P := fun t => p.election t = p.election c.before.state)
      (fun _ _ hmove hs => (hp.other hmove hnone).trans hs) rfl⟩

/-- Whoever stands in the election after a call stood there before, or the call has taken the vote,
and it is not for something that the call has dropped. -/
theorem counts_of_leaves (hp : p.Fair) {t : State} (hleaves : c.Leaves t)
    (h : (p.election t).Counts x v) :
    ((p.election c.before.state).Counts x v ∨ ∃ b, p.spec b = x ∧ p.Takes c v b) ∧
      ¬ p.Drops c x := by
  rcases hp.leaves_cases hleaves with ⟨voter, b, hop, hafter⟩ | ⟨hnone, hsame⟩
  · rw [hafter, Call.after, hop] at h
    obtain ⟨hstood, hkept⟩ := hp.step h
    refine ⟨hstood.imp_right ?_, ?_⟩
    · rintro ⟨rfl, rfl, htaken⟩
      exact ⟨b, rfl, hop, htaken⟩
    · rintro ⟨voter', b', hop', hdropped⟩
      obtain ⟨rfl, rfl⟩ := hp.injective (hop.symm.trans hop')
      exact hkept hdropped
  · rw [hsame] at h
    refine ⟨.inl h, ?_⟩
    rintro ⟨voter, b, heq, -⟩
    exact hnone voter b heq

/-- Whoever stands in the election after a run stood there before and nothing has dropped the vote,
or has voted in the run. -/
theorem counts_or_stands (hp : p.Fair) (h : Run start calls finish)
    (hcounts : (p.election finish).Counts x v) :
    ((p.election start).Counts x v ∧ ∀ d ∈ calls, ¬ p.Drops d x) ∨
      ∃ b, p.spec b = x ∧ p.Stands calls v b := by
  induction h with
  | nil s => exact .inl ⟨hcounts, fun d hd => absurd hd List.not_mem_nil⟩
  | @cons s t finish c calls hbefore hleaves hrest ih =>
    rcases ih hcounts with ⟨hstood, hkept⟩ | ⟨b, hspec, front, d, back, hcalls, htakes, hkept⟩
    · obtain ⟨hcases, hdrops⟩ := hp.counts_of_leaves hleaves hstood
      have hnever : ∀ d ∈ c :: calls, ¬ p.Drops d x := List.forall_mem_cons.mpr ⟨hdrops, hkept⟩
      rcases hcases with hstood | ⟨b, rfl, htakes⟩
      · rw [hbefore] at hstood
        exact .inl ⟨hstood, hnever⟩
      · exact .inr ⟨b, rfl, [], c, calls, rfl, htakes, hnever⟩
    · exact .inr ⟨b, hspec, c :: front, d, back, by rw [hcalls]; rfl, htakes, hkept⟩

section Empty

variable {a : Authorizer}

/-- **All votes of an election go back to calls** of accounts that may vote, after every run from an
empty election. -/
theorem stands_of_counts (hp : p.Fair) (h : Run start calls finish)
    (hempty : p.election start = .empty)
    (hauthorizer : ∀ c ∈ calls, p.authorizer c.invocation.constants = a)
    (hcounts : (p.election finish).Counts x v) :
    a.allows v = true ∧ ∃ b, p.spec b = x ∧ p.Stands calls v b := by
  rcases hp.counts_or_stands h hcounts with
    ⟨hstood, -⟩ | ⟨b, hspec, front, c, back, rfl, htakes, hkept⟩
  · rw [hempty] at hstood
    exact absurd hstood Election.not_counts_empty
  · have hallows := hp.allows_of_takes htakes
    rw [hauthorizer c (List.mem_append_right _ List.mem_cons_self)] at hallows
    exact ⟨hallows, b, hspec, front, c, back, rfl, htakes, hkept⟩

/-- Every ballot holds accounts that may vote and no others. -/
theorem allows_of_mem (hp : p.Fair) (h : Run start calls finish)
    (hempty : p.election start = .empty)
    (hauthorizer : ∀ c ∈ calls, p.authorizer c.invocation.constants = a) :
    ∀ ballot ∈ (p.election finish).ballots.entries, ∀ v ∈ ballot.2.keys, a.allows v = true := by
  rintro ⟨x, voters⟩ hballot v hv
  have hcounts : (p.election finish).Counts x v := by
    rw [Election.Counts, Election.votersFor_of_mem hballot]
    exact (voters.mem_keys_iff v).mp hv
  exact (hp.stands_of_counts h hempty hauthorizer hcounts).1

/-- **What wins by a vote has a quorum**, if one choice only is written down like that. -/
theorem hasQuorum (hp : p.Fair) (h : Run start calls c.before.state)
    (hempty : p.election start = .empty)
    (hauthorizer : ∀ d ∈ c :: calls, p.authorizer d.invocation.constants = a) {b b' : β}
    (hop : c.operation = p.vote v b) {e : Election}
    (htaken : p.taken? c.invocation v b c.before.state = some e) (hwinner : e.winner? a = some x)
    (honly : ∀ other, p.spec other = x → other = b') : p.HasQuorum a calls c b' := by
  obtain ⟨hthis, hcalls⟩ := List.forall_mem_cons.mp hauthorizer
  obtain ⟨voters, hnodup, henough, hvoters⟩ := Election.exists_voters_of_winner? hwinner
  refine ⟨voters, hnodup, henough, fun u hu => ?_⟩
  have hvote := hp.counted htaken
  rcases (Election.counts_of_vote? hvote).mp (hvoters u hu) with hstood | ⟨hspec, rfl⟩
  · obtain ⟨hallows, other, hspec, hstands⟩ := hp.stands_of_counts h hempty hcalls hstood
    rw [honly other hspec] at hstands
    exact ⟨hallows, .inl hstands⟩
  · rw [← honly b hspec.symm]
    refine ⟨?_, .inr ⟨hop, Option.isSome_iff_exists.mpr ⟨e, htaken⟩⟩⟩
    rw [← hthis]
    exact Election.allows_of_vote? hvote

end Empty

end Fair

end Poll

end TwoWayPeg
