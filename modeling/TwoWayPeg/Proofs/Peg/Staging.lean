import TwoWayPeg.Proofs.Federation.Address
import TwoWayPeg.Proofs.Peg.Quorum
import TwoWayPeg.Proofs.Peg.Signable

/-!
# Staged members can be committed

Members are staged one by one, each after a vote, and committed together after another one. Whether
a key is used twice is looked at twice: by purpose when a member is added, and among the neighbours
in the order of the bitcoin keys when the federation is formed. The second look never finds
anything. A member is only added with keys that nobody has for the same purpose, and all keys of a
vote are brought into the short encoding first, so two encodings of one point cannot stand side by
side. What is left to fail is the number of members.

* `PendingFederation.Staged`: no key is used twice for one purpose, and all are short.
* `FederationVote.staged_vote`, `Run.staged`: votes keep it, and so does every run.
* `FederationVote.formed_eq_ok`, `FederationVote.formed_eq_error`: what staged members form.
* `FederationVote.exists_address_of_formed`: it has an address, as its script is short.
* `Run.staged_committable`: staged members can be committed unless they are none or too many.
-/

namespace TwoWayPeg

/-! ### Staged members -/

namespace PendingFederation

/-- No two members have the same key for one purpose, and all keys are in the short encoding. -/
structure Staged (p : PendingFederation) : Prop where
  distinct : ∀ role, (p.members.map (·.key role)).Nodup
  short : ∀ m ∈ p.members, ∀ role, (m.key role).isCompressed = true

/-- Nobody is staged at first. -/
theorem staged_empty : empty.Staged where
  distinct := fun _ => List.nodup_nil
  short := nofun

/-- A candidate without conflict has no key of a member for the same purpose. -/
theorem key_ne_of_conflictsWith {p : PendingFederation} {m : Member}
    (h : p.conflictsWith m = false) {a : Member} (ha : a ∈ p.members) (role : KeyRole) :
    a.key role ≠ m.key role := by
  have hkeys : shareKey a m = false := by
    simpa using List.any_eq_false.mp h a ha
  simp only [shareKey, Bool.or_eq_false_iff, beq_eq_false_iff_ne] at hkeys
  cases role with
  | btc => exact hkeys.1.1
  | host => exact hkeys.1.2
  | mst => exact hkeys.2

/-- **A member that conflicts with nobody can be staged**, if its keys are short. -/
theorem Staged.add {p : PendingFederation} {m : Member} (h : p.Staged)
    (hnew : p.conflictsWith m = false) (hshort : ∀ role, (m.key role).isCompressed = true) :
    (p.add m).Staged where
  distinct := by
    intro role
    rw [PendingFederation.add, List.map_append, List.map_singleton, List.nodup_append]
    refine ⟨h.distinct role, List.nodup_singleton _, ?_⟩
    intro k hk k' hk'
    obtain ⟨a, ha, rfl⟩ := List.mem_map.mp hk
    rw [List.mem_singleton.mp hk']
    exact key_ne_of_conflictsWith hnew ha role
  short := by
    intro a ha
    rcases List.mem_append.mp ha with ha | ha
    · exact h.short a ha
    · rw [List.mem_singleton.mp ha]
      exact hshort

end PendingFederation

/-- If anybody is staged, then as above. -/
def State.Staged (s : State) : Prop := ∀ p, s.federations.pending = some p → p.Staged

/-- Nobody is staged when nothing is pending. -/
theorem State.staged_of_none {s : State} (h : s.federations.pending = none) : s.Staged := by
  intro p hp
  rw [h] at hp
  cases hp

/-! ### Votes -/

namespace FederationVote

variable {i : Invocation} {p : PendingFederation}

/-- The key that is read from a vote is short, whatever encoding the vote has used. -/
theorem isCompressed_of_memberKey? {b : Bytes} {k : PublicKey} (h : memberKey? b = some k) :
    k.isCompressed = true := by
  obtain ⟨given, -, hshort⟩ := Option.bind_eq_some_iff.mp h
  unfold PublicKey.compressed? PublicKey.ofBytes? at hshort
  split at hshort
  · cases hshort
    simp [PublicKey.isCompressed, PublicKey.shortForm]
  · cases hshort

/-- The keys of a member that a call asks to add are short. -/
theorem isCompressed_of_changeOf? {c : CallSpec} {m : Member} (h : changeOf? c = some (.add m))
    (role : KeyRole) : (m.key role).isCompressed = true := by
  unfold changeOf? at h
  split at h
  · cases h
  · next key =>
    obtain ⟨k, hk, hm⟩ := Option.map_eq_some_iff.mp h
    cases hm
    cases role <;> exact isCompressed_of_memberKey? hk
  · next btc host mst =>
    split at h
    · next hbtc hhost hmst =>
      cases h
      cases role with
      | btc => exact isCompressed_of_memberKey? hbtc
      | host => exact isCompressed_of_memberKey? hhost
      | mst => exact isCompressed_of_memberKey? hmst
    · cases h
  · obtain ⟨hash, -, hm⟩ := Option.map_eq_some_iff.mp h
    cases hm
  · cases h
  · cases h

/-- **A change that is possible keeps members staged**, if the keys of a new one are short. -/
theorem staged_perform {w : World} {change : FederationChange} (hs : w.state.Staged)
    (hcode : ¬ judge i w.state change < 0)
    (hshort : ∀ m, change = .add m → ∀ role, (m.key role).isCompressed = true) :
    (perform i w change).state.Staged := by
  cases change with
  | create =>
    intro p hp
    cases hp
    exact PendingFederation.staged_empty
  | add m =>
    simp only [perform]
    rcases hpending : w.state.federations.pending with - | p
    · exact hs
    · intro p' hp'
      cases hp'
      refine (hs p hpending).add ?_ (hshort m rfl)
      simp only [judge, judgeAdd, hpending] at hcode
      split at hcode
      · exact absurd (by decide) hcode
      · next hfree => exact Bool.eq_false_iff.mpr hfree
  | commit hash =>
    obtain ⟨p, new, hpending, -, hformed⟩ := formed_of_judgeCommit hcode
    simp only [perform, hpending, hformed]
    exact State.staged_of_none rfl
  | rollback => exact State.staged_of_none rfl

/-- **Votes keep members staged.** -/
theorem staged_vote {w : World} (hs : w.state.Staged) (voter : HostAddress) (call : CallSpec) :
    (vote i voter call w).2.state.Staged := by
  obtain ⟨hslots, -⟩ := vote_slots i voter call w
  unfold State.Staged
  rw [hslots]
  rcases hexecuted : executed? i voter call w.state with - | change
  · exact hs
  · have hcode := possible_of_executed? hexecuted
    obtain ⟨winner, -, hmade⟩ := Option.bind_eq_some_iff.mp hexecuted
    refine staged_perform hs hcode ?_
    rintro m rfl role
    exact isCompressed_of_changeOf? (changeOf?_of_made? hmade) role

/-- Only votes on the federation change what is pending. -/
theorem pending_of_move {op : Operation} {s t : State} (h : op.Move i s t)
    (hop : ∀ v call, op ≠ .voteFederation v call) :
    t.federations.pending = s.federations.pending := by
  cases h with
  | build _ r built hbuilt => rw [Payout.record, Invocation.withActiveUtxos_eq]
  | promote _ =>
    rw [Payout.promote]
    split
    · rfl
    · rfl
  | create _ hcode => exact absurd rfl (hop _ _)
  | addMember _ m p hpending hcode => exact absurd rfl (hop _ _)
  | install _ hash p new hpending hcode hformed => exact absurd rfl (hop _ _)
  | rollback _ hcode => exact absurd rfl (hop _ _)
  | _ => rfl

end FederationVote

/-- Every call keeps members staged. -/
theorem Call.Leaves.staged {c : Call} {t : State} (h : c.Leaves t) (hs : c.before.state.Staged) :
    t.Staged := by
  by_cases hop : ∃ voter call, c.operation = .voteFederation voter call
  · obtain ⟨voter, call, hop⟩ := hop
    cases h with
    | kept =>
      rw [Call.after, hop]
      exact FederationVote.staged_vote hs voter call
    | discarded e hfailed => exact hs
  · refine h.preserves (fun s t hmove hkept => ?_) hs
    intro p hp
    rw [FederationVote.pending_of_move hmove fun v call heq => hop ⟨v, call, heq⟩] at hp
    exact hkept p hp

/-- **Members are staged in every run.** -/
theorem Run.staged {start finish : State} {calls : List Call} (h : Run start calls finish)
    (hs : start.Staged) : finish.Staged := by
  induction h with
  | nil s => exact hs
  | cons hbefore hleaves hrest ih =>
    rw [← hbefore] at hs
    exact ih (hleaves.staged hs)

/-! ### Committing -/

namespace FederationVote

variable {i : Invocation} {p : PendingFederation}

/-- What staged members form is decided by their number: no key is found to be repeated. -/
theorem formed_of_staged (h : p.Staged) (i : Invocation) :
    formed i p =
      if p.size = 0 then .error .empty
      else if maxFederationSize < p.size then .error (.tooManyMembers p.size)
      else .ok ⟨Federation.ordered p.members, i.block.timestampMs, i.block.number,
        i.constants.network⟩ := by
  have hunrepeated := (Federation.repeatedKey?_ordered p.members).mpr (h.distinct .btc)
  have hempty : p.members.isEmpty = decide (p.size = 0) := by
    rw [Bool.eq_iff_iff, List.isEmpty_iff, decide_eq_true_iff, ← List.length_eq_zero_iff]
    rfl
  simp only [formed, PendingFederation.form, Federation.form, hunrepeated, hempty,
    decide_eq_true_iff]
  rfl

/-- **Between one and fifteen staged members form a federation**, in the order of their keys. -/
theorem formed_eq_ok (h : p.Staged) (hsize : 1 ≤ p.size ∧ p.size ≤ 15) (i : Invocation) :
    formed i p = .ok ⟨Federation.ordered p.members, i.block.timestampMs, i.block.number,
      i.constants.network⟩ := by
  have hsome : ¬ p.size = 0 := by omega
  have hfew : ¬ maxFederationSize < p.size := Nat.not_lt.mpr hsize.2
  rw [formed_of_staged h, if_neg hsome, if_neg hfew]

/-- **Any other number of staged members forms none**, for a reason that is not a repeated key. -/
theorem formed_eq_error (h : p.Staged) (hsize : ¬ (1 ≤ p.size ∧ p.size ≤ 15)) (i : Invocation) :
    ∃ e, formed i p = .error e ∧ ∀ k, e ≠ .duplicateKey k := by
  rw [formed_of_staged h]
  by_cases hnone : p.size = 0
  · refine ⟨.empty, if_pos hnone, ?_⟩
    intro k hk
    cases hk
  · have hmany : maxFederationSize < p.size := by
      rw [maxFederationSize]
      omega
    refine ⟨.tooManyMembers p.size, by rw [if_neg hnone, if_pos hmany], ?_⟩
    intro k hk
    cases hk

/-- **What staged members form has an address**, which leads to its output script: as all keys are
short, the limit on their number keeps the script short. -/
theorem exists_address_of_formed (h : p.Staged) {f : Federation} (hf : formed i p = .ok f) :
    ∃ text, f.address = .ok text ∧
      Address.LeadsTo f.network text (.script f.redeemScript.hash) f.payScript := by
  obtain ⟨-, hfew, -⟩ := Federation.members_of_form hf
  apply Federation.exists_address
  rw [Federation.length_redeemScript_of_form hf]
  exact Federation.scriptSize_le hfew (.inl fun m hm => h.short m hm .btc)

/-- What committing by the digest does: it installs what the pending members form, or it fails. -/
theorem execute_commit {w : World} (hpending : w.state.federations.pending = some p)
    (hleast : i.constants.minimumPendingSize ≤ p.size) :
    execute i (.commit p.hash) w =
      match formed i p with
      | .error _ => (refused, w)
      | .ok new => (succeeded, commit i new w) := by
  have hcomplete : p.isComplete i.constants.minimumPendingSize = true := decide_eq_true hleast
  rcases hformed : formed i p with e | new
  · have hjudge : judge i w.state (.commit p.hash) = refused := by
      simp [judge, judgeCommit, hpending, hcomplete, hformed]
    rw [execute, hjudge]
    rfl
  · have hjudge : judge i w.state (.commit p.hash) = succeeded := by
      simp [judge, judgeCommit, hpending, hcomplete, hformed]
    simp only [execute, hjudge, perform, hpending, hformed]
    rfl

end FederationVote

namespace Run

/-- **Staged members can be committed.** After every run of a new peg, no two members of a pending
federation have the same key for one purpose, and all their keys are in the short encoding. So when
the pending federation is large enough and is committed by its digest, in any block and in any world
where it is pending, no key is found to be repeated, and the commit succeeds exactly if there are
between one and fifteen members. It then installs the staged members, strictly in the order of their
bitcoin keys, with the number and the time of the block, and otherwise it does nothing. -/
theorem staged_committable {calls : List Call} {s : State} (h : Run .initial calls s)
    {p : PendingFederation} (hpending : s.federations.pending = some p) :
    (∀ role, (p.members.map (·.key role)).Nodup) ∧
      (∀ m ∈ p.members, ∀ role, (m.key role).isCompressed = true) ∧
      ∀ (i : Invocation) (w : World), w.state.federations.pending = some p →
        i.constants.minimumPendingSize ≤ p.size →
          (∀ k, FederationVote.formed i p ≠ .error (.duplicateKey k)) ∧
          ((FederationVote.execute i (.commit p.hash) w).1 = 1 ↔ 1 ≤ p.size ∧ p.size ≤ 15) ∧
          (1 ≤ p.size ∧ p.size ≤ 15 → ∃ new : Federation,
            (FederationVote.execute i (.commit p.hash) w).2.state.federations =
              ⟨some new, some (i.active w.state), none⟩ ∧
            new.members.Perm p.members ∧
            (new.members.Pairwise fun a b => Bytes.cmp a.btc.bytes b.btc.bytes = .lt) ∧
            new.creationBlock = i.block.number ∧ new.creationTimeMs = i.block.timestampMs ∧
            new.network = i.constants.network) ∧
          (¬ (1 ≤ p.size ∧ p.size ≤ 15) →
            FederationVote.execute i (.commit p.hash) w = (FederationVote.refused, w)) := by
  have hstaged := h.staged (State.staged_of_none rfl) p hpending
  refine ⟨hstaged.distinct, hstaged.short, ?_⟩
  intro i w hpending hleast
  have hexecute := FederationVote.execute_commit hpending hleast
  by_cases hsize : 1 ≤ p.size ∧ p.size ≤ 15
  · rw [FederationVote.formed_eq_ok hstaged hsize] at hexecute ⊢
    rw [hexecute]
    refine ⟨fun k hk => ?_, ⟨fun _ => hsize, fun _ => rfl⟩, fun _ => ?_,
      fun hnot => absurd hsize hnot⟩
    · cases hk
    · exact ⟨_, rfl, Federation.ordered_perm p.members,
        Federation.pairwise_lt_ordered (hstaged.distinct .btc), rfl, rfl, rfl⟩
  · obtain ⟨e, he, hother⟩ := FederationVote.formed_eq_error hstaged hsize i
    rw [he] at hexecute ⊢
    rw [hexecute]
    refine ⟨fun k hk => hother k (Except.error.inj hk), ⟨fun hcode => ?_,
      fun hnot => absurd hnot hsize⟩, fun hnot => absurd hnot hsize, fun _ => rfl⟩
    exact absurd hcode (show ¬ FederationVote.refused = 1 by decide)

end Run

/-! ### Two members -/

namespace Example

/-- A pending federation is created in a new peg. -/
def opened : Call := vote "create" [] .initial

/-- The holder of the other key joins it. -/
def heirStaged : Call := vote "add" [heirKey.bytes] opened.after.state

/-- So does the holder of the key, who writes it in its long encoding. -/
def bothStaged : Call :=
  vote "add" [PublicKey.longForm Secp256k1.base] heirStaged.after.state

/-- Both members, in the order of staging. -/
def couple : PendingFederation := ⟨[.ofKey heirKey, .ofKey key]⟩

/-- Both members are staged by a run of a new peg. -/
theorem run_bothStaged : Run .initial [opened, heirStaged, bothStaged] bothStaged.after.state :=
  .cons (state_before_call _ _ _ _) .kept
    (.cons (state_before_call _ _ _ _) .kept
      (.cons (state_before_call _ _ _ _) .kept (.nil _)))

end Example

namespace Run

/-- Two members are staged, one of them by the long encoding of the key that comes first, and they
can be committed in the next block. -/
theorem staged_committable_two_members :
    let i := (Example.vote "commit" [] Example.bothStaged.after.state).invocation
    (Run .initial [Example.opened, Example.heirStaged, Example.bothStaged]
          Example.bothStaged.after.state ∧
        Example.bothStaged.after.state.federations.pending = some Example.couple ∧
        i.constants.minimumPendingSize ≤ Example.couple.size) ∧
      (FederationVote.execute i (.commit Example.couple.hash) Example.bothStaged.after).1 = 1 ∧
      ∃ new : Federation,
        (FederationVote.execute i (.commit Example.couple.hash)
            Example.bothStaged.after).2.state.federations.new = some new ∧
        new.members.Perm Example.couple.members ∧ new.creationBlock = 1 := by
  intro i
  have hpending : Example.bothStaged.after.state.federations.pending = some Example.couple := by
    set_option maxRecDepth 100000 in
    decide +kernel
  have htwo : Example.couple.size = 2 := rfl
  have hleast : i.constants.minimumPendingSize ≤ Example.couple.size := by decide +kernel
  have hsize : 1 ≤ Example.couple.size ∧ Example.couple.size ≤ 15 := by
    rw [htwo]
    decide
  obtain ⟨-, -, hcommit⟩ := staged_committable Example.run_bothStaged hpending
  obtain ⟨-, hcode, hinstalled, -⟩ := hcommit i _ hpending hleast
  obtain ⟨new, hslots, hmembers, -, hblock, -⟩ := hinstalled hsize
  refine ⟨⟨Example.run_bothStaged, hpending, hleast⟩, hcode.mpr hsize, new, ?_, hmembers, hblock⟩
  rw [hslots]

end Run

end TwoWayPeg
