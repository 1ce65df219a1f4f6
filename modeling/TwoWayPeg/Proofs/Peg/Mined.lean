import TwoWayPeg.Proofs.Bitcoin.Size
import TwoWayPeg.Proofs.Merkle.Inclusion
import TwoWayPeg.Proofs.Peg.Run

/-!
# Only mined transactions are recorded

The header of a block holds the root of the tree over its transactions, and a registration is only
looked at if its partial tree leads to that root. So the bytes are a transaction of the block, or
they have 64 bytes and may be an inner node of the tree. What has 64 bytes, an input and an output
is too short to pay or to spend from a federation and to tell a sender, and nothing else is ever
recorded.

* `Transaction.isShort_of_length`: with 64 bytes, all input scripts are short.
* `Registration.Settled.state_of_isShort`: a transaction with short scripts changes nothing.
* `Registration.under_of_provedRoot`: a proof leads down from its root to the transaction.
-/

namespace TwoWayPeg

/-! ### Short transactions -/

/-- All federations that a call can meet have been formed from members. -/
structure Invocation.MeetsFormed (i : Invocation) (s : State) : Prop where
  genesis : i.constants.genesis.IsFormed
  new : ∀ f, s.federations.new = some f → f.IsFormed
  old : ∀ f, s.federations.old = some f → f.IsFormed

/-- A new peg meets formed federations only, if the first one is formed. -/
theorem Invocation.meetsFormed_initial {i : Invocation} (h : i.constants.genesis.IsFormed) :
    i.MeetsFormed .initial :=
  ⟨h, fun _ hf => (nomatch hf), fun _ hf => (nomatch hf)⟩

namespace Invocation.MeetsFormed

variable {i : Invocation} {s : State}

/-- The active federation is formed. -/
theorem active (h : i.MeetsFormed s) : (i.active s).IsFormed := by
  unfold Invocation.active FederationSlots.active
  split
  · exact h.genesis
  · cases hold : s.federations.old with
    | none => exact h.genesis
    | some f => exact h.old f hold
  · cases hnew : s.federations.new with
    | none => exact h.genesis
    | some f => exact h.new f hnew

/-- The retiring federation is formed. -/
theorem retiring (h : i.MeetsFormed s) {f : Federation} (hf : i.retiring s = some f) :
    f.IsFormed := by
  unfold Invocation.retiring FederationSlots.retiring at hf
  split at hf
  · next new old hnew hold =>
    split at hf
    · cases hf
      exact h.old f hold
    · cases hf
  · cases hf

end Invocation.MeetsFormed

namespace Transaction

/-- A transaction that spends from no live federation is neither a release nor a migration. -/
theorem classify_of_not_spendsFrom {tx : Transaction} {active : Federation}
    {retiring : Option Federation} (hactive : tx.spendsFrom active = false)
    (hretiring : ∀ f, retiring = some f → tx.spendsFrom f = false) (minimumLock : Nat) :
    tx.classify active retiring minimumLock = .pegIn ∨
      tx.classify active retiring minimumLock = .unrecognized := by
  have hmigration :
      ¬ (retiring.any fun f => tx.spendsFrom f && decide (0 < tx.valueSentTo active)) = true := by
    cases retiring with
    | none => exact Bool.false_ne_true
    | some f =>
      rw [Option.any_some, hretiring f rfl, Bool.false_and]
      exact Bool.false_ne_true
  have hrelease : ¬ (active :: retiring.toList).any tx.spendsFrom = true := by
    rw [List.any_cons, hactive, Bool.false_or]
    cases retiring with
    | none => exact Bool.false_ne_true
    | some f =>
      rw [Option.toList_some, List.any_cons, hretiring f rfl]
      exact Bool.false_ne_true
  simp only [classify]
  rw [if_neg hmigration, if_neg hrelease]
  split
  · exact .inl rfl
  · exact .inr rfl

/-- All inputs have scripts that fit beside the sixty bytes of a transaction of 64 bytes. -/
def IsShort (tx : Transaction) : Prop := ∀ i ∈ tx.inputs, i.scriptSig.length ≤ 4

/-- A transaction of 64 bytes that has inputs and outputs is short. -/
theorem isShort_of_length {tx : Transaction} (hstructure : tx.checkStructure = .ok ())
    (hlength : tx.encodePlain.length = 64) : tx.IsShort := by
  have hsome : ¬ (tx.inputs.isEmpty || tx.outputs.isEmpty) = true := by
    intro hempty
    rw [checkStructure, if_pos hempty] at hstructure
    cases hstructure
  rw [Bool.or_eq_true, not_or, List.isEmpty_iff, List.isEmpty_iff] at hsome
  obtain ⟨o, ho⟩ := List.exists_mem_of_ne_nil _ hsome.2
  intro i hi
  have := length_scripts_le hi ho
  omega

namespace IsShort

variable {tx : Transaction} {f : Federation}

/-- Short scripts do not carry the script of a federation. -/
theorem spendsFrom_eq_false (h : tx.IsShort) (hf : f.IsFormed) : tx.spendsFrom f = false := by
  rw [spendsFrom, List.any_eq_false]
  intro i hi hredeem
  obtain ⟨cs, hcs, hlast⟩ := Option.bind_eq_some_iff.mp (eq_of_beq hredeem)
  have hshort := Script.length_lt_of_mem_chunks hcs (List.mem_of_getLast? hlast)
  have hscript := h i hi
  have hlong := hf.length_redeemScript
  omega

/-- Short scripts do not tell a sender. -/
theorem sender?_eq_none (h : tx.IsShort) : Registration.sender? tx = none := by
  rw [Registration.sender?, Registration.senderBytes?]
  split
  · rfl
  · next input rest hinputs =>
    split
    · next signature key hchunks =>
      have hkey := Script.length_lt_of_mem_chunks hchunks
        (List.mem_cons_of_mem _ (List.mem_singleton_self key))
      have hscript := h input (hinputs ▸ List.mem_cons_self)
      rw [Option.bind_some]
      exact PublicKey.ofBytes?_of_short (by omega)
    · rfl

end IsShort

end Transaction

namespace Registration

variable {i : Invocation} {m : MinedTransaction} {w after : World}

/-- **A short transaction changes nothing**, whatever lock is the least. -/
theorem Settled.state_of_isShort (h : Settled i m w after) (hformed : i.MeetsFormed w.state)
    (hshort : m.tx.IsShort) : after.state = w.state := by
  rcases h.untouched_or_kept hshort.sender?_eq_none with ⟨hstate, -⟩ | ⟨hkind, -⟩
  · exact hstate
  · have hretiring : ∀ f, i.retiring w.state = some f → m.tx.spendsFrom f = false :=
      fun f hf => hshort.spendsFrom_eq_false (hformed.retiring hf)
    have hother := Transaction.classify_of_not_spendsFrom (hshort.spendsFrom_eq_false hformed.active)
      hretiring i.constants.minimumLock.sats
    rcases hkind with hkind | hkind
    · rw [hkind] at hother
      simp at hother
    · rw [hkind] at hother
      simp at hother

end Registration

/-! ### A block of two transactions -/

namespace Example

/-- The federation is formed by its member. -/
theorem federation_isFormed : federation.IsFormed :=
  ⟨[.ofKey key], 0, 0, .regtest, by decide +kernel⟩

/-- The bytes that are hashed to join the digests of the deposit and the release. -/
def sharedPair : Bytes := Merkle.pair depositDigest changeDigest

/-- The digests in a block with the deposit and the release. -/
theorem digests_shared :
    Sha256.double deposit.encodePlain = depositDigest ∧
      Sha256.double change.encodePlain = changeDigest ∧
      Sha256.double sharedPair = sharedRoot := by
  decide +kernel

/-- Nothing that is hashed for the block collides. -/
theorem collisionFree_shared :
    Sha256.CollisionFree [deposit.encodePlain, change.encodePlain, sharedPair] := by
  obtain ⟨hdeposit, hchange, hjoined⟩ := digests_shared
  apply Sha256.collisionFree_of_nodup
  simp only [List.map_cons, List.map_nil, hdeposit, hchange, hjoined]
  decide +kernel

end Example

/-! ### Inclusion in the block -/

namespace Registration

/-- The byte strings that are hashed to find the root that a proof leads to. -/
def proofPairs (proof : Bytes) : List Bytes :=
  match Merkle.PartialTree.parse proof with
  | .error _ => []
  | .ok tree => tree.hashedPairs

/-- A proof that leads to a root spells a partial tree that does. -/
theorem exists_tree_of_provedRoot {txid : Txid} {proof : Bytes} {root : Merkle.Node}
    (h : provedRoot txid proof = .ok root) :
    ∃ tree, Merkle.PartialTree.parse proof = .ok tree ∧ tree.rootFor txid = .ok root := by
  unfold provedRoot at h
  split at h
  · cases h
  · split at h
    · cases h
    · next tree hparse =>
      refine ⟨tree, hparse, ?_⟩
      rcases hroot : tree.rootFor txid with e | found
      · rw [hroot] at h
        cases h
      · rw [hroot] at h
        cases h
        rfl

/-- A proof leads down from its root to the transaction. -/
theorem under_of_provedRoot {txid : Txid} {proof : Bytes} {root : Merkle.Node}
    (h : provedRoot txid proof = .ok root) :
    ∃ depth, Merkle.Under (proofPairs proof) depth txid.bytes root := by
  obtain ⟨tree, hparse, hroot⟩ := exists_tree_of_provedRoot h
  rw [proofPairs, hparse]
  exact ⟨_, Merkle.PartialTree.under_of_rootFor hroot⟩

/-- **Only transactions of the block are recorded.** Let some texts, none of 64 bytes, have the root
that the header at the height holds, and let no two of the byte strings that are hashed collide.
Then a registration that changes the records has been given one of the texts. -/
theorem mem_of_recorded {i : Invocation} {w : World} {raw proof : Bytes} {height : Int}
    {texts : List Bytes} {header : Header}
    (hheader : i.chain.headerAt height.toNat = some header)
    (hroot : Merkle.root? (texts.map rawTxid) = some header.merkleRoot)
    (htexts : ∀ b ∈ texts, b.length ≠ 64)
    (hfree : Sha256.CollisionFree (texts ++
      Merkle.pairsUpTo (Merkle.height texts.length) (texts.map Sha256.double) ++
        raw :: proofPairs proof))
    (hformed : i.MeetsFormed w.state)
    (hrecorded : (register i raw height proof w).2.state.processed ≠ w.state.processed) :
    raw ∈ texts := by
  rcases register_cases i raw height proof w with ⟨hstate, -⟩ | ⟨m, hmined, hsettled⟩
  · rw [hstate] at hrecorded
    exact absurd rfl hrecorded
  · have hgenuine := genuine_of_examine hmined
    obtain ⟨found, hfound, hproved⟩ := hgenuine.proved
    rw [hheader] at hfound
    cases hfound
    obtain ⟨depth, hunder⟩ := under_of_provedRoot hproved
    have htop : Merkle.topAfter (Merkle.height texts.length) (texts.map Sha256.double) =
        some header.merkleRoot := by
      rw [Merkle.root?, List.length_map, List.map_map] at hroot
      exact hroot
    rcases Merkle.mem_or_length_eq hfree htexts htop hunder with hmem | hlength
    · exact hmem
    · -- a text of 64 bytes may be an inner node, but it changes nothing
      obtain ⟨-, -, hstructure⟩ := soundTransaction_eq_ok hgenuine.sound
      rw [hgenuine.plain] at hlength
      have hshort := Transaction.isShort_of_length hstructure hlength
      rw [hsettled.state_of_isShort hformed hshort] at hrecorded
      exact absurd rfl hrecorded

/-- A release that is the second of the two transactions of a block is recorded. -/
theorem mem_of_recorded_change :
    let texts := [Example.deposit.encodePlain, Example.change.encodePlain]
    let i : Invocation := ⟨Example.constants,
      { Example.chain with headerAt := fun _ => some (Example.headerWith Example.sharedRoot) },
      ⟨5, 0⟩⟩
    Merkle.root? (texts.map rawTxid) = some Example.sharedRoot ∧
      (register i Example.change.encodePlain 0 Example.secondOfTwo
        ⟨.initial, .empty, []⟩).2.state.processed ≠ State.initial.processed ∧
      Example.change.encodePlain ∈ texts := by
  intro texts i
  have hrecorded : (register i Example.change.encodePlain 0 Example.secondOfTwo
      ⟨.initial, .empty, []⟩).2.state.processed ≠ State.initial.processed := by
    set_option maxRecDepth 100000 in
    decide +kernel
  obtain ⟨hdeposit, hchange, hjoined⟩ := Example.digests_shared
  have hproof : proofPairs Example.secondOfTwo = [Example.sharedPair] := by
    decide +kernel
  have hroot : Merkle.root? (texts.map rawTxid) = some Example.sharedRoot := by
    rw [← hjoined, Example.sharedPair, ← Merkle.join_eq, ← hdeposit, ← hchange]
    exact Merkle.root?_pair _ _
  have hpairs : Merkle.pairsUpTo (Merkle.height texts.length) (texts.map Sha256.double) =
      [Example.sharedPair] := by
    rw [List.map_cons, List.map_singleton, hdeposit, hchange]
    exact Merkle.pairsUpTo_pair _ _
  have hfree : Sha256.CollisionFree (texts ++
      Merkle.pairsUpTo (Merkle.height texts.length) (texts.map Sha256.double) ++
        Example.change.encodePlain :: proofPairs Example.secondOfTwo) := by
    rw [hpairs, hproof]
    refine Example.collisionFree_shared.subset ?_
    simp [texts]
  have hformed : i.MeetsFormed .initial :=
    Invocation.meetsFormed_initial Example.federation_isFormed
  exact ⟨hroot, hrecorded,
    mem_of_recorded rfl hroot (by decide +kernel) hfree hformed hrecorded⟩

end Registration

end TwoWayPeg
