import TwoWayPeg.Proofs.Bitcoin.BestChain
import TwoWayPeg.Proofs.Merkle.Climbing
import TwoWayPeg.Proofs.Peg.Recognition

/-!
# Registrations and confirmations agree

A registration is shown a partial tree, and whoever asks for confirmations shows a branch. Both are
judged by the root in a header of the best chain, which one finds by its height and the other by its
name. So what has been registered can be shown to be confirmed as well: the partial tree has a branch
for it, and the header that the registration has found is stored under its name and on the best chain.

* `Registration.genuine_of_recorded`: what is recorded has passed all checks.
* `HeaderChain.Sound.confirmations_eq`: the confirmations of what a branch proves.
* `HeaderChain.confirmations_of_recorded`: what is recorded has its confirmations, and enough of them.
-/

namespace TwoWayPeg

namespace Registration

variable {i : Invocation} {w : World} {raw proof : Bytes} {height : Int}

/-- What is recorded has been found genuine. -/
theorem genuine_of_recorded (hnew : w.state.processed.contains (rawTxid raw) = false)
    (hrecorded : (register i raw height proof w).2.state.processed.contains (rawTxid raw) = true) :
    ∃ m, Genuine i w.state raw height proof m := by
  rcases register_cases i raw height proof w with ⟨hstate, -⟩ | ⟨m, hmined, -⟩
  · rw [hstate, hnew] at hrecorded
    cases hrecorded
  · exact ⟨m, genuine_of_examine hmined⟩

/-- What a proof shows to be in a block can be shown by a branch. -/
theorem exists_branch_of_provedRoot {txid : Txid} {root : Merkle.Node}
    (h : provedRoot txid proof = .ok root) :
    ∃ hashes path branch, Merkle.Branch.make hashes path = .ok branch ∧
      branch.rootFrom txid = root := by
  obtain ⟨tree, -, hroot⟩ := exists_tree_of_provedRoot h
  obtain ⟨proved, hextract, hmem⟩ := Merkle.PartialTree.extract_of_rootFor hroot
  obtain ⟨hashes, path, branch, hmake, hleads, -⟩ :=
    Merkle.PartialTree.exists_branch hextract hmem
  exact ⟨hashes, path, branch, hmake, hleads⟩

end Registration

namespace HeaderChain

variable {c : HeaderChain} {first : StoredHeader} {i : Invocation}

/-- The header that the names lead to is stored. -/
theorem Leads.get?_stored {stored : SortedMap BlockHash StoredHeader} {names : List BlockHash}
    {h : StoredHeader} (hl : Leads stored first names h)
    (hfirst : stored.get? first.header.hash = some first) :
    stored.get? h.header.hash = some h := by
  cases hl with
  | first => exact hfirst
  | next hleads hparent hheight hstored => exact hstored

/-- A header that outgrows the tip is the new tip. -/
theorem Sound.headerAt_takeUp (hc : c.Sound first) {new parent : StoredHeader}
    (hfresh : c.stored.contains new.header.hash = false)
    (hparent : c.stored.get? new.header.parent = some parent)
    (hheight : new.height = parent.height + 1) (hhigher : c.bestHeight < new.height) :
    (c.takeUp new).bestHeight = new.height ∧
      (c.takeUp new).headerAt new.height = some new.header := by
  obtain ⟨hsound, hstored, ⟨-, hleads⟩ | ⟨hlower, -⟩⟩ := hc.takeUp hfresh hparent hheight
  · rw [← hstored] at hleads
    have hat := hleads.get?_stored hsound.first_stored
    have hcount := hleads.length_add
    have hplace : new.height - first.height = (c.takeUp new).best.length - 1 := by omega
    refine ⟨bestHeight_eq hsound.initial rfl hleads, hsound.headerAt_eq_some.mpr ⟨?_, ?_, hat⟩⟩
    · exact hsound.above _ _ hat
    · rw [hplace]
      exact hleads.getElem?_last
  · omega

/-- A header that is taken up alone. -/
theorem addAll_singleton {d : HeaderChain} {header : Header} (h : c.add header = .ok d) :
    (c.addAll [header]).1 = d := by
  rw [addAll, h]
  rfl

/-- A child of the first header is the tip if nothing else has been taken up. -/
theorem headerAt_addAll_child {checkpoint header : Header} (lowest : Nat)
    (hparent : header.parent = checkpoint.hash) (hother : header.hash ≠ checkpoint.hash) :
    ((startingAt checkpoint lowest).addAll [header]).1.bestHeight = lowest + 1 ∧
      ((startingAt checkpoint lowest).addAll [header]).1.headerAt (lowest + 1) = some header := by
  have hfresh : (startingAt checkpoint lowest).stored.contains header.hash = false := by
    rw [SortedMap.contains, startingAt, SortedMap.get?_insert_ne _ _ hother]
    rfl
  have hstored : (startingAt checkpoint lowest).stored.get? header.parent =
      some ⟨checkpoint, lowest⟩ := by
    rw [hparent]
    exact SortedMap.get?_insert_self _ _ _
  have hadd : (startingAt checkpoint lowest).add header =
      .ok ((startingAt checkpoint lowest).takeUp ⟨header, lowest + 1⟩) := by
    rw [add, hfresh, if_neg Bool.false_ne_true, hstored]
  have hbest : (startingAt checkpoint lowest).bestHeight < lowest + 1 := Nat.lt_succ_self lowest
  rw [addAll_singleton hadd]
  exact (sound_startingAt checkpoint lowest).headerAt_takeUp hfresh hstored rfl hbest

/-- **What a branch proves to be in a block of the best chain** is confirmed by this block and by all
above it, unless the block is too deep. -/
theorem Sound.confirmations_eq (hc : c.Sound first) (hview : i.chain = c.view) {height : Nat}
    {header : Header} (hat : c.headerAt height = some header)
    (hdepth : c.bestHeight - height ≤ Query.maxDepth) {txid : Txid} {branch : Merkle.Branch}
    (hroot : branch.rootFrom txid = header.merkleRoot) :
    Query.confirmations i txid header.hash branch = (c.bestHeight - height : Nat) + 1 := by
  obtain ⟨-, -, hstored⟩ := hc.headerAt_eq_some.mp hat
  have hbelow : height ≤ c.bestHeight := hc.greatest _ _ hstored
  have hproves : (!branch.proves txid header) = false := by
    rw [Merkle.Branch.proves, hroot, beq_self_eq_true, Bool.not_true]
  have hname : ¬ (c.headerAt height).map Header.hash ≠ some header.hash := by
    rw [hat, Option.map_some]
    exact fun hne => hne rfl
  simp only [Query.confirmations, hview, view, hstored]
  rw [if_neg (Nat.not_lt.mpr hdepth), if_neg (Nat.not_lt.mpr hbelow), if_neg hname, hproves,
    if_neg Bool.false_ne_true]

/-- **What is registered is confirmed.** Every leaf that a partial tree proves has a branch to the same
root. So let a chain have taken up any headers after its first one, and let a registration record a
transaction at a height that is not too deep below the tip. Then there is a branch with which the
transaction has all confirmations from the block at that height to the tip, and these are as many as
are required. -/
theorem confirmations_of_recorded (checkpoint : Header) (lowest : Nat) (headers : List Header) :
    let c := ((startingAt checkpoint lowest).addAll headers).1
    (∀ (tree : Merkle.PartialTree) (root : Merkle.Node) (proved : List Txid),
      tree.extract = .ok (root, proved) → ∀ txid ∈ proved,
        ∃ hashes path branch, Merkle.Branch.make hashes path = .ok branch ∧
          branch.rootFrom txid = root) ∧
    ∀ (i : Invocation) (w : World) (raw : Bytes) (height : Int) (proof : Bytes),
      i.chain = c.view →
      w.state.processed.contains (Registration.rawTxid raw) = false →
      (Registration.register i raw height proof w).2.state.processed.contains
        (Registration.rawTxid raw) = true →
      (c.bestHeight : Int) - height ≤ Query.maxDepth →
      ∃ header hashes path branch, c.headerAt height.toNat = some header ∧
        Merkle.Branch.make hashes path = .ok branch ∧
        Query.confirmations i (Registration.rawTxid raw) header.hash branch =
          (c.bestHeight : Int) - height + 1 ∧
        (i.constants.btcConfirmations : Int) ≤
          Query.confirmations i (Registration.rawTxid raw) header.hash branch := by
  intro c
  constructor
  · intro tree root proved hextract txid hmem
    obtain ⟨hashes, path, branch, hmake, hroot, -⟩ :=
      Merkle.PartialTree.exists_branch hextract hmem
    exact ⟨hashes, path, branch, hmake, hroot⟩
  · intro i w raw height proof hview hnew hrecorded hdepth
    have hc : c.Follows ⟨checkpoint, lowest⟩ ((startingAt checkpoint lowest).taken headers) :=
      (follows_startingAt checkpoint lowest).addAll headers
    have hbest : c.view.bestHeight = c.bestHeight := rfl
    obtain ⟨m, hgenuine⟩ := Registration.genuine_of_recorded hnew hrecorded
    obtain ⟨header, hat, hproved⟩ := hgenuine.proved
    obtain ⟨hashes, path, branch, hmake, hroot⟩ :=
      Registration.exists_branch_of_provedRoot hproved
    have hconfirmed := hgenuine.confirmed
    have hnonneg := hgenuine.height_nonneg
    rw [hview] at hat
    rw [hview, hbest] at hconfirmed
    have hbelow := ((hc.isSome_headerAt height.toNat).mp (Option.isSome_of_eq_some hat)).2
    have hcount := hc.confirmations_eq hview hat (by omega) hroot
    refine ⟨header, hashes, path, branch, hat, hmake, ?_, ?_⟩
    · rw [hcount]
      omega
    · rw [hcount]
      omega

end HeaderChain

/-! ### A block of two transactions -/

namespace Example

/-- The header that a chain begins with. -/
def checkpoint : Header := headerWith (.replicate 32 0)

/-- The name of its block. -/
def checkpointName : BlockHash :=
  ⟨.ofNat 32 0x9f54dbfe94217c473e9acd5f52303d85ce1ef5e563a7e55b378ad555089fdd4d⟩

/-- The header of a block with the deposit and the release. -/
def sharedBlock : Header := { headerWith sharedRoot with parent := checkpointName }

/-- The chain that has taken up the block. -/
def sharedChain : HeaderChain := ((HeaderChain.startingAt checkpoint 100).addAll [sharedBlock]).1

/-- A call that sees the chain and asks for one confirmation. -/
def onSharedChain : Invocation where
  constants := { constants with btcConfirmations := 1 }
  chain := sharedChain.view
  block := ⟨1, 0⟩

/-- What there is to compute about the block and the release: the block comes after the checkpoint
and has another name; the proof leads to its root; the release is sound, and the first federation
sends it. -/
theorem bytes_change :
    (checkpoint.hash = checkpointName ∧ sharedBlock.hash ≠ checkpointName) ∧
      (Registration.provedRoot (Registration.rawTxid change.encodePlain)
        secondOfTwo).toOption = some sharedRoot ∧
      (Registration.soundTransaction change.encodePlain).toOption = some change ∧
      change.spendsFrom federation = true := by
  decide +kernel

/-- The block is the tip of the chain. -/
theorem tip_sharedChain :
    sharedChain.bestHeight = 101 ∧ sharedChain.headerAt 101 = some sharedBlock := by
  obtain ⟨⟨hname, hother⟩, -⟩ := bytes_change
  have hparent : sharedBlock.parent = checkpoint.hash := hname.symm
  rw [← hname] at hother
  rw [sharedChain]
  exact HeaderChain.headerAt_addAll_child 100 hparent hother

/-- The call sees the chain. -/
theorem chain_onSharedChain : onSharedChain.chain = sharedChain.view := by
  rw [onSharedChain]

/-- The proof leads to the root in the header of the block. -/
theorem buried_change :
    Registration.Buried onSharedChain change.encodePlain 101 secondOfTwo := by
  obtain ⟨hbest, hat⟩ := tip_sharedChain
  obtain ⟨-, hproved, -⟩ := bytes_change
  have hone : onSharedChain.constants.btcConfirmations = 1 := rfl
  constructor
  case height_nonneg => decide
  case confirmed =>
    rw [chain_onSharedChain, HeaderChain.view, hbest, hone]
    decide
  case proved =>
    refine ⟨sharedBlock, ?_, ?_⟩
    · rw [chain_onSharedChain]
      simp only [HeaderChain.view]
      exact hat
    · exact eq_ok_of_toOption hproved

/-- The release is recorded. -/
theorem contains_register_change :
    (Registration.register onSharedChain change.encodePlain 101 secondOfTwo
      ⟨.initial, .empty, []⟩).2.state.processed.contains
        (Registration.rawTxid change.encodePlain) = true := by
  obtain ⟨-, -, hsound, hspends⟩ := bytes_change
  have hexamine := Registration.examine_of_buried (s := .initial) buried_change rfl
  rw [eq_ok_of_toOption hsound] at hexamine
  have hkept := Registration.register_of_spendsFrom (w := ⟨.initial, .empty, []⟩) hexamine
    ⟨federation, List.mem_cons_self, hspends⟩
  rw [hkept, Registration.state_of_keep, SortedMap.contains, SortedMap.get?_insert_self]
  rfl

end Example

namespace HeaderChain

open Example

/-- The release is recorded from the block at the tip, and has the one confirmation that is asked
for. -/
theorem confirmations_of_recorded_second_of_two :
    (Registration.register onSharedChain change.encodePlain 101 secondOfTwo
        ⟨.initial, .empty, []⟩).2.state.processed.contains
          (Registration.rawTxid change.encodePlain) = true ∧
      ∃ header hashes path branch, sharedChain.headerAt 101 = some header ∧
        Merkle.Branch.make hashes path = .ok branch ∧
        Query.confirmations onSharedChain (Registration.rawTxid change.encodePlain) header.hash
          branch = 1 := by
  obtain ⟨hbest, -⟩ := tip_sharedChain
  have hmost : Query.maxDepth = 4320 := rfl
  have hdepth : (sharedChain.bestHeight : Int) - 101 ≤ Query.maxDepth := by omega
  have hone : (sharedChain.bestHeight : Int) - 101 + 1 = 1 := by omega
  obtain ⟨-, hconfirmed⟩ := confirmations_of_recorded checkpoint 100 [sharedBlock]
  obtain ⟨header, hashes, path, branch, hat, hmake, hcount, -⟩ :=
    hconfirmed onSharedChain ⟨.initial, .empty, []⟩ change.encodePlain 101 secondOfTwo
      chain_onSharedChain rfl contains_register_change hdepth
  exact ⟨contains_register_change, header, hashes, path, branch, hat, hmake, hcount.trans hone⟩

end HeaderChain

end TwoWayPeg
