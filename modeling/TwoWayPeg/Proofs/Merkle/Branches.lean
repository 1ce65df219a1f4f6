import TwoWayPeg.Proofs.Merkle.Climbing

/-!
# Branches of the tree of a block

The branch of a leaf goes through one node of each row. The node above a node stands at half its
place, rounded down, and its sibling is its neighbour, or the node itself where it is the last of a
row and has none. So the places on the way up are what is left of the path when its lowest bits are
taken away, and the branch leads to the only node of the highest row.

In the other direction, a branch that leads to the root has joined in its last step what the tree
joins there, if nothing collides, and so the node that it had reached before is in the row below.
Going down row by row, the leaf is one of the leaves.

* `le_two_pow_height`, `length_row_le_one`: the row at the height of the tree has one node.
* `Branch.getElem?_climb`: climbing the siblings of a node gives the node above it.
* `Branch.mem_row_of_climb`: what climbs into a row comes from the rows below.
* `Branch.complete_and_sound`: the branches of a block prove its leaves and nothing else.
-/

namespace TwoWayPeg.Merkle

/-! ### The height of a tree -/

/-- The height is counted up to a row with a single node. -/
theorem width_heightFrom {count : Nat} (fuel start : Nat) (h : width count (start + fuel) ≤ 1) :
    width count (heightFrom count fuel start) ≤ 1 := by
  induction fuel generalizing start with
  | zero => exact h
  | succ fuel ih =>
    rw [heightFrom]
    split
    · next hrow => exact hrow
    · exact ih (start + 1) (by rwa [Nat.add_right_comm])

/-- A row with a single node is high enough for all leaves. -/
theorem le_two_pow_of_width {count k : Nat} (h : width count k ≤ 1) : count ≤ 2 ^ k := by
  rw [width, Nat.shiftLeft_eq, Nat.one_mul, Nat.shiftRight_eq_div_pow] at h
  have hpos := Nat.two_pow_pos k
  have hlt := (Nat.div_lt_iff_lt_mul hpos).mp (Nat.lt_succ_of_le h)
  omega

/-- **A tree is high enough for its leaves.** -/
theorem le_two_pow_height (count : Nat) : count ≤ 2 ^ height count := by
  refine le_two_pow_of_width (width_heightFrom count 0 ?_)
  rw [Nat.zero_add]
  exact width_le_one (Nat.le_of_lt Nat.lt_two_pow_self)

/-- A row has half as many nodes as the row below, and one more where that number is odd. -/
theorem length_rowAbove (row : List Node) : (rowAbove row).length = (row.length + 1) / 2 := by
  induction row using rowAbove.induct with
  | case1 => rfl
  | case2 last => simp [rowAbove]
  | case3 left right rest ih =>
    rw [rowAbove, List.length_cons, ih, List.length_cons, List.length_cons]
    omega

/-- A row has a single node where all leaves of a full tree of its height could have been. -/
theorem length_row_le_one {n : Nat} {row : List Node} (h : row.length ≤ 2 ^ n) :
    (rowAbove^[n] row).length ≤ 1 := by
  induction n generalizing row with
  | zero => exact h
  | succ n ih =>
    rw [Nat.pow_succ'] at h
    rw [Function.iterate_succ_apply]
    refine ih ?_
    rw [length_rowAbove]
    omega

/-- The top after some rows is the first node of the last of them. -/
theorem topAfter_eq (n : Nat) (row : List Node) : topAfter n row = (rowAbove^[n] row)[0]? := by
  induction n generalizing row with
  | zero => exact List.head?_eq_getElem?
  | succ n ih => exact ih (rowAbove row)

namespace Branch

/-! ### Siblings -/

/-- The place beside a place: places are taken together in pairs. -/
def beside (i : Nat) : Nat := if i % 2 = 1 then i - 1 else i + 1

/-- The node that the node at a place is joined with: its neighbour, or itself where it is the last
of the row and has none. -/
def sibling? (row : List Node) (i : Nat) : Option Node := row[beside i]?.or row[i]?

/-- The siblings on the way from a place of a row up through a number of rows. -/
def siblings : Nat → List Node → Nat → List Node
  | 0, _, _ => []
  | n + 1, row, i => (sibling? row i).toList ++ siblings n (rowAbove row) (i / 2)

/-- The node above a node joins it with its sibling, which stands on the left of odd places. -/
theorem exists_sibling? {row : List Node} {i : Nat} {x : Node} (h : row[i]? = some x) :
    ∃ s, sibling? row i = some s ∧
      (rowAbove row)[i / 2]? = some (if i % 2 = 1 then join s x else join x s) := by
  induction row using rowAbove.induct generalizing i with
  | case1 => cases h
  | case2 last =>
    obtain ⟨rfl, rfl⟩ : i = 0 ∧ last = x := by
      cases i with
      | zero => exact ⟨rfl, Option.some.inj h⟩
      | succ i => cases h
    exact ⟨last, rfl, rfl⟩
  | case3 left right rest ih =>
    rcases i with - | - | i
    · cases h
      exact ⟨right, rfl, rfl⟩
    · cases h
      exact ⟨left, rfl, rfl⟩
    · -- two nodes further on, everything is as in the rest of the row
      obtain ⟨s, hs, habove⟩ := ih (i := i) h
      have hhalf : (i + 2) / 2 = i / 2 + 1 := by omega
      have hodd : (i + 2) % 2 = i % 2 := by omega
      have hbeside : beside (i + 2) = beside i + 2 := by
        rw [beside, beside, hodd]
        split
        · omega
        · rfl
      refine ⟨s, ?_, ?_⟩
      · rw [sibling?, hbeside]
        exact hs
      · rw [hhalf, hodd]
        exact habove

/-- **Climbing the siblings of a node gives the node above it**, as many rows higher as there are
siblings. -/
theorem getElem?_climb (n : Nat) {row : List Node} {i : Nat} {x : Node} (h : row[i]? = some x) :
    (siblings n row i).length = n ∧
      (rowAbove^[n] row)[i / 2 ^ n]? = some (climb (siblings n row i) i x) := by
  induction n generalizing row i x with
  | zero =>
    rw [Nat.pow_zero, Nat.div_one]
    exact ⟨rfl, h⟩
  | succ n ih =>
    obtain ⟨s, hs, habove⟩ := exists_sibling? h
    obtain ⟨hlength, hclimb⟩ := ih habove
    have hsiblings : siblings (n + 1) row i = s :: siblings n (rowAbove row) (i / 2) := by
      rw [siblings, hs]
      rfl
    rw [Nat.div_div_eq_div_mul, ← Nat.pow_succ'] at hclimb
    rw [hsiblings, List.length_cons, hlength, Function.iterate_succ_apply, hclimb, climb]
    exact ⟨rfl, rfl⟩

/-! ### Climbing back down -/

/-- The byte strings that climbing hashes. -/
def climbedPairs : List Node → Nat → Node → List Bytes
  | [], _, _ => []
  | sibling :: rest, path, node =>
    if path % 2 = 1 then
      pair sibling node :: climbedPairs rest (path / 2) (join sibling node)
    else pair node sibling :: climbedPairs rest (path / 2) (join node sibling)

/-- **What climbs into a row comes from the rows below**, if nothing collides. -/
theorem mem_row_of_climb {row : List Node} {top : Nat} {hashes : List Node} {path : Nat}
    {node : Node}
    (hfree : Sha256.CollisionFree (pairsUpTo top row ++ climbedPairs hashes path node))
    {j : Nat} (hj : j + hashes.length ≤ top)
    (h : climb hashes path node ∈ rowAbove^[j + hashes.length] row) : node ∈ rowAbove^[j] row := by
  induction hashes generalizing path node j with
  | nil => exact h
  | cons sibling rest ih =>
    rw [List.length_cons] at hj h
    have hrow : j + (rest.length + 1) = j + 1 + rest.length := by omega
    rw [hrow] at h hj
    have hlast : j < top := by omega
    -- the pair that is joined first is known to the tree
    have hknown {l r l' r' : Node} (hpair : pair l r ∈ climbedPairs (sibling :: rest) path node)
        (hpair' : pair l' r' ∈ pairsUpTo top row) (hjoin : join l r = join l' r') :
        l = l' ∧ r = r' :=
      eq_of_pair_eq (hfree _ (List.mem_append_right _ hpair) _ (List.mem_append_left _ hpair')
        hjoin)
    rw [climb] at h
    rw [climbedPairs] at hfree hknown
    split at h
    · next hodd =>
      rw [if_pos hodd] at hfree hknown
      have hless := hfree.subset (List.append_subset.mpr ⟨List.subset_append_left _ _,
        fun b hb => List.mem_append_right _ (List.mem_cons_of_mem _ hb)⟩)
      obtain ⟨l, -, r, hr, hpair, hjoin⟩ := exists_of_mem_row_succ hlast (ih hless hj h)
      obtain ⟨-, rfl⟩ := hknown List.mem_cons_self hpair hjoin
      exact hr
    · next heven =>
      rw [if_neg heven] at hfree hknown
      have hless := hfree.subset (List.append_subset.mpr ⟨List.subset_append_left _ _,
        fun b hb => List.mem_append_right _ (List.mem_cons_of_mem _ hb)⟩)
      obtain ⟨l, hl, r, -, hpair, hjoin⟩ := exists_of_mem_row_succ hlast (ih hless hj h)
      obtain ⟨rfl, -⟩ := hknown List.mem_cons_self hpair hjoin
      exact hl

/-- A branch that can be made has the siblings and the path that it is made of. -/
theorem eq_of_make {hashes : List Node} {path : UInt32} {b : Branch}
    (h : make hashes path = .ok b) : b.hashes = hashes ∧ b.path = path := by
  unfold make at h
  split at h
  · cases h
  · split at h
    · cases h
      exact ⟨rfl, rfl⟩
    · cases h

/-! ### The branches of a block -/

/-- **The branches of a block prove its leaves and nothing else.** A block with at least one leaf
and no more than a path can number has a root, the only node of the row at the height of the tree.
The siblings of every leaf, with its place as the path, are a branch to the root. If nothing
collides of what the tree and a branch hash, then a branch that is as long as the tree is high and
leads to the root starts from a leaf of the block. -/
theorem complete_and_sound {leaves : List Txid} (hne : leaves ≠ [])
    (hcount : leaves.length ≤ UInt32.size) :
    ∃ root, root? leaves = some root ∧
      rowAbove^[height leaves.length] (leaves.map Txid.bytes) = [root] ∧
      (∀ i (hi : i < leaves.length),
        ∃ b, make (siblings (height leaves.length) (leaves.map Txid.bytes) i) (UInt32.ofNat i) =
            .ok b ∧
          b.hashes.length = height leaves.length ∧ b.path.toNat = i ∧
          b.rootFrom leaves[i] = root) ∧
      ∀ hashes path b leaf, make hashes path = .ok b → hashes.length = height leaves.length →
        Sha256.CollisionFree (pairsUpTo (height leaves.length) (leaves.map Txid.bytes) ++
          climbedPairs hashes path.toNat leaf.bytes) →
        b.rootFrom leaf = root → leaf ∈ leaves := by
  have hheight : height leaves.length ≤ maxBranchHashes := height_le hcount
  have hclimb {i : Nat} (hi : i < leaves.length) :
      (siblings (height leaves.length) (leaves.map Txid.bytes) i).length = height leaves.length ∧
        root? leaves = some (climb (siblings (height leaves.length) (leaves.map Txid.bytes) i) i
          leaves[i].bytes) := by
    have hleaf : (leaves.map Txid.bytes)[i]? = some leaves[i].bytes := by
      rw [List.getElem?_map, List.getElem?_eq_getElem hi, Option.map_some]
    obtain ⟨hlength, hup⟩ := getElem?_climb (height leaves.length) hleaf
    -- there is one place in the highest row
    rw [Nat.div_eq_of_lt (Nat.lt_of_lt_of_le hi (le_two_pow_height _))] at hup
    exact ⟨hlength, by rw [root?, topAfter_eq, hup]⟩
  obtain ⟨-, hroot⟩ := hclimb (List.length_pos_iff.mpr hne)
  refine ⟨_, hroot, ?_, ?_, ?_⟩
  · have hfull : (leaves.map Txid.bytes).length ≤ 2 ^ height leaves.length := by
      rw [List.length_map]
      exact le_two_pow_height _
    have hsingle := length_row_le_one hfull
    have hmem := mem_row_of_topAfter hroot
    obtain ⟨x, hx⟩ := List.length_eq_one_iff.mp
      (Nat.le_antisymm hsingle (List.length_pos_of_mem hmem))
    rw [hx, List.mem_singleton] at hmem
    rw [hx, hmem]
  · intro i hi
    obtain ⟨hlength, hroot'⟩ := hclimb hi
    have hplace : i < 2 ^ (siblings (height leaves.length) (leaves.map Txid.bytes) i).length := by
      rw [hlength]
      exact Nat.lt_of_lt_of_le hi (le_two_pow_height _)
    obtain ⟨b, hmake, hrootFrom⟩ := exists_make (by rw [hlength]; exact hheight) hplace
    obtain ⟨hhashes, hpath⟩ := eq_of_make hmake
    refine ⟨b, hmake, by rw [hhashes, hlength], ?_, ?_⟩
    · rw [hpath]
      exact UInt32.toNat_ofNat_of_lt' (Nat.lt_of_lt_of_le hi hcount)
    · rw [hrootFrom]
      exact Option.some.inj (hroot'.symm.trans hroot)
  · intro hashes path b leaf hmake hlength hfree hleads
    obtain ⟨rfl, rfl⟩ := eq_of_make hmake
    have hmem := mem_row_of_topAfter hroot
    rw [← hleads, rootFrom] at hmem
    have hleaf : leaf.bytes ∈ rowAbove^[0] (leaves.map Txid.bytes) := by
      refine mem_row_of_climb hfree (j := 0) (by omega) ?_
      rw [hlength, Nat.zero_add]
      exact hmem
    obtain ⟨leaf', hleaf', hbytes⟩ := List.mem_map.mp hleaf
    have hsame : leaf' = leaf := congrArg Txid.mk hbytes
    rw [← hsame]
    exact hleaf'

/-- Three leaves, of which the last one has no neighbour. -/
def threeLeaves : List Txid := [⟨.replicate 32 1⟩, ⟨.replicate 32 2⟩, ⟨.replicate 32 3⟩]

/-- The branch of the last of three leaves has the leaf itself as its first sibling. -/
theorem complete_and_sound_three :
    let leaf : Txid := ⟨.replicate 32 3⟩
    let hashes := [leaf.bytes, join (.replicate 32 1) (.replicate 32 2)]
    (threeLeaves ≠ [] ∧ threeLeaves.length ≤ UInt32.size ∧
        Sha256.CollisionFree (pairsUpTo (height threeLeaves.length) (threeLeaves.map Txid.bytes) ++
          climbedPairs hashes 2 leaf.bytes)) ∧
      ∃ root b, root? threeLeaves = some root ∧ make hashes 2 = .ok b ∧ b.rootFrom leaf = root ∧
        leaf ∈ threeLeaves := by
  intro leaf hashes
  have hne : threeLeaves ≠ [] := List.cons_ne_nil _ _
  have hcount : threeLeaves.length ≤ UInt32.size := by decide
  have hfree : Sha256.CollisionFree (pairsUpTo (height threeLeaves.length)
      (threeLeaves.map Txid.bytes) ++ climbedPairs hashes 2 leaf.bytes) := by
    decide +kernel
  obtain ⟨root, hroot, -, hcomplete, hsound⟩ := complete_and_sound hne hcount
  obtain ⟨b, hmake, -, -, hleads⟩ := hcomplete 2 (by decide)
  have hmake' : make hashes 2 = .ok b := hmake
  exact ⟨⟨hne, hcount, hfree⟩, root, b, hroot, hmake', hleads,
    hsound hashes 2 b leaf hmake' rfl hfree hleads⟩

end Branch

end TwoWayPeg.Merkle
