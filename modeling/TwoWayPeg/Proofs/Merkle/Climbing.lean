import Mathlib.Algebra.GroupWithZero.Nat
import TwoWayPeg.Merkle.Branch
import TwoWayPeg.Proofs.Merkle.Inclusion

/-!
# From a partial tree to a branch

A partial tree is visited from its root downwards, and a branch is climbed from a leaf upwards. The
way down to a proved leaf, turned around, is a branch: at each node on the way the child that is not
on it is the sibling, and the path has a bit where that child stands on the left. A way that goes down
one node further thus adds the last sibling to the branch, and the highest bit to the path.

* `Branch.climb_concat`: the last sibling of a branch is joined on the side of the highest bit.
* `Under.exists_climb`: every way down can be climbed.
* `PartialTree.exists_branch`: every leaf that a partial tree proves has a branch to its root.
-/

namespace TwoWayPeg.Merkle

/-! ### The height of a tree -/

/-- A row that could hold all leaves at the bottom has a single node. -/
theorem width_le_one {count k : Nat} (h : count ≤ 2 ^ k) : width count k ≤ 1 := by
  rw [width, Nat.shiftLeft_eq, Nat.one_mul, Nat.shiftRight_eq_div_pow]
  have hpos := Nat.two_pow_pos k
  exact Nat.le_of_lt_succ ((Nat.div_lt_iff_lt_mul hpos).mpr (by omega))

/-- The height is counted no further than to the first row with a single node. -/
theorem heightFrom_le {count k : Nat} (hrow : width count k ≤ 1) (fuel : Nat) {start : Nat}
    (hstart : start ≤ k) : heightFrom count fuel start ≤ k := by
  induction fuel generalizing start with
  | zero => exact hstart
  | succ fuel ih =>
    rw [heightFrom]
    split
    · exact hstart
    · next hmore =>
      have hne : start ≠ k := by
        rintro rfl
        exact hmore hrow
      exact ih (by omega)

/-- A tree is no higher than it must be for its leaves. -/
theorem height_le {count k : Nat} (h : count ≤ 2 ^ k) : height count ≤ k :=
  heightFrom_le (width_le_one h) count (Nat.zero_le k)

/-! ### Climbing -/

namespace Branch

/-- The last sibling is joined on the side that the highest bit of the path says. -/
theorem climb_concat (hashes : List Node) (sibling : Node) (path : Nat) (node : Node) :
    climb (hashes ++ [sibling]) path node =
      if path / 2 ^ hashes.length % 2 = 1 then join sibling (climb hashes path node)
      else join (climb hashes path node) sibling := by
  induction hashes generalizing path node with
  | nil =>
    rw [List.length_nil, Nat.pow_zero, Nat.div_one]
    rfl
  | cons h rest ih =>
    have hbit : path / 2 / 2 ^ rest.length = path / 2 ^ (h :: rest).length := by
      rw [Nat.div_div_eq_div_mul, List.length_cons, Nat.pow_succ']
    rw [List.cons_append, climb, ih, hbit]
    rfl

/-- Bits of the path above the last sibling do not matter. -/
theorem climb_add_pow (hashes : List Node) (path : Nat) (node : Node) :
    climb hashes (path + 2 ^ hashes.length) node = climb hashes path node := by
  induction hashes generalizing path node with
  | nil => rfl
  | cons h rest ih =>
    have hpow : 2 ^ (h :: rest).length = 2 * 2 ^ rest.length := by
      rw [List.length_cons, Nat.pow_succ']
    have hhalf : (path + 2 ^ (h :: rest).length) / 2 = path / 2 + 2 ^ rest.length := by omega
    have hodd : (path + 2 ^ (h :: rest).length) % 2 = path % 2 := by omega
    rw [climb, hhalf, hodd, ih, climb]

/-- Siblings along a path that numbers them are a branch. -/
theorem exists_make {hashes : List Node} {path : Nat} (hlength : hashes.length ≤ maxBranchHashes)
    (hpath : path < 2 ^ hashes.length) :
    ∃ branch, make hashes (UInt32.ofNat path) = .ok branch ∧
      ∀ leaf, branch.rootFrom leaf = climb hashes path leaf.bytes := by
  have hword : 2 ^ hashes.length ≤ 2 ^ 32 := Nat.pow_le_pow_right (by decide) hlength
  have hnat : (UInt32.ofNat path).toNat = path :=
    UInt32.toNat_ofNat_of_lt' (Nat.lt_of_lt_of_le hpath hword)
  have hbits : (UInt32.ofNat path).toNat < 1 <<< hashes.length := by
    rw [hnat, Nat.shiftLeft_eq, Nat.one_mul]
    exact hpath
  refine ⟨⟨hashes, UInt32.ofNat path, hlength, hbits⟩, ?_, fun leaf => ?_⟩
  · rw [make, dif_neg (Nat.not_lt.mpr hlength), dif_pos hbits]
  · rw [rootFrom, hnat]

end Branch

/-- **Every way down can be climbed.** What is found below a node leads up to it through one sibling
for each node on the way. -/
theorem Under.exists_climb {known : List Bytes} {n : Nat} {x y : Node} (h : Under known n x y) :
    ∃ hashes path, hashes.length = n ∧ path < 2 ^ n ∧ Branch.climb hashes path x = y := by
  induction h with
  | here x => exact ⟨[], 0, rfl, Nat.one_pos, rfl⟩
  | @left n x l r _ _ ih =>
    -- the new sibling stands on the right, and no bit is added
    obtain ⟨hashes, path, rfl, hpath, rfl⟩ := ih
    refine ⟨hashes ++ [r], path, List.length_append, ?_, ?_⟩
    · exact Nat.lt_trans hpath (Nat.pow_lt_pow_succ (by decide))
    · rw [Branch.climb_concat, Nat.div_eq_of_lt hpath]
      rfl
  | @right n x r l _ _ ih =>
    -- the new sibling stands on the left, at the highest bit
    obtain ⟨hashes, path, rfl, hpath, rfl⟩ := ih
    refine ⟨hashes ++ [l], path + 2 ^ hashes.length, List.length_append, ?_, ?_⟩
    · rw [Nat.pow_succ']
      omega
    · rw [Branch.climb_concat, Branch.climb_add_pow, Nat.add_div_right _ (Nat.two_pow_pos _),
        Nat.div_eq_of_lt hpath]
      rfl

/-- **Every leaf that a partial tree proves has a branch to its root**, with as many siblings as the
tree is high. -/
theorem PartialTree.exists_branch {t : PartialTree} {root : Node} {proved : List Txid}
    (h : t.extract = .ok (root, proved)) {txid : Txid} (hmem : txid ∈ proved) :
    ∃ hashes path branch, Branch.make hashes path = .ok branch ∧
      branch.rootFrom txid = root ∧ hashes.length = height t.count.toNat := by
  obtain ⟨hcount, -⟩ := exists_visit_of_extract h
  have hheight : height t.count.toNat ≤ maxBranchHashes :=
    height_le (Nat.le_trans hcount (by decide))
  obtain ⟨hashes, path, hlength, hpath, hclimb⟩ := (under_of_extract h hmem).exists_climb
  rw [← hlength] at hheight hpath ⊢
  obtain ⟨branch, hmake, hroot⟩ := Branch.exists_make hheight hpath
  exact ⟨hashes, _, branch, hmake, (hroot txid).trans hclimb, rfl⟩

end TwoWayPeg.Merkle
