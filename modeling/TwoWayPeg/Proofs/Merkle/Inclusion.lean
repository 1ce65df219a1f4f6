import Mathlib.Data.List.Nodup
import Mathlib.Logic.Function.Iterate
import TwoWayPeg.Merkle.PartialTree

/-!
# What a partial tree proves

Whoever sends a partial tree chooses its number of leaves, and with it the height at which proved
leaves are found. If no two of the byte strings that are hashed collide, a way down from the root of
a block goes through the tree of that block. It ends in the row of the leaves if the heights are the
same. A higher partial tree would have to go on below the leaves, where only a text of 64 bytes can
be taken for a pair of nodes, and a lower one ends in a row of inner nodes, each of which is the
digest of 64 bytes.

* `PartialTree.under_of_visit`: every proved leaf is found below the node that a visit gives.
* `mem_row_of_under`: a way down stays within the tree of the block.
* `mem_or_length_eq`: what is proved is a text of the block, or it has 64 bytes.
-/

namespace TwoWayPeg

/-- No two different byte strings of a list have one digest. -/
def Sha256.CollisionFree (bs : List Bytes) : Prop :=
  ∀ a ∈ bs, ∀ b ∈ bs, Sha256.double a = Sha256.double b → a = b

/-- Collisions in a list can be looked for. -/
instance (bs : List Bytes) : Decidable (Sha256.CollisionFree bs) :=
  inferInstanceAs (Decidable (∀ a ∈ bs, ∀ b ∈ bs, Sha256.double a = Sha256.double b → a = b))

/-- Nothing collides if all digests are different. -/
theorem Sha256.collisionFree_of_nodup {bs : List Bytes} (h : (bs.map double).Nodup) :
    CollisionFree bs :=
  List.inj_on_of_nodup_map h

/-- Parts of a list without collisions are without collisions. -/
theorem Sha256.CollisionFree.subset {bs bs' : List Bytes} (h : CollisionFree bs)
    (hsub : bs' ⊆ bs) : CollisionFree bs' :=
  fun a ha b hb => h a (hsub ha) b (hsub hb)

namespace Merkle

/-! ### Joined nodes -/

/-- The byte string that is hashed to join two nodes. -/
def pair (left right : Node) : Bytes := left.toList ++ right.toList

/-- Two nodes are joined by hashing their bytes. -/
theorem join_eq (left right : Node) : join left right = Sha256.double (pair left right) := rfl

/-- Two nodes together have 64 bytes. -/
theorem length_pair (left right : Node) : (pair left right).length = 64 := by
  rw [pair, List.length_append, left.length_eq, right.length_eq]

/-- The bytes tell both nodes. -/
theorem eq_of_pair_eq {l r l' r' : Node} (h : pair l r = pair l' r') : l = l' ∧ r = r' := by
  obtain ⟨hl, hr⟩ := List.append_inj h (by rw [l.length_eq, l'.length_eq])
  exact ⟨FixedBytes.ext hl, FixedBytes.ext hr⟩

/-- The byte strings that are hashed for the row above a row. -/
def pairs : List Node → List Bytes
  | [] => []
  | [last] => [pair last last]
  | left :: right :: rest => pair left right :: pairs rest

/-- The byte strings that are hashed for a number of rows above a row. -/
def pairsUpTo : Nat → List Node → List Bytes
  | 0, _ => []
  | n + 1, row => pairs row ++ pairsUpTo n (rowAbove row)

/-- For the root over two leaves, nothing is hashed but the two of them. -/
theorem pairsUpTo_pair (left right : Node) :
    pairsUpTo (height 2) [left, right] = [pair left right] := rfl

/-- A node of the row above joins two nodes of the row. -/
theorem exists_of_mem_rowAbove {row : List Node} {y : Node} (h : y ∈ rowAbove row) :
    ∃ l ∈ row, ∃ r ∈ row, pair l r ∈ pairs row ∧ y = join l r := by
  induction row using rowAbove.induct with
  | case1 => cases h
  | case2 last =>
    rw [rowAbove, List.mem_singleton] at h
    exact ⟨last, List.mem_singleton_self _, last, List.mem_singleton_self _,
      List.mem_singleton_self _, h⟩
  | case3 left right rest ih =>
    rw [rowAbove] at h
    rcases List.mem_cons.mp h with h | h
    · exact ⟨left, List.mem_cons_self, right, List.mem_cons_of_mem _ List.mem_cons_self,
        List.mem_cons_self, h⟩
    · obtain ⟨l, hl, r, hr, hpair, hy⟩ := ih h
      refine ⟨l, ?_, r, ?_, List.mem_cons_of_mem _ hpair, hy⟩
      · exact List.mem_cons_of_mem _ (List.mem_cons_of_mem _ hl)
      · exact List.mem_cons_of_mem _ (List.mem_cons_of_mem _ hr)

/-- What is hashed for one of the rows is among what is hashed for all of them. -/
theorem pairs_subset_pairsUpTo {n j : Nat} (hj : j < n) (row : List Node) :
    pairs (rowAbove^[j] row) ⊆ pairsUpTo n row := by
  induction n generalizing j row with
  | zero => exact absurd hj (Nat.not_lt_zero j)
  | succ n ih =>
    rw [pairsUpTo]
    cases j with
    | zero => exact List.subset_append_left _ _
    | succ j =>
      rw [Function.iterate_succ_apply]
      exact List.Subset.trans (ih (Nat.lt_of_succ_lt_succ hj) _) (List.subset_append_right _ _)

/-- A node of a higher row joins two nodes of the row below. -/
theorem exists_of_mem_row_succ {n j : Nat} (hj : j < n) {row : List Node} {y : Node}
    (h : y ∈ rowAbove^[j + 1] row) :
    ∃ l ∈ rowAbove^[j] row, ∃ r ∈ rowAbove^[j] row,
      pair l r ∈ pairsUpTo n row ∧ y = join l r := by
  rw [Function.iterate_succ_apply'] at h
  obtain ⟨l, hl, r, hr, hpair, hy⟩ := exists_of_mem_rowAbove h
  exact ⟨l, hl, r, hr, pairs_subset_pairsUpTo hj row hpair, hy⟩

/-- The top after some rows is in the last of them. -/
theorem mem_row_of_topAfter {n : Nat} {row : List Node} {root : Node}
    (h : topAfter n row = some root) : root ∈ rowAbove^[n] row := by
  induction n generalizing row with
  | zero => exact List.mem_of_mem_head? h
  | succ n ih =>
    rw [Function.iterate_succ_apply]
    exact ih h

/-- The root over two leaves joins them. -/
theorem root?_pair (left right : Txid) :
    root? [left, right] = some (join left.bytes right.bytes) := by
  have hheight : height [left, right].length = 1 := by
    rw [List.length_cons, List.length_singleton]
    rfl
  rw [root?, hheight]
  rfl

/-! ### Ways down -/

/-- A node is found a number of joins below another, where the joined pairs are known. -/
inductive Under (known : List Bytes) : Nat → Node → Node → Prop
  | here (x : Node) : Under known 0 x x
  | left {n : Nat} {x l : Node} (r : Node) (hpair : pair l r ∈ known) (hx : Under known n x l) :
    Under known (n + 1) x (join l r)
  | right {n : Nat} {x r : Node} (l : Node) (hpair : pair l r ∈ known) (hx : Under known n x r) :
    Under known (n + 1) x (join l r)

/-- What is found stays found when more is known. -/
theorem Under.mono {known known' : List Bytes} {n : Nat} {x y : Node} (h : Under known n x y)
    (hsub : known ⊆ known') : Under known' n x y := by
  induction h with
  | here x => exact .here x
  | left r hpair _ ih => exact .left r (hsub hpair) ih
  | right l hpair _ ih => exact .right l (hsub hpair) ih

namespace PartialTree

/-- The byte strings that a visit hashes. -/
def visitedPairs (count : Nat) : Nat → Nat → List Bool → List Node → List Bytes
  | height + 1, position, true :: flags, hashes =>
    match visit count height (2 * position) flags hashes with
    | .error _ => []
    | .ok left =>
      visitedPairs count height (2 * position) flags hashes ++
        if 2 * position + 1 < width count height then
          match visit count height (2 * position + 1) left.flags left.hashes with
          | .error _ => []
          | .ok right =>
            pair left.node right.node ::
              visitedPairs count height (2 * position + 1) left.flags left.hashes
        else [pair left.node left.node]
  | _, _, _, _ => []

/-- A visit below a node with two children hashes what both visits hash, and the two children. -/
theorem visitedPairs_of_two {count height position : Nat} (flags : List Bool)
    (hashes : List Node) {left right : Visit} (hwidth : 2 * position + 1 < width count height)
    (hleft : visit count height (2 * position) flags hashes = .ok left)
    (hright : visit count height (2 * position + 1) left.flags left.hashes = .ok right) :
    visitedPairs count (height + 1) position (true :: flags) hashes =
      visitedPairs count height (2 * position) flags hashes ++
        pair left.node right.node ::
          visitedPairs count height (2 * position + 1) left.flags left.hashes := by
  simp only [visitedPairs, hleft, hright, if_pos hwidth]

/-- A visit below a node with one child hashes what the visit there hashes, and the child twice. -/
theorem visitedPairs_of_one {count height position : Nat} (flags : List Bool)
    (hashes : List Node) {left : Visit} (hwidth : ¬ 2 * position + 1 < width count height)
    (hleft : visit count height (2 * position) flags hashes = .ok left) :
    visitedPairs count (height + 1) position (true :: flags) hashes =
      visitedPairs count height (2 * position) flags hashes ++ [pair left.node left.node] := by
  simp only [visitedPairs, hleft, if_neg hwidth]

/-- Every proved leaf is found below the visited node, at the bottom of the tree. -/
theorem under_of_visit {count height position : Nat} {flags : List Bool} {hashes : List Node}
    {v : Visit} (h : visit count height position flags hashes = .ok v) {t : Txid}
    (ht : t ∈ v.proved) :
    Under (visitedPairs count height position flags hashes) height t.bytes v.node := by
  induction height generalizing position flags hashes v with
  | zero =>
    cases flags with
    | nil => cases h
    | cons flag flags =>
      cases hashes with
      | nil => cases h
      | cons node hashes =>
        cases h
        cases flag with
        | false => cases ht
        | true =>
          rw [if_pos rfl, List.mem_singleton] at ht
          rw [ht]
          exact .here _
  | succ height ih =>
    cases flags with
    | nil => cases h
    | cons flag flags =>
      cases flag with
      | false =>
        cases hashes with
        | nil => cases h
        | cons node hashes =>
          cases h
          cases ht
      | true =>
        unfold visit at h
        split at h
        · cases h
        · next left hleft =>
          split at h
          · next hwidth =>
            split at h
            · cases h
            · next right hright =>
              rw [visitedPairs_of_two flags hashes hwidth hleft hright]
              split at h
              · cases h
              · cases h
                rcases List.mem_append.mp ht with ht | ht
                · refine .left _ (by simp) ((ih hleft ht).mono (by simp))
                · refine .right _ (by simp) ((ih hright ht).mono ?_)
                  intro b hb
                  simp [hb]
          · next hwidth =>
            rw [visitedPairs_of_one flags hashes hwidth hleft]
            cases h
            exact .left _ (by simp) ((ih hleft ht).mono (by simp))

/-- The byte strings that are hashed to find the root of a partial tree. -/
def hashedPairs (t : PartialTree) : List Bytes :=
  visitedPairs t.count.toNat (height t.count.toNat) 0 t.flagList t.hashes

/-- A tree that can be extracted has no more leaves than fit into a block, and its root and proved
leaves are what the visit of its root finds. -/
theorem exists_visit_of_extract {t : PartialTree} {root : Node} {proved : List Txid}
    (h : t.extract = .ok (root, proved)) :
    t.count.toNat ≤ maxTransactions ∧
      ∃ v, visit t.count.toNat (height t.count.toNat) 0 t.flagList t.hashes = .ok v ∧
        v.node = root ∧ v.proved = proved := by
  simp only [extract] at h
  split at h
  · cases h
  · split at h
    · cases h
    · next hcount =>
      split at h
      · cases h
      · split at h
        · cases h
        · split at h
          · cases h
          · next v hvisit =>
            split at h
            · cases h
            · split at h
              · cases h
              · cases h
                exact ⟨Nat.le_of_not_lt hcount, v, hvisit, rfl, rfl⟩

/-- Every proved leaf is found below the root. -/
theorem under_of_extract {t : PartialTree} {root : Node} {proved : List Txid}
    (h : t.extract = .ok (root, proved)) {txid : Txid} (hmem : txid ∈ proved) :
    Under t.hashedPairs (height t.count.toNat) txid.bytes root := by
  obtain ⟨-, v, hvisit, rfl, rfl⟩ := exists_visit_of_extract h
  exact under_of_visit hvisit hmem

/-- A tree leads to a root from the leaves that it proves. -/
theorem extract_of_rootFor {t : PartialTree} {txid : Txid} {root : Node}
    (h : t.rootFor txid = .ok root) : ∃ proved, t.extract = .ok (root, proved) ∧ txid ∈ proved := by
  unfold rootFor at h
  split at h
  · cases h
  · next node proved hextract =>
    split at h
    · next hmem =>
      cases h
      exact ⟨proved, hextract, hmem⟩
    · cases h

/-- What a partial tree proves is found below its root. -/
theorem under_of_rootFor {t : PartialTree} {txid : Txid} {root : Node}
    (h : t.rootFor txid = .ok root) :
    Under t.hashedPairs (height t.count.toNat) txid.bytes root := by
  obtain ⟨proved, hextract, hmem⟩ := extract_of_rootFor h
  exact under_of_extract hextract hmem

end PartialTree

/-! ### Inclusion -/

section Inclusion

variable {texts known : List Bytes} {top : Nat}

/-- A node of the tree that joins a known pair joins two nodes of the row below. -/
theorem exists_row_of_join_mem
    (hfree : Sha256.CollisionFree (texts ++ pairsUpTo top (texts.map Sha256.double) ++ known))
    (htexts : ∀ b ∈ texts, b.length ≠ 64) {j : Nat} (hj : j ≤ top) {l r : Node}
    (hpair : pair l r ∈ known) (hy : join l r ∈ rowAbove^[j] (texts.map Sha256.double)) :
    ∃ i, j = i + 1 ∧ l ∈ rowAbove^[i] (texts.map Sha256.double) ∧
      r ∈ rowAbove^[i] (texts.map Sha256.double) := by
  rw [join_eq] at hy
  cases j with
  | zero =>
    -- a leaf that joins two nodes is the digest of a text of 64 bytes
    obtain ⟨b, hb, hdigest⟩ := List.mem_map.mp hy
    have heq : b = pair l r := hfree b (by simp [hb]) (pair l r) (by simp [hpair]) hdigest
    have hlength := htexts b hb
    rw [heq, length_pair] at hlength
    exact absurd rfl hlength
  | succ i =>
    obtain ⟨l', hl', r', hr', hpair', hdigest⟩ :=
      exists_of_mem_row_succ (Nat.lt_of_succ_le hj) hy
    rw [join_eq] at hdigest
    have heq : pair l r = pair l' r' :=
      hfree (pair l r) (by simp [hpair]) (pair l' r') (by simp [hpair']) hdigest
    obtain ⟨rfl, rfl⟩ := eq_of_pair_eq heq
    exact ⟨i, rfl, hl', hr'⟩

/-- A way down through known pairs stays within the tree, if nothing collides and no text could be
taken for a pair. -/
theorem mem_row_of_under
    (hfree : Sha256.CollisionFree (texts ++ pairsUpTo top (texts.map Sha256.double) ++ known))
    (htexts : ∀ b ∈ texts, b.length ≠ 64) {k j : Nat} {x y : Node} (h : Under known k x y)
    (hj : j ≤ top) (hy : y ∈ rowAbove^[j] (texts.map Sha256.double)) :
    k ≤ j ∧ x ∈ rowAbove^[j - k] (texts.map Sha256.double) := by
  induction h generalizing j with
  | here x => exact ⟨Nat.zero_le j, hy⟩
  | left r hpair _ ih =>
    obtain ⟨i, rfl, hl, -⟩ := exists_row_of_join_mem hfree htexts hj hpair hy
    obtain ⟨hle, hmem⟩ := ih (Nat.le_of_succ_le hj) hl
    refine ⟨Nat.succ_le_succ hle, ?_⟩
    rw [Nat.add_sub_add_right]
    exact hmem
  | right l hpair _ ih =>
    obtain ⟨i, rfl, -, hr⟩ := exists_row_of_join_mem hfree htexts hj hpair hy
    obtain ⟨hle, hmem⟩ := ih (Nat.le_of_succ_le hj) hr
    refine ⟨Nat.succ_le_succ hle, ?_⟩
    rw [Nat.add_sub_add_right]
    exact hmem

/-- **What is found below the root is a text of the block, or it has 64 bytes.** -/
theorem mem_or_length_eq {raw : Bytes} {root : Node} {k : Nat}
    (hfree : Sha256.CollisionFree
      (texts ++ pairsUpTo top (texts.map Sha256.double) ++ (raw :: known)))
    (htexts : ∀ b ∈ texts, b.length ≠ 64)
    (hroot : topAfter top (texts.map Sha256.double) = some root)
    (h : Under known k (Sha256.double raw) root) : raw ∈ texts ∨ raw.length = 64 := by
  have hless : Sha256.CollisionFree
      (texts ++ pairsUpTo top (texts.map Sha256.double) ++ known) := by
    refine hfree.subset (List.append_subset.mpr ⟨List.subset_append_left _ _, ?_⟩)
    intro b hb
    exact List.mem_append_right _ (List.mem_cons_of_mem raw hb)
  obtain ⟨hle, hmem⟩ :=
    mem_row_of_under hless htexts h (Nat.le_refl top) (mem_row_of_topAfter hroot)
  cases hdepth : top - k with
  | zero =>
    rw [hdepth] at hmem
    obtain ⟨b, hb, hdigest⟩ := List.mem_map.mp hmem
    have heq : b = raw := hfree b (by simp [hb]) raw (by simp) hdigest
    exact .inl (heq ▸ hb)
  | succ i =>
    rw [hdepth] at hmem
    have hi : i < top := by omega
    obtain ⟨l, -, r, -, hpair, hdigest⟩ := exists_of_mem_row_succ hi hmem
    have heq : raw = pair l r := hfree raw (by simp) (pair l r) (by simp [hpair]) hdigest
    rw [heq]
    exact .inr (length_pair l r)

end Inclusion

end Merkle

end TwoWayPeg
