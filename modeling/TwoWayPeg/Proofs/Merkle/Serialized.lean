import TwoWayPeg.Merkle.PartialTree
import TwoWayPeg.Proofs.Bitcoin.Writing

/-!
# Which bytes are a partial tree

Whether bytes can be a partial tree is decided before they are taken apart, by adding up what the
two counts in them announce. A count can be any number of eight bytes, so an announced list can end
far behind the input and even behind the last position that there is. Then the check has no size
and refuses the bytes. In all other cases it has the exact sum, and it accepts the bytes if the
input ends there. What it accepts is never too long for the reader, so the reader always takes it
apart, and writing the tree gives the bytes back.

* `PartialTree.pack_flagList`: flags are packed into the bytes that they were taken from.
* `PartialTree.read_restores`: written trees are read back.
* `PartialTree.Serialized.exists_encode`: serialized trees are written ones.
* `PartialTree.declaredSize?_eq_some_iff`: the size that bytes announce.
* `PartialTree.sized_iff_serialized`: the check accepts exactly the serialized trees.
-/

namespace TwoWayPeg

/-! ### Counts and lists -/

/-- A count that is read has at most eight bytes. -/
theorem CompactSize.lt_limit_of_read {n : Nat} {b rest : Bytes} (h : read b = some (n, rest)) :
    n < limit := by
  have hwidth {width least : Nat} (hle : Bytes.capacity width ≤ limit) {tail : Bytes}
      (hread : readAbove width least tail = some (n, rest)) : n < limit :=
    Nat.lt_of_lt_of_le (readAbove_eq_some hread).2.2 hle
  cases b with
  | nil => cases h
  | cons mark tail =>
    simp only [read] at h
    split at h
    · exact hwidth (by decide) h
    · split at h
      · exact hwidth (by decide) h
      · split at h
        · exact hwidth (by decide) h
        · cases h
          exact Nat.lt_of_lt_of_le mark.toNat_lt (by decide)

/-- Bytes that are a multiple of a width are as many strings of that width. -/
theorem FixedBytes.exists_flatMap_toList {width n : Nat} {b : Bytes} (h : b.length = width * n) :
    ∃ xs : List (FixedBytes width), xs.length = n ∧ xs.flatMap toList = b := by
  induction n generalizing b with
  | zero => exact ⟨[], rfl, (List.length_eq_zero_iff.mp h).symm⟩
  | succ n ih =>
    rw [Nat.mul_succ] at h
    have hfirst : (b.take width).length = width := by
      rw [List.length_take]
      omega
    have hrest : (b.drop width).length = width * n := by
      rw [List.length_drop]
      omega
    obtain ⟨xs, hlength, hbytes⟩ := ih hrest
    refine ⟨⟨b.take width, hfirst⟩ :: xs, by rw [List.length_cons, hlength], ?_⟩
    rw [List.flatMap_cons, hbytes, List.take_append_drop]

/-- Strings of a width take that many bytes each. -/
theorem FixedBytes.length_flatMap_toList {width : Nat} (xs : List (FixedBytes width)) :
    (xs.flatMap toList).length = width * xs.length := by
  induction xs with
  | nil => rfl
  | cons x xs ih =>
    rw [List.flatMap_cons, List.length_append, ih, x.length_eq, List.length_cons, Nat.mul_succ,
      Nat.add_comm]

namespace Merkle.PartialTree

/-! ### Flags -/

/-- The eight flags of a byte make that byte. -/
theorem flagByte_testBit (x : UInt8) : flagByte ((List.range 8).map x.toNat.testBit) = x := by
  have hbyte : ∀ n < 256, flagByte ((List.range 8).map n.testBit) = UInt8.ofNat n := by
    decide +kernel
  rw [hbyte x.toNat x.toNat_lt, UInt8.ofNat_toNat]

/-- **Flags are packed into the bytes that they were taken from.** -/
theorem pack_flagList (t : PartialTree) : pack t.flagList = t.flags := by
  rw [flagList]
  induction t.flags with
  | nil => rfl
  | cons x rest ih =>
    rw [List.flatMap_cons]
    -- eight flags in front are one byte
    have hpack : pack ((List.range 8).map x.toNat.testBit ++
        rest.flatMap fun x => (List.range 8).map x.toNat.testBit) =
          flagByte ((List.range 8).map x.toNat.testBit) ::
            pack (rest.flatMap fun x => (List.range 8).map x.toNat.testBit) := rfl
    rw [hpack, flagByte_testBit, ih]

/-! ### Reading and writing -/

/-- **A written tree is read back**, if it keeps the limit for lists. -/
theorem read_restores {t : PartialTree} (h : t.encode.length ≤ maxListSize) :
    Reader.Restores read encode t := by
  intro rest
  simp only [encode, pack_flagList, CompactSize.encodeBytes, List.length_append,
    Bytes.length_ofNatLE] at h
  have hbytes : (t.hashes.flatMap FixedBytes.toList).length = 32 * t.hashes.length :=
    FixedBytes.length_flatMap_toList t.hashes
  have hfirst : withinLimit 32 t.hashes.length = true := by
    rw [withinLimit, decide_eq_true_iff]
    omega
  have hsecond : withinLimit 1 t.flags.length = true := by
    rw [withinLimit, decide_eq_true_iff]
    omega
  have hmost : maxListSize < CompactSize.limit := by decide
  have hcount := Reader.number_restores 4 t.count.toNat_lt
    (CompactSize.encode t.hashes.length ++ (t.hashes.flatMap FixedBytes.toList ++
      (CompactSize.encodeBytes t.flags ++ rest)))
  have hdigests := CompactSize.read_restores (n := t.hashes.length) (by omega)
    (t.hashes.flatMap FixedBytes.toList ++ (CompactSize.encodeBytes t.flags ++ rest))
  have hhashes : Reader.list (Reader.fixed 32) t.hashes.length
      (t.hashes.flatMap FixedBytes.toList ++ (CompactSize.encodeBytes t.flags ++ rest)) =
        some (t.hashes, CompactSize.encodeBytes t.flags ++ rest) :=
    Reader.list_restores (fun x _ => Reader.fixed_restores x) _
  have hflags := CompactSize.readBytes_restores (b := t.flags) (by omega) rest
  simp only [encode, pack_flagList, List.append_assoc, read, hcount, hdigests, hfirst, hhashes,
    hflags, hsecond, Bool.not_true, Bool.false_eq_true, if_false, if_true, UInt32.ofNat_toNat]

/-! ### Announced sizes -/

/-- Bytes begin as a serialized tree does: with four bytes, a count of digests, the digests, and a
count of further bytes. The counts are in their shortest form. -/
def Announces (b : Bytes) (digests flags : Nat) (rest : Bytes) : Prop :=
  digests < CompactSize.limit ∧ flags < CompactSize.limit ∧
    ∃ count hashes : Bytes, count.length = 4 ∧ hashes.length = 32 * digests ∧
      b = count ++ (CompactSize.encode digests ++ (hashes ++ (CompactSize.encode flags ++ rest)))

/-- The size of a tree with a number of digests and a number of bytes of flags. -/
def announcedSize (digests flags : Nat) : Nat :=
  4 + (CompactSize.encode digests).length + 32 * digests +
    ((CompactSize.encode flags).length + flags)

/-- Bytes are a serialized tree: nothing stands behind the announced bytes of flags, and none of
them is missing. -/
def Serialized (b : Bytes) : Prop :=
  ∃ digests flags, Announces b digests flags.length flags

/-- A position is a number that fits a machine word. -/
theorem position?_eq_some_iff {n m : Nat} : position? n = some m ↔ n = m ∧ n < UInt64.size := by
  unfold position?
  split
  · next h => simp [h]
  · next h => simp [h]

/-- Where an announced list ends: behind its count, by its items. -/
theorem listEnd?_eq_some_iff {size position stop : Nat} {b : Bytes} :
    listEnd? size b position = some stop ↔
      ∃ n front rest, b = front ++ (CompactSize.encode n ++ rest) ∧ front.length = position ∧
        n < CompactSize.limit ∧
        stop = position + (CompactSize.encode n).length + size * n ∧ stop < UInt64.size := by
  constructor
  · intro h
    unfold listEnd? tail? at h
    split at h
    · cases h
    next tail htail =>
    split at htail
    case isFalse => cases htail
    next hposition =>
    cases htail
    split at h
    · cases h
    next n rest hread =>
    split at h
    case h_2 => cases h
    next start bytes hstart hbytes =>
    obtain ⟨rfl, -⟩ := position?_eq_some_iff.mp hstart
    obtain ⟨rfl, -⟩ := position?_eq_some_iff.mp hbytes
    obtain ⟨rfl, hfits⟩ := position?_eq_some_iff.mp h
    have hdrop := CompactSize.read_canonical _ _ _ hread
    have hlength : (b.drop position).length - rest.length = (CompactSize.encode n).length := by
      rw [hdrop, List.length_append, Nat.add_sub_cancel]
    rw [hlength] at hfits ⊢
    refine ⟨n, b.take position, rest, ?_, ?_, CompactSize.lt_limit_of_read hread, rfl, hfits⟩
    · rw [← hdrop, List.take_append_drop]
    · rw [List.length_take]
      omega
  · rintro ⟨n, front, rest, rfl, rfl, hn, rfl, hfits⟩
    have htail : tail? (front ++ (CompactSize.encode n ++ rest)) front.length =
        some (CompactSize.encode n ++ rest) := by
      rw [tail?, if_pos (by simp), List.drop_left]
    have hlength : (CompactSize.encode n ++ rest).length - rest.length =
        (CompactSize.encode n).length := by
      rw [List.length_append, Nat.add_sub_cancel]
    have hstart : front.length + (CompactSize.encode n).length < UInt64.size := by omega
    have hbytes : size * n < UInt64.size := by omega
    simp only [listEnd?, htail, CompactSize.read_restores hn rest, hlength, position?,
      if_pos hstart, if_pos hbytes, if_pos hfits]

/-- What bytes announce is told by their beginning. -/
theorem Announces.unique {b rest rest' : Bytes} {digests digests' flags flags' : Nat}
    (h : Announces b digests flags rest) (h' : Announces b digests' flags' rest') :
    digests = digests' ∧ flags = flags' ∧ rest = rest' := by
  obtain ⟨hdigests, hflags, count, hashes, hcount, hhashes, rfl⟩ := h
  obtain ⟨hdigests', hflags', count', hashes', hcount', hhashes', heq⟩ := h'
  obtain ⟨-, htail⟩ := List.append_inj heq (hcount.trans hcount'.symm)
  have hread := CompactSize.read_restores hdigests (hashes ++ (CompactSize.encode flags ++ rest))
  rw [htail, CompactSize.read_restores hdigests'] at hread
  obtain ⟨hsame, hlists⟩ := Prod.mk.inj (Option.some.inj hread)
  have hlength : hashes'.length = hashes.length := by rw [hhashes', hhashes, hsame]
  obtain ⟨-, hback⟩ := List.append_inj hlists hlength
  have hread' := CompactSize.read_restores hflags rest
  rw [← hback, CompactSize.read_restores hflags'] at hread'
  obtain ⟨hsame', hrest⟩ := Prod.mk.inj (Option.some.inj hread')
  exact ⟨hsame.symm, hsame'.symm, hrest.symm⟩

/-- **The size that bytes announce** is the exact sum, and it is a position. There is none unless
the counts stand within the bytes. -/
theorem declaredSize?_eq_some_iff {b : Bytes} {size : Nat} :
    declaredSize? b = some size ↔
      ∃ digests flags rest, Announces b digests flags rest ∧
        size = announcedSize digests flags ∧ size < UInt64.size := by
  constructor
  · intro h
    unfold declaredSize? at h
    split at h
    · cases h
    next position hposition =>
    obtain ⟨digests, count, tail, hb, hcount, hdigests, hstart, -⟩ :=
      listEnd?_eq_some_iff.mp hposition
    obtain ⟨flags, front, rest, hb', hfront, hflags, hsize, hfits⟩ := listEnd?_eq_some_iff.mp h
    -- the digests are what stands between the two counts
    rw [hb, ← List.append_assoc] at hb'
    have hlength : (count ++ CompactSize.encode digests).length ≤ front.length := by
      rw [List.length_append]
      omega
    obtain ⟨hashes, rfl, htail⟩ : ∃ hashes,
        front = (count ++ CompactSize.encode digests) ++ hashes ∧
          tail = hashes ++ (CompactSize.encode flags ++ rest) := by
      rcases List.append_eq_append_iff.mp hb' with ⟨hashes, hfront', htail⟩ | ⟨more, hmore, htail⟩
      · exact ⟨hashes, hfront', htail⟩
      · have hnil : more = [] := by
          rw [hmore, List.length_append] at hlength
          exact List.length_eq_zero_iff.mp (by omega)
        rw [hnil, List.append_nil] at hmore
        rw [hnil, List.nil_append] at htail
        exact ⟨[], by rw [hmore, List.append_nil], htail.symm⟩
    rw [List.length_append, List.length_append] at hfront
    refine ⟨digests, flags, rest, ⟨hdigests, hflags, count, hashes, hcount, by omega, ?_⟩, ?_,
      hfits⟩
    · rw [hb, htail]
    · rw [announcedSize]
      omega
  · rintro ⟨digests, flags, rest, ⟨hdigests, hflags, count, hashes, hcount, hhashes, rfl⟩, rfl,
      hfits⟩
    have hfirst : listEnd? 32 (count ++ (CompactSize.encode digests ++
        (hashes ++ (CompactSize.encode flags ++ rest)))) 4 =
          some (4 + (CompactSize.encode digests).length + 32 * digests) :=
      listEnd?_eq_some_iff.mpr ⟨digests, count, _, rfl, hcount, hdigests, rfl, by
        rw [announcedSize] at hfits
        omega⟩
    simp only [declaredSize?, hfirst]
    refine listEnd?_eq_some_iff.mpr ⟨flags, count ++ (CompactSize.encode digests ++ hashes), rest,
      ?_, ?_, hflags, ?_, hfits⟩
    · simp
    · simp only [List.length_append]
      omega
    · rw [announcedSize]
      omega

/-! ### Serialized trees -/

/-- A tree that bytes announce and that ends with them has their length. -/
theorem Announces.length_eq {b rest : Bytes} {digests flags : Nat}
    (h : Announces b digests flags rest) :
    b.length + flags = announcedSize digests flags + rest.length := by
  obtain ⟨-, -, count, hashes, hcount, hhashes, rfl⟩ := h
  simp only [announcedSize, List.length_append]
  omega

/-- **The check accepts the serialized trees** among bytes that fit into memory. -/
theorem hasDeclaredSize_iff {b : Bytes} (h : b.length < UInt64.size) :
    hasDeclaredSize b = true ↔ Serialized b := by
  rw [hasDeclaredSize, beq_iff_eq, declaredSize?_eq_some_iff]
  constructor
  · rintro ⟨digests, flags, rest, hannounces, hsize, -⟩
    have hlength := hannounces.length_eq
    obtain rfl : flags = rest.length := by omega
    exact ⟨digests, rest, hannounces⟩
  · rintro ⟨digests, flags, hannounces⟩
    have hlength := hannounces.length_eq
    exact ⟨digests, flags.length, flags, hannounces, by omega, h⟩

/-- **A serialized tree is a written one.** -/
theorem Serialized.exists_encode {b : Bytes} (h : Serialized b) : ∃ t, encode t = b := by
  obtain ⟨digests, flags, -, -, count, hashes, hcount, hhashes, rfl⟩ := h
  obtain ⟨nodes, rfl, rfl⟩ := FixedBytes.exists_flatMap_toList hhashes
  have hlt : Bytes.toNatLE count < UInt32.size := by
    have hlt := Bytes.toNatLE_lt count
    rw [hcount] at hlt
    exact hlt
  have hword : Bytes.ofNatLE 4 (UInt32.ofNat (Bytes.toNatLE count)).toNat = count := by
    rw [UInt32.toNat_ofNat_of_lt' hlt, ← hcount, Bytes.ofNatLE_toNatLE]
  refine ⟨⟨UInt32.ofNat (Bytes.toNatLE count), nodes, flags⟩, ?_⟩
  rw [encode, pack_flagList, hword, CompactSize.encodeBytes, List.append_assoc, List.append_assoc]

/-- **The size check accepts exactly the serialized trees.** Among bytes below the limit for lists,
what it accepts is a tree in its serialized form; it is then taken apart, and writing the tree gives
the bytes back. Anything else is refused for its size. The announced size is the exact sum of what
the two counts say, if this is a position in memory, and there is none otherwise, nor where the
counts do not stand within the bytes. -/
theorem sized_iff_serialized {b : Bytes} (h : b.length < 4000000) :
    (hasDeclaredSize b = true ↔ Serialized b) ∧
      (hasDeclaredSize b = true → ∃ t, parse b = .ok t ∧ t.encode = b) ∧
      (hasDeclaredSize b = false → parse b = .error (.unexpectedSize b.length)) ∧
      (∀ digests flags rest, Announces b digests flags rest →
        declaredSize? b = position? (announcedSize digests flags)) ∧
      ((∀ digests flags rest, ¬ Announces b digests flags rest) → declaredSize? b = none) := by
  have hfits : b.length < UInt64.size := Nat.lt_trans h (by decide)
  refine ⟨hasDeclaredSize_iff hfits, ?_, ?_, ?_, ?_⟩
  · intro hsized
    obtain ⟨t, rfl⟩ := ((hasDeclaredSize_iff hfits).mp hsized).exists_encode
    have hread := read_restores (Nat.le_of_lt h) []
    rw [List.append_nil] at hread
    exact ⟨t, by rw [parse, if_pos hsized, Reader.whole, hread], rfl⟩
  · intro hsized
    rw [parse, hsized]
    rfl
  · intro digests flags rest hannounces
    rw [Option.ext_iff]
    intro size
    rw [declaredSize?_eq_some_iff, position?_eq_some_iff]
    constructor
    · rintro ⟨digests', flags', rest', hannounces', rfl, hsize⟩
      obtain ⟨rfl, rfl, -⟩ := hannounces.unique hannounces'
      exact ⟨rfl, hsize⟩
    · rintro ⟨rfl, hsize⟩
      exact ⟨digests, flags, rest, hannounces, rfl, hsize⟩
  · intro hnone
    rcases hdeclared : declaredSize? b with - | size
    · rfl
    · obtain ⟨digests, flags, rest, hannounces, -⟩ := declaredSize?_eq_some_iff.mp hdeclared
      exact absurd hannounces (hnone digests flags rest)

/-- A serialized tree with one leaf, which is proved. -/
def lone : Bytes := [1, 0, 0, 0, 1] ++ List.replicate 32 7 ++ [1, 1]

/-- Bytes that announce as many digests as a count can say. -/
def boundless : Bytes := [1, 0, 0, 0] ++ List.replicate 9 0xFF

/-- The tree with one leaf is taken apart, and the other bytes are refused although their digests
would end behind the last position. -/
theorem sized_iff_serialized_lone :
    (lone.length < 4000000 ∧ boundless.length < 4000000 ∧ hasDeclaredSize lone = true ∧
        hasDeclaredSize boundless = false) ∧
      Serialized lone ∧ (∃ t, parse lone = .ok t ∧ t.encode = lone) ∧
      ¬ Serialized boundless ∧ parse boundless = .error (.unexpectedSize 13) := by
  have hlone : lone.length < 4000000 ∧ hasDeclaredSize lone = true := by decide
  have hboundless : boundless.length < 4000000 ∧ hasDeclaredSize boundless = false := by decide
  obtain ⟨haccepted, hparsed, -⟩ := sized_iff_serialized hlone.1
  obtain ⟨haccepted', -, hrefused, -⟩ := sized_iff_serialized hboundless.1
  refine ⟨⟨hlone.1, hboundless.1, hlone.2, hboundless.2⟩, haccepted.mp hlone.2, hparsed hlone.2,
    fun hserialized => ?_, hrefused hboundless.2⟩
  have hcontra := haccepted'.mpr hserialized
  rw [hboundless.2] at hcontra
  cases hcontra

end Merkle.PartialTree

end TwoWayPeg
