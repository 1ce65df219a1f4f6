import TwoWayPeg.Curve.Ecdsa

/-!
# Signatures are read back

The distinguished encoding of a signature is read as the signature again. Whatever bytes a signature
was first read from, both of its halves are below the group order, and so it has such an encoding.
Only a half that stands for zero can be spelled in several ways. A signature with such a half signs
nothing, so the bytes of a valid signature are its encoding.

* `Ecdsa.Signature.Reduced`: both halves are below the group order.
* `Ecdsa.Signature.reduced_of_decode?`: what is read is reduced.
* `Ecdsa.Signature.decode?_encode`: the encoding of a reduced signature is read back.
* `Ecdsa.Signature.encode_of_decode?`: what is read is the encoding of the signature, if no half is
  zero.
-/

namespace TwoWayPeg

/-! ### Numbers without leading zeros -/

namespace Bytes

/-- The last byte of a number that is written from its low end counts most. -/
theorem toNatLE_concat (b : Bytes) (x : UInt8) :
    toNatLE (b ++ [x]) = toNatLE b + capacity b.length * x.toNat := by
  induction b with
  | nil => simp [toNatLE, capacity]
  | cons y rest ih =>
    simp only [List.cons_append, toNatLE, ih, List.length_cons, capacity]
    rw [Nat.mul_add, Nat.mul_assoc, Nat.add_assoc]

/-- The first byte of a number counts most. -/
theorem toNatBE_cons (x : UInt8) (b : Bytes) :
    toNatBE (x :: b) = toNatBE b + capacity b.length * x.toNat := by
  rw [toNatBE, List.reverse_cons, toNatLE_concat, List.length_reverse, toNatBE]

/-- A zero in front of a number adds nothing. -/
theorem toNatBE_zero_cons (b : Bytes) : toNatBE (0 :: b) = toNatBE b := by
  rw [toNatBE_cons, UInt8.toNat_zero, Nat.mul_zero, Nat.add_zero]

/-- Zeros in front of a number add nothing. -/
theorem toNatBE_dropWhile (b : Bytes) : toNatBE (b.dropWhile (· == 0)) = toNatBE b := by
  induction b with
  | nil => rfl
  | cons x rest ih =>
    by_cases hx : x = 0
    · rw [hx, List.dropWhile_cons_of_pos (by decide), ih, toNatBE_zero_cons]
    · rw [List.dropWhile_cons_of_neg (by simpa using hx)]

/-- More bytes hold larger numbers. -/
theorem capacity_mono {m n : Nat} (h : m ≤ n) : capacity m ≤ capacity n := by
  induction h with
  | refl => exact Nat.le_refl _
  | step _ ih =>
    simp only [capacity]
    omega

/-- Zeros in front of a number add nothing. -/
theorem toNatBE_replicate_append (n : Nat) (b : Bytes) :
    toNatBE (List.replicate n 0 ++ b) = toNatBE b := by
  induction n with
  | zero => rfl
  | succ n ih => rw [List.replicate_succ, List.cons_append, toNatBE_zero_cons, ih]

end Bytes

namespace Ecdsa

open Secp256k1

/-! ### Integers -/

/-- Numbers below the group order fit thirty-two bytes. -/
theorem lt_capacity_of_lt {n : Nat} (h : n < groupOrder) : n < Bytes.capacity 32 :=
  Nat.lt_trans h (by decide)

/-- The shortest bytes of a number spell it. -/
theorem toNatBE_shortestBytes {n : Nat} (h : n < groupOrder) :
    Bytes.toNatBE (shortestBytes n) = n := by
  rw [shortestBytes, Bytes.toNatBE_dropWhile, Bytes.toNatBE_ofNatBE (lt_capacity_of_lt h)]

/-- The shortest bytes of a number are at most thirty-two. -/
theorem length_shortestBytes_le (n : Nat) : (shortestBytes n).length ≤ 32 := by
  have h := (List.dropWhile_sublist (· == 0) (l := Bytes.ofNatBE 32 n)).length_le
  rw [Bytes.length_ofNatBE] at h
  exact h

/-- The shortest bytes of a number do not begin with a zero. -/
theorem ne_zero_of_shortestBytes {n : Nat} {b : UInt8} {rest : Bytes}
    (h : shortestBytes n = b :: rest) : b ≠ 0 := by
  have hhead := List.head?_dropWhile_not (· == (0 : UInt8)) (Bytes.ofNatBE 32 n)
  rw [← shortestBytes, h] at hhead
  simpa using hhead

/-- Bytes that begin with one that is neither zero nor has the sign bit are in their shortest
form. -/
theorem isShortest_of_low {b : UInt8} {rest : Bytes} (hzero : b ≠ 0) (hlow : b < 0x80) :
    isShortest (b :: rest) = true := by
  have hfull : b ≠ 0xFF := by
    rintro rfl
    exact absurd hlow (by decide)
  rcases rest with - | ⟨c, rest⟩
  · rfl
  · simp [isShortest, hzero, hfull]

/-- What the content of an encoded integer has to be. -/
structure IsContent (content : Bytes) (n : Nat) : Prop where
  ne_nil : content ≠ []
  length_le : content.length ≤ 33
  shortest : isShortest content = true
  scalar : scalarOfContent content = n

/-- **The content of an encoded integer is in its shortest form and stands for the integer.** -/
theorem isContent_integerContent {n : Nat} (h : n < groupOrder) :
    IsContent (integerContent n) n := by
  have hvalue := toNatBE_shortestBytes h
  have hlength := length_shortestBytes_le n
  unfold integerContent
  rcases hbytes : shortestBytes n with - | ⟨b, rest⟩
  · -- only zero has no bytes
    rw [hbytes] at hvalue
    refine ⟨by simp, by simp, rfl, ?_⟩
    rw [← hvalue]
    decide
  · have hzero := ne_zero_of_shortestBytes hbytes
    rw [hbytes] at hvalue hlength
    by_cases hlow : b < 0x80
    · simp only [hlow, if_true]
      refine ⟨List.cons_ne_nil _ _, Nat.le_succ_of_le hlength, ?_, ?_⟩
      · exact isShortest_of_low hzero hlow
      · have hhigh : ¬ 0x80 ≤ b := UInt8.not_le.mpr hlow
        simp [scalarOfContent, hhigh, hvalue, h]
    · simp only [hlow, if_false]
      refine ⟨List.cons_ne_nil _ _, Nat.succ_le_succ hlength, ?_, ?_⟩
      · simp [isShortest, hlow]
      · simp [scalarOfContent, Bytes.toNatBE_zero_cons, hvalue, h]

/-- A length below the sign bit is one byte. -/
theorem readLength_of_low {n : Nat} (h : n < 128) (rest : Bytes) :
    readLength (UInt8.ofNat n :: rest) = some (n, rest) := by
  have hnat : (UInt8.ofNat n).toNat = n := by
    rw [UInt8.toNat_ofNat']
    omega
  have hlow : UInt8.ofNat n < 0x80 := by
    rw [UInt8.lt_iff_toNat_lt, hnat]
    exact h
  rw [readLength, if_pos hlow, hnat]

/-- **An integer is read back**, whatever follows it. -/
theorem readInteger_encodeInteger {n : Nat} (h : n < groupOrder) (rest : Bytes) :
    readInteger (encodeInteger n ++ rest) = some (n, rest) := by
  have hcontent := isContent_integerContent h
  have hlength := hcontent.length_le
  have hpositive := List.length_pos_iff.mpr hcontent.ne_nil
  have hfits : ¬ ((integerContent n).length = 0 ∨
      (integerContent n ++ rest).length < (integerContent n).length) := by
    rw [List.length_append]
    omega
  simp only [encodeInteger, List.cons_append, readInteger]
  rw [readLength_of_low (by omega)]
  simp only [if_neg hfits, List.take_left, List.drop_left, hcontent.shortest, hcontent.scalar,
    if_true]

/-- An encoded integer takes at most thirty-five bytes. -/
theorem length_encodeInteger_le {n : Nat} (h : n < groupOrder) :
    (encodeInteger n).length ≤ 35 := by
  have hlength := (isContent_integerContent h).length_le
  simp only [encodeInteger, List.length_cons]
  omega

/-- The content of an integer in the lower half needs no zero in front of thirty-two bytes. -/
theorem length_integerContent_le_of_low {n : Nat} (h : n ≤ groupOrder / 2) :
    (integerContent n).length ≤ 32 := by
  have hlength := length_shortestBytes_le n
  have hless : groupOrder / 2 < groupOrder := by decide
  have hvalue := toNatBE_shortestBytes (Nat.lt_of_le_of_lt h hless)
  unfold integerContent
  rcases hbytes : shortestBytes n with - | ⟨b, rest⟩
  · simp
  · rw [hbytes] at hvalue hlength
    by_cases hlow : b < 0x80
    · simp only [hlow, if_true]
      exact hlength
    · simp only [hlow, if_false]
      -- thirty-two bytes with the first bit set would be more than half of the order
      have hbit : 0x80 ≤ b.toNat := UInt8.le_iff_toNat_le.mp (UInt8.not_lt.mp hlow)
      have hfull : rest.length ≠ 31 := by
        intro hfull
        have hhalf : groupOrder / 2 < Bytes.capacity 31 * 0x80 := by decide
        have hfirst := Nat.mul_le_mul_left (Bytes.capacity 31) hbit
        rw [Bytes.toNatBE_cons, hfull] at hvalue
        omega
      simp only [List.length_cons] at hlength ⊢
      omega

/-- What is read as an integer is a scalar. -/
theorem lt_of_readInteger {b rest : Bytes} {n : Nat} (h : readInteger b = some (n, rest)) :
    n < groupOrder := by
  have hpositive : 0 < groupOrder := by decide
  have hscalar (content : Bytes) : scalarOfContent content < groupOrder := by
    unfold scalarOfContent
    split
    · exact hpositive
    · simp only
      split
      · assumption
      · exact hpositive
  unfold readInteger at h
  split at h
  · split at h
    · cases h
    · split at h
      · cases h
      · simp only at h
        split at h
        · cases h
          exact hscalar _
        · cases h
  · cases h

/-! ### The other way round -/

/-- Bytes that do not begin with a zero are the shortest bytes of their number. -/
theorem shortestBytes_toNatBE {b : UInt8} {rest : Bytes} (hb : b ≠ 0)
    (h : Bytes.toNatBE (b :: rest) < groupOrder) :
    shortestBytes (Bytes.toNatBE (b :: rest)) = b :: rest := by
  have hnat : 0 < b.toNat := Nat.pos_of_ne_zero fun hzero => hb (UInt8.toNat_inj.mp hzero)
  have hrest : rest.length < 32 := by
    refine Nat.lt_of_not_le fun hlong => ?_
    have hgrow := Bytes.capacity_mono hlong
    have hvalue := Bytes.toNatBE_cons b rest
    have hfirst := Nat.le_mul_of_pos_right (Bytes.capacity rest.length) hnat
    have hless := lt_capacity_of_lt h
    omega
  have hpadded : Bytes.ofNatBE 32 (Bytes.toNatBE (b :: rest)) =
      List.replicate (31 - rest.length) 0 ++ b :: rest := by
    have hlength : (List.replicate (31 - rest.length) (0 : UInt8) ++ b :: rest).length = 32 := by
      simp only [List.length_append, List.length_replicate, List.length_cons]
      omega
    have hread := Bytes.ofNatBE_toNatBE (List.replicate (31 - rest.length) 0 ++ b :: rest)
    rw [hlength, Bytes.toNatBE_replicate_append] at hread
    exact hread
  rw [shortestBytes, hpadded, List.dropWhile_append_of_pos (by simp),
    List.dropWhile_cons_of_neg (by simpa using hb)]

/-- **A content in its shortest form is the content of the scalar that it stands for**, unless the
scalar is zero. -/
theorem integerContent_scalarOfContent {content : Bytes} (hshort : isShortest content = true)
    (hscalar : scalarOfContent content ≠ 0) :
    integerContent (scalarOfContent content) = content := by
  unfold scalarOfContent at hscalar ⊢
  split at hscalar
  · exact absurd rfl hscalar
  · next hsign =>
    simp only [if_neg hsign] at hscalar ⊢
    split at hscalar
    · next hless =>
      rw [if_pos hless]
      rcases content with - | ⟨a, rest⟩
      · cases hshort
      have hlow : a < 0x80 := by simpa using hsign
      by_cases ha : a = 0
      · subst ha
        rcases rest with - | ⟨b, rest⟩
        · exact absurd rfl hscalar
        · rw [Bytes.toNatBE_zero_cons] at hless ⊢
          have hhigh : ¬ b < 0x80 := by simpa [isShortest] using hshort
          have hb : b ≠ 0 := by
            rintro rfl
            exact hhigh (by decide)
          simp only [integerContent, shortestBytes_toNatBE hb hless, if_neg hhigh]
      · simp only [integerContent, shortestBytes_toNatBE ha hless, if_pos hlow]
    · exact absurd rfl hscalar

/-- A length below the sign bit was read from one byte. -/
theorem eq_cons_of_readLength {b rest : Bytes} {n : Nat} (h : readLength b = some (n, rest))
    (hn : n < 128) : b = UInt8.ofNat n :: rest := by
  unfold readLength at h
  split at h
  · cases h
  · next first tail =>
    split at h
    · cases h
      rw [UInt8.ofNat_toNat]
    · simp only at h
      split at h
      · cases h
      · split at h
        · cases h
        · next hlong =>
          obtain ⟨hlength, -⟩ := Prod.mk.inj (Option.some.inj h)
          omega

/-- **An integer that is not zero was read from its encoding.** -/
theorem eq_append_of_readInteger {b rest : Bytes} {n : Nat} (h : readInteger b = some (n, rest))
    (hn : n ≠ 0) : b = encodeInteger n ++ rest := by
  have hless := lt_of_readInteger h
  unfold readInteger at h
  split at h
  · next tail =>
    split at h
    · cases h
    · next length after hlength =>
      split at h
      · cases h
      · next hfits =>
        simp only at h
        split at h
        · next hshort =>
          cases h
          have hcontent := integerContent_scalarOfContent hshort hn
          have htaken : (after.take length).length = length := List.length_take_of_le (by omega)
          have hle := (isContent_integerContent hless).length_le
          rw [hcontent, htaken] at hle
          rw [encodeInteger, hcontent, htaken, eq_cons_of_readLength hlength (by omega)]
          simp
        · cases h
  · cases h

/-! ### Signatures -/

namespace Signature

/-- Both halves are below the group order. -/
structure Reduced (sig : Signature) : Prop where
  r : sig.r < groupOrder
  s : sig.s < groupOrder

/-- What is read as a signature is reduced. -/
theorem reduced_of_decode? {b : Bytes} {sig : Signature} (h : decode? b = some sig) :
    sig.Reduced := by
  unfold decode? at h
  split at h
  · split at h
    · cases h
    · split at h
      · cases h
      · split at h
        · cases h
        · next hr =>
          split at h
          · next hs =>
            cases h
            exact ⟨lt_of_readInteger hr, lt_of_readInteger hs⟩
          · cases h
  · cases h

/-- A signature with a low second half takes at most seventy-one bytes. -/
theorem length_encode_le_of_isLow {sig : Signature} (h : sig.Reduced) (hlow : sig.isLow = true) :
    sig.encode.length ≤ 71 := by
  have hr := length_encodeInteger_le h.r
  have hs := length_integerContent_le_of_low (of_decide_eq_true hlow)
  simp only [encode, encodeInteger, List.length_cons, List.length_append] at hr ⊢
  omega

/-- **The encoding of a signature is read back.** -/
theorem decode?_encode {sig : Signature} (h : sig.Reduced) : decode? sig.encode = some sig := by
  have hr := length_encodeInteger_le h.r
  have hs := length_encodeInteger_le h.s
  have hlength : (encodeInteger sig.r ++ encodeInteger sig.s).length < 128 := by
    rw [List.length_append]
    omega
  have hlast := readInteger_encodeInteger h.s []
  rw [List.append_nil] at hlast
  simp only [encode, decode?, readLength_of_low hlength, ne_eq, not_true_eq_false, if_false,
    readInteger_encodeInteger h.r, hlast]

/-- **What is read as a signature with no half zero is its encoding.** -/
theorem encode_of_decode? {b : Bytes} {sig : Signature} (h : decode? b = some sig) (hr : sig.r ≠ 0)
    (hs : sig.s ≠ 0) : sig.encode = b := by
  have hreduced := reduced_of_decode? h
  unfold decode? at h
  split at h
  · next tail =>
    split at h
    · cases h
    · next length body hlength =>
      split at h
      · cases h
      · next hexact =>
        split at h
        · cases h
        · next r rest hfirst =>
          split at h
          · next s hsecond =>
            cases h
            have hbody := eq_append_of_readInteger hfirst hr
            rw [eq_append_of_readInteger hsecond hs, List.append_nil] at hbody
            have hler : (encodeInteger r).length ≤ 35 := length_encodeInteger_le hreduced.r
            have hles : (encodeInteger s).length ≤ 35 := length_encodeInteger_le hreduced.s
            have hbound : body.length < 128 := by
              rw [hbody, List.length_append]
              omega
            rw [ne_eq, Decidable.not_not] at hexact
            rw [eq_cons_of_readLength hlength (by omega), encode, ← hbody, hexact]
          · cases h
  · cases h

end Signature

/-- A signature with a half that is zero signs nothing. -/
theorem ne_zero_of_verify {digest : FixedBytes 32} {sig : Signature} {key : Point}
    (h : verify digest sig key = true) : sig.r ≠ 0 ∧ sig.s ≠ 0 := by
  unfold verify at h
  split at h
  · cases h
  · next hnonzero => exact ⟨fun hr => hnonzero (.inl hr), fun hs => hnonzero (.inr (.inl hs))⟩

end Ecdsa

end TwoWayPeg
