import TwoWayPeg.Proofs.Curve.Encoding
import TwoWayPeg.Text.Base58

/-!
# Base 58 text is read back

The text of some bytes has a one for each zero byte at their front, and behind these the digits of
the number that the bytes spell. The number has no digits in front that stand for zero, and the
bytes behind the zero ones begin with another byte, so the ones tell how many zero bytes there were
and the digits tell the rest. With four bytes of a digest behind them the bytes are read back as
well.

* `Base58.number_digitValues`: the digits of a number spell it.
* `Base58.lowBytes_toNatLE`: the bytes of a number are those that spell it.
* `Base58.decode?_encode`: bytes are read back from their text.
* `Base58.decodeChecked?_encodeChecked`: so is a payload that is guarded by a checksum.
-/

namespace TwoWayPeg.Base58

/-! ### Digits -/

/-- The values of the digits of a number, least significant first, at most `fuel` of them. -/
def digitValues : Nat → Nat → List Nat
  | 0, _ => []
  | _ + 1, 0 => []
  | fuel + 1, n => n % 58 :: digitValues fuel (n / 58)

/-- How many numbers can be written with so many digits. -/
def digitCapacity : Nat → Nat
  | 0 => 1
  | count + 1 => 58 * digitCapacity count

/-- The number that values of digits spell, least significant first. -/
def number (values : List Nat) : Nat := values.foldr (fun v acc => 58 * acc + v) 0

/-- A number that is not zero has a lowest digit. -/
theorem digitValues_of_ne_zero {n : Nat} (h : n ≠ 0) (fuel : Nat) :
    digitValues (fuel + 1) n = n % 58 :: digitValues fuel (n / 58) := by
  rw [digitValues]
  exact h

/-- The digits of a number are those with their values. -/
theorem digits_eq (fuel n : Nat) : digits fuel n = (digitValues fuel n).map digit := by
  induction fuel generalizing n with
  | zero => rfl
  | succ fuel ih =>
    cases n with
    | zero => rfl
    | succ n => rw [digits, digitValues_of_ne_zero (Nat.succ_ne_zero n), List.map_cons, ih]; simp

/-- The values of digits are below fifty-eight. -/
theorem lt_of_mem_digitValues {fuel n v : Nat} (h : v ∈ digitValues fuel n) : v < 58 := by
  induction fuel generalizing n with
  | zero => cases h
  | succ fuel ih =>
    by_cases hn : n = 0
    · rw [hn, digitValues] at h
      cases h
    · rw [digitValues_of_ne_zero hn] at h
      rcases List.mem_cons.mp h with rfl | hrest
      · exact Nat.mod_lt n (by decide)
      · exact ih hrest

/-- **The digits of a number spell it**, if there is room for all of them. -/
theorem number_digitValues {fuel n : Nat} (h : n < digitCapacity fuel) :
    number (digitValues fuel n) = n := by
  induction fuel generalizing n with
  | zero =>
    rw [Nat.lt_one_iff.mp h]
    rfl
  | succ fuel ih =>
    by_cases hn : n = 0
    · rw [hn]
      rfl
    · rw [digitCapacity] at h
      have hrest : number (digitValues fuel (n / 58)) = n / 58 := ih (by omega)
      rw [number] at hrest ⊢
      rw [digitValues_of_ne_zero hn, List.foldr_cons, hrest]
      omega

/-- No number has a zero as its highest digit. -/
theorem ne_zero_of_getLast?_digitValues {fuel n v : Nat} (h : n < digitCapacity fuel)
    (hv : (digitValues fuel n).getLast? = some v) : v ≠ 0 := by
  induction fuel generalizing n with
  | zero => cases hv
  | succ fuel ih =>
    by_cases hn : n = 0
    · rw [hn, digitValues] at hv
      cases hv
    · rw [digitCapacity] at h
      have hroom : n / 58 < digitCapacity fuel := by omega
      rw [digitValues_of_ne_zero hn, List.getLast?_cons] at hv
      rcases hrest : digitValues fuel (n / 58) with - | ⟨w, rest⟩
      · -- nothing is left, so the number is its lowest digit
        have hnumber := number_digitValues hroom
        rw [hrest] at hnumber hv
        have hzero : n / 58 = 0 := hnumber.symm
        have hlowest : n % 58 = v := Option.some.inj hv
        omega
      · rw [hrest, List.getLast?_cons, Option.getD_some] at hv
        refine ih hroom ?_
        rw [hrest, List.getLast?_cons]
        exact hv

/-- Digits spell a smaller number than as many bytes can. -/
theorem number_lt {values : List Nat} (h : ∀ v ∈ values, v < 58) :
    number values < Bytes.capacity values.length := by
  induction values with
  | nil => exact Nat.one_pos
  | cons v rest ih =>
    have hrest : number rest < Bytes.capacity rest.length :=
      ih fun w hw => h w (List.mem_cons_of_mem v hw)
    have hv := h v List.mem_cons_self
    have hnumber : number (v :: rest) = 58 * number rest + v := rfl
    rw [List.length_cons, Bytes.capacity, hnumber]
    omega

/-- Two digits have room for a byte. -/
theorem capacity_le (count : Nat) : Bytes.capacity count ≤ digitCapacity (2 * count) := by
  induction count with
  | zero => exact Nat.le_refl 1
  | succ count ih =>
    have htwo : digitCapacity (2 * (count + 1)) = 58 * (58 * digitCapacity (2 * count)) := rfl
    rw [Bytes.capacity, htwo]
    omega

/-- A digit is read as its value. -/
theorem value?_digit {v : Nat} (h : v < 58) : value? (digit v) = some v := by
  have hall : ∀ v < 58, value? (digit v) = some v := by decide +kernel
  exact hall v h

/-- Only zero is written as a one. -/
theorem digit_eq_one_iff {v : Nat} (h : v < 58) : digit v = '1' ↔ v = 0 := by
  have hall : ∀ v < 58, digit v = '1' ↔ v = 0 := by decide +kernel
  exact hall v h

/-- Digits are read as their values. -/
theorem mapM_value?_map_digit {values : List Nat} (h : ∀ v ∈ values, v < 58) :
    (values.map digit).mapM value? = some values := by
  induction values with
  | nil => rfl
  | cons v rest ih =>
    rw [List.map_cons, List.mapM_cons, value?_digit (h v List.mem_cons_self),
      ih fun w hw => h w (List.mem_cons_of_mem v hw)]
    rfl

/-! ### Bytes -/

/-- Bytes of which the highest is not zero spell a number that is not zero. -/
theorem toNatLE_ne_zero {b : Bytes} (hb : b ≠ []) (h : ∀ x, b.getLast? = some x → x ≠ 0) :
    Bytes.toNatLE b ≠ 0 := by
  obtain ⟨front, x, rfl⟩ := List.eq_nil_or_concat b |>.resolve_left hb
  rw [List.concat_eq_append] at h ⊢
  have hx : x.toNat ≠ 0 := fun hzero =>
    h x List.getLast?_concat (UInt8.toNat_inj.mp hzero)
  have hplace := Nat.le_mul_of_pos_left (Bytes.capacity front.length) (Nat.pos_of_ne_zero hx)
  have hroom := Bytes.toNatLE_lt front
  rw [Bytes.toNatLE_concat, Nat.mul_comm]
  omega

/-- **The bytes of a number are those that spell it**, if the highest of them is not zero and there
is room for all of them. -/
theorem lowBytes_toNatLE {b : Bytes} {fuel : Nat} (hroom : b.length ≤ fuel)
    (h : ∀ x, b.getLast? = some x → x ≠ 0) : lowBytes fuel (Bytes.toNatLE b) = b := by
  induction b generalizing fuel with
  | nil => cases fuel <;> rfl
  | cons x rest ih =>
    obtain ⟨fuel, rfl⟩ := Nat.exists_eq_succ_of_ne_zero (Nat.ne_zero_of_lt hroom)
    have hrest : lowBytes fuel (Bytes.toNatLE rest) = rest := by
      refine ih (Nat.le_of_succ_le_succ hroom) fun y hy => h y ?_
      rw [List.getLast?_cons, hy, Option.getD_some]
    have hbyte := x.toNat_lt
    have hhigh : (x.toNat + 256 * Bytes.toNatLE rest) / 256 = Bytes.toNatLE rest := by omega
    have hlow : UInt8.ofNat (x.toNat + 256 * Bytes.toNatLE rest) = x := by
      apply UInt8.toNat_inj.mp
      rw [UInt8.toNat_ofNat']
      omega
    have hne := toNatLE_ne_zero (List.cons_ne_nil x rest) h
    rw [Bytes.toNatLE] at hne ⊢
    rw [lowBytes, hhigh, hlow, hrest]
    exact hne

/-- Bytes are zeros in front of bytes that begin with another one. -/
theorem exists_zeros (b : Bytes) :
    ∃ zeros tail, b = List.replicate zeros 0 ++ tail ∧ ∀ x, tail.head? = some x → x ≠ 0 := by
  induction b with
  | nil => exact ⟨0, [], rfl, fun x hx => by cases hx⟩
  | cons y rest ih =>
    by_cases hy : y = 0
    · obtain ⟨zeros, tail, hrest, htail⟩ := ih
      refine ⟨zeros + 1, tail, ?_, htail⟩
      rw [hy, hrest, List.replicate_succ, List.cons_append]
    · refine ⟨0, y :: rest, rfl, fun x hx => ?_⟩
      cases hx
      exact hy

/-- What stands in front of something else is found again. -/
theorem takeWhile_replicate_append {α : Type} [BEq α] [LawfulBEq α] {a : α} {tail : List α}
    (h : ∀ x, tail.head? = some x → x ≠ a) (count : Nat) :
    (List.replicate count a ++ tail).takeWhile (· == a) = List.replicate count a := by
  have htail : tail.takeWhile (· == a) = [] := by
    cases tail with
    | nil => rfl
    | cons x rest =>
      refine List.takeWhile_cons_of_neg ?_
      rw [beq_iff_eq]
      exact h x rfl
  rw [List.takeWhile_append_of_pos, htail, List.append_nil]
  intro x hx
  rw [List.eq_of_mem_replicate hx, beq_iff_eq]

/-! ### Texts -/

/-- Zeros in front do not change the number that digits spell. -/
theorem foldl_values (zeros : Nat) (values : List Nat) :
    (List.replicate zeros 0 ++ values.reverse).foldl (fun acc v => 58 * acc + v) 0 =
      number values := by
  have hzeros : (List.replicate zeros 0).foldl (fun acc v => 58 * acc + v) 0 = 0 := by
    induction zeros with
    | zero => rfl
    | succ zeros ih => exact ih
  rw [List.foldl_append, hzeros, List.foldl_reverse, number]

/-- Bytes that do not begin with a zero are not more than the digits of their number. -/
theorem length_le_of_number {tail : Bytes} {values : List Nat}
    (htail : ∀ x, tail.head? = some x → x ≠ 0) (hvalues : ∀ v ∈ values, v < 58)
    (hnumber : number values = Bytes.toNatBE tail) : tail.length ≤ values.length := by
  cases tail with
  | nil => exact Nat.zero_le _
  | cons x rest =>
    have hx : x.toNat ≠ 0 := fun hzero => htail x rfl (UInt8.toNat_inj.mp hzero)
    have hplace := Nat.le_mul_of_pos_left (Bytes.capacity rest.length) (Nat.pos_of_ne_zero hx)
    have hroom := number_lt hvalues
    rw [hnumber, Bytes.toNatBE_cons, Nat.mul_comm] at hroom
    refine Nat.succ_le_of_lt (Nat.lt_of_not_le fun hmore => ?_)
    have hcapacity := Bytes.capacity_mono hmore
    omega

/-- The text of zero bytes and of a number with these digits. -/
def spelling (zeros : Nat) (values : List Nat) : List Char :=
  List.replicate zeros '1' ++ (values.map digit).reverse

variable {zeros : Nat} {values : List Nat} {tail : Bytes}

/-- The values that are read from such a text. -/
theorem mapM_value?_spelling (zeros : Nat) (hvalues : ∀ v ∈ values, v < 58) :
    (spelling zeros values).mapM value? = some (List.replicate zeros 0 ++ values.reverse) := by
  have hone : digit 0 = '1' := by decide
  have hdigits : spelling zeros values =
      (List.replicate zeros 0 ++ values.reverse).map digit := by
    rw [spelling, List.map_append, List.map_replicate, List.map_reverse, hone]
  rw [hdigits]
  refine mapM_value?_map_digit fun v hv => ?_
  rcases List.mem_append.mp hv with hv | hv
  · rw [List.eq_of_mem_replicate hv]
    decide
  · exact hvalues v (List.mem_reverse.mp hv)

/-- The ones at the front of such a text stand for the zero bytes. -/
theorem takeWhile_spelling (zeros : Nat) (hvalues : ∀ v ∈ values, v < 58)
    (hhighest : ∀ v, values.getLast? = some v → v ≠ 0) :
    (spelling zeros values).takeWhile (· == '1') = List.replicate zeros '1' := by
  refine takeWhile_replicate_append (fun c hc => ?_) zeros
  rw [List.head?_reverse, List.getLast?_map] at hc
  obtain ⟨v, hv, rfl⟩ := Option.map_eq_some_iff.mp hc
  rw [ne_eq, digit_eq_one_iff (hvalues v (List.mem_of_getLast? hv))]
  exact hhighest v hv

/-- **The bytes that are read from such a text**: the zero bytes, and the bytes of the number. -/
theorem decode?_spelling (zeros : Nat) (hvalues : ∀ v ∈ values, v < 58)
    (hhighest : ∀ v, values.getLast? = some v → v ≠ 0)
    (htail : ∀ x, tail.head? = some x → x ≠ 0) (hnumber : number values = Bytes.toNatBE tail) :
    decode? (String.ofList (spelling zeros values)) = some (List.replicate zeros 0 ++ tail) := by
  have hbytes : lowBytes (spelling zeros values).length (Bytes.toNatBE tail) = tail.reverse := by
    have hlength := length_le_of_number htail hvalues hnumber
    apply lowBytes_toNatLE
    · simp only [spelling, List.length_reverse, List.length_append, List.length_map]
      omega
    · rwa [List.getLast?_reverse]
  rw [decode?, String.toList_ofList]
  simp only [mapM_value?_spelling zeros hvalues, takeWhile_spelling zeros hvalues hhighest,
    foldl_values, hnumber, hbytes, List.length_replicate, List.reverse_reverse]

/-- **Bytes are read back from their text.** -/
theorem decode?_encode (b : Bytes) : decode? (encode b) = some b := by
  obtain ⟨zeros, tail, hb, htail⟩ := exists_zeros b
  have hroom : Bytes.toNatBE b < digitCapacity (2 * b.length) :=
    Nat.lt_of_lt_of_le (Bytes.toNatBE_lt b) (capacity_le b.length)
  have hnumber : number (digitValues (2 * b.length) (Bytes.toNatBE b)) = Bytes.toNatBE tail := by
    rw [number_digitValues hroom, hb, Bytes.toNatBE_replicate_append]
  have hzeros : (b.takeWhile (· == 0)).length = zeros := by
    rw [hb, takeWhile_replicate_append htail, List.length_replicate]
  have hread := decode?_spelling zeros (fun _ => lt_of_mem_digitValues)
    (fun _ => ne_zero_of_getLast?_digitValues hroom) htail hnumber
  rw [encode, hzeros, digits_eq, ← spelling, hread, ← hb]

/-- **A payload is read back from its text**, and its checksum is right. -/
theorem decodeChecked?_encodeChecked (payload : Bytes) :
    decodeChecked? (encodeChecked payload) = some payload := by
  have hsum : (checksum payload).length = 4 := by
    rw [checksum, List.length_take, (Sha256.double payload).length_eq]
    rfl
  have hlength : (payload ++ checksum payload).length - 4 = payload.length := by
    rw [List.length_append, hsum, Nat.add_sub_cancel]
  have hlong : ¬ (payload ++ checksum payload).length < 4 := by
    rw [List.length_append, hsum]
    omega
  rw [decodeChecked?, encodeChecked, decode?_encode]
  simp only [if_neg hlong, hlength, List.take_left, List.drop_left, if_true]

end TwoWayPeg.Base58
