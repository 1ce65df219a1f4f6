/-!
# Byte strings

Everything the peg signs, hashes, stores or receives is a finite string of bytes. This file fixes
that notion once: `Bytes` for strings of any length, `FixedBytes n` for strings whose length is
part of the type, and the two ways of writing a natural number in a given number of bytes.

* `Bytes.toNatLE_ofNatLE`: a number that fits is read back from its bytes.
* `Bytes.ofNatLE_toNatLE`: bytes are written back from the number they spell.
* `FixedBytes` is ordered by its bytes, lexicographically, and that order is total and lawful.
-/

namespace TwoWayPeg

/-- A string of bytes, first byte first. -/
abbrev Bytes := List UInt8

namespace Bytes

/-! ### Numbers in a fixed number of bytes -/

/-- How many numbers fit a given number of bytes. -/
def capacity : Nat → Nat
  | 0 => 1
  | width + 1 => 256 * capacity width

/-- The low `width` bytes of a number, least significant first. -/
def ofNatLE : Nat → Nat → Bytes
  | 0, _ => []
  | width + 1, n => UInt8.ofNat n :: ofNatLE width (n / 256)

/-- The number spelled by bytes, least significant first. -/
def toNatLE : Bytes → Nat
  | [] => 0
  | b :: rest => b.toNat + 256 * toNatLE rest

/-- The low `width` bytes of a number, most significant first. -/
def ofNatBE (width n : Nat) : Bytes := (ofNatLE width n).reverse

/-- The number spelled by bytes, most significant first. -/
def toNatBE (b : Bytes) : Nat := toNatLE b.reverse

/-- There are as many bytes as asked for. -/
@[simp] theorem length_ofNatLE (width n : Nat) : (ofNatLE width n).length = width := by
  induction width generalizing n with
  | zero => rfl
  | succ width ih => simp [ofNatLE, ih]

/-- There are as many bytes as asked for, in either order. -/
@[simp] theorem length_ofNatBE (width n : Nat) : (ofNatBE width n).length = width := by
  simp [ofNatBE]

/-- The number that bytes spell fits into as many bytes. -/
theorem toNatLE_lt (b : Bytes) : toNatLE b < capacity b.length := by
  induction b with
  | nil => simp [toNatLE, capacity]
  | cons x rest ih =>
    have hx := x.toNat_lt
    simp only [toNatLE, List.length_cons, capacity]
    omega

/-- The number that bytes spell fits into as many bytes, in either order. -/
theorem toNatBE_lt (b : Bytes) : toNatBE b < capacity b.length := by
  simpa [toNatBE] using toNatLE_lt b.reverse

/-- **A number that fits is read back from its bytes.** -/
theorem toNatLE_ofNatLE {width n : Nat} (h : n < capacity width) :
    toNatLE (ofNatLE width n) = n := by
  induction width generalizing n with
  | zero =>
    have hn : n = 0 := Nat.lt_one_iff.mp h
    simp [ofNatLE, toNatLE, hn]
  | succ width ih =>
    simp only [capacity] at h
    have hdiv : n / 256 < capacity width := by omega
    simp only [ofNatLE, toNatLE, ih hdiv, UInt8.toNat_ofNat']
    omega

/-- **Bytes are written back from the number they spell.** -/
theorem ofNatLE_toNatLE (b : Bytes) : ofNatLE b.length (toNatLE b) = b := by
  induction b with
  | nil => rfl
  | cons x rest ih =>
    have hx := x.toNat_lt
    have hdiv : (x.toNat + 256 * toNatLE rest) / 256 = toNatLE rest := by omega
    have hlow : UInt8.ofNat (x.toNat + 256 * toNatLE rest) = x := by
      apply UInt8.toNat_inj.mp
      rw [UInt8.toNat_ofNat']
      omega
    simp only [List.length_cons, toNatLE, ofNatLE, hdiv, ih, hlow]

/-- A number that fits is read back from its bytes, most significant first. -/
theorem toNatBE_ofNatBE {width n : Nat} (h : n < capacity width) :
    toNatBE (ofNatBE width n) = n := by
  simp [toNatBE, ofNatBE, toNatLE_ofNatLE h]

/-- Bytes are written back from the number they spell, most significant first. -/
theorem ofNatBE_toNatBE (b : Bytes) : ofNatBE b.length (toNatBE b) = b := by
  have h := ofNatLE_toNatLE b.reverse
  rw [List.length_reverse] at h
  simp [ofNatBE, toNatBE, h]

/-! ### The lexicographic order -/

/-- Byte strings compared byte by byte; a proper beginning of a string comes before it. -/
def cmp : Bytes → Bytes → Ordering
  | [], [] => .eq
  | [], _ :: _ => .lt
  | _ :: _, [] => .gt
  | a :: as, b :: bs => if a < b then .lt else if b < a then .gt else cmp as bs

/-- Only equal strings compare equal. -/
theorem cmp_eq_iff (a b : Bytes) : cmp a b = .eq ↔ a = b := by
  induction a generalizing b with
  | nil => cases b <;> simp [cmp]
  | cons x xs ih =>
    cases b with
    | nil => simp [cmp]
    | cons y ys =>
      simp only [cmp, List.cons.injEq]
      by_cases hxy : x < y
      · simp [hxy, UInt8.ne_of_lt hxy]
      · by_cases hyx : y < x
        · simp [hxy, hyx, (UInt8.ne_of_lt hyx).symm]
        · have : x = y := UInt8.le_antisymm (UInt8.not_lt.mp hyx) (UInt8.not_lt.mp hxy)
          simp [this, ih]

/-- Comparing the other way round gives the opposite answer. -/
theorem cmp_swap (a b : Bytes) : cmp a b = (cmp b a).swap := by
  induction a generalizing b with
  | nil => cases b <;> rfl
  | cons x xs ih =>
    cases b with
    | nil => rfl
    | cons y ys =>
      simp only [cmp]
      by_cases hxy : x < y
      · simp [hxy, UInt8.lt_asymm hxy]
      · by_cases hyx : y < x
        · simp [hxy, hyx]
        · simp [hxy, hyx, ih ys]

/-- Coming before is transitive. -/
theorem cmp_lt_trans {a b c : Bytes} (hab : cmp a b = .lt) (hbc : cmp b c = .lt) :
    cmp a c = .lt := by
  induction a generalizing b c with
  | nil =>
    cases b with
    | nil => simp [cmp] at hab
    | cons y ys =>
      cases c with
      | nil => simp [cmp] at hbc
      | cons z zs => rfl
  | cons x xs ih =>
    cases b with
    | nil => simp [cmp] at hab
    | cons y ys =>
      cases c with
      | nil => simp [cmp] at hbc
      | cons z zs =>
        simp only [cmp] at hab hbc ⊢
        by_cases hxy : x < y
        · by_cases hyz : y < z
          · simp [UInt8.lt_trans hxy hyz]
          · by_cases hzy : z < y
            · simp [hyz, hzy] at hbc
            · have : y = z := UInt8.le_antisymm (UInt8.not_lt.mp hzy) (UInt8.not_lt.mp hyz)
              simp [← this, hxy]
        · by_cases hyx : y < x
          · simp [hxy, hyx] at hab
          · have hx : x = y := UInt8.le_antisymm (UInt8.not_lt.mp hyx) (UInt8.not_lt.mp hxy)
            subst hx
            simp only [hxy, if_false] at hab
            by_cases hyz : x < z
            · simp [hyz]
            · by_cases hzy : z < x
              · simp [hyz, hzy] at hbc
              · simp only [hyz, hzy, if_false] at hbc ⊢
                exact ih hab hbc

end Bytes

/-! ### Byte strings of a known length -/

/-- A string of exactly `n` bytes. -/
structure FixedBytes (n : Nat) where
  /-- The bytes, first byte first. -/
  toList : Bytes
  /-- There are `n` of them. -/
  length_eq : toList.length = n
deriving DecidableEq

namespace FixedBytes

variable {n : Nat}

/-- Strings of one length are equal if their bytes are. -/
theorem ext {a b : FixedBytes n} (h : a.toList = b.toList) : a = b := by
  cases a; cases b; simp_all

/-- The string as a value of known length, when it has that length. -/
def ofList? (n : Nat) (b : Bytes) : Option (FixedBytes n) :=
  if h : b.length = n then some ⟨b, h⟩ else none

/-- The bytes of a string of known length are read as the string. -/
@[simp] theorem ofList?_toList (a : FixedBytes n) : ofList? n a.toList = some a := by
  simp [ofList?, a.length_eq]

/-- What is read as a string of known length has the bytes that are read. -/
theorem toList_of_ofList? {b : Bytes} {a : FixedBytes n} (h : ofList? n b = some a) :
    a.toList = b := by
  unfold ofList? at h
  split at h
  · cases h; rfl
  · cases h

/-- The byte `x`, `n` times. -/
def replicate (n : Nat) (x : UInt8) : FixedBytes n := ⟨List.replicate n x, by simp⟩

/-- The same bytes in the opposite order. -/
def reverse (a : FixedBytes n) : FixedBytes n := ⟨a.toList.reverse, by simp [a.length_eq]⟩

/-- Turning the bytes around twice changes nothing. -/
@[simp] theorem reverse_reverse (a : FixedBytes n) : a.reverse.reverse = a :=
  ext (by simp [reverse])

/-- The big-endian bytes of a number, reduced to `n` bytes. -/
def ofNat (n value : Nat) : FixedBytes n := ⟨Bytes.ofNatBE n value, by simp⟩

/-- The number spelled by the bytes, most significant first. -/
def toNat (a : FixedBytes n) : Nat := Bytes.toNatBE a.toList

end FixedBytes

end TwoWayPeg
