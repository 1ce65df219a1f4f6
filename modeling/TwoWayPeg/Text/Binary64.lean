/-!
# Binary floating point of non-negative quotients

Amounts are also shown as a number of whole bitcoin in double precision, and numbers in JSON that
are not whole are held in it. The arithmetic is exact here: a double is a mantissa of 53 bits times
a power of two, a quotient of naturals is rounded to the nearest one with ties to the even mantissa,
and a decimal text with a number of places is the exact value rounded, again with ties to even.
Below the least exponent a mantissa has fewer bits; above the largest there is no double.
-/

namespace TwoWayPeg

/-- The nearest natural to `num / den`, the even one of two equally near. -/
def roundHalfEven (num den : Nat) : Nat :=
  let q := num / den
  let twice := 2 * (num % den)
  if twice < den then q
  else if den < twice then q + 1
  else q + q % 2

/-- A rounded quotient is at most half a unit away. -/
theorem roundHalfEven_near (num : Nat) {den : Nat} (h : 0 < den) :
    2 * (roundHalfEven num den * den) ≤ 2 * num + den ∧
      2 * num ≤ 2 * (roundHalfEven num den * den) + den := by
  have hdiv := Nat.div_add_mod num den
  have hmod := Nat.mod_lt num h
  have hcomm : num / den * den = den * (num / den) := Nat.mul_comm _ _
  have hsucc : (num / den + 1) * den = den * (num / den) + den := by
    rw [Nat.add_mul, hcomm, Nat.one_mul]
  unfold roundHalfEven
  simp only
  split
  · rw [hcomm]; omega
  · split
    · rw [hsucc]; omega
    · rcases Nat.mod_two_eq_zero_or_one (num / den) with hp | hp
      · rw [hp, Nat.add_zero, hcomm]; omega
      · rw [hp, hsucc]; omega

/-- A non-negative number of double precision: `mantissa * 2 ^ exponent`. -/
structure Binary64 where
  /-- A number of 53 bits, or of fewer where the exponent is the least one. -/
  mantissa : Nat
  /-- The power of two that the mantissa counts. -/
  exponent : Int
deriving DecidableEq

namespace Binary64

/-- Nothing. -/
def zero : Binary64 := ⟨0, 0⟩

/-- The numerator of the value over a power of two. -/
def num (x : Binary64) : Nat := x.mantissa <<< x.exponent.toNat

/-- The power of two under the numerator. -/
def den (x : Binary64) : Nat := 1 <<< (-x.exponent).toNat

/-- The double nearest to `num / den`, as far as exponents go. -/
def ofQuotient (num den : Nat) : Binary64 :=
  if num = 0 then zero
  else
    let mantissaAt (shift : Int) : Nat × Nat :=
      (num <<< shift.toNat, den <<< (-shift).toNat)
    let wide : Int := 53 + den.log2 - num.log2
    let scaled := mantissaAt wide
    let shift := min 1074 (if scaled.1 / scaled.2 < 1 <<< 53 then wide else wide - 1)
    let exact := mantissaAt shift
    let m := roundHalfEven exact.1 exact.2
    if m = 0 then zero else if m = 1 <<< 53 then ⟨1 <<< 52, 1 - shift⟩ else ⟨m, -shift⟩

/-- The double nearest to a natural. -/
def ofNat (n : Nat) : Binary64 := ofQuotient n 1

/-- The double nearest to a quotient of doubles. -/
def div (x y : Binary64) : Binary64 := ofQuotient (x.num * y.den) (x.den * y.num)

/-- What is rounded up to more than the largest double: the largest one and half a unit in its last
place. -/
def limit : Nat := ((1 <<< 54) - 1) <<< 970

/-- The double nearest to a product of doubles, unless it is beyond the largest one. -/
def mul? (x y : Binary64) : Option Binary64 :=
  if limit * (x.den * y.den) ≤ x.num * y.num then none
  else some (ofQuotient (x.num * y.num) (x.den * y.den))

/-! ### Decimal texts -/

/-- The double nearest to a power of ten. -/
def tens (places : Nat) : Binary64 := ofNat (Nat.pow 10 places)

/-- The largest power of ten that is a double. -/
def maxTens : Nat := 308

/-- A double divided by a power of ten, by as much as a double holds at a time. -/
def shiftRight (x : Binary64) (places : Nat) : Binary64 :=
  if places ≤ maxTens then x.div (tens places)
  else if x.mantissa = 0 then zero
  else shiftRight (x.div (tens maxTens)) (places - maxTens)
termination_by places
decreasing_by simp only [maxTens] at *; omega

/-- The double that digits and a power of ten are taken for, unless it is beyond the largest one.
The digits are rounded before they are scaled. -/
def ofDecimal? (digits : Nat) : Int → Option Binary64
  | .ofNat places =>
    if places ≤ maxTens then (ofNat digits).mul? (tens places)
    else if digits = 0 then some zero
    else none
  | .negSucc places => some ((ofNat digits).shiftRight (places + 1))

/-- All digits of the value, and how many of them stand after the point. -/
def decimal (x : Binary64) : Nat × Nat :=
  match x.exponent with
  | .ofNat n => (x.mantissa <<< n, 0)
  | .negSucc n => (x.mantissa * Nat.pow 5 (n + 1), n + 1)

/-- The interchange format: sign, biased exponent and mantissa without its leading one. -/
def bits (x : Binary64) : UInt64 :=
  if x.mantissa = 0 then 0
  else UInt64.ofNat (((x.exponent + 1075).toNat <<< 52) + x.mantissa - (1 <<< 52))

/-- The decimal text with a number of places after the point. -/
def toFixed (places : Nat) (x : Binary64) : String :=
  let one := Nat.pow 10 places
  let units := roundHalfEven (x.num * one) x.den
  let fraction := toString (units % one)
  toString (units / one) ++ "." ++
    String.ofList (List.replicate (places - fraction.length) '0') ++ fraction

end Binary64

end TwoWayPeg
