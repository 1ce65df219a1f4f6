import TwoWayPeg.Text.Binary64

/-!
# Amounts

An amount of bitcoin is a number of satoshis that fits a 64-bit word. Sums of amounts are taken as
plain naturals, so that no sum can wrap; an amount is made of a natural only where the natural is
known to fit, or clamped where the excess does not matter.

The host chain counts eighteen decimals against the eight of bitcoin, so one satoshi is ten
thousand million host units.
-/

namespace TwoWayPeg

/-- A number of satoshis below `2 ^ 64`. -/
structure Amount where
  /-- The number of satoshis. -/
  sats : Nat
  /-- It fits a 64-bit word. -/
  sats_lt : sats < UInt64.size
deriving DecidableEq

namespace Amount

/-- Amounts of the same satoshis are equal. -/
theorem ext {a b : Amount} (h : a.sats = b.sats) : a = b := by
  cases a; cases b; simp_all

/-- No satoshi at all. -/
def zero : Amount := ⟨0, by decide⟩

/-- No satoshi serves as a default value. -/
instance : Inhabited Amount := ⟨zero⟩

/-- The amount of a number of satoshis that fits. -/
def ofNat? (n : Nat) : Option Amount := if h : n < UInt64.size then some ⟨n, h⟩ else none

/-- The amount nearest to a number of satoshis. -/
def clamp (n : Nat) : Amount := ⟨min n (UInt64.size - 1), by simp only [UInt64.size]; omega⟩

/-- What is left of an amount, nothing when more is taken than there is. -/
def minus (a : Amount) (n : Nat) : Amount := ⟨a.sats - n, by have := a.sats_lt; omega⟩

/-- A part of an amount, rounded down. -/
def dividedBy (a : Amount) (parts : Nat) : Amount :=
  ⟨a.sats / parts, Nat.lt_of_le_of_lt (Nat.div_le_self _ _) a.sats_lt⟩

/-- The satoshis of an amount are read as the amount. -/
@[simp] theorem ofNat?_sats (a : Amount) : ofNat? a.sats = some a :=
  dif_pos a.sats_lt

/-- What is read as an amount has the satoshis that are read. -/
theorem sats_of_ofNat? {n : Nat} {a : Amount} (h : ofNat? n = some a) : a.sats = n := by
  unfold ofNat? at h
  split at h
  · cases h; rfl
  · cases h

/-- A number of satoshis that fits is kept. -/
theorem clamp_sats {n : Nat} (h : n < UInt64.size) : (clamp n).sats = n := by
  simp only [clamp]; omega

/-- The sum of amounts, as a number of satoshis. -/
def total : List Amount → Nat
  | [] => 0
  | a :: rest => a.sats + total rest

/-- The total of two lists is the sum of their totals. -/
theorem total_append (as bs : List Amount) : total (as ++ bs) = total as + total bs := by
  induction as with
  | nil => simp [total]
  | cons a rest ih => simp only [List.cons_append, total, ih, Nat.add_assoc]

/-- Satoshis in one bitcoin. -/
def satsPerBtc : Nat := 100000000

/-- The largest amount that can ever exist: twenty-one million bitcoin. -/
def maxMoney : Nat := 21000000 * satsPerBtc

/-- Host units in one satoshi. -/
def weiPerSat : Nat := 10000000000

/-- The host value of a number of satoshis. -/
def toWei (sats : Nat) : Nat := weiPerSat * sats

/-- The amount that a host value is worth, leaving out what is less than a satoshi. -/
def ofWei (wei : Nat) : Amount := clamp (wei / weiPerSat)

/-- Turning an amount into host units and back loses nothing. -/
theorem ofWei_toWei (a : Amount) : ofWei (toWei a.sats) = a := by
  apply ext
  have h := a.sats_lt
  simp only [ofWei, toWei, weiPerSat, clamp]
  omega

/-! ### Texts -/

/-- The nearest double to a number of satoshis counted in bitcoin. -/
def btc (sats : Nat) : Binary64 := (Binary64.ofNat sats).div (.ofNat satsPerBtc)

/-- A number of satoshis in both units, the bitcoin in double precision with eight places. -/
def describe (sats : Nat) : String := s!"{sats} sats ({(btc sats).toFixed 8} BTC)"

/-- A number of satoshis in bitcoin: a whole number of them without places, otherwise all eight. -/
def display (sats : Nat) : String :=
  if sats % satsPerBtc = 0 then s!"{sats / satsPerBtc} BTC"
  else
    let fraction := toString (sats % satsPerBtc)
    s!"{sats / satsPerBtc}." ++ String.ofList (List.replicate (8 - fraction.length) '0') ++
      fraction ++ " BTC"

end Amount

end TwoWayPeg
