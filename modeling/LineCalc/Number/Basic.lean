import LineCalc.Number.Decimal

/-!
The numbers of the calculator, their bits, and the number nearest to a decimal.

Apart from the sign, the bits of a number are a natural number, its magnitude. Consecutive finite
magnitudes stand for consecutive multiples of powers of two, and infinity comes right after them,
so that rounding up across a power of two is adding one.
-/

namespace LineCalc

/-- A number of the calculator: an IEEE 754 binary64 value. -/
abbrev Number := Float

namespace Number

/-- How many magnitudes share a power of two: 2 to the 52nd. -/
def rangeSize : Nat :=
  0x10000000000000

/-- The weight of the sign bit: 2 to the 63rd. -/
def signWeight : Nat :=
  0x8000000000000000

/-- The magnitude of infinity; larger ones belong to values that are not numbers. -/
def infinity : Nat :=
  0x7FF0000000000000

def isNegative (v : Number) : Bool :=
  decide (signWeight ≤ v.toBits.toNat)

/-- The bits without the sign. -/
def magnitude (v : Number) : Nat :=
  v.toBits.toNat % signWeight

def ofMagnitude (negative : Bool) (magnitude : Nat) : Number :=
  Float.ofBits (UInt64.ofNat ((if negative then signWeight else 0) + magnitude))

/-- The factor before the power of two. -/
def significand (magnitude : Nat) : Nat :=
  if magnitude < rangeSize then magnitude else magnitude % rangeSize + rangeSize

/-- The exponent of the power of two; the smallest magnitudes share the least one. -/
def binaryExponent (magnitude : Nat) : Int :=
  if magnitude < rangeSize then -1074 else (magnitude / rangeSize : Nat) - 1075

def toFraction (magnitude : Nat) : Fraction :=
  (Fraction.ofNat (significand magnitude)).timesPower 2 (binaryExponent magnitude)

/-- The magnitude of a significand times a power of two. The significand has at most 53 bits, and it
has all of them unless the exponent is the least one. -/
def packed (significand : Nat) (exponent : Int) : Nat :=
  (exponent + 1074).toNat * rangeSize + significand

theorem packed_significand (magnitude : Nat) :
    packed (significand magnitude) (binaryExponent magnitude) = magnitude := by
  unfold packed significand binaryExponent rangeSize
  split <;> omega

/-- The magnitude nearest to a quotient. Of two equally near the one with an even significand is
taken, and what would not be finite becomes infinity. -/
def nearestMagnitude (f : Fraction) : Nat :=
  if f.num = 0 then 0
  else
    let exponent := max (f.log2 - 52) (-1074)
    min (packed (f.timesPower 2 (-exponent)).nearest exponent) infinity

/-- The number nearest to a decimal. -/
def ofDecimal (d : Decimal) : Number :=
  ofMagnitude false (nearestMagnitude d.toFraction)

end Number

end LineCalc
