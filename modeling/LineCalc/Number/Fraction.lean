/-!
Quotients of natural numbers, their scaling by powers and their rounding to natural numbers.
-/

namespace LineCalc

/-- A quotient of natural numbers. -/
structure Fraction where
  num : Nat
  den : Nat
deriving DecidableEq, Repr

namespace Fraction

def ofNat (n : Nat) : Fraction :=
  ⟨n, 1⟩

/-- Multiplies by a power, whose exponent may be negative. -/
def timesPower (f : Fraction) (base : Nat) (exponent : Int) : Fraction :=
  if 0 ≤ exponent then ⟨f.num * base.pow exponent.toNat, f.den⟩
  else ⟨f.num, f.den * base.pow (-exponent).toNat⟩

def floor (f : Fraction) : Nat :=
  f.num / f.den

def isWhole (f : Fraction) : Bool :=
  f.num % f.den == 0

/-- The nearest natural number; a half goes to the even neighbour. -/
def nearest (f : Fraction) : Nat :=
  let low := f.num / f.den
  let twice := 2 * (f.num % f.den)
  if twice < f.den ∨ (twice = f.den ∧ low % 2 = 0) then low else low + 1

def belowOne (f : Fraction) : Bool :=
  decide (f.num < f.den)

/-- The exponent of the largest power of two that is not above a positive quotient. -/
def log2 (f : Fraction) : Int :=
  let guess : Int := (f.num.log2 : Int) - f.den.log2
  if (f.timesPower 2 (-guess)).belowOne then guess - 1 else guess

/-- The exponent of the smallest power of ten that is above a positive quotient. -/
def decimalPoint (f : Fraction) : Int :=
  let guess : Int := ((Nat.toDigits 10 f.num).length : Int) - (Nat.toDigits 10 f.den).length
  if (f.timesPower 10 (-guess)).belowOne then guess else guess + 1

end Fraction

end LineCalc
