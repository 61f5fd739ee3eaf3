import LineCalc.Number.Basic

/-!
The decimal with the fewest digits that reads back as a given number and, of those, the nearest to
its value.
-/

namespace LineCalc

namespace Fraction

/-- The decimals of `count` digits next to a positive quotient, the nearer one first; of two equally
near the one with an even last digit comes first. -/
def neighbours (f : Fraction) (count : Nat) : List Decimal :=
  let exponent := f.decimalPoint - count
  let scaled := f.timesPower 10 (-exponent)
  let near := scaled.nearest
  let far := if near = scaled.floor then near + 1 else scaled.floor
  [⟨near, exponent⟩, ⟨far, exponent⟩]

end Fraction

namespace Number

def readsBack (magnitude : Nat) (d : Decimal) : Bool :=
  nearestMagnitude d.toFraction == magnitude

/-- All digits of the value of a finite magnitude. -/
def exactDecimal (magnitude : Nat) : Decimal :=
  let exponent := binaryExponent magnitude
  if 0 ≤ exponent then ⟨significand magnitude * Nat.pow 2 exponent.toNat, 0⟩
  else ⟨significand magnitude * Nat.pow 5 (-exponent).toNat, exponent⟩

/-- Seventeen digits always suffice to tell a number from its neighbours, so the search with one to
seventeen digits finds a decimal; all digits would also read back. -/
def shortestDecimal (magnitude : Nat) : Decimal :=
  let candidates := (List.range' 1 17).flatMap (toFraction magnitude).neighbours
  ((candidates.find? (readsBack magnitude)).getD (exactDecimal magnitude)).trim

end Number

end LineCalc
