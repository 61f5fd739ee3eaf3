import LineCalc.Number.Fraction
import LineCalc.Text.Digit

/-!
Decimal numerals: a natural number times a power of ten, read from digits with at most one point
and written without an exponent.
-/

namespace LineCalc

/-- The value `digits * 10 ^ exponent`. -/
structure Decimal where
  digits : Nat
  exponent : Int
deriving DecidableEq, Repr

namespace Decimal

def toFraction (d : Decimal) : Fraction :=
  (Fraction.ofNat d.digits).timesPower 10 d.exponent

/-- The number that a row of digits denotes. -/
def valueOf (digits : List Char) : Nat :=
  digits.foldl (fun value digit => 10 * value + Text.digitValue digit) 0

def ofDigits (whole fraction : List Char) : Decimal :=
  ⟨valueOf (whole ++ fraction), -(fraction.length : Int)⟩

/-- Reads digits of any script with at most one point, which may not come first. -/
def read? (text : List Char) : Option Decimal :=
  let whole := text.takeWhile Text.isDigit
  if whole.isEmpty then none
  else
    match text.dropWhile Text.isDigit with
    | [] => some (ofDigits whole [])
    | point :: fraction =>
      if point = '.' ∧ fraction.all Text.isDigit then some (ofDigits whole fraction) else none

/-- The same value with no zero at the end of its digits. -/
def trim (d : Decimal) : Decimal :=
  if d.digits = 0 then ⟨0, 0⟩
  else if d.digits % 10 = 0 then trim ⟨d.digits / 10, d.exponent + 1⟩
  else d
termination_by d.digits

/-- The value in digits, with a point only where the exponent is negative. -/
def positional (d : Decimal) : List Char :=
  let digits := Nat.toDigits 10 d.digits
  let places := (-d.exponent).toNat
  if 0 ≤ d.exponent then digits ++ List.replicate d.exponent.toNat '0'
  else if digits.length ≤ places then
    '0' :: '.' :: List.replicate (places - digits.length) '0' ++ digits
  else digits.take (digits.length - places) ++ '.' :: digits.drop (digits.length - places)

/-- The power of ten at the first digit. -/
def leadingExponent (d : Decimal) : Int :=
  (Nat.toDigits 10 d.digits).length + d.exponent - 1

/-- The value with one digit before the point and the power of ten after a mark. The power has a
sign and at least two digits. -/
def scientific (d : Decimal) : List Char :=
  let power := Nat.toDigits 10 d.leadingExponent.natAbs
  let sign := if d.leadingExponent < 0 then '-' else '+'
  let padded := if power.length < 2 then '0' :: power else power
  let digits := match Nat.toDigits 10 d.digits with
    | first :: second :: rest => first :: '.' :: second :: rest
    | single => single
  digits ++ 'e' :: sign :: padded

end Decimal

end LineCalc
