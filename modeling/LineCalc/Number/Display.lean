import LineCalc.Number.Shortest

/-!
The written forms of a number: the display, which is what the calculator prints and never has an
exponent, and the form that log messages use. `read?` reads displays.
-/

namespace LineCalc.Number

def signed (negative : Bool) (text : List Char) : List Char :=
  if negative then '-' :: text else text

/-- The digits of a display. A whole number has all of its digits; any other number has the fewest
that read back. -/
def displayDigits (magnitude : Nat) : List Char :=
  if (toFraction magnitude).isWhole then Nat.toDigits 10 (toFraction magnitude).floor
  else (shortestDecimal magnitude).positional

def displayChars (v : Number) : List Char :=
  if infinity < v.magnitude then ['N', 'a', 'N']
  else if v.magnitude = infinity then signed v.isNegative ['i', 'n', 'f']
  else signed v.isNegative (displayDigits v.magnitude)

def display (v : Number) : String :=
  String.ofList v.displayChars

/-- The digits of a log message: always the fewest that read back, with `.0` after a whole number,
and with an exponent from 10 ^ 16 on and below 10 ^ -4. -/
def loggedDigits (magnitude : Nat) : List Char :=
  let d := shortestDecimal magnitude
  if d.leadingExponent < -4 ∨ 16 ≤ d.leadingExponent then d.scientific
  else if 0 ≤ d.exponent then d.positional ++ ['.', '0']
  else d.positional

def loggedChars (v : Number) : List Char :=
  if infinity < v.magnitude then ['n', 'a', 'n']
  else if v.magnitude = infinity then signed v.isNegative ['i', 'n', 'f']
  else signed v.isNegative (loggedDigits v.magnitude)

def logged (v : Number) : String :=
  String.ofList v.loggedChars

/-- Reads a display without its sign. -/
def readMagnitude? (text : List Char) : Option Nat :=
  if text = ['i', 'n', 'f'] then some infinity
  else (Decimal.read? text).map fun d => nearestMagnitude d.toFraction

def notANumber : Number :=
  0.0 / 0.0

def read? (text : List Char) : Option Number :=
  match text with
  | ['N', 'a', 'N'] => some notANumber
  | '-' :: digits => (readMagnitude? digits).map (ofMagnitude true)
  | digits => (readMagnitude? digits).map (ofMagnitude false)

end LineCalc.Number
