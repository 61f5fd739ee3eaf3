import LineCalc.CalcError
import LineCalc.Text.Blank
import LineCalc.Text.Letter
import LineCalc.Token

/-!
Cutting a line into lexemes. Words and numerals reach as far as they can, blanks separate and are
dropped, and the cutting ends at the first character that starts no lexeme or at the first numeral
with more than one point.
-/

namespace LineCalc

/-- A piece of a line with a meaning, before names get handles. -/
inductive Lexeme where
  | number (value : Number)
  | word (text : String)
  | symbol (symbol : Symbol)
deriving DecidableEq

/-- The lexemes of a text up to its end or up to its first mistake. -/
structure Scan where
  lexemes : List (Spanned Lexeme)
  mistake : Option CalcError
deriving DecidableEq

namespace Scan

def cons (lexeme : Spanned Lexeme) (scan : Scan) : Scan :=
  { scan with lexemes := lexeme :: scan.lexemes }

/-- A character of a numeral behind its first digit. -/
def isNumeralChar (c : Char) : Bool :=
  Text.isDigit c || c == '.'

private theorem length_dropWhile_lt (p : Char → Bool) (c : Char) (rest : List Char) :
    (rest.dropWhile p).length < (c :: rest).length :=
  Nat.lt_succ_of_le (List.dropWhile_sublist p).length_le

/-- Cuts a text whose first character is at `position` of the line. -/
def ofChars (position : Nat) : List Char → Scan
  | [] => ⟨[], none⟩
  | c :: rest =>
    if Text.isBlank c then ofChars (position + 1) rest
    else if Text.isLetter c then
      let word := c :: rest.takeWhile Text.isLetter
      let stop := position + word.length
      (ofChars stop (rest.dropWhile Text.isLetter)).cons
        ⟨.word (String.ofList word), ⟨position, stop⟩⟩
    else if Text.isDigit c then
      let numeral := c :: rest.takeWhile isNumeralChar
      let stop := position + numeral.length
      match Decimal.read? numeral with
      | some decimal =>
        (ofChars stop (rest.dropWhile isNumeralChar)).cons
          ⟨.number (Number.ofDecimal decimal), ⟨position, stop⟩⟩
      | none => ⟨[], some ⟨.invalidNumberLiteral (String.ofList numeral), ⟨position, stop⟩⟩⟩
    else
      match Symbol.ofChar? c with
      | some symbol =>
        (ofChars (position + 1) rest).cons ⟨.symbol symbol, ⟨position, position + 1⟩⟩
      | none => ⟨[], some ⟨.unexpectedCharacter c, ⟨position, position + 1⟩⟩⟩
termination_by text => text.length
decreasing_by
  · exact Nat.lt_succ_self _
  · exact length_dropWhile_lt _ c rest
  · exact length_dropWhile_lt _ c rest
  · exact Nat.lt_succ_self _

theorem ofChars_nil (position : Nat) : ofChars position [] = ⟨[], none⟩ := by
  rw [ofChars]

def ofLine (line : String) : Scan :=
  ofChars 0 line.toList

end Scan

end LineCalc
