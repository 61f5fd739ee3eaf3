import LineCalc.Text.CodeRanges

/-!
Blanks: the characters that separate tokens and count for nothing else.
-/

namespace LineCalc.Text

/-- The white space of Unicode 14 and the four separators U+001C to U+001F. -/
def blankRanges : CodeRanges :=
  [(0x9, 0xD), (0x1C, 0x20), (0x85, 0x85), (0xA0, 0xA0), (0x1680, 0x1680), (0x2000, 0x200A),
   (0x2028, 0x2029), (0x202F, 0x202F), (0x205F, 0x205F), (0x3000, 0x3000)]

/-- A character that only separates tokens. -/
def isBlank (c : Char) : Bool :=
  blankRanges.contains c.toNat

/-- A text without the blanks at both of its ends. -/
def withoutOuterBlanks (text : List Char) : List Char :=
  ((text.dropWhile isBlank).reverse.dropWhile isBlank).reverse

theorem isBlank_of_isWhitespace {c : Char} (ascii : c.isWhitespace = true) : isBlank c = true := by
  simp only [Char.isWhitespace, Bool.or_eq_true, decide_eq_true_eq] at ascii
  rcases ascii with ((rfl | rfl) | rfl) | rfl <;> decide

end LineCalc.Text
