import LineCalc.CalcError
import LineCalc.Text.Lines

/-!
Showing a mistake: the part of the line around it, a row of tildes under it, and a caret under its
start with the message.
-/

namespace LineCalc

/-- How many characters are shown on both sides of a mistake. -/
def standardWindow : Int :=
  10

/-- What is shown of a line, and where the mistake lies in it. -/
structure Excerpt where
  shown : List Char
  indent : Nat
  underline : Nat
deriving DecidableEq, Repr

namespace Excerpt

def ellipsis : List Char :=
  ['.', '.', '.']

/-- The part of a line from position `first` on and before `last`, which counts back from the end of
the line when it is negative. -/
def slice (first : Nat) (last : Int) (line : List Char) : List Char :=
  let last := if last < 0 then last + line.length else last
  (line.take last.toNat).drop first

theorem slice_middle (before piece after : List Char) :
    slice before.length (before ++ piece).length (before ++ piece ++ after) = piece := by
  have inside : ¬ ((before ++ piece).length : Int) < 0 := Int.not_lt.mpr (Int.natCast_nonneg _)
  have taken : (before ++ piece ++ after).take ((before ++ piece).length : Int).toNat =
      before ++ piece := List.take_left
  rw [slice, if_neg inside, taken]
  exact List.drop_left

/-- The part of a line within `window` characters of a span. The underline has at least one
character, whatever the span. -/
def around (line : List Char) (span : Span) (window : Int) : Excerpt :=
  let line := Text.withoutLineEnd line
  let first := (span.start - window).toNat
  let last := min (line.length : Int) (max span.stop (span.start + 1) + window)
  let before := if 0 < first then ellipsis else []
  let after := if last < line.length then ellipsis else []
  { shown := before ++ slice first last line ++ after
    indent := (span.start - first + before.length).toNat
    underline := (max 1 (min span.stop last - span.start)).toNat }

/-- The three lines that show a mistake with a message. -/
def render (excerpt : Excerpt) (caption : List Char) : List Char :=
  let indent := List.replicate excerpt.indent ' '
  excerpt.shown ++ '\n' :: indent ++ List.replicate excerpt.underline '~' ++
    '\n' :: indent ++ '^' :: ' ' :: caption

def renderIn (line : String) (span : Span) (caption : String) (window : Int) : String :=
  String.ofList ((around line.toList span window).render caption.toList)

end Excerpt

def CalcError.render (error : CalcError) (line : String) : String :=
  Excerpt.renderIn line error.span error.caption standardWindow

/-- A fault shown in the line it belongs to; a fault of no line is only named. -/
def Fault.render (line : String) : Fault → String
  | .line error => error.render line
  | fault => fault.message

end LineCalc
