import LineCalc.Text.Blank

/-!
Cutting a text into lines. In a script line ends are unified first, so that a carriage return with or
without a line feed counts as one line feed, and many other characters end a line as well. What is typed is
taken as it comes: only a line feed ends a line there, and a carriage return is a character of its line.
-/

namespace LineCalc.Text

/-- Writes a carriage return, alone or before a line feed, as one line feed. -/
def unifyLineEnds : List Char → List Char
  | [] => []
  | '\r' :: '\n' :: rest => '\n' :: unifyLineEnds rest
  | '\r' :: rest => '\n' :: unifyLineEnds rest
  | c :: rest => c :: unifyLineEnds rest

/-- Cuts after every character that ends a line and drops that character. What follows the last
one is a line only if it holds something. -/
def cutLines (endsLine : Char → Bool) : List Char → List (List Char)
  | [] => []
  | c :: rest =>
    if endsLine c then [] :: cutLines endsLine rest
    else
      match cutLines endsLine rest with
      | [] => [[c]]
      | line :: lines => (c :: line) :: lines

/-- What ends a line of a script: line feed, vertical tab, form feed, carriage return, the
separators of files, groups and records, next line, and the line and paragraph separators. -/
def endsScriptLine (c : Char) : Bool :=
  ['\n', '\x0b', '\x0c', '\r', '\x1c', '\x1d', '\x1e', '\u0085', '\u2028', '\u2029'].contains c

def scriptLines (text : String) : List String :=
  (cutLines endsScriptLine (unifyLineEnds text.toList)).map String.ofList

/-- The lines typed at a prompt, which only a line feed ends. -/
def typedLines (text : String) : List String :=
  (cutLines (· == '\n') text.toList).map String.ofList

/-- A line without the line feeds and carriage returns at its end. -/
def withoutLineEnd (line : List Char) : List Char :=
  (line.reverse.dropWhile fun c => c == '\r' || c == '\n').reverse

def isBlankLine (line : String) : Bool :=
  line.toList.all isBlank

end LineCalc.Text
