import LineCalc.Number.Display
import LineCalc.Operator
import LineCalc.Span

/-! Tokens as they are read and tokens in the order of their execution. -/

namespace LineCalc

/-- The number of a name. A name table gives out the numbers from zero on. -/
abbrev Handle := Int

/-- A token of a line, with names as handles. -/
inductive RawToken where
  | number (value : Number)
  | name (handle : Handle)
  | symbol (symbol : Symbol)
deriving DecidableEq

/-- A token of postfix order, where brackets have done their work and are gone. -/
inductive Token where
  | number (value : Number)
  | name (handle : Handle)
  | operator (op : Operator)
deriving DecidableEq

/-- The handle fits a signed word of 64 bits; one that does not fit can be no position at all. -/
def Handle.fitsWord (handle : Handle) : Bool :=
  decide (-9223372036854775808 ≤ handle ∧ handle < 9223372036854775808)

def handleText (handle : Handle) : String :=
  "#" ++ toString handle

def RawToken.text : RawToken → String
  | number value => value.logged
  | name handle => handleText handle
  | symbol s => s.label

def Token.text : Token → String
  | number value => value.logged
  | name handle => handleText handle
  | operator op => op.label

/-- A written form with its place. -/
def Spanned.text {α : Type} (form : α → String) (item : Spanned α) : String :=
  form item.value ++ "@" ++ item.span.text

end LineCalc
