/-!
Operators, the symbols they are written with, and tables that say how tightly operators bind.
-/

namespace LineCalc

/-- The operators that make a number of two numbers. -/
inductive Arithmetic where
  | add | sub | mul | div
deriving DecidableEq, Repr

def Arithmetic.label : Arithmetic → String
  | add => "ADD"
  | sub => "SUB"
  | mul => "MUL"
  | div => "DIV"

/-- Assigning, calculating, printing and ending a statement. -/
inductive Operator where
  | equals
  | arithmetic (op : Arithmetic)
  | print
  | semicolon
deriving DecidableEq, Repr

namespace Operator

def all : List Operator :=
  [equals, arithmetic .add, arithmetic .sub, arithmetic .mul, arithmetic .div, print, semicolon]

def label : Operator → String
  | equals => "EQUALS"
  | arithmetic op => op.label
  | print => "PRINT"
  | semicolon => "SEMICOLON"

/-- An operand may follow. Printing is written before or after its only operand and leaves what is
expected next as it was. -/
def opensOperand : Operator → Bool
  | print => false
  | _ => true

end Operator

/-- What is written with a single character. -/
inductive Symbol where
  | operator (op : Operator)
  | leftParen
  | rightParen
deriving DecidableEq, Repr

namespace Symbol

def all : List Symbol :=
  [operator .equals, operator (.arithmetic .add), operator (.arithmetic .sub),
    operator (.arithmetic .mul), operator (.arithmetic .div), leftParen, rightParen,
    operator .print, operator .semicolon]

def label : Symbol → String
  | operator op => op.label
  | leftParen => "LEFT_PAREN"
  | rightParen => "RIGHT_PAREN"

def character : Symbol → Char
  | operator .equals => '='
  | operator (.arithmetic .add) => '+'
  | operator (.arithmetic .sub) => '-'
  | operator (.arithmetic .mul) => '*'
  | operator (.arithmetic .div) => '/'
  | operator .print => '%'
  | operator .semicolon => ';'
  | leftParen => '('
  | rightParen => ')'

def ofChar? : Char → Option Symbol
  | '=' => some (operator .equals)
  | '+' => some (operator (.arithmetic .add))
  | '-' => some (operator (.arithmetic .sub))
  | '*' => some (operator (.arithmetic .mul))
  | '/' => some (operator (.arithmetic .div))
  | '%' => some (operator .print)
  | ';' => some (operator .semicolon)
  | '(' => some leftParen
  | ')' => some rightParen
  | _ => none

theorem ofChar?_character (symbol : Symbol) : ofChar? symbol.character = some symbol := by
  rcases symbol with (_ | op | _ | _) | _ | _
  case operator.arithmetic => cases op <;> rfl
  all_goals rfl

end Symbol

/-- The side on which operators of one precedence group. -/
inductive Associativity where
  | left | right
deriving DecidableEq, Repr

/-- How an operator binds and how many operands it takes; a negative arity takes none. -/
structure Rule where
  precedence : Int
  associativity : Associativity
  arity : Int
deriving DecidableEq, Repr

/-- The rules of operators; an operator may lack one. -/
abbrev PrecedenceTable := Operator → Option Rule

namespace PrecedenceTable

/-- The operators from the loosest to the tightest of the standard table. -/
def loosestFirst : List Operator :=
  [.semicolon, .equals, .arithmetic .add, .arithmetic .sub, .arithmetic .mul, .arithmetic .div,
    .print]

/-- Assignment groups to the right and arithmetic to the left; a statement ends below everything
and printing binds above everything. -/
def standard : PrecedenceTable
  | .semicolon => some ⟨0, .left, 1⟩
  | .equals => some ⟨1, .right, 2⟩
  | .arithmetic .add | .arithmetic .sub => some ⟨2, .left, 2⟩
  | .arithmetic .mul | .arithmetic .div => some ⟨3, .left, 2⟩
  | .print => some ⟨4, .right, 1⟩

def Total (table : PrecedenceTable) : Prop :=
  ∀ op, (table op).isSome

theorem standard_total : standard.Total := by
  rintro (_ | (_ | _ | _ | _) | _ | _) <;> rfl

end PrecedenceTable

/-- An operator with the rule `waiting` has to be applied before one with the rule `incoming`: it
binds tighter, or as tight and the incoming one groups to the left. -/
def Rule.appliesBefore (waiting incoming : Rule) : Bool :=
  if waiting.precedence = incoming.precedence then incoming.associativity = .left
  else decide (incoming.precedence < waiting.precedence)

end LineCalc
