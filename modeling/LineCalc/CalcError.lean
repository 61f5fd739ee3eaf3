import LineCalc.Text.Quoted
import LineCalc.Token

/-!
What can be wrong with a line, and the wording of it.
-/

namespace LineCalc

/-- The stage that found a mistake. -/
inductive Family where
  | lexical | structural | runtime
deriving DecidableEq, Repr

/-- How messages of a family start. -/
def Family.title : Family → String
  | lexical => "Lexer error"
  | structural => "Structure error"
  | runtime => "Runtime error"

/-- A message behind the title of its family. -/
def Family.caption (family : Family) (message : String) : String :=
  "[" ++ family.title ++ "] " ++ message

/-- What may start an operand. -/
inductive OperandStart where
  | number | name | bracket
deriving DecidableEq, Repr

def OperandStart.text : OperandStart → String
  | number => "number"
  | name => "identifier"
  | bracket => Symbol.leftParen.label

/-- The mistakes a line can hold. -/
inductive Cause where
  | unexpectedCharacter (found : Char)
  | invalidNumberLiteral (lexeme : String)
  | expectedExpression (found : Symbol)
  | expectedOperator (found : OperandStart)
  | unclosedLeftBracket
  | unclosedRightBracket
  | unassignedVariable (name : String)
  | assigningToExpression
  | assigningToNull
  | usingNull
  | printingNull
  | missingOperand (op : Operator)
deriving DecidableEq, Repr

namespace Cause

def family : Cause → Family
  | unexpectedCharacter _ | invalidNumberLiteral _ => .lexical
  | expectedExpression _ | expectedOperator _ | unclosedLeftBracket | unclosedRightBracket =>
    .structural
  | unassignedVariable _ | assigningToExpression | assigningToNull | usingNull | printingNull
  | missingOperand _ => .runtime

def message : Cause → String
  | unexpectedCharacter found => "Unexpected character: " ++ Text.quote (String.singleton found)
  | invalidNumberLiteral lexeme => "Invalid number literal: " ++ Text.quote lexeme
  | expectedExpression found => "Expected an expression, found " ++ found.label
  | expectedOperator found => "Expected an operator, found " ++ found.text
  | unclosedLeftBracket => "Unclosed bracket"
  | unclosedRightBracket => "Closing bracket has no matching opening bracket"
  | unassignedVariable name => "Variable " ++ Text.quote name ++ " is not assigned"
  | assigningToExpression => "Only a variable can be assigned to, not a Float"
  | assigningToNull => "Cannot assign to Null, the statement before has already ended"
  | usingNull => "Null left by a finished statement has no value to use"
  | printingNull => "Nothing to print"
  | missingOperand op => "Not enough operands for " ++ op.label

end Cause

/-- A mistake and where it is in the line. -/
structure CalcError where
  cause : Cause
  span : Span
deriving DecidableEq, Repr

def CalcError.caption (error : CalcError) : String :=
  error.cause.family.caption error.cause.message

/-- Why a step stopped. Only the first constructor is about the line: the others need a precedence
table without a rule for an operator, a handle that its name table does not know, or a symbol where
only postfix order is allowed. -/
inductive Fault where
  | line (error : CalcError)
  | missingRule (op : Operator)
  | unknownHandle (handle : Handle)
  | strayingSymbol (symbol : Symbol)
deriving DecidableEq, Repr

def Fault.inLine (cause : Cause) (span : Span) : Fault :=
  .line ⟨cause, span⟩

def Fault.message : Fault → String
  | line error => error.cause.message
  | missingRule op => op.label
  | unknownHandle handle =>
    if handle.fitsWord then "list index out of range"
    else "cannot fit \x27int\x27 into an index-sized integer"
  | strayingSymbol symbol => "Unexpected token: " ++ symbol.label

end LineCalc
