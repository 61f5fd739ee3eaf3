import LineCalc.Machine

/-!
Executing the tokens of one line. The end of a line ends its last statement, as a semicolon behind
everything executed so far would.
-/

namespace LineCalc

/-- A machine and how far into the line the executed tokens reach. -/
structure Evaluation where
  machine : Machine
  reach : Int
deriving DecidableEq

/-- What can be handed over for execution: a token of postfix order, or a symbol, which reordering
should have replaced. -/
inductive Instruction where
  | token (token : Token)
  | symbol (symbol : Symbol)
deriving DecidableEq

/-- Executes a token and refuses a symbol. -/
def Machine.obey (naming : Naming) (instruction : Spanned Instruction) (machine : Machine) :
    Outcome Machine :=
  match instruction.value with
  | .token token => machine.execute naming ⟨token, instruction.span⟩
  | .symbol symbol => .fail machine (.strayingSymbol symbol)

namespace Evaluation

/-- Before the first token of a line: no operands and the environment so far. -/
def start (environment : Environment) : Evaluation :=
  ⟨⟨[], environment⟩, 0⟩

def perform (naming : Naming) (token : Spanned Token) (evaluation : Evaluation) :
    Outcome Evaluation :=
  ((evaluation.machine.execute naming token).following [.executing token]).map fun machine =>
    ⟨machine, max evaluation.reach token.span.stop⟩

def obey (naming : Naming) (instruction : Spanned Instruction) (evaluation : Evaluation) :
    Outcome Evaluation :=
  match instruction.value with
  | .token token => evaluation.perform naming ⟨token, instruction.span⟩
  | .symbol symbol => .fail evaluation (.strayingSymbol symbol)

/-- Ends the last statement of the line. -/
def close (naming : Naming) (evaluation : Evaluation) : Outcome Evaluation :=
  (evaluation.machine.endStatement naming ⟨evaluation.reach, evaluation.reach⟩).map fun machine =>
    { evaluation with machine := machine }

def runLine (naming : Naming) (instructions : List (Spanned Instruction))
    (environment : Environment) : Outcome Machine :=
  ((Outcome.runAll (obey naming) instructions (start environment)).andThen (close naming)).map
    Evaluation.machine

end Evaluation

end LineCalc
