import LineCalc.Evaluation
import LineCalc.Intake
import LineCalc.Resolver

/-!
Sessions: what lines leave behind for the lines after them. A line is taken in lexeme by lexeme;
whatever a lexeme makes ready is executed before the next one is looked at, so that a mistake later
in the line does not undo or prevent it.
-/

namespace LineCalc

/-- The names and the environment shared by all lines. -/
structure Session where
  names : NameTable
  environment : Environment
deriving DecidableEq

/-- A line that is being run. -/
structure LineRun where
  names : NameTable
  resolver : Resolver
  evaluation : Evaluation
deriving DecidableEq

namespace LineRun

/-- Executes tokens that are ready, or stops because of the fault that lost them. -/
def execute (ready : Except Fault (List (Spanned Token))) (run : LineRun) : Outcome LineRun :=
  match ready with
  | .error fault => .fail run fault
  | .ok tokens =>
    (Outcome.runAll (Evaluation.perform (some run.names)) tokens run.evaluation).map
      fun evaluation => { run with evaluation := evaluation }

def feed (lexeme : Spanned Lexeme) (run : LineRun) : Outcome LineRun :=
  let taken := run.names.take lexeme.value
  let pushed := run.resolver.push PrecedenceTable.standard ⟨taken.token, lexeme.span⟩
  (execute pushed.2 { run with names := taken.names, resolver := pushed.1 }).following taken.events

def finish (run : LineRun) : Outcome LineRun :=
  let finished := run.resolver.finish PrecedenceTable.standard
  (execute finished.2 { run with resolver := finished.1 }).andThen fun run =>
    (run.evaluation.close (some run.names)).map fun evaluation =>
      { run with evaluation := evaluation }

/-- Takes in a whole line. Its first mistake in cutting, if it has one, takes the place of its
end. -/
def feedAll (scan : Scan) (run : LineRun) : Outcome LineRun :=
  (Outcome.runAll feed scan.lexemes run).andThen fun run =>
    match scan.mistake with
    | some error => .fail run (.line error)
    | none => run.finish

end LineRun

namespace Session

def empty : Session :=
  ⟨.empty, .empty⟩

def begin (session : Session) : LineRun :=
  ⟨session.names, .start, .start session.environment⟩

/-- Runs one line. What it did before a fault stays done. -/
def run (line : String) (session : Session) : Outcome Session :=
  ((LineRun.feedAll (Scan.ofLine line) session.begin).following [.running line]).map fun run =>
    ⟨run.names, run.evaluation.machine.environment⟩

def get? (session : Session) (spelling : String) : Option Number :=
  (session.names.handle? spelling).bind session.environment.get?

/-- The variables with their spellings, in order of first assignment. -/
def namedVariables (session : Session) : List (String × Number) :=
  session.environment.bindings.filterMap fun (handle, value) =>
    (session.names.spelling? handle).map (·, value)

end Session

end LineCalc
