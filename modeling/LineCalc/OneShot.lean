import LineCalc.Session

/-!
The value of a single expression: it is put in brackets behind a print sign, run as the only line of
a session, and what the line prints is read back as a number.
-/

namespace LineCalc

/-- What becomes of a single expression. The text it printed is not a number when it printed more
than one. -/
inductive OneShot where
  | value (value : Number)
  | failed (fault : Fault)
  | unreadable (printed : String)
deriving DecidableEq

def OneShot.ofExpression (expression : String) : OneShot :=
  let outcome := Session.empty.run ("%(" ++ expression ++ ")")
  match outcome.fault with
  | some fault => .failed fault
  | none =>
    let printed := Event.output outcome.events
    match Number.read? (Text.withoutOuterBlanks printed.toList) with
    | some number => .value number
    | none => .unreadable printed

def OneShot.unreadableMessage (printed : String) : String :=
  "could not convert string to float: " ++ Text.quote printed

end LineCalc
