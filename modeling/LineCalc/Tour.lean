import LineCalc.Excerpt
import LineCalc.Listing
import LineCalc.Session

/-!
A tour of the calculator: sample lines with their tokens, their postfix order, what they print and
the variables after them. All samples share one session.
-/

namespace LineCalc.Tour

def samples : List String :=
  ["5 % ;", "% 1 + 1", "% (4 + 6 * 3)", "%((4+6) * 3)", "% (7/6/2000)",
    "a = 1; b= 2; c = a + b; % c", "var = (1 + 14 * (54*2)) %", "% 10 / 5/ 2",
    "a = b = 10; % a; % b", "% 1 / 0", ";;;", "x + 1", "(1 + 2", "2 + 3)", "1.2.3"]

/-- Variables and their values between braces. -/
def variablesText (values : List (String × Number)) : String :=
  "\x7b" ++ ", ".intercalate (values.map fun (name, value) =>
    Text.quote name ++ ": " ++ value.logged) ++ "\x7d"

/-- What is shown of one sample, and the session after it. All tokens are read before any is
reordered, and all are reordered before any is executed. -/
def visit (line : String) (session : Session) : String × Session :=
  let header := "==========\ncode: " ++ Text.quote line ++ "\n"
  let read := Listing.read session.names line
  let known := { session with names := read.names }
  match read.fault with
  | some fault => (header ++ fault.render line ++ "\n", known)
  | none =>
    let tokens := read.items.map Prod.fst
    let header := header ++
      "tokens: " ++ " ".intercalate (tokens.map fun token => token.text RawToken.text) ++ "\n"
    match PrecedenceTable.standard.reorder tokens with
    | .error fault => (header ++ fault.render line ++ "\n", known)
    | .ok reordered =>
      let header := header ++
        "postfix: " ++ " ".intercalate (reordered.map fun token => token.value.text) ++ "\n"
      let outcome := known.run line
      let shown := match outcome.fault with
        | some fault => fault.render line
        | none => "output:" ++ Event.output outcome.events ++ "\nvariables: " ++
            variablesText outcome.state.namedVariables
      (header ++ shown ++ "\n", outcome.state)

def visitAll : List String → Session → String
  | [], _ => ""
  | line :: later, session =>
    let visited := visit line session
    visited.1 ++ visitAll later visited.2

def text : String :=
  visitAll samples .empty

end LineCalc.Tour
