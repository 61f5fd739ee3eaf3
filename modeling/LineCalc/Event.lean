import LineCalc.Text.Quoted
import LineCalc.Token

/-!
What a session does that can be seen from outside, in order, and its two views: the text that is
printed and the records of the log.
-/

namespace LineCalc

/-- One visible act of a session. -/
inductive Event where
  | running (line : String)
  | interned (name : String) (handle : Handle)
  | executing (token : Spanned Token)
  | assigned (name : String) (value : Number)
  | printed (value : Number)
deriving DecidableEq

inductive LogLevel where
  | debug | info
deriving DecidableEq, Repr

def LogLevel.label : LogLevel → String
  | debug => "DEBUG"
  | info => "INFO"

/-- A record of the log: which part speaks, how much it matters and what it says. -/
structure LogRecord where
  logger : String
  level : LogLevel
  message : String
deriving DecidableEq, Repr

/-- The record as one line without its end. -/
def LogRecord.text (record : LogRecord) : String :=
  record.logger ++ " - " ++ record.level.label ++ " - " ++ record.message

namespace Event

/-- What an event prints: only a printed number, behind a space. -/
def outputChars : Event → List Char
  | printed value => ' ' :: value.displayChars
  | _ => []

/-- The record that an event leaves in the log; printing leaves none. -/
def record? : Event → Option LogRecord
  | running line => some ⟨"spancalc.session", .debug, "Running " ++ Text.quote line⟩
  | interned name handle =>
    some ⟨"spancalc.interner", .debug,
      "Interned " ++ Text.quote name ++ " as " ++ handleText handle⟩
  | executing token => some ⟨"spancalc.runtime", .debug, "Executing " ++ token.text Token.text⟩
  | assigned name value =>
    some ⟨"spancalc.runtime", .debug, "Assigned " ++ name ++ " = " ++ value.logged⟩
  | printed _ => none

def output (events : List Event) : String :=
  String.ofList (events.flatMap outputChars)

def log (events : List Event) : List LogRecord :=
  events.filterMap record?

end Event

end LineCalc
