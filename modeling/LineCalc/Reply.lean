import LineCalc.Excerpt
import LineCalc.Session
import LineCalc.Text.Lines

/-!
Answers to lines: what a reader of the terminal and of the log sees. A script stops at its first
mistake; a dialogue goes on.
-/

namespace LineCalc

/-- What stands where a line is asked for. -/
def promptText : String :=
  "< "

/-- What stands before the answer to a line. -/
def answerLead : String :=
  "> "

/-- A line that starts like this ends a dialogue. -/
def exitCommand : String :=
  ":q"

/-- The session after some lines, what was written and logged, and whether no line had a mistake. -/
structure Reply where
  session : Session
  text : String
  log : List LogRecord
  accepted : Bool

namespace Reply

def silent (session : Session) : Reply :=
  ⟨session, "", [], true⟩

def led (text : String) (reply : Reply) : Reply :=
  { reply with text := text ++ reply.text }

def following (earlier : Reply) (later : Reply) : Reply :=
  { later with text := earlier.text ++ later.text, log := earlier.log ++ later.log }

/-- What follows the output of a line: its mistake on lines of its own, if it has one. -/
def faultText (line : String) : Option Fault → String
  | none => ""
  | some fault => "\n" ++ fault.render line ++ "\n"

/-- The answer to one line: what it prints, its mistake if it has one, and a line end. -/
def ofLine (line : String) (session : Session) : Reply :=
  let outcome := session.run line
  { session := outcome.state
    text := Event.output outcome.events ++ faultText line outcome.fault ++ "\n"
    log := Event.log outcome.events
    accepted := outcome.fault.isNone }

/-- The answers to the lines of a script, up to the first mistake. -/
def ofLines : List String → Session → Reply
  | [], session => silent session
  | line :: later, session =>
    let reply := (ofLine line session).led answerLead
    if reply.accepted then reply.following (ofLines later reply.session) else reply

/-- The answers to a script, which skip its blank lines. -/
def ofScript (text : String) (session : Session) : Reply :=
  ofLines ((Text.scriptLines text).filter fun line => !Text.isBlankLine line) session

/-- The record that a script leaves in the log before its first line. -/
def scriptRecord (path : String) : LogRecord :=
  ⟨"__main__", .info, "Running " ++ path⟩

/-- The answers to scripts one after the other, up to the first mistake. A script that cannot be
read when its turn comes is an error, and its path is given. -/
def ofScripts (read : String → Option String) : List String → Session → Except String Reply
  | [], session => .ok (silent session)
  | path :: later, session =>
    match read path with
    | none => .error path
    | some text =>
      let reply := ofScript text session
      let reply := { reply with log := scriptRecord path :: reply.log }
      if reply.accepted then (ofScripts read later reply.session).map reply.following
      else .ok reply

def isExit (line : String) : Bool :=
  exitCommand.toList.isPrefixOf line.toList

/-- A dialogue about typed lines, up to the one that ends it or to the end of the input. -/
def ofDialogue : List String → Session → Reply
  | [], session => (silent session).led (promptText ++ "\n")
  | line :: later, session =>
    if isExit line then (silent session).led promptText
    else
      let reply := (ofLine line session).led (promptText ++ answerLead)
      reply.following (ofDialogue later reply.session)

end Reply

end LineCalc
