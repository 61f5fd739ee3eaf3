import LineCalc.CommandLine.Program

/-!
The calculator on a terminal: the program's answers, written as the lines come in.
-/

namespace LineCalc.CommandLine

def writeReply (verbose : Bool) (reply : Reply) : IO Unit := do
  IO.eprint (logText verbose reply.log)
  IO.print reply.text
  (← IO.getStdout).flush

/-- Holds a dialogue until the input or a line ends it. What comes in at a time is a line up to its line
feed, or nothing at the end of the input. -/
partial def converse (verbose : Bool) (session : Session) : IO Unit := do
  IO.print promptText
  (← IO.getStdout).flush
  match Text.typedLines (← (← IO.getStdin).getLine) with
  | [] => IO.println ""
  | line :: _ =>
    unless Reply.isExit line do
      let reply := (Reply.ofLine line session).led answerLead
      writeReply verbose reply
      converse verbose reply.session

/-- Runs scripts up to the first mistake and gives the exit status. -/
def runScripts (verbose : Bool) : List String → Session → IO UInt32
  | [], _ => pure 0
  | path :: later, session => do
    IO.eprint (logText verbose [Reply.scriptRecord path])
    let text? ← try pure (some (← IO.FS.readFile path)) catch _ => pure none
    match text? with
    | none =>
      IO.eprintln (missingFileMessage path)
      pure 1
    | some text =>
      let reply := Reply.ofScript text session
      writeReply verbose reply
      if reply.accepted then runScripts verbose later reply.session else pure 1

end LineCalc.CommandLine

open LineCalc LineCalc.CommandLine in
def main (arguments : List String) : IO UInt32 := do
  match Request.ofArguments arguments with
  | .error error =>
    IO.eprint (usageText error)
    pure 2
  | .ok .help =>
    IO.print helpText
    pure 0
  | .ok (.run [] verbose) =>
    converse verbose .empty
    pure 0
  | .ok (.run scripts verbose) => runScripts verbose (scripts.map Path.normalize) .empty
