import LineCalc.CommandLine.Arguments
import LineCalc.CommandLine.Path
import LineCalc.Reply

/-!
The program as a function of its arguments, the files it can read and what is typed.
-/

namespace LineCalc.CommandLine

def programName : String :=
  "repl.py"

def usage : String :=
  "usage: " ++ programName ++ " [-h] [-v] [scripts ...]\n"

def helpText : String :=
  usage ++ "\n".intercalate
    ["",
      "Line-oriented calculator: = + - * / ( ) % ;",
      "",
      "positional arguments:",
      "  scripts        Files to run line by line instead of the REPL",
      "",
      "options:",
      "  -h, --help     show this help message and exit",
      "  -v, --verbose  Log debug information to stderr",
      ""]

def usageText (error : UsageError) : String :=
  usage ++ programName ++ ": error: " ++ error.message ++ "\n"

/-- What the program leaves behind. -/
structure Report where
  status : Nat
  output : String
  errors : String
deriving DecidableEq, Repr

/-- The lines that a log leaves when it is asked for. -/
def logText (verbose : Bool) (log : List LogRecord) : String :=
  if verbose then String.join (log.map fun record => record.text ++ "\n") else ""

def missingFileMessage (path : String) : String :=
  "[Errno 2] No such file or directory: " ++ Text.quote path

/-- Runs the program. A script that cannot be read ends it with the path of the script. What is typed is
given as the program gets it, with its carriage returns. -/
def run (arguments : List String) (read : String → Option String) (typed : String) :
    Except String Report :=
  match Request.ofArguments arguments with
  | .error error => .ok ⟨2, "", usageText error⟩
  | .ok .help => .ok ⟨0, helpText, ""⟩
  | .ok (.run [] verbose) =>
    let reply := Reply.ofDialogue (Text.typedLines typed) .empty
    .ok ⟨0, reply.text, logText verbose reply.log⟩
  | .ok (.run scripts verbose) =>
    (Reply.ofScripts read (scripts.map Path.normalize) .empty).map fun reply =>
      ⟨if reply.accepted then 0 else 1, reply.text, logText verbose reply.log⟩

end LineCalc.CommandLine
