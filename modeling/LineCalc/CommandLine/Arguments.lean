import LineCalc.Text.Digit
import LineCalc.Text.Quoted

/-!
The arguments of the program. Two flags may stand anywhere; the first unbroken row of other arguments
names the scripts. A long flag may be shortened as long as it stays unambiguous, short flags may
share a dash, and behind a double dash nothing is a flag. No flag takes a value, so a value that is
given to one is a mistake.
-/

namespace LineCalc.CommandLine

/-- What can be asked for besides scripts. -/
inductive Flag where
  | help | verbose
deriving DecidableEq, Repr

namespace Flag

def all : List Flag :=
  [help, verbose]

def letter : Flag → Char
  | help => 'h'
  | verbose => 'v'

def longName : Flag → String
  | help => "--help"
  | verbose => "--verbose"

def label (flag : Flag) : String :=
  "-" ++ String.singleton flag.letter ++ "/" ++ flag.longName

def ofLetter? (c : Char) : Option Flag :=
  all.find? fun flag => flag.letter == c

def matching (text : List Char) : List Flag :=
  all.filter fun flag => text.isPrefixOf flag.longName.toList

end Flag

/-- What can be wrong with the arguments. -/
inductive UsageError where
  | ignoredValue (flag : Flag) (value : String)
  | ambiguous (argument : String) (candidates : List Flag)
  | unrecognized (arguments : List String)
deriving DecidableEq, Repr

def UsageError.message : UsageError → String
  | ignoredValue flag value =>
    "argument " ++ flag.label ++ ": ignored explicit argument " ++ Text.quote value
  | ambiguous argument candidates =>
    "ambiguous option: " ++ argument ++ " could match " ++
      ", ".intercalate (candidates.map Flag.longName)
  | unrecognized arguments => "unrecognized arguments: " ++ " ".intercalate arguments

/-- An argument by its form alone. -/
inductive Argument where
  | plain (text : String)
  | divider
  | unknownFlag (text : String)
  | flags (row : List Flag)
  | valuedFlag (flag : Flag) (value : String)
deriving DecidableEq, Repr

namespace Argument

/-- Reads on behind the letter of a short flag. Letters of flags go on with the row; from the first
other character on, all that is left is a value of the flag before it. -/
def shortFlags (flag : Flag) : List Char → Argument
  | [] => .flags [flag]
  | c :: rest =>
    match Flag.ofLetter? c with
    | none => .valuedFlag flag (String.ofList (c :: rest))
    | some next =>
      match shortFlags next rest with
      | .flags row => .flags (flag :: row)
      | other => other

/-- Reads on behind the first letter of a row of short flags. An equals sign is left out right behind
that letter, and is like any other character further on. -/
def shortRow (flag : Flag) : List Char → Argument
  | ['='] => .valuedFlag flag ""
  | '=' :: rest => shortFlags flag rest
  | rest => shortFlags flag rest

/-- A minus sign and a numeral, with digits behind its point if it has one. -/
def isNegativeNumber (text : List Char) : Bool :=
  match text with
  | '-' :: numeral =>
    let numeral := if numeral.getLast? = some '\n' then numeral.dropLast else numeral
    match numeral.dropWhile Text.isDigit with
    | [] => !numeral.isEmpty
    | '.' :: fraction => !fraction.isEmpty && fraction.all Text.isDigit
    | _ => false
  | _ => false

/-- An argument that starts with a dash and names no flag: numbers and texts with a space are
ordinary arguments. -/
def unmatched (text : String) : Argument :=
  if isNegativeNumber text.toList || text.toList.contains ' ' then .plain text
  else .unknownFlag text

/-- The form of an argument before any double dash. -/
def ofText (text : String) : Except UsageError Argument :=
  match text.toList with
  | ['-', '-'] => .ok .divider
  | '-' :: '-' :: name =>
    let name := '-' :: '-' :: name
    match Flag.matching (name.takeWhile (· != '=')), name.dropWhile (· != '=') with
    | [], _ => .ok (unmatched text)
    | [flag], [] => .ok (.flags [flag])
    | [flag], _ :: value => .ok (.valuedFlag flag (String.ofList value))
    | candidates, _ => .error (.ambiguous text candidates)
  | '-' :: c :: rest =>
    match Flag.ofLetter? c with
    | some flag => .ok (shortRow flag rest)
    | none => .ok (unmatched text)
  | _ => .ok (.plain text)

def ofTexts : List String → Except UsageError (List Argument)
  | [] => .ok []
  | text :: later =>
    match ofText text with
    | .error error => .error error
    | .ok .divider => .ok (.divider :: later.map .plain)
    | .ok argument => (ofTexts later).map (argument :: ·)

end Argument

/-- The row of scripts has not begun, is going on, or is over. -/
inductive RowState where
  | ahead | inside | over
deriving DecidableEq, Repr

/-- What the program is asked to do: explain itself, or run scripts, or hold a dialogue if there
are none. -/
inductive Request where
  | help
  | run (scripts : List String) (verbose : Bool)
deriving DecidableEq, Repr

/-- What is known from the arguments so far. -/
structure Progress where
  row : RowState
  scripts : List String
  verbose : Bool
  unrecognized : List String
deriving DecidableEq, Repr

namespace Progress

def start : Progress :=
  ⟨.ahead, [], false, []⟩

/-- A flag ends the row of scripts. -/
def interrupt (progress : Progress) : Progress :=
  match progress.row with
  | .inside => { progress with row := .over }
  | _ => progress

def reject (text : String) (progress : Progress) : Progress :=
  { progress with unrecognized := progress.unrecognized ++ [text] }

def takeScript (text : String) (progress : Progress) : Progress :=
  match progress.row with
  | .over => progress.reject text
  | _ => { progress with row := .inside, scripts := progress.scripts ++ [text] }

/-- A double dash belongs to the row of scripts but names none. -/
def divide (progress : Progress) : Progress :=
  match progress.row with
  | .over => progress.reject "--"
  | _ => { progress with row := .inside }

/-- Takes a row of flags in; a request for help ends everything. -/
def takeFlags (row : List Flag) (progress : Progress) : Option Progress :=
  if Flag.help ∈ row then none
  else some { progress.interrupt with verbose := progress.verbose || row.contains .verbose }

def finish : List Argument → Progress → Except UsageError Request
  | [], progress =>
    if progress.unrecognized.isEmpty then .ok (.run progress.scripts progress.verbose)
    else .error (.unrecognized progress.unrecognized)
  | .plain text :: later, progress => finish later (progress.takeScript text)
  | .divider :: later, progress => finish later progress.divide
  | .unknownFlag text :: later, progress => finish later (progress.interrupt.reject text)
  | .valuedFlag flag value :: _, _ => .error (.ignoredValue flag value)
  | .flags row :: later, progress =>
    match progress.takeFlags row with
    | none => .ok .help
    | some progress => finish later progress

end Progress

def Request.ofArguments (arguments : List String) : Except UsageError Request :=
  match Argument.ofTexts arguments with
  | .error error => .error error
  | .ok forms => Progress.start.finish forms

end LineCalc.CommandLine
