import LineCalc.Environment
import LineCalc.NameTable
import LineCalc.Outcome

/-!
The stack machine that executes tokens of postfix order. A name stays on the stack until its value
is asked for, so that it can still be assigned to. A finished statement leaves a null, which has no
value and keeps what lies below it out of reach.
-/

namespace LineCalc

inductive Entry where
  | number (value : Number)
  | name (handle : Handle)
  | null
deriving DecidableEq

/-- The result of an arithmetic operator. Division by zero gives an infinity with the sign of the
quotient, or no number where the dividend is zero or no number. -/
def Arithmetic.apply : Arithmetic → Number → Number → Number
  | add => (· + ·)
  | sub => (· - ·)
  | mul => (· * ·)
  | div => (· / ·)

/-- A stack, latest entry first, and the environment. -/
structure Machine where
  stack : List (Spanned Entry)
  environment : Environment
deriving DecidableEq

/-- What tells the spellings of names, if anything does. -/
abbrev Naming := Option NameTable

/-- The spelling of a name in messages; where nothing tells it, the handle stands for it. -/
def Naming.spelling (naming : Naming) (handle : Handle) : Except Fault String :=
  match naming with
  | none => .ok (handleText handle)
  | some table =>
    match table.spelling? handle with
    | some spelling => .ok spelling
    | none => .error (.unknownHandle handle)

def Naming.unassigned (naming : Naming) (handle : Handle) (span : Span) : Fault :=
  match naming.spelling handle with
  | .ok spelling => .inLine (.unassignedVariable spelling) span
  | .error fault => fault

namespace Machine

def valueOf (naming : Naming) (environment : Environment) (entry : Spanned Entry) :
    Except Fault Number :=
  match entry.value with
  | .number value => .ok value
  | .name handle =>
    match environment.get? handle with
    | some value => .ok value
    | none => .error (naming.unassigned handle entry.span)
  | .null => .error (.inLine .usingNull entry.span)

def push (machine : Machine) (entry : Spanned Entry) : Machine :=
  { machine with stack := entry :: machine.stack }

/-- Takes the two operands of an operator off the stack and goes on with the left one, the right one
and the right one's value. What was taken before a fault stays taken. -/
def takeOperands (naming : Naming) (machine : Machine) (op : Operator) (span : Span)
    (use : Machine → Spanned Entry → Spanned Entry → Number → Outcome Machine) :
    Outcome Machine :=
  let missing := Fault.inLine (.missingOperand op) span
  match machine.stack with
  | [] => .fail machine missing
  | right :: below =>
    match valueOf naming machine.environment right with
    | .error fault => .fail { machine with stack := below } fault
    | .ok value =>
      match below with
      | [] => .fail { machine with stack := [] } missing
      | left :: below => use { machine with stack := below } left right value

/-- Replaces two operands by the result of an arithmetic operator. -/
def calculate (naming : Naming) (machine : Machine) (op : Arithmetic) (span : Span) :
    Outcome Machine :=
  machine.takeOperands naming (.arithmetic op) span fun machine left right rightValue =>
    match valueOf naming machine.environment left with
    | .error fault => .fail machine fault
    | .ok leftValue =>
      .done (machine.push ⟨.number (op.apply leftValue rightValue),
        (left.span.hull right.span).hull span⟩)

/-- Gives the variable under the top entry the value of the top entry and leaves its name. -/
def assign (naming : Naming) (machine : Machine) (span : Span) : Outcome Machine :=
  machine.takeOperands naming .equals span fun machine left right value =>
    match left.value with
    | .number _ => .fail machine (.inLine .assigningToExpression left.span)
    | .null => .fail machine (.inLine .assigningToNull left.span)
    | .name handle =>
      let assigned := { machine with environment := machine.environment.assign handle value }
      match naming.spelling handle with
      | .error fault => .fail assigned fault
      | .ok spelling =>
        ⟨assigned.push ⟨.name handle, (left.span.hull right.span).hull span⟩,
          [.assigned spelling value], none⟩

/-- Prints the value of the top entry, which stays where it is. -/
def print (naming : Naming) (machine : Machine) (span : Span) : Outcome Machine :=
  match machine.stack with
  | [] => .fail machine (.inLine (.missingOperand .print) span)
  | ⟨.null, ended⟩ :: _ => .fail machine (.inLine .printingNull ended)
  | top :: _ =>
    match valueOf naming machine.environment top with
    | .error fault => .fail machine fault
    | .ok value => ⟨machine, [.printed value], none⟩

/-- Replaces the nulls at the top by a single one. -/
def settle (span : Span) : List (Spanned Entry) → List (Spanned Entry)
  | ⟨.null, earlier⟩ :: below => settle (span.hull earlier) below
  | stack => ⟨.null, span⟩ :: stack

/-- Ends a statement: drops its result, which must not be a name without a value, and leaves one
null for it and for the nulls right below. -/
def endStatement (naming : Naming) (machine : Machine) (span : Span) : Outcome Machine :=
  match machine.stack with
  | [] => .done { machine with stack := settle span [] }
  | top :: below =>
    let settled : Outcome Machine :=
      .done { machine with stack := settle (span.hull top.span) below }
    match top.value with
    | .name handle =>
      if (machine.environment.get? handle).isSome then settled
      else .fail { machine with stack := below } (naming.unassigned handle top.span)
    | _ => settled

def execute (naming : Naming) (token : Spanned Token) (machine : Machine) : Outcome Machine :=
  match token.value with
  | .number value => .done (machine.push ⟨.number value, token.span⟩)
  | .name handle => .done (machine.push ⟨.name handle, token.span⟩)
  | .operator .equals => machine.assign naming token.span
  | .operator (.arithmetic op) => machine.calculate naming op token.span
  | .operator .print => machine.print naming token.span
  | .operator .semicolon => machine.endStatement naming token.span

end Machine

end LineCalc
