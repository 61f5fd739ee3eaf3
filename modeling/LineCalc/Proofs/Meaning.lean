import LineCalc.Proofs.Layout
import LineCalc.Proofs.Standing

/-!
What a line means, told by recursion over trees. A name is looked up only where its value is asked
for, and what was done before a mistake stays done. A machine that executes the postfix order of a
tree does the same, on top of any stack.
-/

namespace LineCalc

/-- An expression without the brackets it is written with. -/
inductive Expression where
  | literal (literal : Literal)
  | binary (op : Dyadic) (left right : Expression)
  | print (operand : Expression)

/-- The expression is written so, with brackets around single expressions only. -/
inductive Phrase.Writes : Phrase Literal → Expression → Prop where
  | operand (literal : Literal) : Writes (.operand literal) (.literal literal)
  | binary {left right : Phrase Literal} {first second : Expression} (op : Dyadic)
      (leftWrites : Writes left first) (rightWrites : Writes right second) :
      Writes (.binary op left right) (.binary op first second)
  | printBefore {phrase : Phrase Literal} {expression : Expression}
      (writes : Writes phrase expression) : Writes (.printBefore phrase) (.print expression)
  | printAfter {phrase : Phrase Literal} {expression : Expression}
      (writes : Writes phrase expression) : Writes (.printAfter phrase) (.print expression)
  | brackets {phrase : Phrase Literal} {expression : Expression}
      (writes : Writes phrase expression) : Writes (.brackets (.last phrase)) expression

/-- Statements in their order; an empty one has no expression. -/
abbrev Program := List (Option Expression)

/-- The line has a statement for each one of the program. -/
def Passage.Writes (passage : Passage Literal) (program : Program) : Prop :=
  List.Forall₂ (Option.Rel Phrase.Writes) (passage.ended ++ [passage.last]) program

/-- The variables in order of first assignment, and the numbers printed so far. -/
structure World where
  named : List (String × Number)
  printed : List Number

/-- Gives a variable a value at the place that it has, or at the end if it has none. -/
def assignName (name : String) (value : Number) :
    List (String × Number) → List (String × Number)
  | [] => [(name, value)]
  | binding :: later =>
    if binding.1 = name then (name, value) :: later
    else binding :: assignName name value later

/-- Steps in a world, up to the first mistake. -/
abbrev Interpreter := ExceptT Cause (StateM World)

/-- What an expression comes to: a number, or a name that can still be assigned to. -/
inductive Result where
  | number (value : Number)
  | reference (name : String)

/-- The value of a result in the world as it is now. -/
def Result.value : Result → Interpreter Number
  | number value => return value
  | reference name => do
    match (← get).named.lookup name with
    | some value => return value
    | none => throw (.unassignedVariable name)

/-- Runs an expression, operands first. -/
def Expression.run : Expression → Interpreter Result
  | literal (.numeral numeral) => return .number numeral.value
  | literal (.identifier identifier) => return .reference identifier.spelling
  | binary (.arithmetic op) left right => do
    let left ← left.run
    let right ← right.run
    let second ← right.value
    let first ← left.value
    return .number (op.apply first second)
  | binary .equals left right => do
    let left ← left.run
    let right ← right.run
    let value ← right.value
    match left with
    | .number _ => throw .assigningToExpression
    | .reference name =>
      modify fun world => { world with named := assignName name value world.named }
      return left
  | print operand => do
    let result ← operand.run
    let value ← result.value
    modify fun world => { world with printed := world.printed ++ [value] }
    return result

/-- Runs a statement, whose result has to have a value. -/
def Program.runStatement : Option Expression → Interpreter Unit
  | none => return
  | some expression => do
    let result ← expression.run
    let _ ← result.value
    return

def Program.run : Program → Interpreter Unit
  | [] => return
  | statement :: later => do
    runStatement statement
    run later

/-- What a program does where these variables have values and nothing has been printed. -/
def Program.meaning (program : Program) (named : List (String × Number)) :
    Except Cause Unit × World :=
  program.run ⟨named, []⟩

theorem Program.run_singleton (statement : Option Expression) :
    run [statement] = runStatement statement :=
  bind_pure_unit

/-! A handle on the machine's side is a name on the interpreter's side. -/

def Event.numbers (events : List Event) : List Number :=
  events.filterMap fun event => match event with
    | .printed value => some value
    | _ => none

theorem Event.numbers_append (first second : List Event) :
    numbers (first ++ second) = numbers first ++ numbers second :=
  List.filterMap_append

theorem Event.output_eq (events : List Event) :
    output events = output ((numbers events).map .printed) := by
  unfold output
  congr 1
  induction events with
  | nil => rfl
  | cons event later ih =>
    cases event <;> simpa [numbers, outputChars] using ih

theorem Event.output_append (first second : List Event) :
    output (first ++ second) = output first ++ output second := by
  simp [output, List.flatMap_append, String.ofList_append]

theorem Event.output_congr {first second : List Event} (same : numbers first = numbers second) :
    output first = output second := by
  rw [output_eq first, output_eq second, same]

/-- The environment gives values to the same names, in the same order. -/
def NameTable.Spells (names : NameTable) (environment : Environment)
    (named : List (String × Number)) : Prop :=
  List.Forall₂ (fun binding other => names.Stands binding.1 other.1 ∧ binding.2 = other.2)
    environment.bindings named

/-- The entry is the result. -/
inductive Entry.Shows (names : NameTable) : Entry → Result → Prop where
  | number (value : Number) : Shows names (.number value) (.number value)
  | name {handle : Handle} {spelling : String} (stands : names.Stands handle spelling) :
      Shows names (.name handle) (.reference spelling)

theorem Entry.Shows.present {names : NameTable} {entry : Entry} {result : Result}
    (shown : entry.Shows names result) : entry ≠ .null := by
  cases shown <;> simp

namespace NameTable

variable {names : NameTable} {environment : Environment} {named : List (String × Number)}
  {handle : Handle} {spelling : String}

theorem Spells.mono {later : NameTable} (grows : names.Extends later)
    (spells : names.Spells environment named) : later.Spells environment named :=
  List.Forall₂.imp (fun _ _ held => ⟨held.1.mono grows, held.2⟩) spells

theorem Spells.get? (distinct : names.spellings.Nodup) (spells : names.Spells environment named)
    (stands : names.Stands handle spelling) :
    environment.get? handle = named.lookup spelling := by
  obtain ⟨bindings⟩ := environment
  simp only [Spells] at spells
  simp only [Environment.get?]
  induction spells with
  | nil => rfl
  | @cons binding other later others head rest ih =>
    obtain ⟨place, same⟩ := head
    rw [Environment.valueIn, List.lookup_cons]
    by_cases found : binding.1 = handle
    · subst found
      rw [if_pos rfl, stands.unique place, beq_self_eq_true, same]
    · have apart : spelling ≠ other.1 := by
        rintro rfl
        exact found (place.injective distinct stands)
      rw [if_neg found, ih, beq_false_of_ne apart]

theorem Spells.assign (distinct : names.spellings.Nodup)
    (spells : names.Spells environment named) (stands : names.Stands handle spelling)
    (value : Number) :
    names.Spells (environment.assign handle value) (assignName spelling value named) := by
  obtain ⟨bindings⟩ := environment
  simp only [Spells] at spells
  simp only [Spells, Environment.assign]
  induction spells with
  | nil => exact .cons ⟨stands, rfl⟩ .nil
  | @cons binding other later others head rest ih =>
    rw [Environment.assignIn, assignName]
    by_cases found : binding.1 = handle
    · have same : other.1 = spelling := head.1.unique (found ▸ stands)
      rw [if_pos found, if_pos same]
      exact .cons ⟨stands, rfl⟩ rest
    · have apart : other.1 ≠ spelling := by
        intro same
        exact found (head.1.injective distinct (same ▸ stands))
      rw [if_neg found, if_neg apart]
      exact .cons head ih

end NameTable

end LineCalc
