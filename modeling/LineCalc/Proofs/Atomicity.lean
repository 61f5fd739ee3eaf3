import LineCalc.Proofs.Stopping

/-!
What one token does, told as a whole: the stack, the environment, what is shown and the fault. A token
that stops a machine has done nothing that outlives the line, and one that does not touches only the
entries that it is about and, if it assigns, the one variable that it assigns to.
-/

namespace LineCalc

namespace Machine

/-- All that can come of a token. Where nothing tells the name that is assigned to, it gets its value all
the same. -/
inductive Step (naming : Naming) (machine : Machine) (token : Spanned Token) : Outcome Machine → Prop where
  | stops {fault : Fault} (stop : Stop naming machine token fault) (count : Nat) (few : count ≤ 2) :
      Step naming machine token (.fail { machine with stack := machine.stack.drop count } fault)
  | untold {right : Spanned Entry} {handle : Handle} {place : Span} {below : List (Spanned Entry)}
      (value : Number) (shape : machine.stack = right :: ⟨.name handle, place⟩ :: below)
      (unspelled : naming.spelling handle = .error (.unknownHandle handle)) :
      Step naming machine token
        (.fail ⟨below, machine.environment.assign handle value⟩ (.unknownHandle handle))
  | number {value : Number} (read : token.value = .number value) :
      Step naming machine token (.done (machine.push ⟨.number value, token.span⟩))
  | name {handle : Handle} (read : token.value = .name handle) :
      Step naming machine token (.done (machine.push ⟨.name handle, token.span⟩))
  | calculated {op : Arithmetic} {right left : Spanned Entry} {below : List (Spanned Entry)}
      {first second : Number} (read : token.value = .operator (.arithmetic op))
      (shape : machine.stack = right :: left :: below)
      (leftValue : valueOf naming machine.environment left = .ok first)
      (rightValue : valueOf naming machine.environment right = .ok second) :
      Step naming machine token (.done ⟨⟨.number (op.apply first second),
        (left.span.hull right.span).hull token.span⟩ :: below, machine.environment⟩)
  | assigned {right : Spanned Entry} {handle : Handle} {place : Span} {below : List (Spanned Entry)}
      {value : Number} {spelling : String} (read : token.value = .operator .equals)
      (shape : machine.stack = right :: ⟨.name handle, place⟩ :: below)
      (rightValue : valueOf naming machine.environment right = .ok value)
      (spelled : naming.spelling handle = .ok spelling) :
      Step naming machine token
        ⟨⟨⟨.name handle, (place.hull right.span).hull token.span⟩ :: below,
          machine.environment.assign handle value⟩, [.assigned spelling value], none⟩
  | printed {top : Spanned Entry} {below : List (Spanned Entry)} {value : Number}
      (read : token.value = .operator .print) (shape : machine.stack = top :: below)
      (found : valueOf naming machine.environment top = .ok value) :
      Step naming machine token ⟨machine, [.printed value], none⟩
  | ended {gone rest : List (Spanned Entry)} (read : token.value = .operator .semicolon)
      (shape : machine.stack = gone ++ rest) (takes : gone = [] → rest = [])
      (nulls : ∀ entry ∈ gone.tail, entry.value = .null)
      (ends : ∀ entry ∈ rest.head?, entry.value ≠ .null) :
      Step naming machine token (.done ⟨⟨.null, token.span.around gone⟩ :: rest, machine.environment⟩)

theorem assign_step (naming : Naming) (machine : Machine) (span : Span) :
    Step naming machine ⟨.operator .equals, span⟩ (machine.assign naming span) := by
  have stop {fault : Fault} (stopped : (machine.assign naming span).fault = some fault) :=
    assign_stop stopped
  unfold assign at stop ⊢
  rcases takeOperands_cases naming machine .equals span _ with
    ⟨fault, taken⟩ | ⟨right, left, below, value, shape, found, taken⟩
  · rw [taken] at stop ⊢
    rw [← List.drop_one]
    exact .stops (stop rfl) 1 (by decide)
  · rw [taken] at stop ⊢
    have rest : below = machine.stack.drop 2 := by rw [shape]; rfl
    obtain ⟨_ | handle | _, place⟩ := left
    case name =>
      cases spelled : naming.spelling handle with
      | ok spelling =>
        simp only [spelled]
        exact .assigned rfl shape found spelled
      | error fault =>
        obtain rfl := spelling_error spelled
        simp only [spelled]
        exact .untold value shape spelled
    all_goals
      subst rest
      exact .stops (stop rfl) 2 (by decide)

theorem calculate_step (naming : Naming) (machine : Machine) (op : Arithmetic) (span : Span) :
    Step naming machine ⟨.operator (.arithmetic op), span⟩ (machine.calculate naming op span) := by
  have stop {fault : Fault} (stopped : (machine.calculate naming op span).fault = some fault) :=
    calculate_stop stopped
  unfold calculate at stop ⊢
  rcases takeOperands_cases naming machine (.arithmetic op) span _ with
    ⟨fault, taken⟩ | ⟨right, left, below, value, shape, found, taken⟩
  · rw [taken] at stop ⊢
    rw [← List.drop_one]
    exact .stops (stop rfl) 1 (by decide)
  · rw [taken] at stop ⊢
    have rest : below = machine.stack.drop 2 := by rw [shape]; rfl
    cases leftFound : valueOf naming machine.environment left with
    | ok leftValue => exact .calculated rfl shape leftFound found
    | error fault =>
      rw [leftFound] at stop
      subst rest
      exact .stops (stop rfl) 2 (by decide)

theorem print_step (naming : Naming) (machine : Machine) (span : Span) :
    Step naming machine ⟨.operator .print, span⟩ (machine.print naming span) := by
  -- Printing never takes anything off the stack.
  have refused {fault : Fault} (failed : machine.print naming span = .fail machine fault) :
      Step naming machine ⟨.operator .print, span⟩ (machine.print naming span) := by
    have stop := print_stop (congrArg Outcome.fault failed)
    rw [failed]
    exact .stops stop 0 (Nat.zero_le 2)
  cases shape : machine.stack with
  | nil => exact refused (by simp only [print, shape]; rfl)
  | cons top below =>
    cases found : valueOf naming machine.environment top with
    | ok value =>
      rw [print_value shape found]
      exact .printed rfl shape found
    | error fault =>
      obtain ⟨_ | handle | _, place⟩ := top
      case null => exact refused (by simp only [print, shape]; rfl)
      all_goals exact refused (print_fault shape (by simp) found span)

theorem endStatement_step (naming : Naming) (machine : Machine) (span : Span) :
    Step naming machine ⟨.operator .semicolon, span⟩ (machine.endStatement naming span) := by
  have stop {fault : Fault} (stopped : (machine.endStatement naming span).fault = some fault) :=
    endStatement_stop stopped
  obtain ⟨stack, environment⟩ := machine
  cases stack with
  | nil => exact @Step.ended naming _ _ [] [] rfl rfl (fun _ => rfl) (by simp) (by simp)
  | cons top below =>
    obtain ⟨gone, rest, shape, nulls, ends, settled⟩ := settle_eq (span.hull top.span) below
    have goes : Step naming ⟨top :: below, environment⟩ ⟨.operator .semicolon, span⟩
        (.done ⟨settle (span.hull top.span) below, environment⟩) := by
      rw [settled]
      have whole : top :: below = (top :: gone) ++ rest := congrArg (List.cons top) shape
      exact @Step.ended naming _ _ (top :: gone) rest rfl whole (by simp) nulls ends
    obtain ⟨_ | handle | _, place⟩ := top
    case name =>
      cases held : environment.get? handle with
      | some value => simpa only [endStatement, held, Option.isSome_some, if_true] using goes
      | none =>
        simp only [endStatement, held] at stop ⊢
        exact .stops (stop rfl) 1 (by decide)
    all_goals exact goes

theorem execute_step (naming : Naming) (machine : Machine) (token : Spanned Token) :
    Step naming machine token (machine.execute naming token) := by
  obtain ⟨_ | handle | (_ | op | _ | _), span⟩ := token
  case number => exact .number rfl
  case name => exact .name rfl
  case operator.equals => exact machine.assign_step naming span
  case operator.arithmetic => exact machine.calculate_step naming op span
  case operator.print => exact machine.print_step naming span
  case operator.semicolon => exact machine.endStatement_step naming span

end Machine

/-! What a step leaves alone. -/

/-- The variable has got the value, and no other has changed its value or its place. -/
structure Environment.Rebound (before after : Environment) (handle : Handle) (value : Number) : Prop where
  bound : after.get? handle = some value
  others : after.bindings.filter (·.1 ≠ handle) = before.bindings.filter (·.1 ≠ handle)
  /-- A new variable comes last. -/
  places : after.bindings.map Prod.fst =
    if handle ∈ before.bindings.map Prod.fst then before.bindings.map Prod.fst
    else before.bindings.map Prod.fst ++ [handle]

theorem Environment.rebound_assign (environment : Environment) (handle : Handle) (value : Number) :
    environment.Rebound (environment.assign handle value) handle value where
  bound := by rw [get?_assign, if_pos rfl]
  others := by
    unfold assign
    generalize environment.bindings = bindings
    induction bindings with
    | nil => simp [assignIn]
    | cons binding later ih =>
      by_cases held : binding.1 = handle
      · simp [assignIn, held]
      · simp only [assignIn, if_neg held, List.filter_cons, ih]
  places := handles_assign environment handle value

/-- How many entries on top of the stack a token is about. The end of a statement is about the top one
and the nulls right below it. -/
def Token.involves (token : Token) (stack : List (Spanned Entry)) : Nat :=
  match token with
  | .number _ | .name _ => 0
  | .operator .semicolon => 1 + (stack.tail.takeWhile fun entry => entry.value = .null).length
  | .operator op => op.demand

namespace Machine

variable {naming : Naming} {machine : Machine} {token : Spanned Token} {executed : Outcome Machine}

/-- A name table, if there is one, knows every name on the stack. -/
def Told (naming : Naming) (machine : Machine) : Prop :=
  ∀ table, naming = some table → ∀ entry ∈ machine.stack, ∀ handle, entry.value = .name handle →
    (table.spelling? handle).isSome = true

theorem Told.spelling (told : machine.Told naming) {handle : Handle} {place : Span}
    (member : ⟨.name handle, place⟩ ∈ machine.stack) :
    ∃ spelling, naming.spelling handle = .ok spelling := by
  cases naming with
  | none => exact ⟨handleText handle, rfl⟩
  | some table =>
    obtain ⟨spelling, known⟩ := Option.isSome_iff_exists.mp (told table rfl _ member handle rfl)
    exact ⟨spelling, by simp only [Naming.spelling, known]⟩

/-- Where every name on the stack is known, nothing but a mistake of the line stops a token. -/
theorem Stop.inLine (told : machine.Told naming) {fault : Fault}
    (stop : Stop naming machine token fault) :
    ∃ cause span, fault = .inLine cause span ∧ cause.family = .runtime := by
  cases stop with
  | unspelled near unknown =>
    obtain ⟨spelling, known⟩ := told.spelling (List.mem_of_mem_take near)
    rw [known] at unknown
    cases unknown
  | lacking | unassigned | usingNull | printingNull | assigningToNull | assigningToExpression =>
    exact ⟨_, _, rfl, rfl⟩

theorem Step.stopped (told : machine.Told naming) (step : Step naming machine token executed)
    {fault : Fault} (stopped : executed.fault = some fault) :
    (∃ cause span, fault = .inLine cause span ∧ cause.family = .runtime) ∧
      executed.state.environment = machine.environment ∧ executed.events = [] ∧
      ∃ count, count ≤ 2 ∧ executed.state.stack = machine.stack.drop count := by
  cases step with
  | stops stop count few =>
    cases stopped
    exact ⟨stop.inLine told, rfl, rfl, count, few, rfl⟩
  | @untold right handle place below value shape unspelled =>
    have member : ⟨.name handle, place⟩ ∈ machine.stack := by simp [shape]
    obtain ⟨spelling, known⟩ := told.spelling member
    rw [known] at unspelled
    cases unspelled
  | number | name | calculated | assigned | printed | ended => cases stopped

theorem Step.stack (step : Step naming machine token executed) (clean : executed.fault = none) :
    ∃ made, executed.state.stack = made :: machine.stack.drop (token.value.involves machine.stack) := by
  cases step with
  | stops | untold => cases clean
  | number read | name read =>
    rw [read]
    exact ⟨_, rfl⟩
  | calculated read shape | assigned read shape | printed read shape =>
    rw [read, shape]
    exact ⟨_, rfl⟩
  | @ended gone rest read shape takes nulls ends =>
    refine ⟨_, congrArg (List.cons _) ?_⟩
    rw [read, shape, Token.involves]
    cases gone with
    | nil =>
      rw [takes rfl]
      rfl
    | cons top gone =>
      have stays : rest.takeWhile (fun entry => entry.value = .null) = [] := by
        cases rest with
        | nil => rfl
        | cons next below => simp [ends next rfl]
      have covers : ((gone ++ rest).takeWhile fun entry => entry.value = .null) = gone := by
        rw [List.takeWhile_append_of_pos (by simpa using nulls), stays, List.append_nil]
      rw [List.cons_append, List.tail_cons, covers, Nat.add_comm, List.drop_succ_cons,
        List.drop_left]

theorem Step.prints (step : Step naming machine token executed) (clean : executed.fault = none)
    (sign : token.value = .operator .print) : ∃ top below value, machine.stack = top :: below ∧
      valueOf naming machine.environment top = .ok value ∧ executed.state = machine ∧
      executed.events = [.printed value] := by
  cases step with
  | stops | untold => cases clean
  | number read | name read | calculated read | assigned read | ended read =>
    rw [sign] at read
    cases read
  | printed _ shape found => exact ⟨_, _, _, shape, found, rfl, rfl⟩

theorem Step.silent (step : Step naming machine token executed)
    (other : token.value ≠ .operator .print) : Event.output executed.events = "" := by
  cases step with
  | printed read => exact absurd read other
  | stops | untold | number | name | calculated | assigned | ended => rfl

theorem Step.assigns (step : Step naming machine token executed) (clean : executed.fault = none)
    (sign : token.value = .operator .equals) : ∃ right handle place below value,
      machine.stack = right :: ⟨.name handle, place⟩ :: below ∧
      valueOf naming machine.environment right = .ok value ∧
      executed.state.environment = machine.environment.assign handle value := by
  cases step with
  | stops | untold => cases clean
  | number read | name read | calculated read | printed read | ended read =>
    rw [sign] at read
    cases read
  | assigned _ shape found => exact ⟨_, _, _, _, _, shape, found, rfl⟩

theorem Step.unbound (step : Step naming machine token executed) (clean : executed.fault = none)
    (other : token.value ≠ .operator .equals) :
    executed.state.environment = machine.environment := by
  cases step with
  | stops | untold => cases clean
  | assigned read => exact absurd read other
  | number | name | calculated | printed | ended => rfl

/-- A token is executed as a whole or not at all, as far as the next line can see. If it stops the
machine, then with a mistake of the line; variables and output are as before, and at most the two
entries on top are gone. If it does not, one entry comes in the place of those that it is about and all
below them stay. Only printing adds to the output, the value on top behind a blank, and then leaves the
stack as it is. Only assigning changes the variables, and of them no other than the one named second from
the top, which gets the value that the entry on top had before. -/
theorem execute_atomic (naming : Naming) (machine : Machine) (told : machine.Told naming)
    (token : Spanned Token) :
    let executed := machine.execute naming token
    (∀ fault, executed.fault = some fault →
      (∃ cause span, fault = .inLine cause span ∧ cause.family = .runtime) ∧
      executed.state.environment = machine.environment ∧ Event.output executed.events = "" ∧
      ∃ count, count ≤ 2 ∧ executed.state.stack = machine.stack.drop count) ∧
    (executed.fault = none →
      (∃ made, executed.state.stack =
        made :: machine.stack.drop (token.value.involves machine.stack)) ∧
      (token.value = .operator .print → executed.state.stack = machine.stack ∧
        ∃ top below value, machine.stack = top :: below ∧
          valueOf naming machine.environment top = .ok value ∧
          Event.output executed.events = " " ++ value.display) ∧
      (token.value ≠ .operator .print → Event.output executed.events = "") ∧
      (token.value = .operator .equals → ∃ right handle place below value,
        machine.stack = right :: ⟨.name handle, place⟩ :: below ∧
        valueOf naming machine.environment right = .ok value ∧
        machine.environment.Rebound executed.state.environment handle value) ∧
      (token.value ≠ .operator .equals →
        executed.state.environment = machine.environment)) := by
  intro executed
  have step : Step naming machine token executed := machine.execute_step naming token
  constructor
  · intro fault stopped
    obtain ⟨mistake, environment, silent, stack⟩ := step.stopped told stopped
    exact ⟨mistake, environment, by rw [silent]; rfl, stack⟩
  · intro clean
    refine ⟨step.stack clean, fun sign => ?_, step.silent, fun sign => ?_, step.unbound clean⟩
    · obtain ⟨top, below, value, shape, found, same, shown⟩ := step.prints clean sign
      refine ⟨congrArg Machine.stack same, top, below, value, shape, found, ?_⟩
      rw [shown, Event.output, List.flatMap_singleton, Event.outputChars, Number.display,
        ← List.singleton_append, String.ofList_append]
    · obtain ⟨right, handle, place, below, value, shape, found, bound⟩ := step.assigns clean sign
      rw [bound]
      exact ⟨right, handle, place, below, value, shape, found,
        machine.environment.rebound_assign handle value⟩

/-- In `1;a=b` the variable `a` gets the value of `b` and keeps its place, and the null of the statement
before it stays where it is. -/
theorem execute_atomic_assignment :
    let number := fun digit : Nat => Number.ofDecimal ⟨digit, 0⟩
    let ended : Spanned Entry := ⟨.null, ⟨0, 2⟩⟩
    let machine : Machine :=
      ⟨[⟨.name 1, ⟨4, 5⟩⟩, ⟨.name 0, ⟨2, 3⟩⟩, ended], ⟨[(0, number 4), (1, number 7)]⟩⟩
    let naming : Naming := some ⟨["a", "b"]⟩
    let executed := machine.execute naming ⟨.operator .equals, ⟨2, 5⟩⟩
    machine.Told naming ∧ executed.fault = none ∧ (∃ made, executed.state.stack = [made, ended]) ∧
      machine.environment.Rebound executed.state.environment 0 (number 7) := by
  intro number ended machine naming executed
  have told : machine.Told naming := by
    intro table same entry member handle read
    obtain rfl : NameTable.mk ["a", "b"] = table := Option.some.inj same
    simp only [machine, ended, List.mem_cons, List.not_mem_nil, or_false] at member
    rcases member with rfl | rfl | rfl <;> cases read <;> rfl
  have clean : executed.fault = none := by decide +kernel
  obtain ⟨-, goes⟩ := execute_atomic naming machine told ⟨.operator .equals, ⟨2, 5⟩⟩
  obtain ⟨stack, -, -, assigns, -⟩ := goes clean
  obtain ⟨right, handle, place, below, value, shape, found, rebound⟩ := assigns rfl
  cases shape
  obtain rfl : number 7 = value := Except.ok.inj found
  exact ⟨told, clean, stack, rebound⟩

end Machine

end LineCalc
