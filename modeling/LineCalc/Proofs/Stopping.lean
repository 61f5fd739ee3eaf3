import LineCalc.Proofs.Execution

/-!
Why a token stops a machine, and what is on the stack where it does not. All that can go wrong is told
by the few entries on top that an operator looks for.
-/

namespace LineCalc

/-- How many operands an operator looks for on the stack; the end of a statement takes what is
there. -/
def Operator.demand : Operator → Nat
  | .equals | .arithmetic _ => 2
  | .print => 1
  | .semicolon => 0

theorem Operator.demand_le (op : Operator) : op.demand ≤ 2 := by
  cases op <;> simp [demand]

theorem Operator.demand_pos (op : Operator) (waits : op ≠ .semicolon) : 0 < op.demand := by
  cases op with
  | equals | arithmetic => exact Nat.two_pos
  | print => exact Nat.one_pos
  | semicolon => exact absurd rfl waits

/-- The entry has a value or may get one; only the null of a finished statement has none. -/
def Entry.present : Entry → Bool
  | .null => false
  | _ => true

namespace Machine

variable {naming : Naming} {machine : Machine} {token : Spanned Token} {op : Operator}
  {fault : Fault} {span : Span}

/-- The faults with which a token can stop a machine, and what is on the stack then. -/
inductive Stop (naming : Naming) (machine : Machine) (token : Spanned Token) : Fault → Prop where
  | lacking {op : Operator} (read : token.value = .operator op)
      (short : machine.stack.length < op.demand) :
      Stop naming machine token (.inLine (.missingOperand op) token.span)
  | unassigned {handle : Handle} {place : Span} {spelling : String}
      (near : ⟨.name handle, place⟩ ∈ machine.stack.take 2)
      (unbound : machine.environment.get? handle = none)
      (spelled : naming.spelling handle = .ok spelling) :
      Stop naming machine token (.inLine (.unassignedVariable spelling) place)
  | usingNull {op : Operator} {place : Span} (read : token.value = .operator op)
      (near : ⟨.null, place⟩ ∈ machine.stack.take op.demand) :
      Stop naming machine token (.inLine .usingNull place)
  | printingNull {place : Span} (read : token.value = .operator .print)
      (near : ⟨.null, place⟩ ∈ machine.stack.take 1) :
      Stop naming machine token (.inLine .printingNull place)
  | assigningToNull {op : Operator} {place : Span} (read : token.value = .operator op)
      (near : ⟨.null, place⟩ ∈ machine.stack.take op.demand) :
      Stop naming machine token (.inLine .assigningToNull place)
  | assigningToExpression {entry : Spanned Entry} (near : entry ∈ machine.stack.take 2) :
      Stop naming machine token (.inLine .assigningToExpression entry.span)
  | unspelled {handle : Handle} {place : Span} (near : ⟨.name handle, place⟩ ∈ machine.stack.take 2)
      (unknown : naming.spelling handle = .error (.unknownHandle handle)) :
      Stop naming machine token (.unknownHandle handle)

theorem stop_unassigned {handle : Handle} {place : Span}
    (near : ⟨.name handle, place⟩ ∈ machine.stack.take 2)
    (unbound : machine.environment.get? handle = none) :
    Stop naming machine token (naming.unassigned handle place) := by
  unfold Naming.unassigned
  cases spelled : naming.spelling handle with
  | ok spelling => exact .unassigned near unbound spelled
  | error fault =>
    obtain rfl := spelling_error spelled
    exact .unspelled near spelled

theorem stop_valueOf {entry : Spanned Entry} (near : entry ∈ machine.stack.take op.demand)
    (found : valueOf naming machine.environment entry = .error fault) :
    Stop naming machine ⟨.operator op, span⟩ fault := by
  obtain ⟨_ | handle | _, place⟩ := entry
  case number => cases found
  case name =>
    cases held : machine.environment.get? handle with
    | some value => simp [valueOf, held] at found
    | none =>
      simp only [valueOf, held, Except.error.injEq] at found
      subst found
      exact stop_unassigned (List.take_subset_take_left _ op.demand_le near) held
  case null =>
    cases found
    exact .usingNull rfl near

theorem present_of_valueOf {environment : Environment} {entry : Spanned Entry} {value : Number}
    (found : valueOf naming environment entry = .ok value) : entry.value.present = true := by
  obtain ⟨_ | _ | _, place⟩ := entry
  case null => cases found
  all_goals rfl

section TakeOperands

variable {use : Machine → Spanned Entry → Spanned Entry → Number → Outcome Machine}

theorem takeOperands_stop (binary : op.demand = 2)
    (stopped : (machine.takeOperands naming op span use).fault = some fault) :
    Stop naming machine ⟨.operator op, span⟩ fault ∨
      ∃ right left below value, machine.stack = right :: left :: below ∧
        (use { machine with stack := below } left right value).fault = some fault := by
  obtain ⟨stack, environment⟩ := machine
  cases stack with
  | nil =>
    cases stopped
    exact .inl (.lacking rfl (by simp [binary]))
  | cons right below =>
    cases found : valueOf naming environment right with
    | error other =>
      simp only [takeOperands, found, Outcome.fail, Option.some.injEq] at stopped
      subst stopped
      exact .inl (stop_valueOf (by simp [binary]) found)
    | ok value =>
      cases below with
      | nil =>
        simp only [takeOperands, found, Outcome.fail, Option.some.injEq] at stopped
        subst stopped
        exact .inl (.lacking rfl (by simp [binary]))
      | cons left below =>
        simp only [takeOperands, found] at stopped
        exact .inr ⟨right, left, below, value, rfl, stopped⟩

theorem takeOperands_goes (clean : (machine.takeOperands naming op span use).fault = none) :
    ∃ right left below value, machine.stack = right :: left :: below ∧
      right.value.present = true ∧ machine.takeOperands naming op span use =
        use { machine with stack := below } left right value := by
  rcases takeOperands_cases naming machine op span use with
    ⟨fault, taken⟩ | ⟨right, left, below, value, shape, found, taken⟩
  · rw [taken] at clean
    cases clean
  · exact ⟨right, left, below, value, shape, present_of_valueOf found, taken⟩

end TakeOperands

theorem assign_stop (stopped : (machine.assign naming span).fault = some fault) :
    Stop naming machine ⟨.operator .equals, span⟩ fault := by
  rcases takeOperands_stop (show Operator.equals.demand = 2 from rfl) stopped with
    found | ⟨right, left, below, value, shape, stopped⟩
  · exact found
  · obtain ⟨_ | handle | _, place⟩ := left
    case number =>
      cases stopped
      exact .assigningToExpression (by simp [shape])
    case null =>
      cases stopped
      exact .assigningToNull rfl (by simp [shape, Operator.demand])
    case name =>
      cases spelled : naming.spelling handle with
      | ok spelling => simp [spelled] at stopped
      | error other =>
        obtain rfl := spelling_error spelled
        simp only [spelled, Outcome.fail, Option.some.injEq] at stopped
        subst stopped
        have near : ⟨.name handle, place⟩ ∈ machine.stack.take 2 := by simp [shape]
        exact .unspelled near spelled

theorem calculate_stop {op : Arithmetic}
    (stopped : (machine.calculate naming op span).fault = some fault) :
    Stop naming machine ⟨.operator (.arithmetic op), span⟩ fault := by
  rcases takeOperands_stop (show (Operator.arithmetic op).demand = 2 from rfl) stopped with
    found | ⟨right, left, below, value, shape, stopped⟩
  · exact found
  · cases found : valueOf naming machine.environment left with
    | ok leftValue => simp [found, Outcome.done] at stopped
    | error other =>
      simp only [found, Outcome.fail, Option.some.injEq] at stopped
      subst stopped
      exact stop_valueOf (by simp [shape, Operator.demand]) found

theorem print_stop (stopped : (machine.print naming span).fault = some fault) :
    Stop naming machine ⟨.operator .print, span⟩ fault := by
  cases shape : machine.stack with
  | nil =>
    simp only [print, shape, Outcome.fail, Option.some.injEq] at stopped
    subst stopped
    exact .lacking rfl (by simp [shape, Operator.demand])
  | cons top below =>
    have near : top ∈ machine.stack.take Operator.print.demand := by
      simp [shape, Operator.demand]
    cases found : valueOf naming machine.environment top with
    | ok value =>
      rw [print_value shape found] at stopped
      cases stopped
    | error other =>
      obtain ⟨_ | handle | _, place⟩ := top
      case null =>
        simp only [print, shape, Outcome.fail, Option.some.injEq] at stopped
        subst stopped
        exact .printingNull rfl (by simp [shape])
      all_goals
        rw [print_fault shape (by simp) found] at stopped
        cases stopped
        exact stop_valueOf near found

theorem endStatement_stop (stopped : (machine.endStatement naming span).fault = some fault) :
    Stop naming machine ⟨.operator .semicolon, span⟩ fault := by
  obtain ⟨stack, environment⟩ := machine
  rcases stack with _ | ⟨⟨_ | handle | _, place⟩, below⟩
  case cons.name =>
    cases held : environment.get? handle with
    | some value => simp [endStatement, held, Outcome.done] at stopped
    | none =>
      simp only [endStatement, held, Option.isSome_none, Bool.false_eq_true, if_false,
        Outcome.fail, Option.some.injEq] at stopped
      subst stopped
      exact stop_unassigned (by simp) held
  all_goals cases stopped

/-- A token stops a machine for nothing but what is on top of the stack. -/
theorem execute_stop (stopped : (machine.execute naming token).fault = some fault) :
    Stop naming machine token fault := by
  obtain ⟨_ | handle | (_ | op | _ | _), span⟩ := token
  case operator.equals => exact assign_stop stopped
  case operator.arithmetic => exact calculate_stop stopped
  case operator.print => exact print_stop stopped
  case operator.semicolon => exact endStatement_stop stopped
  all_goals cases stopped

/-! Where an operator does not stop, it has found what it looks for. -/

theorem calculate_goes {op : Arithmetic} (clean : (machine.calculate naming op span).fault = none) :
    ∃ right left below result, machine.stack = right :: left :: below ∧
      right.value.present = true ∧ left.value.present = true ∧ result.value.present = true ∧
      result.span = (left.span.hull right.span).hull span ∧
      (machine.calculate naming op span).state.stack = result :: below := by
  obtain ⟨right, left, below, value, shape, first, taken⟩ := takeOperands_goes clean
  unfold calculate at clean ⊢
  rw [taken] at clean ⊢
  cases found : valueOf naming machine.environment left with
  | error fault => simp [found, Outcome.fail] at clean
  | ok leftValue =>
    refine ⟨right, left, below, _, shape, first, present_of_valueOf found, ?_, rfl, rfl⟩
    rfl

theorem assign_goes (clean : (machine.assign naming span).fault = none) :
    ∃ right left below result, machine.stack = right :: left :: below ∧
      right.value.present = true ∧ left.value.present = true ∧ result.value.present = true ∧
      result.span = (left.span.hull right.span).hull span ∧
      (machine.assign naming span).state.stack = result :: below := by
  obtain ⟨right, left, below, value, shape, first, taken⟩ := takeOperands_goes clean
  unfold assign at clean ⊢
  rw [taken] at clean ⊢
  obtain ⟨_ | handle | _, place⟩ := left
  case name =>
    cases spelled : naming.spelling handle with
    | error fault => simp [spelled, Outcome.fail] at clean
    | ok spelling =>
      refine ⟨right, ⟨.name handle, place⟩, below,
        ⟨.name handle, (place.hull right.span).hull span⟩, shape, first, rfl, rfl, rfl, ?_⟩
      simp only [spelled, push]
  all_goals cases clean

theorem print_goes (clean : (machine.print naming span).fault = none) :
    ∃ top below, machine.stack = top :: below ∧ top.value.present = true := by
  obtain ⟨stack, environment⟩ := machine
  rcases stack with _ | ⟨⟨_ | handle | _, place⟩, below⟩
  case nil => cases clean
  case cons.null => cases clean
  all_goals exact ⟨_, below, rfl, rfl⟩

/-- The end of a statement takes the result off the stack, if there is one, and settles what is
below. -/
theorem endStatement_goes (clean : (machine.endStatement naming span).fault = none) :
    ∃ place, (machine.endStatement naming span).state.stack = settle place machine.stack.tail := by
  obtain ⟨stack, environment⟩ := machine
  rcases stack with _ | ⟨⟨_ | handle | _, place⟩, below⟩
  case nil => exact ⟨span, rfl⟩
  case cons.name =>
    cases held : environment.get? handle with
    | some value => exact ⟨span.hull place, by simp [endStatement, held, Outcome.done]⟩
    | none => simp [endStatement, held, Outcome.fail] at clean
  all_goals exact ⟨span.hull place, rfl⟩

end Machine

end LineCalc
