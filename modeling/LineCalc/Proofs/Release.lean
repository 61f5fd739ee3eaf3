import LineCalc.Resolver

/-!
Tables that know every operator. With such a table nothing that leaves the stack can fail for want
of a rule, and the three ways of leaving it become equations.
-/

namespace LineCalc

variable {table : PrecedenceTable}

/-- The rule of an operator in a table that has all of them. -/
def PrecedenceTable.Total.rule (total : table.Total) (op : Operator) : Rule :=
  (table op).get (total op)

theorem PrecedenceTable.Total.lookup (total : table.Total) (op : Operator) :
    table op = some (total.rule op) :=
  (Option.some_get (total op)).symm

/-- The span of an operator together with those of the operands that it takes. -/
def Rule.cover (rule : Rule) (span : Span) (operands : List Span) : Span :=
  (operands.take rule.arity.toNat).foldl Span.hull span

/-- The operand spans once an operator has taken its operands and become one itself. -/
def Rule.reduce (rule : Rule) (span : Span) (operands : List Span) : List Span :=
  rule.cover span operands :: operands.drop rule.arity.toNat

def Rule.token (rule : Rule) (op : Operator) (span : Span) (operands : List Span) :
    Spanned Token :=
  ⟨.operator op, rule.cover span operands⟩

namespace PrecedenceTable

theorem Total.mustPrecede_eq (total : table.Total) (waiting incoming : Operator) :
    table.mustPrecede waiting incoming =
      .ok ((total.rule waiting).appliesBefore (total.rule incoming)) := by
  simp [mustPrecede, total.lookup]

theorem Total.emit_eq (total : table.Total) (op : Operator) (span : Span) (operands : List Span) :
    table.emit op span operands =
      .ok ((total.rule op).token op span operands, (total.rule op).reduce span operands) := by
  simp [emit, total.lookup, Rule.token, Rule.reduce, Rule.cover]

theorem Total.releaseFor_operator (total : table.Total) (incoming op : Operator) (span : Span)
    (below : List (Spanned Waiting)) (operands : List Span) :
    table.releaseFor incoming (⟨.operator op, span⟩ :: below) operands =
      if (total.rule op).appliesBefore (total.rule incoming) then
        (table.releaseFor incoming below ((total.rule op).reduce span operands)).cons
          ((total.rule op).token op span operands)
      else .hold (⟨.operator op, span⟩ :: below) operands := by
  rw [releaseFor, total.mustPrecede_eq, total.emit_eq]
  cases (total.rule op).appliesBefore (total.rule incoming) <;> rfl

theorem Total.releaseBracket_operator (total : table.Total) (closing : Span) (op : Operator)
    (span : Span) (below : List (Spanned Waiting)) (operands : List Span) :
    table.releaseBracket closing (⟨.operator op, span⟩ :: below) operands =
      (table.releaseBracket closing below ((total.rule op).reduce span operands)).cons
        ((total.rule op).token op span operands) := by
  rw [releaseBracket, total.emit_eq]

theorem Total.releaseAll_operator (total : table.Total) (op : Operator) (span : Span)
    (below : List (Spanned Waiting)) (operands : List Span) :
    table.releaseAll (⟨.operator op, span⟩ :: below) operands =
      (table.releaseAll below ((total.rule op).reduce span operands)).cons
        ((total.rule op).token op span operands) := by
  rw [releaseAll, total.emit_eq]

theorem standard_before_semicolon (op : Operator) :
    (standard_total.rule op).appliesBefore (standard_total.rule .semicolon) = true := by
  rcases op with _ | (_ | _ | _ | _) | _ | _ <;> rfl

theorem standard_before_print (op : Operator) :
    (standard_total.rule op).appliesBefore (standard_total.rule .print) = false := by
  rcases op with _ | (_ | _ | _ | _) | _ | _ <;> rfl

end PrecedenceTable

/-! Operators that wait on top of a stack leave it in their order, latest first, and leave what is
below as it is. -/

def waiting (pending : List (Spanned Operator)) : List (Spanned Waiting) :=
  pending.map (·.map .operator)

theorem waiting_append (first second : List (Spanned Operator)) :
    waiting (first ++ second) = waiting first ++ waiting second :=
  List.map_append

def emitted (pending : List (Spanned Operator)) : List Token :=
  pending.map fun entry => .operator entry.value

/-- The operand spans after a bracket is closed: the latest one then covers both of its signs. -/
def widened (opening closing : Span) : List Span → List Span
  | [] => []
  | group :: others => (group.hull opening).hull closing :: others

theorem widened_ne_nil (opening closing : Span) {operands : List Span} (started : operands ≠ []) :
    widened opening closing operands ≠ [] := by
  cases operands with
  | nil => exact absurd rfl started
  | cons group others => exact List.cons_ne_nil _ others

namespace PrecedenceTable.Total

variable (total : table.Total)

/-- The tokens of operators that leave one after the other, and the operand spans after them. -/
def emitAll : List (Spanned Operator) → List Span → List (Spanned Token) × List Span
  | [], operands => ([], operands)
  | entry :: later, operands =>
    let rest := emitAll later ((total.rule entry.value).reduce entry.span operands)
    ((total.rule entry.value).token entry.value entry.span operands :: rest.1, rest.2)

theorem emitAll_values (pending : List (Spanned Operator)) (operands : List Span) :
    (total.emitAll pending operands).1.map Spanned.value = emitted pending := by
  induction pending generalizing operands with
  | nil => rfl
  | cons entry later ih => exact congrArg (List.cons _) (ih _)

theorem emitAll_append (first second : List (Spanned Operator)) (operands : List Span) :
    (total.emitAll (first ++ second) operands).1 = (total.emitAll first operands).1 ++
      (total.emitAll second (total.emitAll first operands).2).1 := by
  induction first generalizing operands with
  | nil => rfl
  | cons entry later ih => exact congrArg (List.cons _) (ih _)

theorem emitAll_append_spans (first second : List (Spanned Operator)) (operands : List Span) :
    (total.emitAll (first ++ second) operands).2 =
      (total.emitAll second (total.emitAll first operands).2).2 := by
  induction first generalizing operands with
  | nil => rfl
  | cons entry later ih => exact ih _

theorem emitAll_nonempty (pending : List (Spanned Operator)) {operands : List Span}
    (started : operands ≠ []) : (total.emitAll pending operands).2 ≠ [] := by
  induction pending generalizing operands with
  | nil => exact started
  | cons entry later ih => exact ih (by simp [Rule.reduce])

theorem emitAll_operator {pending : List (Spanned Operator)} {operands : List Span}
    {token : Spanned Token} (member : token ∈ (total.emitAll pending operands).1) :
    ∃ op, token.value = .operator op := by
  have place := List.mem_map_of_mem (f := Spanned.value) member
  rw [total.emitAll_values] at place
  obtain ⟨entry, -, same⟩ := List.mem_map.mp place
  exact ⟨entry.value, same.symm⟩

/-- An incoming operator lets the top of a stack wait. -/
def Holds (incoming : Operator) (base : List (Spanned Waiting)) : Prop :=
  ∀ op span below, base = ⟨.operator op, span⟩ :: below →
    (total.rule op).appliesBefore (total.rule incoming) = false

theorem holds_nil (incoming : Operator) : total.Holds incoming [] := by
  intro op span below same
  cases same

theorem holds_bracket (incoming : Operator) (opening : Span) (below : List (Spanned Waiting)) :
    total.Holds incoming (⟨.bracket, opening⟩ :: below) := by
  intro op span lower same
  cases same

theorem holds_operator {incoming op : Operator} {span : Span} {below : List (Spanned Waiting)}
    (waits : (total.rule op).appliesBefore (total.rule incoming) = false) :
    total.Holds incoming (⟨.operator op, span⟩ :: below) := by
  intro other otherSpan lower same
  cases same
  exact waits

variable {total}

theorem Holds.releaseFor_eq {incoming : Operator} {base : List (Spanned Waiting)}
    (holds : total.Holds incoming base) (operands : List Span) :
    table.releaseFor incoming base operands = .hold base operands := by
  rcases base with _ | ⟨⟨op | _, span⟩, below⟩
  case nil => rfl
  case cons.operator => rw [total.releaseFor_operator, holds op span below rfl]; rfl
  case cons.bracket => rfl

variable (total)

theorem releaseFor_waiting {incoming : Operator} {base : List (Spanned Waiting)}
    (holds : total.Holds incoming base) {pending : List (Spanned Operator)}
    (tight : ∀ entry ∈ pending,
      (total.rule entry.value).appliesBefore (total.rule incoming) = true)
    (operands : List Span) :
    table.releaseFor incoming (waiting pending ++ base) operands =
      ⟨base, (total.emitAll pending operands).2, .ok (total.emitAll pending operands).1⟩ := by
  induction pending generalizing operands with
  | nil => exact holds.releaseFor_eq operands
  | cons entry later ih =>
    have first := tight entry List.mem_cons_self
    have rest := ih (fun other member => tight other (List.mem_cons_of_mem _ member))
      ((total.rule entry.value).reduce entry.span operands)
    simp only [waiting, List.map_cons, List.cons_append, Spanned.map]
    rw [total.releaseFor_operator, if_pos first]
    exact congrArg (Release.cons _) rest

theorem releaseBracket_waiting (closing opening : Span) (base : List (Spanned Waiting))
    (pending : List (Spanned Operator)) (operands : List Span) :
    table.releaseBracket closing (waiting pending ++ ⟨.bracket, opening⟩ :: base) operands =
      ⟨base, widened opening closing (total.emitAll pending operands).2,
        .ok (total.emitAll pending operands).1⟩ := by
  induction pending generalizing operands with
  | nil => cases operands <;> rfl
  | cons entry later ih =>
    simp only [waiting, List.map_cons, List.cons_append, Spanned.map]
    rw [total.releaseBracket_operator]
    exact congrArg (Release.cons _) (ih _)

theorem releaseAll_waiting (pending : List (Spanned Operator)) (operands : List Span) :
    table.releaseAll (waiting pending) operands =
      ⟨[], (total.emitAll pending operands).2, .ok (total.emitAll pending operands).1⟩ := by
  induction pending generalizing operands with
  | nil => rfl
  | cons entry later ih =>
    simp only [waiting, List.map_cons, Spanned.map]
    rw [total.releaseAll_operator]
    exact congrArg (Release.cons _) (ih _)

/-- Brackets that are not there to be closed, or not closed where the line ends, lose what left. -/
theorem releaseBracket_refused (closing : Span) (pending : List (Spanned Operator))
    (operands : List Span) :
    table.releaseBracket closing (waiting pending) operands =
      .fail [] (total.emitAll pending operands).2 (.inLine .unclosedRightBracket closing) := by
  induction pending generalizing operands with
  | nil => rfl
  | cons entry later ih =>
    simp only [waiting, List.map_cons, Spanned.map]
    rw [total.releaseBracket_operator]
    exact congrArg (Release.cons _) (ih _)

theorem releaseAll_refused (opening : Span) (base : List (Spanned Waiting))
    (pending : List (Spanned Operator)) (operands : List Span) :
    table.releaseAll (waiting pending ++ ⟨.bracket, opening⟩ :: base) operands =
      .fail base (total.emitAll pending operands).2 (.inLine .unclosedLeftBracket opening) := by
  induction pending generalizing operands with
  | nil => rfl
  | cons entry later ih =>
    simp only [waiting, List.map_cons, List.cons_append, Spanned.map]
    rw [total.releaseAll_operator]
    exact congrArg (Release.cons _) (ih _)

/-- On top of every stack there are the operators that an incoming one lets go. -/
theorem exists_waiting (incoming : Operator) (stack : List (Spanned Waiting)) :
    ∃ pending base, stack = waiting pending ++ base ∧ total.Holds incoming base ∧
      ∀ entry ∈ pending, (total.rule entry.value).appliesBefore (total.rule incoming) = true := by
  induction stack with
  | nil => exact ⟨[], [], rfl, total.holds_nil incoming, by simp⟩
  | cons entry below ih =>
    obtain ⟨op | _, span⟩ := entry
    case bracket => exact ⟨[], _, rfl, total.holds_bracket incoming span below, by simp⟩
    case operator =>
      cases applies : (total.rule op).appliesBefore (total.rule incoming) with
      | false => exact ⟨[], _, rfl, total.holds_operator applies, by simp⟩
      | true =>
        obtain ⟨pending, base, rfl, holds, tight⟩ := ih
        refine ⟨⟨op, span⟩ :: pending, base, rfl, holds, ?_⟩
        intro other member
        rcases List.mem_cons.mp member with rfl | inside
        · exact applies
        · exact tight other inside

end PrecedenceTable.Total

/-- On top of every stack there are operators, down to the innermost bracket if there is one. -/
theorem exists_bracket (stack : List (Spanned Waiting)) :
    (∃ pending, stack = waiting pending) ∨
      ∃ pending opening base, stack = waiting pending ++ ⟨.bracket, opening⟩ :: base := by
  induction stack with
  | nil => exact .inl ⟨[], rfl⟩
  | cons entry below ih =>
    obtain ⟨op | _, span⟩ := entry
    case bracket => exact .inr ⟨[], span, below, rfl⟩
    case operator =>
      rcases ih with ⟨pending, rfl⟩ | ⟨pending, opening, base, rfl⟩
      · exact .inl ⟨⟨op, span⟩ :: pending, rfl⟩
      · exact .inr ⟨⟨op, span⟩ :: pending, opening, base, rfl⟩

namespace Resolver

theorem pushOperator_semicolon (total : table.Total) (resolver : Resolver) {release : Release}
    {tokens : List (Spanned Token)}
    (released : table.releaseFor .semicolon resolver.stack resolver.operands = release)
    (ready : release.ready = .ok tokens) (span : Span) :
    resolver.pushOperator table .semicolon span =
      (⟨resolver.expect, release.stack,
          (total.rule .semicolon).reduce span release.operands⟩,
        .ok (tokens ++ [(total.rule .semicolon).token .semicolon span release.operands])) := by
  simp [pushOperator, released, ready, total.emit_eq, after]

theorem pushOperator_waiting (resolver : Resolver) {release : Release} {op : Operator}
    {tokens : List (Spanned Token)} (waits : op ≠ .semicolon)
    (released : table.releaseFor op resolver.stack resolver.operands = release)
    (ready : release.ready = .ok tokens) (span : Span) :
    resolver.pushOperator table op span =
      (⟨resolver.expect, ⟨.operator op, span⟩ :: release.stack, release.operands⟩,
        .ok tokens) := by
  simp [pushOperator, released, ready, waits, after]

theorem pushAll_cons_ok {token : Spanned RawToken} {later : List (Spanned RawToken)}
    {before after : Resolver} {ready : List (Spanned Token)}
    (taken : pushAll table (token :: later) before = (after, .ok ready)) :
    ∃ middle early late, before.push table token = (middle, .ok early) ∧
      pushAll table later middle = (after, .ok late) ∧ ready = early ++ late := by
  cases pushed : (before.push table token).2 with
  | error fault => simp [pushAll, pushed] at taken
  | ok early =>
    simp only [pushAll, pushed, Prod.mk.injEq] at taken
    obtain ⟨reached, joined⟩ := taken
    cases rest : (pushAll table later (before.push table token).1).2 with
    | error fault => simp [rest, Except.map] at joined
    | ok late =>
      simp only [rest, Except.map, Except.ok.injEq] at joined
      exact ⟨(before.push table token).1, early, late, Prod.ext rfl pushed,
        Prod.ext reached rest, joined.symm⟩

theorem pushAll_append {first : List (Spanned RawToken)} {before after : Resolver}
    {ready : List (Spanned Token)} (taken : pushAll table first before = (after, .ok ready))
    (second : List (Spanned RawToken)) :
    pushAll table (first ++ second) before =
      ((pushAll table second after).1, (pushAll table second after).2.map (ready ++ ·)) := by
  induction first generalizing before ready with
  | nil =>
    obtain ⟨rfl, same⟩ := Prod.mk.inj taken
    cases Except.ok.inj same
    cases result : (pushAll table second before).2 <;> simp [result, Except.map, Prod.ext_iff]
  | cons token later ih =>
    obtain ⟨middle, early, late, pushed, rest, rfl⟩ := pushAll_cons_ok taken
    have step := ih rest
    simp only [List.cons_append, pushAll, pushed, step]
    cases (pushAll table second after).2 <;> simp [Except.map]

theorem finish_waiting (total : table.Total) {resolver : Resolver}
    {pending : List (Spanned Operator)} (shape : resolver.stack = waiting pending) :
    resolver.finish table =
      (⟨resolver.expect, [], (total.emitAll pending resolver.operands).2⟩,
        .ok (total.emitAll pending resolver.operands).1) := by
  simp only [finish, shape, total.releaseAll_waiting, after]

/-- The innermost bracket that is open at the end of a line is a mistake. -/
theorem finish_bracketed (total : table.Total) {resolver : Resolver}
    {pending : List (Spanned Operator)} {opening : Span} {base : List (Spanned Waiting)}
    (shape : resolver.stack = waiting pending ++ ⟨.bracket, opening⟩ :: base) :
    resolver.finish table =
      (⟨resolver.expect, base, (total.emitAll pending resolver.operands).2⟩,
        .error (.inLine .unclosedLeftBracket opening)) := by
  simp only [finish, shape, total.releaseAll_refused, Release.fail, after]

theorem finish_operator (total : table.Total) {resolver : Resolver} {ready : List (Spanned Token)}
    (finished : (resolver.finish table).2 = .ok ready) {token : Spanned Token}
    (member : token ∈ ready) : ∃ op, token.value = .operator op := by
  rcases exists_bracket resolver.stack with ⟨pending, shape⟩ | ⟨pending, opening, base, shape⟩
  · rw [finish_waiting total shape] at finished
    cases finished
    exact total.emitAll_operator member
  · rw [finish_bracketed total shape] at finished
    cases finished

/-- What taking a token in can come to. Operators that leave are on top of the stack, latest first. -/
inductive Push (total : table.Total) (resolver : Resolver) (span : Span) :
    RawToken → Resolver × Except Fault (List (Spanned Token)) → Prop where
  | refuse {token : RawToken} (cause : Cause) (family : cause.family = .structural) :
      Push total resolver span token (resolver.refuse cause span)
  | number (value : Number) (mode : resolver.expect = .value) :
      Push total resolver span (.number value) (resolver.pushOperand ⟨.number value, span⟩)
  | name (handle : Handle) (mode : resolver.expect = .value) :
      Push total resolver span (.name handle) (resolver.pushOperand ⟨.name handle, span⟩)
  | opening (mode : resolver.expect = .value) : Push total resolver span (.symbol .leftParen)
      ({ resolver with stack := ⟨.bracket, span⟩ :: resolver.stack }, .ok [])
  | waits {op : Operator} (expect : Expect) {pending : List (Spanned Operator)}
      {base : List (Spanned Waiting)} (shape : resolver.stack = waiting pending ++ base)
      (waits : op ≠ .semicolon) (behind : expect = if op.opensOperand then .value else resolver.expect)
      (follows : op.opensOperand → resolver.expect = .operator)
      (tight : ∀ entry ∈ pending,
        (total.rule entry.value).appliesBefore (total.rule op) = true)
      (holds : total.Holds op base) :
      Push total resolver span (.symbol (.operator op))
        (⟨expect, ⟨.operator op, span⟩ :: base, (total.emitAll pending resolver.operands).2⟩,
          .ok (total.emitAll pending resolver.operands).1)
  | ends {pending : List (Spanned Operator)} {base : List (Spanned Waiting)}
      (shape : resolver.stack = waiting pending ++ base) (holds : total.Holds .semicolon base) :
      Push total resolver span (.symbol (.operator .semicolon))
        (⟨.value, base, (total.rule .semicolon).reduce span
            (total.emitAll pending resolver.operands).2⟩,
          .ok ((total.emitAll pending resolver.operands).1 ++
            [(total.rule .semicolon).token .semicolon span
              (total.emitAll pending resolver.operands).2]))
  | closing {pending : List (Spanned Operator)} {opening : Span} {base : List (Spanned Waiting)}
      (shape : resolver.stack = waiting pending ++ ⟨.bracket, opening⟩ :: base)
      (mode : resolver.expect = .operator) :
      Push total resolver span (.symbol .rightParen)
        (⟨resolver.expect, base,
            widened opening span (total.emitAll pending resolver.operands).2⟩,
          .ok (total.emitAll pending resolver.operands).1)
  | unopened {pending : List (Spanned Operator)} (shape : resolver.stack = waiting pending) :
      Push total resolver span (.symbol .rightParen)
        (⟨resolver.expect, [], (total.emitAll pending resolver.operands).2⟩,
          .error (.inLine .unclosedRightBracket span))

theorem pushOperator_cases (total : table.Total) (resolver : Resolver) {expect : Expect}
    {op : Operator} (behind : expect = if op.opensOperand then .value else resolver.expect)
    (follows : op ≠ .semicolon → op.opensOperand → resolver.expect = .operator) (span : Span) :
    Push total resolver span (.symbol (.operator op))
      (pushOperator table { resolver with expect := expect } op span) := by
  obtain ⟨pending, base, shape, holds, tight⟩ := total.exists_waiting op resolver.stack
  have released := total.releaseFor_waiting holds tight resolver.operands
  rw [← shape] at released
  by_cases ends : op = .semicolon
  · subst ends
    obtain rfl : expect = .value := behind
    rw [pushOperator_semicolon total { resolver with expect := .value } released rfl]
    exact .ends shape holds
  · rw [pushOperator_waiting { resolver with expect := expect } ends released rfl]
    exact .waits expect shape ends behind (follows ends) tight holds

theorem push_cases (total : table.Total) (resolver : Resolver) (token : Spanned RawToken) :
    Push total resolver token.span token.value (resolver.push table token) := by
  obtain ⟨expect, stack, operands⟩ := resolver
  obtain ⟨value, span⟩ := token
  cases expect with
  | value =>
    rcases value with value | handle | ((_ | op | _ | _) | _ | _)
    case number => exact .number value rfl
    case name => exact .name handle rfl
    case symbol.leftParen => exact .opening rfl
    case symbol.operator.print =>
      exact pushOperator_cases total ⟨.value, stack, operands⟩ rfl (by simp [Operator.opensOperand])
        span
    case symbol.operator.semicolon =>
      exact pushOperator_cases total ⟨.value, stack, operands⟩ rfl (absurd rfl) span
    all_goals exact .refuse _ rfl
  | operator =>
    rcases value with value | handle | (op | _ | _)
    case symbol.operator =>
      exact pushOperator_cases total ⟨.operator, stack, operands⟩ rfl (fun _ _ => rfl) span
    case symbol.rightParen =>
      rcases exists_bracket stack with ⟨pending, rfl⟩ | ⟨pending, opening, base, rfl⟩
      · have refused := total.releaseBracket_refused span pending operands
        simp only [push, refused]
        exact .unopened rfl
      · have released := total.releaseBracket_waiting span opening base pending operands
        simp only [push, released]
        exact .closing rfl rfl
    all_goals exact .refuse _ rfl

theorem push_refused (total : table.Total) {resolver after : Resolver} {token : Spanned RawToken}
    {fault : Fault} (pushed : resolver.push table token = (after, .error fault)) :
    ∃ cause, cause.family = .structural ∧ fault = .inLine cause token.span := by
  have cases := resolver.push_cases total token
  rw [pushed] at cases
  generalize token.value = value at cases
  cases cases with
  | refuse cause family => exact ⟨cause, family, rfl⟩
  | unopened => exact ⟨.unclosedRightBracket, rfl, rfl⟩

end Resolver

end LineCalc
