import LineCalc.Proofs.Alongside

/-!
Two runs of the same lexemes side by side: one from the start of a line, and one from behind a
finished statement in a longer line. The second one trails the first one through every lexeme and
through the end of the line.
-/

namespace LineCalc

open PrecedenceTable (standard standard_total)

variable {distance : Int}

/-- The second run does on behind a finished statement what the first one does from the start. -/
structure LineRun.Trails (distance : Int) (run whole : LineRun) : Prop where
  names : whole.names = run.names
  expect : whole.resolver.expect = run.resolver.expect
  waits : whole.resolver.stack = run.resolver.stack.map (Spanned.shift distance)
  positive : ∀ entry ∈ run.resolver.stack, 0 ≤ entry.span.stop
  started : run.resolver.expect = .operator → run.resolver.operands ≠ []
  paired : Paired distance run.resolver.operands whole.resolver.operands
    run.evaluation.machine whole.evaluation.machine

def LineRun.Even (run whole : LineRun) : Prop :=
  whole.names = run.names ∧ LineCalc.Even run.evaluation.machine whole.evaluation.machine

/-- The outcomes of two runs that go on side by side. -/
abbrev Outcome.Trailing (distance : Int) (going : LineRun → LineRun → Prop) :
    Outcome LineRun → Outcome LineRun → Prop :=
  Outcome.Alike going LineRun.Even (Fault.Continues distance)

theorem waiting_shift (pending : List (Spanned Operator)) :
    (waiting pending).map (Spanned.shift distance) =
      waiting (pending.map (Spanned.shift distance)) := by
  simp [waiting, Spanned.shift, Spanned.map]

namespace PrecedenceTable.Total

variable {table : PrecedenceTable} {total : table.Total}

theorem Holds.shift {incoming : Operator} {base : List (Spanned Waiting)}
    (holds : total.Holds incoming base) :
    total.Holds incoming (base.map (Spanned.shift distance)) := by
  rcases base with _ | ⟨⟨op | _, span⟩, below⟩
  case nil => exact total.holds_nil incoming
  case cons.operator => exact total.holds_operator (holds op span below rfl)
  case cons.bracket => exact total.holds_bracket incoming _ _

end PrecedenceTable.Total

namespace Alongside

variable {naming : Naming} {evaluation other : Evaluation} {spans spansToo : List Span}

theorem perform (naming : Naming)
    (paired : Paired distance spans spansToo evaluation.machine other.machine)
    (entry : Spanned Operator) (positive : 0 ≤ entry.span.stop) :
    Outcome.Alike
      (fun after another => Paired distance
        ((standard_total.rule entry.value).reduce entry.span spans)
        ((standard_total.rule entry.value).reduce (entry.span.shift distance) spansToo)
        after.machine another.machine)
      (fun after another => Even after.machine another.machine) (Fault.Continues distance)
      (evaluation.perform naming
        ((standard_total.rule entry.value).token entry.value entry.span spans))
      (other.perform naming
        ((standard_total.rule entry.value).token entry.value (entry.span.shift distance)
          spansToo)) := by
  obtain ⟨⟨stack, environment⟩, reach⟩ := evaluation
  obtain ⟨⟨stackToo, environmentToo⟩, reachToo⟩ := other
  obtain ⟨same, along⟩ := paired
  simp only at same along
  subst same
  have executed := along.execute naming environmentToo entry.value fun _ => positive
  have followed := executed.following
    [.executing ((standard_total.rule entry.value).token entry.value entry.span spans)]
    [.executing ((standard_total.rule entry.value).token entry.value
      (entry.span.shift distance) spansToo)] rfl
  exact followed.map (fun _ _ held => held) (fun _ _ held => held)

theorem performAll (naming : Naming) {pending : List (Spanned Operator)}
    (positive : ∀ entry ∈ pending, 0 ≤ entry.span.stop)
    (paired : Paired distance spans spansToo evaluation.machine other.machine) :
    Outcome.Alike
      (fun after another => Paired distance (standard_total.emitAll pending spans).2
        (standard_total.emitAll (pending.map (Spanned.shift distance)) spansToo).2
        after.machine another.machine)
      (fun after another => Even after.machine another.machine) (Fault.Continues distance)
      (Outcome.runAll (Evaluation.perform naming) (standard_total.emitAll pending spans).1 evaluation)
      (Outcome.runAll (Evaluation.perform naming)
        (standard_total.emitAll (pending.map (Spanned.shift distance)) spansToo).1 other) := by
  induction pending generalizing spans spansToo evaluation other with
  | nil => exact .done paired rfl
  | cons entry later ih =>
    have first := perform naming paired entry (positive entry List.mem_cons_self)
    exact first.andThen fun after another held =>
      ih (fun next member => positive next (List.mem_cons_of_mem _ member)) held

theorem close {stack stackToo : List (Spanned Entry)}
    (along : Alongside distance stack spans stackToo spansToo) (naming : Naming)
    (environment : Environment) (place placeToo : Span) :
    Outcome.Alike Even Even (Fault.Continues distance)
      (Machine.endStatement naming ⟨stack, environment⟩ place)
      (Machine.endStatement naming ⟨stackToo, environment⟩ placeToo) := by
  cases along with
  | bare | ended | null => exact .done rfl rfl
  | @operand entry stack stackToo spans spansToo inner first present below =>
    cases entry with
    | null => exact absurd rfl present
    | number => exact .done rfl rfl
    | name handle =>
      cases found : environment.get? handle with
      | some value =>
        simp only [Machine.endStatement, found, Option.isSome_some, if_true]
        exact .done rfl rfl
      | none =>
        obtain ⟨complete, same⟩ := Machine.unassigned_shift naming distance handle inner
        simp only [Machine.endStatement, found, Option.isSome_none, Bool.false_eq_true, if_false,
          same]
        exact .fail rfl (.shifted complete) rfl

theorem widened {stack stackToo : List (Spanned Entry)}
    (along : Alongside distance stack spans stackToo spansToo) (started : spans ≠ [])
    (opening closing : Span) :
    Alongside distance stack (widened opening closing spans) stackToo
      (LineCalc.widened (opening.shift distance) (closing.shift distance) spansToo) := by
  cases along with
  | bare => exact absurd rfl started
  | ended leans leansToo ends =>
    have both := (leansToo.hull (Span.leans_shift opening)).hull (Span.leans_shift closing)
    exact .ended leans both ends
  | operand inner first present below =>
    simp only [LineCalc.widened, ← Span.shift_hull]
    exact .operand inner _ present below
  | null inner first above under present below =>
    simp only [LineCalc.widened, List.cons_append, ← Span.shift_hull]
    exact .null inner _ above under present below

end Alongside

namespace LineRun

variable {run whole : LineRun}

theorem execute_append (tokens : List (Spanned Token)) (token : Spanned Token) (run : LineRun) :
    execute (.ok (tokens ++ [token])) run =
      ((Outcome.runAll (Evaluation.perform (some run.names)) tokens run.evaluation).andThen
        (Evaluation.perform (some run.names) token)).map
          fun evaluation => { run with evaluation := evaluation } := by
  simp only [execute, Outcome.runAll_append]
  congr 2
  funext evaluation
  exact Outcome.andThen_done _

/-- Operators that leave are executed by both runs before they go on with their new resolvers. -/
theorem Trails.emit (trails : run.Trails distance whole) {pending : List (Spanned Operator)}
    (positive : ∀ entry ∈ pending, 0 ≤ entry.span.stop) {names : NameTable}
    {resolver other : Resolver} {going : LineRun → LineRun → Prop}
    (goes : ∀ evaluation another : Evaluation,
      Paired distance (standard_total.emitAll pending run.resolver.operands).2
        (standard_total.emitAll (pending.map (Spanned.shift distance)) whole.resolver.operands).2
        evaluation.machine another.machine →
      going ⟨names, resolver, evaluation⟩ ⟨names, other, another⟩) :
    Outcome.Trailing distance going
      (execute (.ok (standard_total.emitAll pending run.resolver.operands).1)
        ⟨names, resolver, run.evaluation⟩)
      (execute (.ok (standard_total.emitAll (pending.map (Spanned.shift distance))
        whole.resolver.operands).1) ⟨names, other, whole.evaluation⟩) := by
  have emitted := Alongside.performAll (some names) positive trails.paired
  exact emitted.map goes fun evaluation another held => ⟨rfl, held⟩

theorem Trails.positive_pending (trails : run.Trails distance whole)
    {pending : List (Spanned Operator)} {base : List (Spanned Waiting)}
    (shape : run.resolver.stack = waiting pending ++ base) :
    (∀ entry ∈ pending, 0 ≤ entry.span.stop) ∧ ∀ entry ∈ base, 0 ≤ entry.span.stop := by
  have positive := trails.positive
  rw [shape] at positive
  constructor
  · intro entry member
    exact positive (entry.map .operator) (List.mem_append_left _ (List.mem_map_of_mem member))
  · intro entry member
    exact positive entry (List.mem_append_right _ member)

theorem Trails.pushOperator (trails : run.Trails distance whole) (names : NameTable)
    (op : Operator) (expect : Expect)
    (started : expect = .operator → run.resolver.operands ≠ []) {span : Span}
    (positive : 0 ≤ span.stop) :
    Outcome.Trailing distance (Trails distance)
      (execute (Resolver.pushOperator standard { run.resolver with expect := expect } op span).2
        ⟨names, (Resolver.pushOperator standard { run.resolver with expect := expect } op span).1,
          run.evaluation⟩)
      (execute (Resolver.pushOperator standard { whole.resolver with expect := expect } op
          (span.shift distance)).2
        ⟨names, (Resolver.pushOperator standard { whole.resolver with expect := expect } op
          (span.shift distance)).1, whole.evaluation⟩) := by
  obtain ⟨pending, base, shape, holds, tight⟩ := standard_total.exists_waiting op run.resolver.stack
  have shapeToo : whole.resolver.stack = waiting (pending.map (Spanned.shift distance)) ++
      base.map (Spanned.shift distance) := by
    rw [trails.waits, shape, List.map_append, waiting_shift]
  have tightToo : ∀ entry ∈ pending.map (Spanned.shift distance),
      (standard_total.rule entry.value).appliesBefore (standard_total.rule op) = true := by
    intro entry member
    obtain ⟨other, inside, rfl⟩ := List.mem_map.mp member
    exact tight other inside
  have released := standard_total.releaseFor_waiting holds tight run.resolver.operands
  have holdsToo : standard_total.Holds op (base.map (Spanned.shift distance)) := holds.shift
  have releasedToo := standard_total.releaseFor_waiting holdsToo tightToo whole.resolver.operands
  rw [← shape] at released
  rw [← shapeToo] at releasedToo
  obtain ⟨top, below⟩ := trails.positive_pending shape
  by_cases ends : op = .semicolon
  · subst ends
    rw [Resolver.pushOperator_semicolon standard_total { run.resolver with expect := expect }
        released rfl,
      Resolver.pushOperator_semicolon standard_total { whole.resolver with expect := expect }
        releasedToo rfl,
      execute_append, execute_append]
    have emitted := Alongside.performAll (some names) top trails.paired
    have both := emitted.andThen fun after another held =>
      Alongside.perform (some names) held ⟨.semicolon, span⟩ positive
    refine both.map (fun after another held => ?_) fun after another held => ⟨rfl, held⟩
    exact ⟨rfl, rfl, rfl, below, fun _ => by simp [Rule.reduce], held⟩
  · rw [Resolver.pushOperator_waiting { run.resolver with expect := expect } ends released rfl,
      Resolver.pushOperator_waiting { whole.resolver with expect := expect } ends releasedToo rfl]
    apply trails.emit top
    intro evaluation another held
    refine ⟨rfl, rfl, rfl, ?_, ?_, held⟩
    · intro entry member
      rcases List.mem_cons.mp member with rfl | inside
      · exact positive
      · exact below entry inside
    · intro mode
      exact standard_total.emitAll_nonempty pending (started mode)

theorem Trails.refuse (trails : run.Trails distance whole) (names : NameTable)
    {resolver other : Resolver} {going : LineRun → LineRun → Prop} {cause : Cause}
    (structural : cause.family = .structural) (span : Span) :
    Outcome.Trailing distance going
      (execute (.error (.inLine cause span)) ⟨names, resolver, run.evaluation⟩)
      (execute (.error (.inLine cause (span.shift distance)))
        ⟨names, other, whole.evaluation⟩) := by
  have complete : (Fault.inLine cause span).Complete :=
    Fault.complete_of_family (by simp [structural]) span
  exact .fail ⟨rfl, trails.paired.1⟩ (.shifted complete) rfl

theorem Trails.pushOperand (trails : run.Trails distance whole) (names : NameTable)
    {token : Token} (entry : Entry) (present : entry ≠ .null) (span : Span)
    (executed : ∀ (machine : Machine) (place : Span),
      machine.execute (some names) ⟨token, place⟩ = .done (machine.push ⟨entry, place⟩)) :
    Outcome.Trailing distance (Trails distance)
      (execute (run.resolver.pushOperand ⟨token, span⟩).2
        ⟨names, (run.resolver.pushOperand ⟨token, span⟩).1, run.evaluation⟩)
      (execute (whole.resolver.pushOperand ⟨token, span.shift distance⟩).2
        ⟨names, (whole.resolver.pushOperand ⟨token, span.shift distance⟩).1,
          whole.evaluation⟩) := by
  obtain ⟨same, along⟩ := trails.paired
  have pushed : Paired distance (span :: run.resolver.operands)
      (span.shift distance :: whole.resolver.operands)
      (run.evaluation.machine.push ⟨entry, span⟩)
      (whole.evaluation.machine.push ⟨entry, span.shift distance⟩) :=
    ⟨same, .operand span span present along⟩
  simp only [Resolver.pushOperand, execute, Outcome.runAll, Outcome.andThen_done, Evaluation.perform,
    executed]
  refine .done ⟨rfl, rfl, trails.waits, trails.positive, ?_, pushed⟩ rfl
  simp

theorem Trails.opening (trails : run.Trails distance whole) (names : NameTable) {span : Span}
    (positive : 0 ≤ span.stop) :
    Outcome.Trailing distance (Trails distance)
      (execute (.ok [])
        ⟨names, ⟨.value, ⟨.bracket, span⟩ :: run.resolver.stack, run.resolver.operands⟩,
          run.evaluation⟩)
      (execute (.ok [])
        ⟨names, ⟨.value, ⟨.bracket, span.shift distance⟩ :: whole.resolver.stack,
          whole.resolver.operands⟩, whole.evaluation⟩) := by
  refine .done ⟨rfl, rfl, ?_, ?_, by simp, trails.paired⟩ rfl
  · simp [trails.waits, Spanned.shift]
  · intro entry member
    rcases List.mem_cons.mp member with rfl | inside
    · exact positive
    · exact trails.positive entry inside

theorem Trails.closing (trails : run.Trails distance whole) (names : NameTable) {expect : Expect}
    (started : run.resolver.operands ≠ []) (span : Span) :
    Outcome.Trailing distance (Trails distance)
      (execute (standard.releaseBracket span run.resolver.stack run.resolver.operands).ready
        ⟨names, ⟨expect, (standard.releaseBracket span run.resolver.stack
            run.resolver.operands).stack,
          (standard.releaseBracket span run.resolver.stack run.resolver.operands).operands⟩,
          run.evaluation⟩)
      (execute (standard.releaseBracket (span.shift distance) whole.resolver.stack
          whole.resolver.operands).ready
        ⟨names, ⟨expect, (standard.releaseBracket (span.shift distance) whole.resolver.stack
            whole.resolver.operands).stack,
          (standard.releaseBracket (span.shift distance) whole.resolver.stack
            whole.resolver.operands).operands⟩, whole.evaluation⟩) := by
  rcases exists_bracket run.resolver.stack with ⟨pending, shape⟩ | ⟨pending, opening, base, shape⟩
  · have shapeToo : whole.resolver.stack = waiting (pending.map (Spanned.shift distance)) := by
      rw [trails.waits, shape, waiting_shift]
    rw [shape, shapeToo, standard_total.releaseBracket_refused,
      standard_total.releaseBracket_refused]
    exact trails.refuse names rfl span
  · have shapeToo : whole.resolver.stack = waiting (pending.map (Spanned.shift distance)) ++
        ⟨.bracket, opening.shift distance⟩ :: base.map (Spanned.shift distance) := by
      rw [trails.waits, shape, List.map_append, waiting_shift]
      rfl
    obtain ⟨top, below⟩ := trails.positive_pending shape
    rw [shape, shapeToo, standard_total.releaseBracket_waiting,
      standard_total.releaseBracket_waiting]
    apply trails.emit top
    intro evaluation another held
    have nonempty := standard_total.emitAll_nonempty pending started
    refine ⟨rfl, rfl, rfl, fun entry member => below entry (List.mem_cons_of_mem _ member), ?_,
      held.1, held.2.widened nonempty opening span⟩
    exact fun _ => widened_ne_nil opening span nonempty

/-- A token has the same effect on both runs. -/
theorem Trails.push (trails : run.Trails distance whole) (names : NameTable) (token : RawToken)
    {span : Span} (positive : 0 ≤ span.stop) :
    Outcome.Trailing distance (Trails distance)
      (execute (run.resolver.push standard ⟨token, span⟩).2
        ⟨names, (run.resolver.push standard ⟨token, span⟩).1, run.evaluation⟩)
      (execute (whole.resolver.push standard ⟨token, span.shift distance⟩).2
        ⟨names, (whole.resolver.push standard ⟨token, span.shift distance⟩).1,
          whole.evaluation⟩) := by
  obtain ⟨known, ⟨expect, stack, operands⟩, evaluation⟩ := run
  obtain ⟨knownToo, ⟨expectToo, stackToo, operandsToo⟩, other⟩ := whole
  obtain rfl : expectToo = expect := trails.expect
  cases expectToo with
  | value =>
    rcases token with value | handle | ((_ | op | _ | _) | _ | _)
    case number => exact trails.pushOperand names (.number value) (by simp) span fun _ _ => rfl
    case name => exact trails.pushOperand names (.name handle) (by simp) span fun _ _ => rfl
    case symbol.leftParen => exact trails.opening names positive
    case symbol.operator.print =>
      exact trails.pushOperator names .print .value (by simp) positive
    case symbol.operator.semicolon =>
      exact trails.pushOperator names .semicolon .value (by simp) positive
    all_goals exact trails.refuse names rfl span
  | operator =>
    have started : operands ≠ [] := trails.started rfl
    rcases token with value | handle | (op | _ | _)
    case symbol.operator =>
      exact trails.pushOperator names op (if op.opensOperand then .value else .operator)
        (fun _ => started) positive
    case symbol.rightParen => exact trails.closing names started span
    all_goals exact trails.refuse names rfl span

theorem Trails.feed (trails : run.Trails distance whole) {lexeme : Spanned Lexeme}
    (positive : 0 ≤ lexeme.span.stop) :
    Outcome.Trailing distance (Trails distance) (feed lexeme run)
      (feed (lexeme.shift distance) whole) := by
  have pushed := trails.push (run.names.take lexeme.value).names
    (run.names.take lexeme.value).token positive
  simp only [LineRun.feed, Spanned.shift, trails.names]
  exact pushed.following _ _ rfl

theorem Trails.feedRow (trails : run.Trails distance whole) {lexemes : List (Spanned Lexeme)}
    (positive : ∀ lexeme ∈ lexemes, 0 ≤ lexeme.span.stop) :
    Outcome.Trailing distance (Trails distance) (Outcome.runAll LineRun.feed lexemes run)
      (Outcome.runAll LineRun.feed (lexemes.map (Spanned.shift distance)) whole) := by
  induction lexemes generalizing run whole with
  | nil => exact .done trails rfl
  | cons lexeme later ih =>
    have first := trails.feed (positive lexeme List.mem_cons_self)
    exact first.andThen fun after another held =>
      ih held fun other member => positive other (List.mem_cons_of_mem _ member)

/-- Both runs know the same names, and their stacks are alongside of each other. -/
def Matched (distance : Int) (run whole : LineRun) : Prop :=
  whole.names = run.names ∧ ∃ spans spansToo,
    Paired distance spans spansToo run.evaluation.machine whole.evaluation.machine

theorem Matched.close (matched : run.Matched distance whole) :
    Outcome.Trailing distance LineRun.Even
      ((run.evaluation.close (some run.names)).map fun evaluation =>
        { run with evaluation := evaluation })
      ((whole.evaluation.close (some whole.names)).map fun evaluation =>
        { whole with evaluation := evaluation }) := by
  obtain ⟨known, resolver, ⟨⟨stack, environment⟩, reach⟩⟩ := run
  obtain ⟨knownToo, resolverToo, ⟨⟨stackToo, environmentToo⟩, reachToo⟩⟩ := whole
  obtain ⟨names, spans, spansToo, same, along⟩ := matched
  simp only at names same along
  subst names same
  have closed := along.close (some knownToo) environmentToo ⟨reach, reach⟩ ⟨reachToo, reachToo⟩
  have evaluations : Outcome.Alike
      (fun after another : Evaluation => LineCalc.Even after.machine another.machine)
      (fun after another : Evaluation => LineCalc.Even after.machine another.machine)
      (Fault.Continues distance)
      (Evaluation.close (some knownToo) ⟨⟨stack, environmentToo⟩, reach⟩)
      (Evaluation.close (some knownToo) ⟨⟨stackToo, environmentToo⟩, reachToo⟩) :=
    closed.map (fun _ _ held => held) (fun _ _ held => held)
  exact evaluations.map (fun _ _ held => ⟨rfl, held⟩) (fun _ _ held => ⟨rfl, held⟩)

/-- What waits at the end of the line is executed by both runs, or brackets stop both. -/
theorem Trails.release (trails : run.Trails distance whole) :
    Outcome.Trailing distance (Matched distance)
      (execute (run.resolver.finish standard).2
        { run with resolver := (run.resolver.finish standard).1 })
      (execute (whole.resolver.finish standard).2
        { whole with resolver := (whole.resolver.finish standard).1 }) := by
  simp only [Resolver.finish, Resolver.after, trails.names]
  rcases exists_bracket run.resolver.stack with ⟨pending, shape⟩ | ⟨pending, opening, base, shape⟩
  · have shapeToo : whole.resolver.stack = waiting (pending.map (Spanned.shift distance)) := by
      rw [trails.waits, shape, waiting_shift]
    have whole : run.resolver.stack = waiting pending ++ [] := by rw [shape, List.append_nil]
    rw [shape, shapeToo, standard_total.releaseAll_waiting, standard_total.releaseAll_waiting]
    apply trails.emit (trails.positive_pending whole).1
    intro evaluation another held
    exact ⟨rfl, _, _, held⟩
  · have shapeToo : whole.resolver.stack = waiting (pending.map (Spanned.shift distance)) ++
        ⟨.bracket, opening.shift distance⟩ :: base.map (Spanned.shift distance) := by
      rw [trails.waits, shape, List.map_append, waiting_shift]
      rfl
    rw [shape, shapeToo, standard_total.releaseAll_refused, standard_total.releaseAll_refused]
    exact trails.refuse run.names rfl opening

theorem Trails.finish (trails : run.Trails distance whole) :
    Outcome.Trailing distance LineRun.Even run.finish whole.finish := by
  unfold LineRun.finish
  exact trails.release.andThen fun after another matched => matched.close

/-- The second run trails the first one through a whole text, mistakes in its cutting included. -/
theorem Trails.feedAll (trails : run.Trails distance whole) (text : List Char) :
    Outcome.Trailing distance LineRun.Even (feedAll (Scan.ofChars 0 text) run)
      (feedAll ((Scan.ofChars 0 text).shift distance) whole) := by
  have positive : ∀ lexeme ∈ (Scan.ofChars 0 text).lexemes, 0 ≤ lexeme.span.stop := by
    intro lexeme member
    have bounds := Scan.ofChars_within 0 text lexeme member
    omega
  have fed := trails.feedRow positive
  refine fed.andThen fun after another held => ?_
  cases found : (Scan.ofChars 0 text).mistake with
  | none =>
    simp only [Scan.shift, found, Option.map_none]
    exact held.finish
  | some error =>
    have lexical := Scan.ofChars_mistake found
    have complete : (Fault.line error).Complete :=
      Fault.complete_of_family (by simp [lexical]) error.span
    simp only [Scan.shift, found, Option.map_some]
    exact .fail ⟨held.names, held.paired.1⟩ (.shifted complete) rfl

end LineRun

end LineCalc
