import LineCalc.Proofs.Segmentation
import Mathlib.Data.Option.Basic

/-!
Places do not show. Where lexemes stand in a line is told with every token, entry and fault, but no
step looks at it: to run a line and then forget all places is to run it without places. So two lines
of the same tokens do the same, up to the places in their faults.
-/

namespace LineCalc

open PrecedenceTable (standard)

/-! Forgetting places. The hull of nowhere and nowhere is nowhere again. -/

/-- The place of everything whose place is forgotten. -/
def Span.origin : Span :=
  ⟨0, 0⟩

/-- The same value without its place. -/
def Spanned.unplaced {α : Type} (item : Spanned α) : Spanned α :=
  ⟨item.value, .origin⟩

theorem Spanned.unplaced_congr {α : Type} {items others : List (Spanned α)}
    (same : items.map value = others.map value) : items.map unplaced = others.map unplaced := by
  have values (row : List (Spanned α)) : row.map unplaced = (row.map value).map (⟨·, .origin⟩) := by
    rw [List.map_map]
    rfl
  rw [values, values, same]

def Fault.unplaced : Fault → Fault
  | .line error => .inLine error.cause .origin
  | fault => fault

def Event.unplaced : Event → Event
  | executing token => executing token.unplaced
  | event => event

theorem Event.output_unplaced (events : List Event) : output (events.map unplaced) = output events := by
  unfold output
  congr 1
  rw [List.flatMap_map]
  congr 1
  funext event
  cases event <;> rfl

namespace Outcome

variable {σ τ α β : Type}

/-- The same outcome without places, where the state is `f` of what it was. -/
def unplaced (f : σ → τ) (outcome : Outcome σ) : Outcome τ :=
  ⟨f outcome.state, outcome.events.map Event.unplaced, outcome.fault.map Fault.unplaced⟩

theorem unplaced_following (f : σ → τ) (events : List Event) (outcome : Outcome σ) :
    (outcome.following events).unplaced f =
      (outcome.unplaced f).following (events.map Event.unplaced) := by
  simp [unplaced, following]

theorem unplaced_andThen {f : σ → τ} (first : Outcome σ) {second : σ → Outcome σ}
    {secondToo : τ → Outcome τ} (same : ∀ state, (second state).unplaced f = secondToo (f state)) :
    (first.andThen second).unplaced f = (first.unplaced f).andThen secondToo := by
  obtain ⟨state, events, _ | fault⟩ := first
  · simp only [andThen, unplaced_following, same]
    rfl
  · rfl

theorem unplaced_runAll {f : σ → τ} {g : α → β} {step : α → σ → Outcome σ}
    {stepToo : β → τ → Outcome τ}
    (same : ∀ x state, (step x state).unplaced f = stepToo (g x) (f state)) (row : List α)
    (state : σ) : (runAll step row state).unplaced f = runAll stepToo (row.map g) (f state) := by
  induction row generalizing state with
  | nil => rfl
  | cons x later ih => rw [List.map_cons, runAll, runAll, unplaced_andThen _ ih, same]

end Outcome

/-! A machine executes tokens without looking at places. -/

def Machine.unplaced (machine : Machine) : Machine :=
  ⟨machine.stack.map Spanned.unplaced, machine.environment⟩

namespace Machine

variable {naming : Naming}

theorem unassigned_unplaced (naming : Naming) (handle : Handle) (span : Span) :
    (naming.unassigned handle span).unplaced = naming.unassigned handle .origin := by
  unfold Naming.unassigned
  cases spelled : naming.spelling handle with
  | ok spelling => rfl
  | error fault =>
    obtain rfl := spelling_error spelled
    rfl

theorem valueOf_unplaced (naming : Naming) (environment : Environment) (entry : Spanned Entry) :
    valueOf naming environment entry.unplaced =
      (valueOf naming environment entry).mapError Fault.unplaced := by
  obtain ⟨_ | handle | _, span⟩ := entry
  case name =>
    cases found : environment.get? handle with
    | some value => simp [valueOf, Spanned.unplaced, found, Except.mapError]
    | none =>
      simp [valueOf, Spanned.unplaced, found, Except.mapError, unassigned_unplaced naming handle span]
  all_goals rfl

theorem takeOperands_unplaced (machine : Machine) (op : Operator) (span : Span)
    {use useToo : Machine → Spanned Entry → Spanned Entry → Number → Outcome Machine}
    (same : ∀ below left right value, (use below left right value).unplaced Machine.unplaced =
      useToo below.unplaced left.unplaced right.unplaced value) :
    (machine.takeOperands naming op span use).unplaced Machine.unplaced =
      machine.unplaced.takeOperands naming op .origin useToo := by
  obtain ⟨stack, environment⟩ := machine
  cases stack with
  | nil => rfl
  | cons right below =>
    have looked := valueOf_unplaced naming environment right
    cases found : valueOf naming environment right with
    | error fault =>
      simp only [found, Except.mapError] at looked
      simp only [takeOperands, unplaced, List.map_cons, found, looked]
      rfl
    | ok value =>
      simp only [found, Except.mapError] at looked
      cases below with
      | nil =>
        simp only [takeOperands, unplaced, List.map_cons, List.map_nil, found, looked]
        rfl
      | cons left below =>
        simp only [takeOperands, unplaced, List.map_cons, found, looked]
        exact same _ _ _ _

theorem calculate_unplaced (machine : Machine) (op : Arithmetic) (span : Span) :
    (machine.calculate naming op span).unplaced unplaced =
      machine.unplaced.calculate naming op .origin := by
  apply takeOperands_unplaced
  intro below left right value
  have looked := valueOf_unplaced naming below.environment left
  cases found : valueOf naming below.environment left with
  | error fault =>
    simp only [found, Except.mapError] at looked
    simp only [unplaced, looked]
    rfl
  | ok leftValue =>
    simp only [found, Except.mapError] at looked
    simp only [unplaced, looked]
    rfl

theorem assign_unplaced (machine : Machine) (span : Span) :
    (machine.assign naming span).unplaced unplaced = machine.unplaced.assign naming .origin := by
  apply takeOperands_unplaced
  intro below left right value
  obtain ⟨_ | handle | _, place⟩ := left
  case name =>
    cases spelled : naming.spelling handle with
    | ok spelling =>
      simp only [Spanned.unplaced, spelled]
      rfl
    | error fault =>
      obtain rfl := spelling_error spelled
      simp only [Spanned.unplaced, spelled]
      rfl
  all_goals rfl

theorem print_unplaced (machine : Machine) (span : Span) :
    (machine.print naming span).unplaced unplaced = machine.unplaced.print naming .origin := by
  obtain ⟨stack, environment⟩ := machine
  rcases stack with _ | ⟨⟨_ | handle | _, place⟩, below⟩
  case cons.name =>
    have looked := valueOf_unplaced naming environment ⟨.name handle, place⟩
    simp only [Spanned.unplaced] at looked
    cases found : valueOf naming environment ⟨.name handle, place⟩ with
    | error fault =>
      simp only [found, Except.mapError] at looked
      simp only [print, unplaced, List.map_cons, Spanned.unplaced, found, looked]
      rfl
    | ok value =>
      simp only [found, Except.mapError] at looked
      simp only [print, unplaced, List.map_cons, Spanned.unplaced, found, looked]
      rfl
  all_goals rfl

theorem settle_unplaced (span : Span) (stack : List (Spanned Entry)) :
    (settle span stack).map Spanned.unplaced = settle .origin (stack.map Spanned.unplaced) := by
  induction stack generalizing span with
  | nil => rfl
  | cons top below ih =>
    obtain ⟨_ | handle | _, place⟩ := top
    case null => exact ih (span.hull place)
    all_goals rfl

theorem endStatement_unplaced (machine : Machine) (span : Span) :
    (machine.endStatement naming span).unplaced unplaced =
      machine.unplaced.endStatement naming .origin := by
  obtain ⟨stack, environment⟩ := machine
  cases stack with
  | nil => rfl
  | cons top below =>
    have settled := settle_unplaced (span.hull top.span) below
    obtain ⟨_ | handle | _, place⟩ := top
    case name =>
      cases found : environment.get? handle with
      | some value =>
        simp only [endStatement, unplaced, List.map_cons, Spanned.unplaced, found, Option.isSome_some,
          if_true]
        exact congrArg (fun stack => Outcome.done (Machine.mk stack environment)) settled
      | none =>
        simp only [endStatement, unplaced, List.map_cons, Spanned.unplaced, found, Option.isSome_none,
          Bool.false_eq_true, if_false]
        rw [← unassigned_unplaced naming handle place]
        rfl
    all_goals exact congrArg (fun stack => Outcome.done (Machine.mk stack environment)) settled

theorem execute_unplaced (token : Spanned Token) (machine : Machine) :
    (machine.execute naming token).unplaced unplaced =
      machine.unplaced.execute naming token.unplaced := by
  obtain ⟨_ | handle | (_ | op | _ | _), span⟩ := token
  case operator.equals => exact machine.assign_unplaced span
  case operator.arithmetic => exact machine.calculate_unplaced op span
  case operator.print => exact machine.print_unplaced span
  case operator.semicolon => exact machine.endStatement_unplaced span
  all_goals rfl

end Machine

/-- The same evaluation without places; how far it reaches is a place too. -/
def Evaluation.unplaced (evaluation : Evaluation) : Evaluation :=
  ⟨evaluation.machine.unplaced, 0⟩

namespace Evaluation

theorem perform_unplaced (naming : Naming) (token : Spanned Token) (evaluation : Evaluation) :
    (evaluation.perform naming token).unplaced unplaced =
      evaluation.unplaced.perform naming token.unplaced := by
  change _ = ((evaluation.machine.unplaced.execute naming token.unplaced).following
    [.executing token.unplaced]).map fun machine => Evaluation.mk machine 0
  rw [← Machine.execute_unplaced]
  rfl

theorem close_unplaced (naming : Naming) (evaluation : Evaluation) :
    (evaluation.close naming).unplaced unplaced = evaluation.unplaced.close naming := by
  change _ = (evaluation.machine.unplaced.endStatement naming .origin).map
    fun machine => Evaluation.mk machine 0
  rw [← Machine.endStatement_unplaced _ ⟨evaluation.reach, evaluation.reach⟩]
  rfl

end Evaluation

/-! A resolver reorders tokens without looking at places. -/

/-- As many spans, all of them nowhere. -/
def Span.forget (spans : List Span) : List Span :=
  spans.map fun _ => .origin

def Spanned.readyUnplaced (ready : Except Fault (List (Spanned Token))) :
    Except Fault (List (Spanned Token)) :=
  (ready.map (List.map unplaced)).mapError Fault.unplaced

def Release.unplaced (release : Release) : Release :=
  ⟨release.stack.map Spanned.unplaced, Span.forget release.operands,
    Spanned.readyUnplaced release.ready⟩

def Resolver.unplaced (resolver : Resolver) : Resolver :=
  ⟨resolver.expect, resolver.stack.map Spanned.unplaced, Span.forget resolver.operands⟩

theorem Release.unplaced_cons (token : Spanned Token) (release : Release) :
    (release.cons token).unplaced = release.unplaced.cons token.unplaced := by
  obtain ⟨stack, operands, _ | tokens⟩ := release <;> rfl

namespace Rule

variable (rule : Rule)

theorem cover_forget (operands : List Span) : rule.cover .origin (Span.forget operands) = .origin := by
  have still (row : List Span) : (Span.forget row).foldl Span.hull .origin = .origin := by
    induction row with
    | nil => rfl
    | cons span later ih => exact ih
  have taken : (Span.forget operands).take rule.arity.toNat =
      Span.forget (operands.take rule.arity.toNat) := List.map_take.symm
  rw [cover, taken, still]

theorem token_unplaced (op : Operator) (span : Span) (operands : List Span) :
    (rule.token op span operands).unplaced = rule.token op .origin (Span.forget operands) := by
  rw [token, token, cover_forget]
  rfl

theorem reduce_forget (span : Span) (operands : List Span) :
    Span.forget (rule.reduce span operands) = rule.reduce .origin (Span.forget operands) := by
  rw [reduce, reduce, cover_forget, Span.forget, Span.forget, List.map_cons, List.map_drop]

end Rule

namespace PrecedenceTable.Total

variable {table : PrecedenceTable} (total : table.Total)
include total

theorem releaseFor_unplaced (incoming : Operator) (stack : List (Spanned Waiting))
    (operands : List Span) :
    (table.releaseFor incoming stack operands).unplaced =
      table.releaseFor incoming (stack.map Spanned.unplaced) (Span.forget operands) := by
  induction stack generalizing operands with
  | nil => rfl
  | cons entry below ih =>
    obtain ⟨op | _, span⟩ := entry
    case bracket => rfl
    case operator =>
      simp only [List.map_cons, Spanned.unplaced, total.releaseFor_operator]
      split
      · rw [Release.unplaced_cons, ih, Rule.token_unplaced, Rule.reduce_forget]
      · rfl

theorem releaseBracket_unplaced (closing : Span) (stack : List (Spanned Waiting))
    (operands : List Span) :
    (table.releaseBracket closing stack operands).unplaced =
      table.releaseBracket .origin (stack.map Spanned.unplaced) (Span.forget operands) := by
  induction stack generalizing operands with
  | nil => rfl
  | cons entry below ih =>
    obtain ⟨op | _, span⟩ := entry
    case bracket => cases operands <;> rfl
    case operator =>
      simp only [List.map_cons, Spanned.unplaced, total.releaseBracket_operator]
      rw [Release.unplaced_cons, ih, Rule.token_unplaced, Rule.reduce_forget]

theorem releaseAll_unplaced (stack : List (Spanned Waiting)) (operands : List Span) :
    (table.releaseAll stack operands).unplaced =
      table.releaseAll (stack.map Spanned.unplaced) (Span.forget operands) := by
  induction stack generalizing operands with
  | nil => rfl
  | cons entry below ih =>
    obtain ⟨op | _, span⟩ := entry
    case bracket => rfl
    case operator =>
      simp only [List.map_cons, Spanned.unplaced, total.releaseAll_operator]
      rw [Release.unplaced_cons, ih, Rule.token_unplaced, Rule.reduce_forget]

end PrecedenceTable.Total

namespace Resolver

variable {table : PrecedenceTable}

def stepUnplaced (result : Resolver × Except Fault (List (Spanned Token))) :
    Resolver × Except Fault (List (Spanned Token)) :=
  (result.1.unplaced, Spanned.readyUnplaced result.2)

theorem pushOperator_unplaced (total : table.Total) (resolver : Resolver) (op : Operator)
    (span : Span) :
    stepUnplaced (resolver.pushOperator table op span) =
      resolver.unplaced.pushOperator table op .origin := by
  have released := total.releaseFor_unplaced op resolver.stack resolver.operands
  unfold pushOperator
  simp only [unplaced, ← released]
  obtain ⟨stack, operands, fault | tokens⟩ := table.releaseFor op resolver.stack resolver.operands
  · rfl
  · by_cases ends : op = .semicolon
    · have token := Rule.token_unplaced (total.rule .semicolon) .semicolon span operands
      have reduced := Rule.reduce_forget (total.rule .semicolon) span operands
      simp only [Release.unplaced, Spanned.readyUnplaced, ends, if_true, total.emit_eq, Except.map,
        Except.mapError, ← token, ← reduced, stepUnplaced, after, Resolver.unplaced, List.map_append]
      rfl
    · simp only [ends, if_false]
      rfl

theorem push_unplaced (total : table.Total) (resolver : Resolver) (token : Spanned RawToken) :
    stepUnplaced (resolver.push table token) = resolver.unplaced.push table token.unplaced := by
  obtain ⟨expect, stack, operands⟩ := resolver
  obtain ⟨value, span⟩ := token
  cases expect with
  | value =>
    rcases value with value | handle | ((_ | op | _ | _) | _ | _)
    case symbol.operator.print =>
      exact pushOperator_unplaced total ⟨.value, stack, operands⟩ .print span
    case symbol.operator.semicolon =>
      exact pushOperator_unplaced total ⟨.value, stack, operands⟩ .semicolon span
    all_goals rfl
  | operator =>
    rcases value with value | handle | (op | _ | _)
    case symbol.operator => exact pushOperator_unplaced total ⟨_, stack, operands⟩ op span
    case symbol.rightParen =>
      have released := total.releaseBracket_unplaced span stack operands
      simp only [push, unplaced, Spanned.unplaced, ← released]
      rfl
    all_goals rfl

theorem finish_unplaced (total : table.Total) (resolver : Resolver) :
    stepUnplaced (resolver.finish table) = resolver.unplaced.finish table := by
  have released := total.releaseAll_unplaced resolver.stack resolver.operands
  simp only [finish, unplaced, ← released]
  rfl

end Resolver

/-! A line is run without looking at places. -/

def LineRun.unplaced (run : LineRun) : LineRun :=
  ⟨run.names, run.resolver.unplaced, run.evaluation.unplaced⟩

namespace LineRun

theorem execute_unplaced (ready : Except Fault (List (Spanned Token))) (run : LineRun) :
    (execute ready run).unplaced unplaced = execute (Spanned.readyUnplaced ready) run.unplaced := by
  cases ready with
  | error fault => rfl
  | ok tokens =>
    have performed := Outcome.unplaced_runAll (Evaluation.perform_unplaced (some run.names)) tokens
      run.evaluation
    change _ = (Outcome.runAll (Evaluation.perform (some run.names)) (tokens.map Spanned.unplaced)
      run.evaluation.unplaced).map fun evaluation => LineRun.mk run.names run.resolver.unplaced evaluation
    rw [← performed]
    rfl

theorem feed_unplaced (lexeme : Spanned Lexeme) (run : LineRun) :
    (feed lexeme run).unplaced unplaced = feed lexeme.unplaced run.unplaced := by
  have pushed : Resolver.stepUnplaced (run.resolver.push standard
        ⟨(run.names.take lexeme.value).token, lexeme.span⟩) =
      run.resolver.unplaced.push standard ⟨(run.names.take lexeme.value).token, .origin⟩ :=
    Resolver.push_unplaced PrecedenceTable.standard_total _ _
  have silent : (run.names.take lexeme.value).events.map Event.unplaced =
      (run.names.take lexeme.value).events := by
    obtain ⟨_ | text | _, span⟩ := lexeme
    case word =>
      simp only [NameTable.take]
      split <;> rfl
    all_goals rfl
  unfold feed
  rw [Outcome.unplaced_following, execute_unplaced, silent]
  simp only [unplaced, Spanned.unplaced, ← pushed]
  rfl

theorem finish_unplaced (run : LineRun) : run.finish.unplaced unplaced = run.unplaced.finish := by
  have finished : Resolver.stepUnplaced (run.resolver.finish standard) =
      run.resolver.unplaced.finish standard :=
    Resolver.finish_unplaced PrecedenceTable.standard_total _
  have closed (run : LineRun) : (((run.evaluation.close (some run.names)).map fun evaluation =>
        { run with evaluation := evaluation }).unplaced unplaced) =
      (run.unplaced.evaluation.close (some run.unplaced.names)).map fun evaluation =>
        { run.unplaced with evaluation := evaluation } := by
    rw [show run.unplaced.evaluation = run.evaluation.unplaced from rfl, ← Evaluation.close_unplaced]
    rfl
  unfold finish
  rw [@Outcome.unplaced_andThen _ _ unplaced _ _ (fun run =>
    (run.evaluation.close (some run.names)).map fun evaluation =>
      { run with evaluation := evaluation }) closed, execute_unplaced]
  simp only [unplaced, ← finished]
  rfl

end LineRun

/-! What is left of a line without its places: the tokens that it is read as. -/

/-- The same kind of mistake in the same words. -/
inductive Fault.Alike : Fault → Fault → Prop where
  | line {error other : CalcError} (kind : error.cause.ctorIdx = other.cause.ctorIdx)
      (message : error.cause.message = other.cause.message) : Alike (.line error) (.line other)
  | same (fault : Fault) : Alike fault fault

theorem Fault.alike_of_unplaced {fault other : Fault} (same : fault.unplaced = other.unplaced) :
    fault.Alike other := by
  rcases fault with ⟨cause, span⟩ | op | handle | symbol <;>
    rcases other with ⟨causeToo, place⟩ | _ | _ | _ <;>
    cases same
  · exact .line rfl rfl
  all_goals exact .same _

/-- Two outcomes that differ in places only, where a fault may be another one of the same kind and
words. -/
structure Outcome.Even {σ τ : Type} (f : σ → τ) (first second : Outcome σ) : Prop where
  output : Event.output first.events = Event.output second.events
  state : f first.state = f second.state
  fault : Option.Rel Fault.Alike first.fault second.fault

namespace Outcome.Even

variable {σ τ : Type} {f : σ → τ} {first second : Outcome σ}

theorem of_unplaced (same : first.unplaced f = second.unplaced f) : Even f first second := by
  obtain ⟨state, events, fault⟩ := first
  obtain ⟨other, others, another⟩ := second
  simp only [unplaced, mk.injEq] at same
  obtain ⟨states, acts, faults⟩ := same
  refine ⟨?_, states, ?_⟩
  · rw [← Event.output_unplaced, acts, Event.output_unplaced]
  · cases fault with
    | none =>
      obtain rfl : another = none := Option.map_eq_none_iff.mp faults.symm
      exact .none
    | some fault =>
      obtain ⟨another, rfl, related⟩ := Option.map_eq_some_iff.mp faults.symm
      exact .some (Fault.alike_of_unplaced related.symm)

theorem andThen (even : Even f first second) {next nextToo : σ → Outcome σ}
    (rest : ∀ state other, f state = f other → Even f (next state) (nextToo other)) :
    Even f (first.andThen next) (second.andThen nextToo) := by
  obtain ⟨state, events, fault⟩ := first
  obtain ⟨other, others, another⟩ := second
  obtain ⟨printed, states, faults⟩ := even
  cases faults with
  | some alike => exact ⟨printed, states, .some alike⟩
  | none =>
    obtain ⟨printedToo, statesToo, faultsToo⟩ := rest state other states
    refine ⟨?_, statesToo, faultsToo⟩
    exact (Event.output_append _ _).trans
      ((congrArg₂ (· ++ ·) printed printedToo).trans (Event.output_append _ _).symm)

end Outcome.Even

/-- Rows of the same lexemes in other places are taken in alike, and so is what ends them. -/
theorem LineRun.feedAll_even {scan other : Scan}
    (same : scan.lexemes.map Spanned.value = other.lexemes.map Spanned.value)
    (ends : Option.Rel Fault.Alike (scan.mistake.map .line) (other.mistake.map .line))
    (run : LineRun) : (feedAll scan run).Even unplaced (feedAll other run) := by
  have row : Outcome.Even unplaced (Outcome.runAll feed scan.lexemes run)
      (Outcome.runAll feed other.lexemes run) := by
    apply Outcome.Even.of_unplaced
    rw [Outcome.unplaced_runAll feed_unplaced, Outcome.unplaced_runAll feed_unplaced,
      Spanned.unplaced_congr same]
  apply row.andThen
  intro state another states
  obtain ⟨_, mistake⟩ := scan
  obtain ⟨_, mistakeToo⟩ := other
  cases mistake with
  | some error =>
    cases mistakeToo with
    | none => cases ends
    | some errorToo =>
      cases ends with
      | some alike => exact ⟨rfl, states, .some alike⟩
  | none =>
    cases mistakeToo with
    | some errorToo => cases ends
    | none =>
      apply Outcome.Even.of_unplaced
      rw [finish_unplaced, finish_unplaced, states]

/-- Under the names that are known in the end, a token tells its lexeme. -/
theorem Lexeme.Denotes.lexeme_unique {names : NameTable} {lexeme other : Lexeme} {token : RawToken}
    (denotes : lexeme.Denotes names token) (denotesToo : other.Denotes names token) :
    lexeme = other := by
  cases denotes with
  | number | symbol =>
    cases denotesToo
    rfl
  | word stands =>
    cases denotesToo with
    | word standsToo => rw [stands.unique standsToo]

theorem Lexeme.DenoteAll.values_unique {names : NameTable} {lexemes others : List (Spanned Lexeme)}
    {tokens tokensToo : List (Spanned RawToken)} (all : DenoteAll names lexemes tokens)
    (allToo : DenoteAll names others tokensToo)
    (same : tokens.map Spanned.value = tokensToo.map Spanned.value) :
    lexemes.map Spanned.value = others.map Spanned.value := by
  induction lexemes generalizing tokens others tokensToo with
  | nil =>
    cases all
    cases allToo with
    | nil => rfl
    | cons => cases same
  | cons lexeme later ih =>
    cases all with
    | cons first rest =>
      cases allToo with
      | nil => cases same
      | cons firstToo restToo =>
        obtain ⟨head, tail⟩ := List.cons.inj same
        rw [List.map_cons, List.map_cons, ih rest restToo tail,
          first.2.lexeme_unique (head ▸ firstToo.2)]

/-- Lines that are read as the same tokens under the same names, and end alike, are made of the same
lexemes. -/
theorem Listing.lexemes_unique {names : NameTable} {line other : String}
    (tokens : (read names line).tokens.map Spanned.value = (read names other).tokens.map Spanned.value)
    (known : (read names line).names = (read names other).names) :
    (Scan.ofLine line).lexemes.map Spanned.value = (Scan.ofLine other).lexemes.map Spanned.value := by
  rw [read_tokens, read_tokens] at tokens
  have ended (line : String) : (takeAll none names (Scan.ofLine line).lexemes).names =
      (read names line).names := (takeAll_mistake _ names _).2.1.symm
  have all := denoteAll_takeAll names (Scan.ofLine line).lexemes
  have allToo := denoteAll_takeAll names (Scan.ofLine other).lexemes
  rw [ended] at all
  rw [ended, ← known] at allToo
  exact all.values_unique allToo tokens

namespace Session

/-- Only tokens and spellings count. Where two lines are read as the same tokens, with the same names
known in the end, and both end or both are cut short by the same kind of mistake in the same words, a
session prints the same for both and is left in the same state, and both succeed or both stop with the
same kind of mistake in the same words. -/
theorem run_inert (session : Session) (line other : String)
    (tokens : (Listing.read session.names line).tokens.map Spanned.value =
      (Listing.read session.names other).tokens.map Spanned.value)
    (names : (Listing.read session.names line).names = (Listing.read session.names other).names)
    (ends : Option.Rel Fault.Alike (Listing.read session.names line).fault
      (Listing.read session.names other).fault) :
    Event.output (session.run line).events = Event.output (session.run other).events ∧
      (session.run line).state = (session.run other).state ∧
      Option.Rel Fault.Alike (session.run line).fault (session.run other).fault := by
  rw [Listing.read_fault, Listing.read_fault] at ends
  obtain ⟨printed, states, faults⟩ :=
    LineRun.feedAll_even (Listing.lexemes_unique tokens names) ends session.begin
  refine ⟨printed, ?_, faults⟩
  have same := congrArg LineRun.names states
  have machines := congrArg (fun run => run.evaluation.machine.environment) states
  exact congrArg₂ Session.mk same machines

/-- Blanks between tokens, and so places, do not matter, here in front of a character that starts
nothing. -/
theorem run_inert_blanks :
    let session := (empty.run "b=2").state
    (Listing.read session.names "%b;%c ?").tokens.map Spanned.value =
        (Listing.read session.names " % b ;  %c?").tokens.map Spanned.value ∧
      (Listing.read session.names "%b;%c ?").fault =
        some (.inLine (.unexpectedCharacter '?') ⟨6, 7⟩) ∧
      (Listing.read session.names " % b ;  %c?").fault =
        some (.inLine (.unexpectedCharacter '?') ⟨10, 11⟩) ∧
      Event.output (session.run "%b;%c ?").events =
        Event.output (session.run " % b ;  %c?").events ∧
      (session.run "%b;%c ?").state = (session.run " % b ;  %c?").state ∧
      Option.Rel Fault.Alike (session.run "%b;%c ?").fault (session.run " % b ;  %c?").fault := by
  intro session
  have tokens : (Listing.read session.names "%b;%c ?").tokens.map Spanned.value =
      (Listing.read session.names " % b ;  %c?").tokens.map Spanned.value := by decide +kernel
  have names : (Listing.read session.names "%b;%c ?").names =
      (Listing.read session.names " % b ;  %c?").names := by decide +kernel
  have fault : (Listing.read session.names "%b;%c ?").fault =
      some (.inLine (.unexpectedCharacter '?') ⟨6, 7⟩) := by decide +kernel
  have faultToo : (Listing.read session.names " % b ;  %c?").fault =
      some (.inLine (.unexpectedCharacter '?') ⟨10, 11⟩) := by decide +kernel
  have ends : Option.Rel Fault.Alike (Listing.read session.names "%b;%c ?").fault
      (Listing.read session.names " % b ;  %c?").fault := by
    rw [fault, faultToo]
    exact .some (.line rfl rfl)
  exact ⟨tokens, fault, faultToo, run_inert session _ _ tokens names ends⟩

/-- Handles alone do not tell a line: new names get the same handle whatever their spelling, and a
session keeps the spelling. -/
theorem run_respelled :
    (Listing.read empty.names "a=1").tokens.map Spanned.value =
        (Listing.read empty.names "b=1").tokens.map Spanned.value ∧
      (Listing.read empty.names "a=1").fault = none ∧
      (Listing.read empty.names "b=1").fault = none ∧
      (empty.run "a=1").state.names ≠ (empty.run "b=1").state.names := by
  decide +kernel

end Session

end LineCalc
