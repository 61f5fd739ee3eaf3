import LineCalc.Proofs.Batches
import LineCalc.Proofs.Supply

/-!
What a line leaves for others to see: the variables and the output. Only assigning and printing add to
it, and only where they find their operands on top of the first null. An operator that finds too few
there stops the line and leaves nothing, and neither does anything behind it.
-/

namespace LineCalc

open PrecedenceTable (standard standard_total)

/-- The variables and the output behind executed tokens. -/
def Evaluation.effect (performed : Outcome Evaluation) : Environment × String :=
  (performed.state.machine.environment, Event.output performed.events)

def Session.effect (ran : Outcome Session) : Environment × String :=
  (ran.state.environment, Event.output ran.events)

/-- The token neither assigns nor prints. -/
def Token.silent : Token → Bool
  | operator .equals | operator .print => false
  | _ => true

namespace Machine

variable {naming : Naming} {machine : Machine} {op : Operator} {span : Span}

theorem execute_silent (naming : Naming) (machine : Machine) (token : Spanned Token)
    (silent : token.value.silent = true) :
    (machine.execute naming token).state.environment = machine.environment ∧
      (machine.execute naming token).events = [] := by
  cases machine.execute_act naming token with
  | nothing same none => exact ⟨same, none⟩
  | assigned value equals =>
    rw [equals] at silent
    cases silent
  | untold value equals =>
    rw [equals] at silent
    cases silent
  | printed value prints =>
    rw [prints] at silent
    cases silent

/-- Where one operand is in reach at most, an operator of two stops while it looks for them, or goes on
with a null as the left one. -/
theorem takeOperands_lacking (few : supply machine.stack < 2)
    (use : Machine → Spanned Entry → Spanned Entry → Number → Outcome Machine) :
    (∃ stack fault,
      machine.takeOperands naming op span use = .fail { machine with stack := stack } fault) ∨
    ∃ below place right value, machine.takeOperands naming op span use =
      use { machine with stack := below } ⟨.null, place⟩ right value := by
  rcases takeOperands_cases naming machine op span use with
    ⟨fault, taken⟩ | ⟨right, left, below, value, shape, found, taken⟩
  · exact .inl ⟨machine.stack.tail, fault, taken⟩
  · have first := present_of_valueOf found
    obtain ⟨_ | handle | _, place⟩ := left
    case null => exact .inr ⟨below, place, right, value, taken⟩
    all_goals
      rw [shape, supply_cons first, supply_cons rfl] at few
      omega

theorem execute_lacking (naming : Naming) (waits : op ≠ .semicolon)
    (few : supply machine.stack < op.demand) (span : Span) :
    ∃ stack fault,
      machine.execute naming ⟨.operator op, span⟩ = .fail { machine with stack := stack } fault := by
  cases op with
  | semicolon => exact absurd rfl waits
  | equals =>
    simp only [execute, assign]
    rcases takeOperands_lacking few _ with
      ⟨stack, fault, taken⟩ | ⟨below, place, right, value, taken⟩
    · exact ⟨stack, fault, taken⟩
    · rw [taken]
      exact ⟨below, _, rfl⟩
  | arithmetic op =>
    simp only [execute, calculate]
    rcases takeOperands_lacking few _ with
      ⟨stack, fault, taken⟩ | ⟨below, place, right, value, taken⟩
    · exact ⟨stack, fault, taken⟩
    · rw [taken]
      exact ⟨below, _, rfl⟩
  | print =>
    obtain ⟨stack, environment⟩ := machine
    rcases stack with _ | ⟨⟨_ | handle | _, place⟩, below⟩
    case nil => exact ⟨[], _, rfl⟩
    case cons.null => exact ⟨_, _, rfl⟩
    all_goals
      rw [supply_cons rfl] at few
      exact absurd few (by simp [Operator.demand])

end Machine

namespace Evaluation

variable {names : NameTable} {evaluation : Evaluation}

/-- Nothing is bound and nothing is printed. -/
def Quiet (evaluation : Evaluation) (performed : Outcome Evaluation) : Prop :=
  effect performed = (evaluation.machine.environment, "")

theorem Quiet.effect_andThen {first : Outcome Evaluation} {second : Evaluation → Outcome Evaluation}
    (quiet : first.fault = none → first.state.Quiet (second first.state)) :
    effect (first.andThen second) = effect first := by
  by_cases clean : first.fault = none
  · obtain ⟨same, none⟩ := Prod.mk.inj (quiet clean)
    simp only [effect, Outcome.andThen, clean, Outcome.following, Event.output_append, same, none,
      String.append_empty]
  · rw [Outcome.andThen_stopped clean]

theorem quiet_perform {token : Spanned Token} (silent : token.value.silent = true) :
    evaluation.Quiet (evaluation.perform (some names) token) := by
  obtain ⟨same, none⟩ := Machine.execute_silent (some names) evaluation.machine token silent
  simp only [Quiet, effect, perform, Outcome.map, Outcome.following, same, none]
  rfl

theorem quiet_close : evaluation.Quiet (evaluation.close (some names)) := by
  obtain ⟨same, none⟩ := Machine.execute_silent (some names) evaluation.machine
    ⟨.operator .semicolon, ⟨evaluation.reach, evaluation.reach⟩⟩ rfl
  simp only [Machine.execute] at same none
  simp only [Quiet, effect, close, Outcome.map, same, none]
  rfl

theorem quiet_performAll {tokens : List (Spanned Token)}
    (silent : ∀ token ∈ tokens, token.value.silent = true) :
    evaluation.Quiet (performAll names tokens evaluation) := by
  induction tokens generalizing evaluation with
  | nil => rfl
  | cons token later ih =>
    obtain ⟨first, others⟩ := List.forall_mem_cons.mp silent
    have rest : (performAll names (token :: later) evaluation) =
        (evaluation.perform (some names) token).andThen (performAll names later) := rfl
    rw [Quiet, rest, Quiet.effect_andThen fun _ => ih others]
    exact quiet_perform first

/-- A token that stops without an effect keeps all that comes behind it from having one. -/
theorem effect_stopped {first : List (Spanned Token)} {token : Spanned Token}
    (stops : (performAll names first evaluation).fault = none →
      ((performAll names first evaluation).state.perform (some names) token).fault ≠ none ∧
        (performAll names first evaluation).state.Quiet
          ((performAll names first evaluation).state.perform (some names) token))
    (later : List (Spanned Token)) :
    effect (performAll names (first ++ token :: later) evaluation) =
      effect (performAll names first evaluation) := by
  rw [performAll_append]
  apply Quiet.effect_andThen
  intro clean
  obtain ⟨fails, quiet⟩ := stops clean
  have rest : performAll names (token :: later) (performAll names first evaluation).state =
      ((performAll names first evaluation).state.perform (some names) token).andThen
        (performAll names later) := rfl
  rwa [rest, Outcome.andThen_stopped fails]

theorem perform_lacking {op : Operator} (waits : op ≠ .semicolon)
    (few : supply evaluation.machine.stack < op.demand) (span : Span) :
    (evaluation.perform (some names) ⟨.operator op, span⟩).fault ≠ none ∧
      evaluation.Quiet (evaluation.perform (some names) ⟨.operator op, span⟩) := by
  obtain ⟨stack, fault, failed⟩ := Machine.execute_lacking (some names) waits few span
  constructor
  · simp [perform, failed, Outcome.fail, Outcome.map, Outcome.following]
  · simp only [Quiet, effect, perform, failed, Outcome.fail, Outcome.map, Outcome.following]
    rfl

/-- Where the waiting operators above one leave too few operands in reach for it, neither it nor
anything behind it has an effect. -/
theorem performAll_lacking {upper lower : List (Spanned Operator)} {entry : Spanned Operator}
    (above : ∀ other ∈ upper, other.value ≠ .semicolon) (waits : entry.value ≠ .semicolon)
    (few : supply evaluation.machine.stack < calls (waiting upper) + entry.value.demand)
    (operands : List Span) (later : List (Spanned Token)) :
    effect (performAll names
        ((standard_total.emitAll (upper ++ entry :: lower) operands).1 ++ later) evaluation) =
      effect (performAll names (standard_total.emitAll upper operands).1 evaluation) := by
  rw [PrecedenceTable.Total.emitAll_append, List.append_assoc]
  apply effect_stopped
  intro clean
  have paid := (performAll_emitted names above operands evaluation).state clean
  have left := paid.supply
  refine perform_lacking waits ?_ _
  omega

theorem effect_append {first second other : List (Spanned Token)}
    (same : (performAll names first evaluation).fault = none →
      effect (performAll names second (performAll names first evaluation).state) =
        effect (performAll names other (performAll names first evaluation).state)) :
    effect (performAll names (first ++ second) evaluation) =
      effect (performAll names (first ++ other) evaluation) := by
  rw [performAll_append, performAll_append]
  by_cases clean : (performAll names first evaluation).fault = none
  · obtain ⟨environment, output⟩ := Prod.mk.inj (same clean)
    simp only [effect, Outcome.andThen, clean, Outcome.following, Event.output_append, environment,
      output]
  · rw [Outcome.andThen_stopped clean, Outcome.andThen_stopped clean]

end Evaluation

end LineCalc
