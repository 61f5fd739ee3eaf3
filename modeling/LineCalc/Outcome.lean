import LineCalc.CalcError
import LineCalc.Event

/-!
Results of steps that change a state, leave events and may stop with a fault. A fault undoes
nothing: state and events are those up to it.
-/

namespace LineCalc

/-- The state after a step, what the step did, and the fault that stopped it, if one did. -/
structure Outcome (σ : Type) where
  state : σ
  events : List Event
  fault : Option Fault

namespace Outcome

variable {σ τ α : Type}

def done (state : σ) : Outcome σ :=
  ⟨state, [], none⟩

def fail (state : σ) (fault : Fault) : Outcome σ :=
  ⟨state, [], some fault⟩

def map (f : σ → τ) (outcome : Outcome σ) : Outcome τ :=
  ⟨f outcome.state, outcome.events, outcome.fault⟩

def following (events : List Event) (outcome : Outcome σ) : Outcome σ :=
  { outcome with events := events ++ outcome.events }

/-- Goes on with a second step unless the first one stopped. -/
def andThen (first : Outcome σ) (second : σ → Outcome σ) : Outcome σ :=
  match first.fault with
  | some _ => first
  | none => (second first.state).following first.events

/-- One step for each element, up to the first that stops. -/
def runAll (step : α → σ → Outcome σ) : List α → σ → Outcome σ
  | [], state => done state
  | x :: later, state => (step x state).andThen (runAll step later)

theorem andThen_done (outcome : Outcome σ) : outcome.andThen done = outcome := by
  rcases outcome with ⟨state, events, _ | fault⟩ <;> simp [andThen, following, done]

theorem andThen_assoc (first : Outcome σ) (second third : σ → Outcome σ) :
    (first.andThen second).andThen third =
      first.andThen fun state => (second state).andThen third := by
  rcases first with ⟨state, events, _ | fault⟩
  · rcases found : (second state) with ⟨middle, later, _ | fault⟩ <;>
      simp [andThen, following, found]
  · simp [andThen]

theorem runAll_append (step : α → σ → Outcome σ) (first second : List α) (state : σ) :
    runAll step (first ++ second) state =
      (runAll step first state).andThen (runAll step second) := by
  induction first generalizing state with
  | nil => simp [runAll, andThen, done, following]
  | cons x later ih =>
    simp only [List.cons_append, runAll, andThen_assoc]
    exact congrArg _ (funext ih)

end Outcome

end LineCalc
