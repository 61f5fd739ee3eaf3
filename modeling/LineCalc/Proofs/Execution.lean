import LineCalc.Evaluation
import Mathlib.Data.List.Induction

/-!
What one token can do to a machine: where the entries come from that are on the stack after it, what
becomes of the environment and what is shown. Every invariant of machines is derived from these facts.
-/

namespace LineCalc

/-! What holds before a step and is kept by each holds behind any number of them, even if a fault
ends the row. -/

namespace Outcome

variable {σ τ α : Type} {P : σ → Prop}

theorem andThen_state {first : Outcome σ} {second : σ → Outcome σ} (holds : P first.state)
    (kept : ∀ state, P state → P (second state).state) : P (first.andThen second).state := by
  obtain ⟨state, events, _ | fault⟩ := first
  · exact kept state holds
  · exact holds

theorem runAll_state {step : α → σ → Outcome σ} {row : List α} {state : σ}
    (kept : ∀ x ∈ row, ∀ state, P state → P (step x state).state) (holds : P state) :
    P (runAll step row state).state := by
  induction row generalizing state with
  | nil => exact holds
  | cons x later ih =>
    exact andThen_state (kept x List.mem_cons_self state holds)
      (fun _ => ih fun y member => kept y (List.mem_cons_of_mem _ member))

theorem andThen_clean {first : Outcome σ} {second : σ → Outcome σ}
    (clean : (first.andThen second).fault = none) :
    first.fault = none ∧ (second first.state).fault = none ∧
      (first.andThen second).state = (second first.state).state := by
  obtain ⟨state, events, _ | fault⟩ := first
  · exact ⟨rfl, clean, rfl⟩
  · cases clean

theorem andThen_stopped {first : Outcome σ} (stops : first.fault ≠ none)
    (second : σ → Outcome σ) : first.andThen second = first := by
  obtain ⟨fault, stopped⟩ := Option.ne_none_iff_exists'.mp stops
  simp only [andThen, stopped]

theorem runAll_stopped {step : α → σ → Outcome σ} {row : List α} {state : σ} {fault : Fault}
    (stopped : (runAll step row state).fault = some fault) :
    ∃ early x, early ++ [x] <+: row ∧ (runAll step early state).fault = none ∧
      (step x (runAll step early state).state).fault = some fault ∧
      (runAll step row state).state = (step x (runAll step early state).state).state := by
  induction row generalizing state with
  | nil => cases stopped
  | cons first later ih =>
    rw [runAll] at stopped ⊢
    cases clean : (step first state).fault with
    | some other =>
      rw [andThen_stopped (by simp [clean])] at stopped ⊢
      exact ⟨[], first, List.prefix_append [first] later, rfl, stopped, rfl⟩
    | none =>
      simp only [andThen, clean, following] at stopped ⊢
      obtain ⟨early, x, inside, goes, stops, same⟩ := ih stopped
      refine ⟨first :: early, x, (List.prefix_cons_inj first).mpr inside, ?_⟩
      simp only [runAll, andThen, clean, following]
      exact ⟨goes, stops, same⟩

/-! What a step comes to, told for both of its ends. -/

/-- What holds behind a step that goes on, and of the fault of a step that stops. -/
def Ensures (goes : σ → Prop) (stops : Fault → Prop) (outcome : Outcome σ) : Prop :=
  match outcome.fault with
  | none => goes outcome.state
  | some fault => stops fault

namespace Ensures

variable {goes middle : σ → Prop} {stops : Fault → Prop} {outcome first : Outcome σ}

theorem state (ensures : outcome.Ensures goes stops) (clean : outcome.fault = none) :
    goes outcome.state := by
  simpa only [Ensures, clean] using ensures

theorem fault (ensures : outcome.Ensures goes stops) {fault : Fault}
    (stopped : outcome.fault = some fault) : stops fault := by
  simpa only [Ensures, stopped] using ensures

theorem of_cases (clean : outcome.fault = none → goes outcome.state)
    (stopped : ∀ fault, outcome.fault = some fault → stops fault) :
    outcome.Ensures goes stops := by
  unfold Ensures
  split
  next same => exact clean same
  next fault same => exact stopped fault same

theorem mono {goesToo : σ → Prop} {stopsToo : Fault → Prop} (ensures : outcome.Ensures goes stops)
    (further : ∀ state, goes state → goesToo state) (widely : ∀ fault, stops fault → stopsToo fault) :
    outcome.Ensures goesToo stopsToo :=
  of_cases (fun clean => further _ (ensures.state clean))
    (fun fault stopped => widely fault (ensures.fault stopped))

theorem andThen {second : σ → Outcome σ} (ensures : first.Ensures middle stops)
    (next : ∀ state, middle state → (second state).Ensures goes stops) :
    (first.andThen second).Ensures goes stops := by
  obtain ⟨state, events, _ | fault⟩ := first
  · exact next state ensures
  · exact ensures

theorem map {goes : τ → Prop} {f : σ → τ}
    (ensures : outcome.Ensures (fun state => goes (f state)) stops) :
    (outcome.map f).Ensures goes stops :=
  ensures

theorem following (ensures : outcome.Ensures goes stops) (events : List Event) :
    (outcome.following events).Ensures goes stops :=
  ensures

theorem runAll {step : α → σ → Outcome σ} {row : List α} {state : σ} {P : List α → σ → Prop}
    (start : P [] state)
    (kept : ∀ earlier x, earlier ++ [x] <+: row → ∀ state, P earlier state →
      (step x state).Ensures (P (earlier ++ [x])) stops) :
    (runAll step row state).Ensures (P row) stops := by
  induction row using List.reverseRecOn with
  | nil => exact start
  | append_singleton row last ih =>
    rw [runAll_append]
    have before := ih fun earlier x inside => kept earlier x (inside.trans (List.prefix_append _ _))
    refine before.andThen fun reached held => ?_
    rw [Outcome.runAll, show Outcome.runAll step [] = done from rfl, andThen_done]
    exact kept row last List.prefix_rfl reached held

theorem runAll_kept {step : α → σ → Outcome σ} {row : List α} {state : σ} (start : goes state)
    (kept : ∀ x ∈ row, ∀ state, goes state → (step x state).Ensures goes stops) :
    (Outcome.runAll step row state).Ensures goes stops := by
  refine runAll (P := fun _ => goes) start fun earlier x inside state held => ?_
  exact kept x (inside.subset (by simp)) state held

end Ensures

end Outcome

def Span.around (span : Span) (gone : List (Spanned Entry)) : Span :=
  gone.foldl (fun whole entry => whole.hull entry.span) span

/-- Where an entry comes from that is on the stack after a token. -/
inductive Entry.Made (token : Spanned Token) (stack : List (Spanned Entry)) :
    Spanned Entry → Prop where
  | kept {entry : Spanned Entry} (member : entry ∈ stack) : Made token stack entry
  | number {value : Number} (read : token.value = .number value) :
      Made token stack ⟨.number value, token.span⟩
  | name {handle : Handle} (read : token.value = .name handle) :
      Made token stack ⟨.name handle, token.span⟩
  | result {left right : Spanned Entry} (value : Number) (leftMember : left ∈ stack)
      (rightMember : right ∈ stack) :
      Made token stack ⟨.number value, (left.span.hull right.span).hull token.span⟩
  | target {handle : Handle} {place : Span} {right : Spanned Entry}
      (leftMember : ⟨.name handle, place⟩ ∈ stack) (rightMember : right ∈ stack) :
      Made token stack ⟨.name handle, (place.hull right.span).hull token.span⟩
  | null (gone : List (Spanned Entry)) (members : ∀ entry ∈ gone, entry ∈ stack) :
      Made token stack ⟨.null, token.span.around gone⟩

namespace Machine

variable {naming : Naming} {machine : Machine}

theorem spelling_error {handle : Handle} {fault : Fault}
    (spelled : naming.spelling handle = .error fault) : fault = .unknownHandle handle := by
  cases naming with
  | none => cases spelled
  | some table =>
    cases found : table.spelling? handle with
    | some spelling => simp [Naming.spelling, found] at spelled
    | none => simpa [Naming.spelling, found, eq_comm] using spelled

theorem settle_eq (span : Span) (stack : List (Spanned Entry)) :
    ∃ gone rest, stack = gone ++ rest ∧ (∀ entry ∈ gone, entry.value = .null) ∧
      (∀ entry ∈ rest.head?, entry.value ≠ .null) ∧
      settle span stack = ⟨.null, span.around gone⟩ :: rest := by
  induction stack generalizing span with
  | nil => exact ⟨[], [], rfl, by simp, by simp, by simp [settle, Span.around]⟩
  | cons top below ih =>
    obtain ⟨_ | _ | _, place⟩ := top
    case null =>
      obtain ⟨gone, rest, rfl, nulls, ends, settled⟩ := ih (span.hull place)
      refine ⟨⟨.null, place⟩ :: gone, rest, rfl, ?_, ends, settled⟩
      intro entry member
      rcases List.mem_cons.mp member with rfl | inside
      · rfl
      · exact nulls entry inside
    all_goals exact ⟨[], _, rfl, by simp, by simp, rfl⟩

/-- An operator of two operands stops while it looks for them, and has taken one then if there is one,
or goes on with both. -/
theorem takeOperands_cases (naming : Naming) (machine : Machine) (op : Operator) (span : Span)
    (use : Machine → Spanned Entry → Spanned Entry → Number → Outcome Machine) :
    (∃ fault, machine.takeOperands naming op span use =
      .fail { machine with stack := machine.stack.tail } fault) ∨
    (∃ right left below value, machine.stack = right :: left :: below ∧
      valueOf naming machine.environment right = .ok value ∧
      machine.takeOperands naming op span use =
        use { machine with stack := below } left right value) := by
  obtain ⟨stack, environment⟩ := machine
  cases stack with
  | nil => exact .inl ⟨_, rfl⟩
  | cons right below =>
    cases found : valueOf naming environment right with
    | error fault =>
      refine .inl ⟨fault, ?_⟩
      simp [takeOperands, found]
    | ok value =>
      cases below with
      | nil =>
        refine .inl ⟨.inLine (.missingOperand op) span, ?_⟩
        simp only [takeOperands, found, List.tail_cons]
      | cons left below =>
        refine .inr ⟨right, left, below, value, rfl, found, ?_⟩
        simp only [takeOperands, found]

theorem assign_made {span : Span} {entry : Spanned Entry}
    (member : entry ∈ (machine.assign naming span).state.stack) :
    Entry.Made ⟨.operator .equals, span⟩ machine.stack entry := by
  unfold assign at member
  rcases takeOperands_cases naming machine .equals span _ with
    ⟨fault, taken⟩ | ⟨right, left, below, value, shape, -, taken⟩
  · rw [taken] at member
    exact .kept (List.mem_of_mem_tail member)
  · rw [taken] at member
    have rightMember : right ∈ machine.stack := by simp [shape]
    have leftMember : left ∈ machine.stack := by simp [shape]
    have lower : ∀ other ∈ below, Entry.Made ⟨.operator .equals, span⟩ machine.stack other := by
      intro other inside
      apply Entry.Made.kept
      simp [shape, inside]
    obtain ⟨_ | handle | _, place⟩ := left
    case name =>
      cases spelled : naming.spelling handle with
      | error fault =>
        simp only [spelled] at member
        exact lower entry member
      | ok spelling =>
        simp only [spelled] at member
        rcases List.mem_cons.mp member with rfl | inside
        · exact .target leftMember rightMember
        · exact lower entry inside
    all_goals exact lower entry member

theorem calculate_made {op : Arithmetic} {span : Span} {entry : Spanned Entry}
    (member : entry ∈ (machine.calculate naming op span).state.stack) :
    Entry.Made ⟨.operator (.arithmetic op), span⟩ machine.stack entry := by
  unfold calculate at member
  rcases takeOperands_cases naming machine (.arithmetic op) span _ with
    ⟨fault, taken⟩ | ⟨right, left, below, value, shape, -, taken⟩
  · rw [taken] at member
    exact .kept (List.mem_of_mem_tail member)
  · rw [taken] at member
    have rightMember : right ∈ machine.stack := by simp [shape]
    have leftMember : left ∈ machine.stack := by simp [shape]
    have lower : ∀ other ∈ below,
        Entry.Made ⟨.operator (.arithmetic op), span⟩ machine.stack other := by
      intro other inside
      apply Entry.Made.kept
      simp [shape, inside]
    cases found : valueOf naming machine.environment left with
    | error fault =>
      simp only [found] at member
      exact lower entry member
    | ok leftValue =>
      simp only [found] at member
      rcases List.mem_cons.mp member with rfl | inside
      · exact .result _ leftMember rightMember
      · exact lower entry inside

theorem print_state (machine : Machine) (span : Span) :
    (machine.print naming span).state = machine := by
  obtain ⟨stack, environment⟩ := machine
  rcases stack with _ | ⟨⟨_ | handle | _, place⟩, below⟩
  case cons.name =>
    simp only [print]
    cases valueOf naming environment ⟨.name handle, place⟩ <;> rfl
  all_goals rfl

theorem print_value {top : Spanned Entry} {below : List (Spanned Entry)} {value : Number}
    (shape : machine.stack = top :: below)
    (found : valueOf naming machine.environment top = .ok value) (span : Span) :
    machine.print naming span = ⟨machine, [.printed value], none⟩ := by
  obtain ⟨_ | handle | _, place⟩ := top
  case null => cases found
  all_goals simp [print, shape, found]

theorem print_fault {top : Spanned Entry} {below : List (Spanned Entry)} {fault : Fault}
    (shape : machine.stack = top :: below) (present : top.value ≠ .null)
    (found : valueOf naming machine.environment top = .error fault) (span : Span) :
    machine.print naming span = .fail machine fault := by
  obtain ⟨_ | handle | _, place⟩ := top
  case null => exact absurd rfl present
  all_goals simp [print, shape, found]

/-- The end of a statement drops some entries and leaves a null for them, unless it stops. -/
theorem endStatement_stack (naming : Naming) (machine : Machine) (span : Span) :
    ∃ gone rest, machine.stack = gone ++ rest ∧
      ((machine.endStatement naming span).state.stack = rest ∨
        (machine.endStatement naming span).state.stack = ⟨.null, span.around gone⟩ :: rest) := by
  obtain ⟨stack, environment⟩ := machine
  cases stack with
  | nil => exact ⟨[], [], rfl, .inr rfl⟩
  | cons top below =>
    obtain ⟨gone, rest, shape, -, -, settled⟩ := settle_eq (span.hull top.span) below
    have ended : (endStatement naming ⟨top :: below, environment⟩ span).state.stack = below ∨
        (endStatement naming ⟨top :: below, environment⟩ span).state.stack =
          settle (span.hull top.span) below := by
      obtain ⟨_ | handle | _, place⟩ := top
      case name =>
        simp only [endStatement]
        split
        · exact .inr rfl
        · exact .inl rfl
      all_goals exact .inr rfl
    rcases ended with dropped | replaced
    · exact ⟨[top], below, rfl, .inl dropped⟩
    · refine ⟨top :: gone, rest, by rw [shape]; rfl, .inr ?_⟩
      rw [replaced, settled]
      rfl

theorem endStatement_made {span : Span} {entry : Spanned Entry}
    (member : entry ∈ (machine.endStatement naming span).state.stack) :
    Entry.Made ⟨.operator .semicolon, span⟩ machine.stack entry := by
  obtain ⟨gone, rest, shape, ended⟩ := machine.endStatement_stack naming span
  have lower : ∀ other ∈ rest, Entry.Made ⟨.operator .semicolon, span⟩ machine.stack other := by
    intro other inside
    apply Entry.Made.kept
    simp [shape, inside]
  rcases ended with dropped | replaced
  · rw [dropped] at member
    exact lower entry member
  · rw [replaced] at member
    rcases List.mem_cons.mp member with rfl | inside
    · exact .null gone fun other among => by simp [shape, among]
    · exact lower entry inside

theorem execute_made {token : Spanned Token} {entry : Spanned Entry}
    (member : entry ∈ (machine.execute naming token).state.stack) :
    Entry.Made token machine.stack entry := by
  obtain ⟨_ | handle | (_ | op | _ | _), span⟩ := token
  case number value =>
    rcases List.mem_cons.mp member with rfl | inside
    · exact .number rfl
    · exact .kept inside
  case name =>
    rcases List.mem_cons.mp member with rfl | inside
    · exact .name rfl
    · exact .kept inside
  case operator.equals => exact assign_made member
  case operator.arithmetic => exact calculate_made member
  case operator.print =>
    have same : (machine.print naming span).state = machine := machine.print_state span
    simp only [execute, same] at member
    exact .kept member
  case operator.semicolon => exact endStatement_made member

/-- What becomes of the environment when a token is executed, and what the token shows. A name that
nothing tells gets its value all the same. -/
inductive Act (naming : Naming) (machine : Machine) (token : Token) (executed : Outcome Machine) :
    Prop where
  | nothing (same : executed.state.environment = machine.environment) (silent : executed.events = [])
  | assigned {handle : Handle} {place : Span} {spelling : String} (value : Number)
      (equals : token = .operator .equals) (member : ⟨.name handle, place⟩ ∈ machine.stack)
      (spelled : naming.spelling handle = .ok spelling)
      (bound : executed.state.environment = machine.environment.assign handle value)
      (shown : executed.events = [.assigned spelling value])
  | untold {handle : Handle} {place : Span} {fault : Fault} (value : Number)
      (equals : token = .operator .equals) (member : ⟨.name handle, place⟩ ∈ machine.stack)
      (unspelled : naming.spelling handle = .error fault)
      (bound : executed.state.environment = machine.environment.assign handle value)
      (silent : executed.events = [])
  | printed (value : Number) (prints : token = .operator .print)
      (same : executed.state.environment = machine.environment)
      (shown : executed.events = [.printed value])

theorem assign_act (naming : Naming) (machine : Machine) (span : Span) :
    Act naming machine (.operator .equals) (machine.assign naming span) := by
  unfold assign
  rcases takeOperands_cases naming machine .equals span _ with
    ⟨fault, taken⟩ | ⟨right, left, below, value, shape, -, taken⟩
  · rw [taken]
    exact .nothing rfl rfl
  · rw [taken]
    have member : left ∈ machine.stack := by simp [shape]
    obtain ⟨_ | handle | _, place⟩ := left
    case name =>
      cases spelled : naming.spelling handle with
      | ok spelling =>
        simp only [spelled]
        exact .assigned value rfl member spelled rfl rfl
      | error fault =>
        simp only [spelled]
        exact .untold value rfl member spelled rfl rfl
    all_goals exact .nothing rfl rfl

theorem print_act (naming : Naming) (machine : Machine) (span : Span) :
    Act naming machine (.operator .print) (machine.print naming span) := by
  have same : (machine.print naming span).state.environment = machine.environment :=
    congrArg environment (machine.print_state span)
  cases shape : machine.stack with
  | nil =>
    refine .nothing same ?_
    simp only [print, shape, Outcome.fail]
  | cons top below =>
    cases found : valueOf naming machine.environment top with
    | ok value => exact .printed value rfl same (by rw [print_value shape found])
    | error fault =>
      refine .nothing same ?_
      obtain ⟨_ | handle | _, place⟩ := top
      case null => simp only [print, shape, Outcome.fail]
      all_goals
        rw [print_fault shape (by simp) found]
        rfl

/-- A token gives a value to a name on the stack and shows that, or prints, or does neither. -/
theorem execute_act (naming : Naming) (machine : Machine) (token : Spanned Token) :
    Act naming machine token.value (machine.execute naming token) := by
  obtain ⟨_ | handle | (_ | op | _ | _), span⟩ := token
  case operator.equals => exact machine.assign_act naming span
  case operator.arithmetic =>
    simp only [execute, calculate]
    rcases takeOperands_cases naming machine (.arithmetic op) span _ with
      ⟨fault, taken⟩ | ⟨right, left, below, value, shape, -, taken⟩
    · rw [taken]
      exact .nothing rfl rfl
    · rw [taken]
      cases valueOf naming machine.environment left with
      | ok value => exact .nothing rfl rfl
      | error fault => exact .nothing rfl rfl
  case operator.print => exact machine.print_act naming span
  case operator.semicolon =>
    obtain ⟨stack, environment⟩ := machine
    rcases stack with _ | ⟨⟨_ | handle | _, place⟩, below⟩
    case cons.name =>
      simp only [execute, endStatement]
      split
      · exact .nothing rfl rfl
      · exact .nothing rfl rfl
    all_goals exact .nothing rfl rfl
  all_goals exact .nothing rfl rfl

theorem execute_environment (naming : Naming) (token : Spanned Token) :
    (machine.execute naming token).state.environment = machine.environment ∨
      ∃ handle place value, ⟨.name handle, place⟩ ∈ machine.stack ∧
        (machine.execute naming token).state.environment =
          machine.environment.assign handle value := by
  cases machine.execute_act naming token with
  | nothing same => exact .inl same
  | assigned value equals member spelled bound => exact .inr ⟨_, _, value, member, bound⟩
  | untold value equals member unspelled bound => exact .inr ⟨_, _, value, member, bound⟩
  | printed value prints same => exact .inl same

end Machine

end LineCalc
