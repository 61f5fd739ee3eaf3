import LineCalc.Proofs.Meaning
import LineCalc.Proofs.Region

/-!
Two machines side by side: one that starts a text afresh, and one that has run a finished statement
before and goes on with the same text further on in its line. What the statement has left is a null and
operand spans that nothing takes but what has too few operands. So both machines do the same, up to
mistakes that reach the bottom of the stack.
-/

namespace LineCalc

namespace Span

theorem shift_hull (distance : Int) (a b : Span) :
    (a.hull b).shift distance = (a.shift distance).hull (b.shift distance) := by
  simp only [hull, shift, mk.injEq]
  omega

/-- The second span ends where the first one does, further on in the line, and starts there or further
left. -/
def Leans (distance : Int) (span wider : Span) : Prop :=
  wider.stop = span.stop + distance ∧ wider.start ≤ span.start + distance

variable {distance : Int}

theorem leans_shift (span : Span) : span.Leans distance (span.shift distance) :=
  ⟨rfl, Int.le_refl _⟩

theorem Leans.hull {a b wider wide : Span} (first : a.Leans distance wider)
    (second : b.Leans distance wide) : (a.hull b).Leans distance (wider.hull wide) := by
  obtain ⟨stop, start⟩ := first
  obtain ⟨stopToo, startToo⟩ := second
  constructor
  · simp only [Span.hull, stop, stopToo]
    omega
  · simp only [Span.hull]
    omega

theorem Leans.hull_before {span wider before : Span} (leans : span.Leans distance wider)
    (positive : 0 ≤ span.stop) (left : before.stop ≤ distance) :
    span.Leans distance (wider.hull before) := by
  obtain ⟨stop, start⟩ := leans
  constructor
  · simp only [Span.hull, stop]
    omega
  · simp only [Span.hull]
    omega

end Span

def Fault.shift (distance : Int) : Fault → Fault
  | .line error => .line (error.shift distance)
  | .missingRule op => .missingRule op
  | .unknownHandle handle => .unknownHandle handle
  | .strayingSymbol symbol => .strayingSymbol symbol

/-- The mistake is to use the null that a finished statement has left. -/
def Cause.concernsNull : Cause → Bool
  | assigningToNull | usingNull | printingNull => true
  | _ => false

def Fault.Complete (fault : Fault) : Prop :=
  ∀ op span, fault ≠ .inLine (.missingOperand op) span

theorem Fault.complete_of_family {cause : Cause} (family : cause.family ≠ .runtime) (span : Span) :
    (Fault.inLine cause span).Complete := by
  intro op place same
  cases same
  exact family rfl

/-- How the fault of a text reads where the text goes on behind a finished statement. Where operands
are missing, the null of that statement is found in their place. -/
inductive Fault.Continues (distance : Int) : Fault → Fault → Prop where
  | shifted {fault : Fault} (complete : fault.Complete) :
      Continues distance fault (fault.shift distance)
  | leaning {cause : Cause} {span wider : Span} (null : cause.concernsNull = true)
      (leans : span.Leans distance wider) :
      Continues distance (.inLine cause span) (.inLine cause wider)
  | bottom {cause : Cause} (op : Operator) (span place : Span)
      (null : cause.concernsNull = true) :
      Continues distance (.inLine (.missingOperand op) span) (.inLine cause place)

theorem Fault.Continues.of_missing {distance : Int} {op : Operator} {span : Span} {fault : Fault}
    (continues : Fault.Continues distance (.inLine (.missingOperand op) span) fault) :
    ∃ cause place, Cause.concernsNull cause = true ∧ fault = .inLine cause place := by
  generalize same : Fault.inLine (.missingOperand op) span = missing at continues
  cases continues with
  | shifted complete => exact absurd same.symm (complete op span)
  | leaning null leans =>
    cases same
    cases null
  | bottom _ _ place null => exact ⟨_, place, null, rfl⟩

/-- Two outcomes that print the same, and either both go on or both stop. -/
inductive Outcome.Alike {σ τ : Type} (going stopped : σ → τ → Prop)
    (faults : Fault → Fault → Prop) : Outcome σ → Outcome τ → Prop where
  | done {state : σ} {other : τ} {events others : List Event} (goes : going state other)
      (printed : Event.numbers others = Event.numbers events) :
      Alike going stopped faults ⟨state, events, none⟩ ⟨other, others, none⟩
  | fail {state : σ} {other : τ} {events others : List Event} {fault another : Fault}
      (stops : stopped state other) (related : faults fault another)
      (printed : Event.numbers others = Event.numbers events) :
      Alike going stopped faults ⟨state, events, some fault⟩ ⟨other, others, some another⟩

namespace Outcome.Alike

variable {σ τ σ' τ' : Type} {going stopped : σ → τ → Prop} {goingToo stoppedToo : σ' → τ' → Prop}
  {faults : Fault → Fault → Prop}

theorem andThen {goingOn : σ → τ → Prop} {first : Outcome σ} {other : Outcome τ}
    (alike : Alike going stopped faults first other) {next : σ → Outcome σ}
    {nextOther : τ → Outcome τ}
    (rest : ∀ state another, going state another →
      Alike goingOn stopped faults (next state) (nextOther another)) :
    Alike goingOn stopped faults (first.andThen next) (other.andThen nextOther) := by
  cases alike with
  | fail stops related printed => exact .fail stops related printed
  | @done state another events others goes printed =>
    have both := rest state another goes
    simp only [Outcome.andThen]
    generalize next state = outcome at both
    generalize nextOther another = outcomeToo at both
    cases both with
    | done goes printedToo =>
      refine .done goes ?_
      rw [Event.numbers_append, Event.numbers_append, printed, printedToo]
    | fail stops related printedToo =>
      refine .fail stops related ?_
      rw [Event.numbers_append, Event.numbers_append, printed, printedToo]

theorem map {first : Outcome σ} {other : Outcome τ} (alike : Alike going stopped faults first other)
    {f : σ → σ'} {g : τ → τ'}
    (goes : ∀ state another, going state another → goingToo (f state) (g another))
    (stops : ∀ state another, stopped state another → stoppedToo (f state) (g another)) :
    Alike goingToo stoppedToo faults (first.map f) (other.map g) := by
  cases alike with
  | done held printed => exact .done (goes _ _ held) printed
  | fail held related printed => exact .fail (stops _ _ held) related printed

theorem following {first : Outcome σ} {other : Outcome τ}
    (alike : Alike going stopped faults first other) (events others : List Event)
    (before : Event.numbers others = Event.numbers events) :
    Alike going stopped faults (first.following events) (other.following others) := by
  cases alike with
  | done held printed => exact .done held (by simp [Event.numbers_append, before, printed])
  | fail held related printed =>
    exact .fail held related (by simp [Event.numbers_append, before, printed])

theorem refl {going stopped : σ → σ → Prop} (goes : ∀ state, going state state)
    (stops : ∀ state, stopped state state) (outcome : Outcome σ) :
    Alike going stopped (· = ·) outcome outcome := by
  obtain ⟨state, events, _ | fault⟩ := outcome
  · exact .done (goes state) rfl
  · exact .fail (stops state) rfl rfl

theorem state {even : σ → τ → Prop} {first : Outcome σ} {other : Outcome τ}
    (alike : Alike even even faults first other) : even first.state other.state := by
  cases alike with
  | done held printed => exact held
  | fail held related printed => exact held

theorem numbers {first : Outcome σ} {other : Outcome τ}
    (alike : Alike going stopped faults first other) :
    Event.numbers other.events = Event.numbers first.events := by
  cases alike with
  | done held printed => exact printed
  | fail held related printed => exact printed

theorem rel {first : Outcome σ} {other : Outcome τ}
    (alike : Alike going stopped faults first other) :
    Option.Rel faults first.fault other.fault := by
  cases alike with
  | done held printed => exact .none
  | fail held related printed => exact .some related

theorem fault {first : Outcome σ} {other : Outcome τ}
    (alike : Alike going stopped (· = ·) first other) : other.fault = first.fault := by
  cases alike with
  | done held printed => rfl
  | fail held same printed => rw [same]

end Outcome.Alike

/-- Stacks and operand spans of the machine that starts afresh and of the one that goes on. On top,
entries and spans are the same, further on in the line; at the bottom, the second machine has the null
of the statement before. -/
inductive Alongside (distance : Int) : List (Spanned Entry) → List Span →
    List (Spanned Entry) → List Span → Prop where
  | bare {rest : List (Spanned Entry)} {low : List Span} {null before : Span}
      (left : null.stop ≤ distance) (leftToo : before.stop ≤ distance)
      (ends : ∀ entry ∈ rest.head?, entry.value ≠ .null) :
      Alongside distance [] [] (⟨.null, null⟩ :: rest) (before :: low)
  | ended {rest : List (Spanned Entry)} {spans low : List Span} {null wider span wide : Span}
      (leans : null.Leans distance wider) (leansToo : span.Leans distance wide)
      (ends : ∀ entry ∈ rest.head?, entry.value ≠ .null) :
      Alongside distance [⟨.null, null⟩] (span :: spans) (⟨.null, wider⟩ :: rest) (wide :: low)
  | operand {entry : Entry} {stack stackToo : List (Spanned Entry)} {spans spansToo : List Span}
      (place span : Span) (present : entry ≠ .null)
      (below : Alongside distance stack spans stackToo spansToo) :
      Alongside distance (⟨entry, place⟩ :: stack) (span :: spans)
        (⟨entry, place.shift distance⟩ :: stackToo) (span.shift distance :: spansToo)
  | null {entry : Entry} {stack stackToo : List (Spanned Entry)} {spans spansToo : List Span}
      (place span : Span) (above : List Span) (under : Span) (present : entry ≠ .null)
      (below : Alongside distance (⟨entry, under⟩ :: stack) spans
        (⟨entry, under.shift distance⟩ :: stackToo) spansToo) :
      Alongside distance (⟨.null, place⟩ :: ⟨entry, under⟩ :: stack) (span :: above ++ spans)
        (⟨.null, place.shift distance⟩ :: ⟨entry, under.shift distance⟩ :: stackToo)
        (span.shift distance :: above.map (Span.shift distance) ++ spansToo)

namespace Machine

variable {distance : Int} {naming : Naming} {environment : Environment}

theorem unassigned_shift (naming : Naming) (distance : Int) (handle : Handle) (span : Span) :
    (naming.unassigned handle span).Complete ∧
      naming.unassigned handle (span.shift distance) =
        (naming.unassigned handle span).shift distance := by
  unfold Naming.unassigned
  cases naming with
  | none => exact ⟨by intro op other; simp [Naming.spelling, Fault.inLine], rfl⟩
  | some table =>
    simp only [Naming.spelling]
    cases table.spelling? handle with
    | none => exact ⟨by intro op other; simp [Fault.inLine], rfl⟩
    | some spelling => exact ⟨by intro op other; simp [Fault.inLine], rfl⟩

theorem settle_top {stack : List (Spanned Entry)}
    (ends : ∀ entry ∈ stack.head?, entry.value ≠ .null) (span : Span) :
    settle span stack = ⟨.null, span⟩ :: stack := by
  rcases stack with _ | ⟨⟨_ | _ | _, place⟩, below⟩
  case cons.null => exact absurd rfl (ends _ rfl)
  all_goals rfl

theorem settle_present {entry : Entry} (present : entry ≠ .null) (place : Span)
    (below : List (Spanned Entry)) (span : Span) :
    settle span (⟨entry, place⟩ :: below) = ⟨.null, span⟩ :: ⟨entry, place⟩ :: below := by
  apply settle_top
  rintro top ⟨⟩
  exact present

theorem valueOf_shift (naming : Naming) (environment : Environment) (distance : Int)
    {entry : Entry} (present : entry ≠ .null) (place : Span) :
    (∃ value, valueOf naming environment ⟨entry, place⟩ = .ok value ∧
      valueOf naming environment ⟨entry, place.shift distance⟩ = .ok value) ∨
    (∃ fault : Fault, fault.Complete ∧ valueOf naming environment ⟨entry, place⟩ = .error fault ∧
      valueOf naming environment ⟨entry, place.shift distance⟩ =
        .error (fault.shift distance)) := by
  cases entry with
  | number value => exact .inl ⟨value, rfl, rfl⟩
  | null => exact absurd rfl present
  | name handle =>
    cases found : environment.get? handle with
    | some value => exact .inl ⟨value, by simp [valueOf, found], by simp [valueOf, found]⟩
    | none =>
      obtain ⟨complete, same⟩ := unassigned_shift naming distance handle place
      exact .inr ⟨_, complete, by simp [valueOf, found], by simp [valueOf, found, same]⟩

end Machine

namespace Rule

variable {rule : Rule} (span first second : Span) (others : List Span)

theorem reduce_one (unary : rule.arity.toNat = 1) :
    rule.reduce span (first :: others) = span.hull first :: others := by
  simp [reduce, cover, unary]

theorem reduce_two (binary : rule.arity.toNat = 2) :
    rule.reduce span (first :: second :: others) = (span.hull first).hull second :: others := by
  simp [reduce, cover, binary]

theorem cover_one (unary : rule.arity.toNat = 1) :
    rule.cover span (first :: others) = span.hull first := by
  simp [cover, unary]

theorem cover_two (binary : rule.arity.toNat = 2) :
    rule.cover span (first :: second :: others) = (span.hull first).hull second := by
  simp [cover, binary]

end Rule

/-- Both machines have the same environment, and their stacks are alongside of each other. -/
def Paired (distance : Int) (spans spansToo : List Span) (machine other : Machine) : Prop :=
  other.environment = machine.environment ∧
    Alongside distance machine.stack spans other.stack spansToo

def Even (machine other : Machine) : Prop :=
  other.environment = machine.environment

namespace Alongside

variable {distance : Int} {stack stackToo : List (Spanned Entry)} {spans spansToo : List Span}
  {naming : Naming} {environment : Environment} {rule : Rule}

theorem print (along : Alongside distance stack spans stackToo spansToo)
    (unary : rule.arity.toNat = 1) (span place placeToo : Span) :
    Outcome.Alike
      (Paired distance (rule.reduce span spans) (rule.reduce (span.shift distance) spansToo))
      Even (Fault.Continues distance)
      (Machine.print naming ⟨stack, environment⟩ place)
      (Machine.print naming ⟨stackToo, environment⟩ placeToo) := by
  cases along with
  | bare => exact .fail rfl (.bottom _ _ _ rfl) rfl
  | ended leans => exact .fail rfl (.leaning rfl leans) rfl
  | null inner => exact .fail rfl (.leaning rfl (Span.leans_shift inner)) rfl
  | @operand entry stack stackToo spans spansToo inner first present below =>
    have after : Alongside distance (⟨entry, inner⟩ :: stack) (rule.reduce span (first :: spans))
        (⟨entry, inner.shift distance⟩ :: stackToo)
        (rule.reduce (span.shift distance) (first.shift distance :: spansToo)) := by
      rw [Rule.reduce_one _ _ _ unary, Rule.reduce_one _ _ _ unary, ← Span.shift_hull]
      exact .operand inner _ present below
    rcases Machine.valueOf_shift naming environment distance present inner with
      ⟨value, found, foundToo⟩ | ⟨fault, complete, found, foundToo⟩
    · rw [Machine.print_value rfl found, Machine.print_value rfl foundToo]
      exact .done ⟨rfl, after⟩ rfl
    · rw [Machine.print_fault rfl present found, Machine.print_fault rfl present foundToo]
      exact .fail rfl (.shifted complete) rfl

theorem takeOperands (along : Alongside distance stack spans stackToo spansToo) {op : Operator}
    (place placeToo : Span)
    {use useToo : Machine → Spanned Entry → Spanned Entry → Number → Outcome Machine}
    {going : Machine → Machine → Prop} (cause : Cause) (concerns : cause.concernsNull = true)
    (null : ∀ machine place right value,
      use machine ⟨.null, place⟩ right value = .fail machine (.inLine cause place))
    (nullToo : ∀ machine place right value,
      useToo machine ⟨.null, place⟩ right value = .fail machine (.inLine cause place))
    (both : ∀ {entry other : Entry} {stack stackToo : List (Spanned Entry)}
      {spansLeft spansLeftToo : List Span} (right left first second : Span) (value : Number),
      entry ≠ .null → Alongside distance stack spansLeft stackToo spansLeftToo →
      spans = first :: second :: spansLeft →
      spansToo = first.shift distance :: second.shift distance :: spansLeftToo →
      Outcome.Alike going Even (Fault.Continues distance)
        (use ⟨stack, environment⟩ ⟨entry, left⟩ ⟨other, right⟩ value)
        (useToo ⟨stackToo, environment⟩ ⟨entry, left.shift distance⟩
          ⟨other, right.shift distance⟩ value)) :
    Outcome.Alike going Even (Fault.Continues distance)
      (Machine.takeOperands naming ⟨stack, environment⟩ op place use)
      (Machine.takeOperands naming ⟨stackToo, environment⟩ op placeToo useToo) := by
  cases along with
  | bare => exact .fail rfl (.bottom _ _ _ rfl) rfl
  | ended leans => exact .fail rfl (.leaning rfl leans) rfl
  | null inner => exact .fail rfl (.leaning rfl (Span.leans_shift inner)) rfl
  | @operand other stack stackToo spans spansToo right first present below =>
    rcases Machine.valueOf_shift naming environment distance present right with
      ⟨value, found, foundToo⟩ | ⟨fault, complete, found, foundToo⟩
    case inr =>
      simp only [Machine.takeOperands, found, foundToo]
      exact .fail rfl (.shifted complete) rfl
    simp only [Machine.takeOperands, found, foundToo]
    cases below with
    | bare =>
      simp only [nullToo]
      exact .fail rfl (.bottom _ _ _ concerns) rfl
    | ended leans =>
      simp only [null, nullToo]
      exact .fail rfl (.leaning concerns leans) rfl
    | null inner =>
      simp only [null, nullToo]
      exact .fail rfl (.leaning concerns (Span.leans_shift inner)) rfl
    | operand left second presentToo below =>
      exact both right left first second value presentToo below rfl rfl

theorem calculate (along : Alongside distance stack spans stackToo spansToo)
    (binary : rule.arity.toNat = 2) (op : Arithmetic) (span : Span) :
    Outcome.Alike
      (Paired distance (rule.reduce span spans) (rule.reduce (span.shift distance) spansToo))
      Even (Fault.Continues distance)
      (Machine.calculate naming ⟨stack, environment⟩ op (rule.cover span spans))
      (Machine.calculate naming ⟨stackToo, environment⟩ op
        (rule.cover (span.shift distance) spansToo)) := by
  apply along.takeOperands _ _ .usingNull
  · rfl
  · intros; rfl
  · intros; rfl
  intro entry other stack stackToo spansLeft spansLeftToo right left first second value present below
    shape shapeToo
  subst shape shapeToo
  rw [Rule.reduce_two _ _ _ _ binary, Rule.reduce_two _ _ _ _ binary, Rule.cover_two _ _ _ _ binary,
    Rule.cover_two _ _ _ _ binary, ← Span.shift_hull, ← Span.shift_hull]
  rcases Machine.valueOf_shift naming environment distance present left with
    ⟨leftValue, found, foundToo⟩ | ⟨fault, complete, found, foundToo⟩
  · simp only [found, foundToo]
    refine .done ⟨rfl, ?_⟩ rfl
    simp only [Machine.push]
    rw [← Span.shift_hull, ← Span.shift_hull]
    exact .operand _ _ (by simp) below
  · simp only [found, foundToo]
    exact .fail rfl (.shifted complete) rfl

theorem assign (along : Alongside distance stack spans stackToo spansToo)
    (binary : rule.arity.toNat = 2) (span : Span) :
    Outcome.Alike
      (Paired distance (rule.reduce span spans) (rule.reduce (span.shift distance) spansToo))
      Even (Fault.Continues distance)
      (Machine.assign naming ⟨stack, environment⟩ (rule.cover span spans))
      (Machine.assign naming ⟨stackToo, environment⟩
        (rule.cover (span.shift distance) spansToo)) := by
  apply along.takeOperands _ _ .assigningToNull
  · rfl
  · intros; rfl
  · intros; rfl
  intro entry other stack stackToo spansLeft spansLeftToo right left first second value present below
    shape shapeToo
  subst shape shapeToo
  rw [Rule.reduce_two _ _ _ _ binary, Rule.reduce_two _ _ _ _ binary, Rule.cover_two _ _ _ _ binary,
    Rule.cover_two _ _ _ _ binary, ← Span.shift_hull, ← Span.shift_hull]
  cases entry with
  | null => exact absurd rfl present
  | number => exact .fail rfl (.shifted (by intro op place; simp [Fault.inLine])) rfl
  | name handle =>
    cases spelled : naming.spelling handle with
    | error fault =>
      obtain rfl := Machine.spelling_error spelled
      simp only [spelled]
      exact .fail rfl (.shifted (by intro op place; simp [Fault.inLine])) rfl
    | ok spelling =>
      simp only [spelled]
      refine .done ⟨rfl, ?_⟩ rfl
      simp only [Machine.push]
      rw [← Span.shift_hull, ← Span.shift_hull]
      exact .operand _ _ present below

theorem settle (along : Alongside distance stack spans stackToo spansToo) {place : Span}
    (positive : 0 ≤ place.stop) (span : Span) :
    Alongside distance (Machine.settle place stack) (span :: spans)
      (Machine.settle (place.shift distance) stackToo) (span.shift distance :: spansToo) := by
  cases along with
  | bare left leftToo ends =>
    simp only [Machine.settle, Machine.settle_top ends]
    exact .ended ((Span.leans_shift place).hull_before positive left) (Span.leans_shift span) ends
  | ended leans leansToo ends =>
    simp only [Machine.settle, Machine.settle_top ends]
    exact .ended ((Span.leans_shift place).hull leans) (Span.leans_shift span) ends
  | operand inner first present below =>
    rw [Machine.settle_present present, Machine.settle_present present]
    exact .null place span [] inner present (.operand inner first present below)
  | null inner first above under present below =>
    simp only [Machine.settle, ← Span.shift_hull]
    rw [Machine.settle_present present, Machine.settle_present present]
    exact .null (place.hull inner) span (first :: above) under present below

theorem endStatement (along : Alongside distance stack spans stackToo spansToo)
    (unary : rule.arity.toNat = 1) {span : Span} (positive : 0 ≤ span.stop) :
    Outcome.Alike
      (Paired distance (rule.reduce span spans) (rule.reduce (span.shift distance) spansToo))
      Even (Fault.Continues distance)
      (Machine.endStatement naming ⟨stack, environment⟩ (rule.cover span spans))
      (Machine.endStatement naming ⟨stackToo, environment⟩
        (rule.cover (span.shift distance) spansToo)) := by
  cases along with
  | @bare rest low null before left leftToo ends =>
    have alone : rule.reduce span [] = [span] := by simp [Rule.reduce, Rule.cover]
    have own : rule.cover span [] = span := by simp [Rule.cover]
    rw [alone, own, Rule.reduce_one _ _ _ unary, Rule.cover_one _ _ _ unary]
    have settled := Machine.settle_top ends (((span.shift distance).hull before).hull null)
    refine .done ⟨rfl, ?_⟩ rfl
    simp only [Machine.settle, settled]
    have leans := (Span.leans_shift span).hull_before positive leftToo
    exact .ended (leans.hull_before positive left) leans ends
  | @ended rest spans low null wider first wide leans leansToo ends =>
    rw [Rule.reduce_one _ _ _ unary, Rule.cover_one _ _ _ unary, Rule.reduce_one _ _ _ unary,
      Rule.cover_one _ _ _ unary]
    have settled := Machine.settle_top ends (((span.shift distance).hull wide).hull wider)
    refine .done ⟨rfl, ?_⟩ rfl
    simp only [Machine.settle, settled]
    have both := (Span.leans_shift span).hull leansToo
    exact .ended (both.hull leans) both ends
  | @operand entry stack stackToo spans spansToo inner first present below =>
    rw [Rule.reduce_one _ _ _ unary, Rule.cover_one _ _ _ unary, Rule.reduce_one _ _ _ unary,
      Rule.cover_one _ _ _ unary, ← Span.shift_hull]
    have wide : 0 ≤ ((span.hull first).hull inner).stop := by
      simp only [Span.hull]
      omega
    have settled := below.settle wide (span.hull first)
    rw [Span.shift_hull] at settled
    cases entry with
    | null => exact absurd rfl present
    | number => exact .done ⟨rfl, settled⟩ rfl
    | name handle =>
      cases found : environment.get? handle with
      | some value =>
        simp only [Machine.endStatement, found, Option.isSome_some, if_true]
        exact .done ⟨rfl, settled⟩ rfl
      | none =>
        obtain ⟨complete, same⟩ := Machine.unassigned_shift naming distance handle inner
        simp only [Machine.endStatement, found, Option.isSome_none, Bool.false_eq_true, if_false,
          same]
        exact .fail rfl (.shifted complete) rfl
  | @null entry stack stackToo spans spansToo inner first above under present below =>
    rw [List.cons_append, List.cons_append, Rule.reduce_one _ _ _ unary,
      Rule.cover_one _ _ _ unary, Rule.reduce_one _ _ _ unary, Rule.cover_one _ _ _ unary,
      ← Span.shift_hull]
    have settled := Machine.settle_present present under stack ((span.hull first).hull inner)
    have settledToo := Machine.settle_present present (under.shift distance) stackToo
      (((span.hull first).hull inner).shift distance)
    refine .done ⟨rfl, ?_⟩ rfl
    simp only [← Span.shift_hull, settled, settledToo]
    exact .null _ _ above under present below

/-- The token of an operator does the same to both machines, and the operand spans stay alongside. -/
theorem execute (along : Alongside distance stack spans stackToo spansToo) (naming : Naming)
    (environment : Environment) (op : Operator) {span : Span} (positive : op = .semicolon → 0 ≤ span.stop) :
    Outcome.Alike
      (Paired distance ((PrecedenceTable.standard_total.rule op).reduce span spans)
        ((PrecedenceTable.standard_total.rule op).reduce (span.shift distance) spansToo))
      Even (Fault.Continues distance)
      (Machine.execute naming
        ((PrecedenceTable.standard_total.rule op).token op span spans) ⟨stack, environment⟩)
      (Machine.execute naming
        ((PrecedenceTable.standard_total.rule op).token op (span.shift distance) spansToo)
        ⟨stackToo, environment⟩) := by
  cases op with
  | equals => exact along.assign rfl span
  | arithmetic op => exact along.calculate (by cases op <;> rfl) op span
  | print => exact along.print rfl span _ _
  | semicolon => exact along.endStatement rfl (positive rfl)

end Alongside

end LineCalc
