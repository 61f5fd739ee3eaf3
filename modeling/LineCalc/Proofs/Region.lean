import LineCalc.Proofs.Cutting
import LineCalc.Proofs.Execution
import LineCalc.Proofs.Release
import LineCalc.Session

/-!
Where the spans of a running line come from. Whatever is closed under taking the smallest span around
two, and holds of the lexemes, holds of every span that the resolver or the machine keeps.
-/

namespace LineCalc

/-- With two spans, the smallest one around both belongs to the region. -/
def Hulled (region : Span → Prop) : Prop :=
  ∀ a b, region a → region b → region (a.hull b)

/-- Every span that a running line keeps belongs to the region. -/
structure LineRun.Inside (region : Span → Prop) (run : LineRun) : Prop where
  waiting : ∀ entry ∈ run.resolver.stack, region entry.span
  operands : ∀ span ∈ run.resolver.operands, region span
  stack : ∀ entry ∈ run.evaluation.machine.stack, region entry.span

variable {region : Span → Prop}

theorem Hulled.foldl (hulled : Hulled region) {spans : List Span} {span : Span}
    (first : region span) (inside : ∀ other ∈ spans, region other) :
    region (spans.foldl Span.hull span) := by
  induction spans generalizing span with
  | nil => exact first
  | cons other later ih =>
    have both := hulled _ _ first (inside other List.mem_cons_self)
    exact ih both fun another member => inside another (List.mem_cons_of_mem _ member)

theorem Hulled.around (hulled : Hulled region) {gone : List (Spanned Entry)} {span : Span}
    (first : region span) (inside : ∀ entry ∈ gone, region entry.span) :
    region (span.around gone) := by
  have folded : region ((gone.map Spanned.span).foldl Span.hull span) :=
    hulled.foldl first (by simpa using inside)
  simpa [Span.around, List.foldl_map] using folded

theorem Hulled.cover (hulled : Hulled region) (rule : Rule) {span : Span} {operands : List Span}
    (first : region span) (inside : ∀ other ∈ operands, region other) :
    region (rule.cover span operands) :=
  hulled.foldl first fun other member => inside other (List.mem_of_mem_take member)

theorem Hulled.reduce (hulled : Hulled region) (rule : Rule) {span : Span} {operands : List Span}
    (first : region span) (inside : ∀ other ∈ operands, region other) :
    ∀ other ∈ rule.reduce span operands, region other := by
  intro other member
  rcases List.mem_cons.mp member with rfl | left
  · exact hulled.cover rule first inside
  · exact inside other (List.mem_of_mem_drop left)

theorem Hulled.emitAll (hulled : Hulled region) {table : PrecedenceTable} (total : table.Total)
    {pending : List (Spanned Operator)} {operands : List Span}
    (waits : ∀ entry ∈ pending, region entry.span) (inside : ∀ other ∈ operands, region other) :
    (∀ token ∈ (total.emitAll pending operands).1, region token.span) ∧
      ∀ other ∈ (total.emitAll pending operands).2, region other := by
  induction pending generalizing operands with
  | nil => exact ⟨by simp [PrecedenceTable.Total.emitAll], inside⟩
  | cons entry later ih =>
    have first := waits entry List.mem_cons_self
    obtain ⟨tokens, after⟩ := ih (fun other member => waits other (List.mem_cons_of_mem _ member))
      (hulled.reduce (total.rule entry.value) first inside)
    refine ⟨fun token member => ?_, after⟩
    rcases List.mem_cons.mp member with rfl | behind
    · exact hulled.cover _ first inside
    · exact tokens token behind

theorem Hulled.widened (hulled : Hulled region) {opening closing : Span} {operands : List Span}
    (left : region opening) (right : region closing) (inside : ∀ other ∈ operands, region other) :
    ∀ other ∈ widened opening closing operands, region other := by
  cases operands with
  | nil => exact inside
  | cons group others =>
    intro other member
    rcases List.mem_cons.mp member with rfl | behind
    · exact hulled _ _ (hulled _ _ (inside group List.mem_cons_self) left) right
    · exact inside other (List.mem_cons_of_mem _ behind)

theorem Hulled.execute (hulled : Hulled region) {naming : Naming} {machine : Machine}
    {token : Spanned Token} (placed : region token.span)
    (inside : ∀ entry ∈ machine.stack, region entry.span) :
    ∀ entry ∈ (machine.execute naming token).state.stack, region entry.span := by
  intro entry member
  cases Machine.execute_made member with
  | kept old => exact inside entry old
  | number | name => exact placed
  | result value left right =>
    exact hulled _ _ (hulled _ _ (inside _ left) (inside _ right)) placed
  | target left right => exact hulled _ _ (hulled _ _ (inside _ left) (inside _ right)) placed
  | null gone members => exact hulled.around placed fun other among => inside other (members other among)

/-- A resolver that keeps spans of the region goes on to, and what is ready has such spans. -/
theorem Hulled.push (hulled : Hulled region) {table : PrecedenceTable} (total : table.Total)
    {resolver : Resolver} (waits : ∀ entry ∈ resolver.stack, region entry.span)
    (inside : ∀ span ∈ resolver.operands, region span) (token : Spanned RawToken)
    (placed : region token.span) :
    (∀ entry ∈ (resolver.push table token).1.stack, region entry.span) ∧
      (∀ span ∈ (resolver.push table token).1.operands, region span) ∧
      ∀ ready, (resolver.push table token).2 = .ok ready → ∀ out ∈ ready, region out.span := by
  have pushed := resolver.push_cases total token
  generalize resolver.push table token = result at pushed
  generalize token.value = value at pushed
  have split {pending : List (Spanned Operator)} {base : List (Spanned Waiting)}
      (shape : resolver.stack = LineCalc.waiting pending ++ base) :
      (∀ entry ∈ pending, region entry.span) ∧ ∀ entry ∈ base, region entry.span := by
    rw [shape] at waits
    constructor
    · intro entry member
      exact waits (entry.map .operator)
        (List.mem_append_left _ (List.mem_map_of_mem member))
    · intro entry member
      exact waits entry (List.mem_append_right _ member)
  cases pushed with
  | refuse => exact ⟨waits, inside, by simp [Resolver.refuse]⟩
  | number | name =>
    refine ⟨waits, ?_, ?_⟩
    · intro span member
      rcases List.mem_cons.mp member with rfl | old
      · exact placed
      · exact inside span old
    · intro ready taken out member
      cases taken
      rw [List.mem_singleton.mp member]
      exact placed
  | opening =>
    refine ⟨?_, inside, ?_⟩
    · intro entry member
      rcases List.mem_cons.mp member with rfl | old
      · exact placed
      · exact waits entry old
    · intro ready taken out member
      cases taken
      cases member
  | waits expect shape =>
    obtain ⟨top, below⟩ := split shape
    obtain ⟨tokens, after⟩ := hulled.emitAll total top inside
    refine ⟨?_, after, ?_⟩
    · intro entry member
      rcases List.mem_cons.mp member with rfl | old
      · exact placed
      · exact below entry old
    · intro ready taken
      cases taken
      exact tokens
  | ends shape =>
    obtain ⟨top, below⟩ := split shape
    obtain ⟨tokens, after⟩ := hulled.emitAll total top inside
    refine ⟨below, hulled.reduce _ placed after, ?_⟩
    intro ready taken out member
    cases taken
    rcases List.mem_append.mp member with early | last
    · exact tokens out early
    · rw [List.mem_singleton.mp last]
      exact hulled.cover _ placed after
  | closing shape =>
    obtain ⟨top, below⟩ := split shape
    obtain ⟨tokens, after⟩ := hulled.emitAll total top inside
    have opening := below _ List.mem_cons_self
    refine ⟨fun entry member => below entry (List.mem_cons_of_mem _ member),
      hulled.widened opening placed after, ?_⟩
    intro ready taken
    cases taken
    exact tokens
  | unopened shape =>
    rw [← List.append_nil (LineCalc.waiting _)] at shape
    obtain ⟨tokens, after⟩ := hulled.emitAll total (split shape).1 inside
    exact ⟨by simp, after, by simp⟩

namespace LineRun

variable {run : LineRun}

theorem feed_resolver (lexeme : Spanned Lexeme) (run : LineRun) :
    (feed lexeme run).state.resolver = (run.resolver.push .standard
      ⟨(run.names.take lexeme.value).token, lexeme.span⟩).1 := by
  simp only [feed, execute, Outcome.following]
  split <;> rfl

theorem Inside.feed (inside : run.Inside region) (hulled : Hulled region)
    {lexeme : Spanned Lexeme} (placed : region lexeme.span) :
    (feed lexeme run).state.Inside region := by
  obtain ⟨waits, operands, tokens⟩ := hulled.push PrecedenceTable.standard_total
    inside.waiting inside.operands ⟨(run.names.take lexeme.value).token, lexeme.span⟩ placed
  rw [← feed_resolver] at waits operands
  refine ⟨waits, operands, ?_⟩
  simp only [LineRun.feed, LineRun.execute, Outcome.following]
  split
  next => exact inside.stack
  next early ready =>
    exact Outcome.runAll_state
      (P := fun evaluation : Evaluation => ∀ entry ∈ evaluation.machine.stack, region entry.span)
      (fun token member evaluation before => hulled.execute (tokens early ready token member) before)
      inside.stack

theorem Inside.feedRow (inside : run.Inside region) (hulled : Hulled region)
    {lexemes : List (Spanned Lexeme)} (placed : ∀ lexeme ∈ lexemes, region lexeme.span) :
    (Outcome.runAll LineRun.feed lexemes run).state.Inside region :=
  Outcome.runAll_state (P := Inside region)
    (fun lexeme member _ held => held.feed hulled (placed lexeme member)) inside

theorem inside_begin (session : Session) : session.begin.Inside region :=
  ⟨by simp [Session.begin, Resolver.start], by simp [Session.begin, Resolver.start],
    by simp [Session.begin, Evaluation.start]⟩

end LineRun

end LineCalc
