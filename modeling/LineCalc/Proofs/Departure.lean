import LineCalc.Proofs.Feeding

/-!
How waiting operators come to leave. They wait in their order: one that assigns has nothing but such
operators right below it. An operator stays where it is until those above it leave, and then leaves right
behind them, at the latest with the end of the line.
-/

namespace LineCalc

open PrecedenceTable (standard standard_total)

theorem Spanned.map_operator_inj {entry other : Spanned Operator}
    (same : entry.map Waiting.operator = other.map Waiting.operator) : entry = other := by
  obtain ⟨op, span⟩ := entry
  obtain ⟨otherOp, otherSpan⟩ := other
  cases same
  rfl

/-- Where operators leave from the top of a stack, another one stays or is among them. -/
theorem waiting_split {pending : List (Spanned Operator)} {base above below : List (Spanned Waiting)}
    {entry : Spanned Operator} (same : waiting pending ++ base = above ++ entry.map .operator :: below) :
    (∃ rest, base = rest ++ entry.map .operator :: below) ∨
      ∃ upper lower, pending = upper ++ entry :: lower ∧ above = waiting upper := by
  induction pending generalizing above with
  | nil => exact .inl ⟨above, same⟩
  | cons first later ih =>
    rcases above with _ | ⟨top, others⟩
    · right
      obtain rfl := Spanned.map_operator_inj (List.cons.inj same).1
      exact ⟨[], later, rfl, rfl⟩
    · obtain ⟨rfl, rest⟩ := List.cons.inj same
      rcases ih rest with stays | ⟨upper, lower, rfl, rfl⟩
      · exact .inl stays
      · exact .inr ⟨first :: upper, lower, rfl, rfl⟩

theorem PrecedenceTable.standard_before_equals {op : Operator}
    (holds : (standard_total.rule op).appliesBefore (standard_total.rule .equals) = false)
    (waits : op ≠ .semicolon) : op = .equals := by
  rcases op with _ | (_ | _ | _ | _) | _ | _
  case equals => rfl
  case semicolon => exact absurd rfl waits
  all_goals cases holds

/-- The operators on top of a stack, down to its innermost bracket. -/
def Waiting.inside : List (Spanned Waiting) → List (Spanned Operator)
  | ⟨.operator op, span⟩ :: below => ⟨op, span⟩ :: inside below
  | _ => []

/-- The innermost bracket of a stack and what lies below it. -/
def Waiting.outside : List (Spanned Waiting) → List (Spanned Waiting)
  | ⟨.operator _, _⟩ :: below => outside below
  | stack => stack

theorem Waiting.inside_outside (stack : List (Spanned Waiting)) :
    stack = waiting (inside stack) ++ outside stack := by
  induction stack with
  | nil => rfl
  | cons entry below ih =>
    obtain ⟨op | _, span⟩ := entry
    case operator => exact congrArg (List.cons _) ih
    case bracket => rfl

theorem Waiting.outside_cases (stack : List (Spanned Waiting)) :
    outside stack = [] ∨ ∃ opening below, outside stack = ⟨.bracket, opening⟩ :: below := by
  induction stack with
  | nil => exact .inl rfl
  | cons entry below ih =>
    obtain ⟨op | _, span⟩ := entry
    case operator => exact ih
    case bracket => exact .inr ⟨span, below, rfl⟩

namespace Resolver

variable {resolver before after : Resolver} {ready : List (Spanned Token)}

/-! Operators wait in their order. -/

/-- Right below an operator that assigns only such operators wait. -/
theorem Layered.equals (layered : resolver.Layered standard_total) (unended : resolver.Unended)
    {upper lower : List (Spanned Operator)} {entry : Spanned Operator} {base : List (Spanned Waiting)}
    (shape : resolver.stack = waiting (upper ++ entry :: lower) ++ base)
    (assigns : entry.value = .equals) : ∀ other ∈ lower, other.value = .equals := by
  induction lower generalizing upper entry with
  | nil => exact List.forall_mem_nil _
  | cons next later ih =>
    have inside : entry.map .operator :: (waiting (next :: later) ++ base) <:+ resolver.stack := by
      rw [shape, waiting_append, List.append_assoc]
      exact List.suffix_append _ _
    have waits : next.value ≠ .semicolon := by
      intro ends
      refine unended (next.map .operator) (inside.subset ?_) (congrArg Waiting.operator ends)
      exact List.mem_cons_of_mem _ List.mem_cons_self
    have holds := layered entry.value entry.span _ inside next.value next.span _ rfl
    rw [assigns] at holds
    have assignsToo := PrecedenceTable.standard_before_equals holds waits
    refine List.forall_mem_cons.mpr ⟨assignsToo, ?_⟩
    refine ih (?_ : _ = waiting ((upper ++ [entry]) ++ next :: later) ++ base) assignsToo
    rw [shape, List.append_assoc]
    rfl

/-! An operator leaves behind those above it. -/

/-- A token that is taken in lets an operator stay, or lets it go behind all that waits above it. -/
theorem push_leaves {above below : List (Spanned Waiting)} {entry : Spanned Operator}
    (shape : before.stack = above ++ entry.map .operator :: below) {token : Spanned RawToken}
    (pushed : before.push standard token = (after, .ok ready)) :
    (∃ above, after.stack = above ++ entry.map .operator :: below) ∨
      ∃ upper lower more, above = waiting upper ∧
        ready = (standard_total.emitAll (upper ++ entry :: lower) before.operands).1 ++ more := by
  have cases := before.push_cases standard_total token
  rw [pushed] at cases
  generalize token.value = value at cases
  cases cases with
  | number | name => exact .inl ⟨above, shape⟩
  | opening => exact .inl ⟨_ :: above, congrArg (List.cons _) shape⟩
  | waits expect leaves =>
    rcases waiting_split (leaves.symm.trans shape) with ⟨rest, rfl⟩ | ⟨upper, lower, rfl, rfl⟩
    · exact .inl ⟨_ :: rest, rfl⟩
    · exact .inr ⟨upper, lower, [], rfl, (List.append_nil _).symm⟩
  | ends leaves =>
    rcases waiting_split (leaves.symm.trans shape) with ⟨rest, rfl⟩ | ⟨upper, lower, rfl, rfl⟩
    · exact .inl ⟨rest, rfl⟩
    · exact .inr ⟨upper, lower, _, rfl, rfl⟩
  | closing leaves =>
    rcases waiting_split (leaves.symm.trans shape) with ⟨rest, stays⟩ | ⟨upper, lower, rfl, rfl⟩
    · rcases rest with _ | ⟨opening, others⟩
      · cases (List.cons.inj stays).1
      · exact .inl ⟨others, (List.cons.inj stays).2⟩
    · exact .inr ⟨upper, lower, [], rfl, (List.append_nil _).symm⟩

/-- The tokens are taken in up to the end of a line, and this comes out. -/
inductive Completes : Resolver → List (Spanned RawToken) → List (Spanned Token) → Prop where
  | finish {resolver : Resolver} {rest : List (Spanned Token)}
      (finished : (resolver.finish standard).2 = .ok rest) : Completes resolver [] rest
  | push {resolver after : Resolver} {token : Spanned RawToken} {later : List (Spanned RawToken)}
      {ready rest : List (Spanned Token)}
      (pushed : resolver.push standard token = (after, .ok ready))
      (completes : Completes after later rest) : Completes resolver (token :: later) (ready ++ rest)

theorem completes_of_pushAll {tokens : List (Spanned RawToken)}
    (taken : pushAll standard tokens before = (after, .ok ready)) {rest : List (Spanned Token)}
    (finished : (after.finish standard).2 = .ok rest) : before.Completes tokens (ready ++ rest) := by
  induction tokens generalizing before ready with
  | nil =>
    cases taken
    exact .finish finished
  | cons token later ih =>
    obtain ⟨middle, early, late, pushed, takenLater, rfl⟩ := pushAll_cons_ok taken
    rw [List.append_assoc]
    exact .push pushed (ih takenLater)

theorem Completes.behind {first second : List (Spanned RawToken)} {whole : List (Spanned Token)}
    (completes : before.Completes (first ++ second) whole) :
    ∃ middle ready rest, pushAll standard first before = (middle, .ok ready) ∧
      middle.Completes second rest ∧ whole = ready ++ rest := by
  induction first generalizing before whole with
  | nil => exact ⟨before, [], whole, rfl, completes, rfl⟩
  | cons token later ih =>
    cases completes with
    | @push _ reached _ _ early _ pushed completesLater =>
      obtain ⟨middle, late, rest, taken, completesSecond, rfl⟩ := ih completesLater
      exact ⟨middle, early ++ late, rest, pushAll_cons pushed taken, completesSecond,
        (List.append_assoc _ _ _).symm⟩

theorem finish_opened {pending : List (Spanned Operator)} {opening : Span}
    {base : List (Spanned Waiting)}
    (shape : resolver.stack = waiting pending ++ ⟨.bracket, opening⟩ :: base) :
    (resolver.finish standard).2 ≠ .ok ready := by
  intro finished
  rw [finish_bracketed standard_total shape] at finished
  cases finished

theorem finish_closed {pending : List (Spanned Operator)} (shape : resolver.stack = waiting pending)
    (finished : (resolver.finish standard).2 = .ok ready) :
    ready = (standard_total.emitAll pending resolver.operands).1 := by
  rw [finish_waiting standard_total shape] at finished
  cases finished
  rfl

theorem finish_leaves {above below : List (Spanned Waiting)} {entry : Spanned Operator}
    (shape : resolver.stack = above ++ entry.map .operator :: below)
    (finished : (resolver.finish standard).2 = .ok ready) :
    ∃ upper lower, above = waiting upper ∧
      ready = (standard_total.emitAll (upper ++ entry :: lower) resolver.operands).1 := by
  rcases exists_bracket resolver.stack with ⟨pending, waits⟩ | ⟨pending, opening, base, opened⟩
  · have emptied := finish_closed waits finished
    rw [waits, ← List.append_nil (waiting pending)] at shape
    rcases waiting_split shape with ⟨rest, none⟩ | ⟨upper, lower, rfl, rfl⟩
    · exact absurd none (by simp)
    · exact ⟨upper, lower, rfl, emptied⟩
  · exact absurd finished (finish_opened opened)

/-- Where the innermost bracket begins, or none is open, a semicolon lets all go that waits on top. -/
theorem push_ending {pending : List (Spanned Operator)} {base : List (Spanned Waiting)}
    (shape : resolver.stack = waiting pending ++ base)
    (bottom : base = [] ∨ ∃ opening below, base = ⟨.bracket, opening⟩ :: below) (span : Span) :
    ∃ operands last, resolver.push standard ⟨.symbol (.operator .semicolon), span⟩ =
      (⟨.value, base, operands⟩,
        .ok ((standard_total.emitAll pending resolver.operands).1 ++ [last])) := by
  have holds : standard_total.Holds .semicolon base := by
    rcases bottom with rfl | ⟨opening, below, rfl⟩
    · exact standard_total.holds_nil .semicolon
    · exact standard_total.holds_bracket .semicolon opening below
  have tight : ∀ entry ∈ pending,
      (standard_total.rule entry.value).appliesBefore (standard_total.rule .semicolon) = true :=
    fun entry _ => PrecedenceTable.standard_before_semicolon entry.value
  have released := standard_total.releaseFor_waiting holds tight resolver.operands
  rw [← shape] at released
  have pushed := pushOperator_semicolon standard_total { resolver with expect := .value }
    released rfl span
  refine ⟨_, _, Eq.trans ?_ pushed⟩
  obtain ⟨_ | _, stack, operands⟩ := resolver
  · rfl
  · rfl

/-- Where a statement ends, all goes that waits in the innermost bracket. -/
theorem Completes.ending {pending : List (Spanned Operator)} {base : List (Spanned Waiting)}
    (shape : resolver.stack = waiting pending ++ base)
    (bottom : base = [] ∨ ∃ opening below, base = ⟨.bracket, opening⟩ :: below)
    {later : List (Spanned RawToken)}
    (ends : ∀ token ∈ later.head?, token.value = .symbol (.operator .semicolon))
    {rest : List (Spanned Token)} (completes : resolver.Completes later rest) :
    ∃ more, rest = (standard_total.emitAll pending resolver.operands).1 ++ more := by
  cases completes with
  | finish finished =>
    rcases bottom with rfl | ⟨opening, below, rfl⟩
    · rw [List.append_nil] at shape
      exact ⟨[], (finish_closed shape finished).trans (List.append_nil _).symm⟩
    · exact absurd finished (finish_opened shape)
  | @push _ _ token _ _ others pushed =>
    obtain ⟨value, span⟩ := token
    obtain rfl : value = .symbol (.operator .semicolon) := ends _ rfl
    obtain ⟨operands, last, pushedToo⟩ := push_ending shape bottom span
    rw [pushed] at pushedToo
    cases pushedToo
    exact ⟨last :: others, by simp⟩

/-- While these tokens are taken in, the stack keeps what is at its bottom. -/
def Keeps (bottom : List (Spanned Waiting)) (tokens : List (Spanned RawToken))
    (resolver : Resolver) : Prop :=
  ∀ first, first <+: tokens → ∃ above reached ready,
    pushAll standard first resolver = (reached, .ok ready) ∧ reached.stack = above ++ bottom

theorem keeps_nil {above bottom : List (Spanned Waiting)} (shape : resolver.stack = above ++ bottom) :
    resolver.Keeps bottom [] := by
  intro first inside
  obtain rfl := List.prefix_nil.mp inside
  exact ⟨above, resolver, [], rfl, shape⟩

theorem Keeps.cons {bottom : List (Spanned Waiting)} {token : Spanned RawToken}
    {tokens : List (Spanned RawToken)} {above : List (Spanned Waiting)}
    (shape : before.stack = above ++ bottom)
    (pushed : before.push standard token = (after, .ok ready)) (keeps : after.Keeps bottom tokens) :
    before.Keeps bottom (token :: tokens) := by
  intro first inside
  rcases List.prefix_cons_iff.mp inside with rfl | ⟨others, rfl, insideToo⟩
  · exact ⟨above, before, [], rfl, shape⟩
  · obtain ⟨upper, reached, late, taken, stays⟩ := keeps others insideToo
    exact ⟨upper, reached, ready ++ late, pushAll_cons pushed taken, stays⟩

/-- An operator stays for a while, and then leaves behind all that waits above it. -/
theorem Completes.leaving {tokens : List (Spanned RawToken)} {whole : List (Spanned Token)}
    (completes : before.Completes tokens whole) {above below : List (Spanned Waiting)}
    {entry : Spanned Operator} (shape : before.stack = above ++ entry.map .operator :: below) :
    ∃ inside others middle early upper lower more, tokens = inside ++ others ∧
      pushAll standard inside before = (middle, .ok early) ∧
      middle.stack = waiting upper ++ entry.map .operator :: below ∧
      before.Keeps (entry.map .operator :: below) inside ∧
      whole =
        early ++ ((standard_total.emitAll (upper ++ entry :: lower) middle.operands).1 ++ more) := by
  induction completes generalizing above with
  | @finish resolver rest finished =>
    obtain ⟨upper, lower, rfl, rfl⟩ := finish_leaves shape finished
    exact ⟨[], [], resolver, [], upper, lower, [], rfl, rfl, shape, keeps_nil shape, by simp⟩
  | @push resolver after token later ready rest pushed completes ih =>
    rcases push_leaves shape pushed with ⟨others, stays⟩ | ⟨upper, lower, more, rfl, rfl⟩
    · obtain ⟨inside, outside, middle, early, upper, lower, more, rfl, taken, still, keeps, rfl⟩ :=
        ih stays
      exact ⟨token :: inside, outside, middle, ready ++ early, upper, lower, more, rfl,
        pushAll_cons pushed taken, still, keeps.cons shape pushed, (List.append_assoc _ _ _).symm⟩
    · exact ⟨[], token :: later, resolver, [], upper, lower, more ++ rest, rfl, rfl, shape,
        keeps_nil shape, by simp⟩

end Resolver

end LineCalc
