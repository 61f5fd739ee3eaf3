import LineCalc.Proofs.Departure
import Mathlib.Data.List.Chain

/-!
The shape of what waits, in every state that tokens lead to. By any table, the entries of the stack stand
in the order in which they were read, no operator between brackets has to leave before the one right above
it, and behind an operand there is an operand span. By the standard table the operators of each level of
brackets bind tighter and tighter from the bottom up.
-/

namespace LineCalc

open PrecedenceTable (standard standard_total)

namespace Resolver

/-- The entries of the stack are, from the bottom up, at places of tokens in the order of these. -/
def Sourced (tokens : List (Spanned RawToken)) (resolver : Resolver) : Prop :=
  (resolver.stack.reverse.map Spanned.span).Sublist (tokens.map Spanned.span)

/-- Where an operator is expected, there is an operand that it can take. -/
def Supplied (resolver : Resolver) : Prop :=
  resolver.expect = .operator → resolver.operands ≠ []

variable {table : PrecedenceTable} {resolver : Resolver} {tokens : List (Spanned RawToken)}
  {ready : List (Spanned Token)}

theorem Sourced.push (total : table.Total) (sourced : resolver.Sourced tokens)
    (token : Spanned RawToken) : (resolver.push table token).1.Sourced (tokens ++ [token]) := by
  have pushed := resolver.push_cases total token
  generalize resolver.push table token = result at pushed
  generalize token.value = value at pushed
  have kept {base : List (Spanned Waiting)} (below : base <:+ resolver.stack) :
      (base.reverse.map Spanned.span).Sublist (tokens.map Spanned.span) :=
    ((List.reverse_sublist.mpr below.sublist).map _).trans sourced
  have grows {entry : Spanned Waiting} {base : List (Spanned Waiting)}
      (below : base <:+ resolver.stack) (place : entry.span = token.span) :
      ((entry :: base).reverse.map Spanned.span).Sublist ((tokens ++ [token]).map Spanned.span) := by
    rw [List.reverse_cons, List.map_append, List.map_append, List.map_singleton,
      List.map_singleton, place]
    exact (kept below).append (List.Sublist.refl _)
  have stays {base : List (Spanned Waiting)} (below : base <:+ resolver.stack) :
      (base.reverse.map Spanned.span).Sublist ((tokens ++ [token]).map Spanned.span) := by
    rw [List.map_append]
    exact (kept below).trans (List.sublist_append_left _ _)
  cases pushed with
  | refuse | number | name => exact stays List.suffix_rfl
  | opening => exact grows List.suffix_rfl rfl
  | waits expect shape => exact grows ⟨_, shape.symm⟩ rfl
  | ends shape => exact stays ⟨_, shape.symm⟩
  | closing shape => exact stays ((List.suffix_cons _ _).trans ⟨_, shape.symm⟩)
  | unopened => exact stays (List.nil_suffix)

theorem Supplied.push (total : table.Total) (supplied : resolver.Supplied)
    (token : Spanned RawToken) : (resolver.push table token).1.Supplied := by
  have pushed := resolver.push_cases total token
  generalize resolver.push table token = result at pushed
  generalize token.value = value at pushed
  cases pushed with
  | refuse => exact supplied
  | number | name => exact fun _ => List.cons_ne_nil _ _
  | opening value =>
    intro mode
    cases value.symm.trans mode
  | @waits op expect pending base shape waits behind =>
    intro mode
    obtain rfl : expect = .operator := mode
    apply total.emitAll_nonempty
    apply supplied
    by_cases opens : op.opensOperand
    · rw [if_pos opens] at behind
      cases behind
    · rw [if_neg opens] at behind
      exact behind.symm
  | ends =>
    intro mode
    cases mode
  | @closing pending opening base shape mode =>
    intro _
    exact widened_ne_nil opening token.span (total.emitAll_nonempty pending (supplied mode))
  | @unopened pending =>
    intro mode
    exact total.emitAll_nonempty pending (supplied mode)

/-- What waits behind a row of tokens. -/
structure Shaped (table : PrecedenceTable) (tokens : List (Spanned RawToken))
    (resolver : Resolver) : Prop where
  /-- Brackets wait, and operators that do not end a statement. -/
  kinds : ∀ entry ∈ resolver.stack,
    entry.value = .bracket ∨ ∃ op, entry.value = .operator op ∧ op ≠ .semicolon
  /-- No operator has to leave before the one right above it. -/
  neighbours : ∀ (above : List (Spanned Waiting)) (upper lower : Spanned Operator) below,
    resolver.stack = above ++ upper.map .operator :: lower.map .operator :: below →
      table.mustPrecede lower.value upper.value = .ok false
  /-- If each token starts further right than those before it, so does each entry than those below. -/
  rising : (tokens.map (·.span.start)).Pairwise (· < ·) →
    (resolver.stack.map (·.span.start)).Pairwise (· > ·)
  /-- Behind an operand there is an operand span. -/
  supplied : resolver.expect = .operator → resolver.operands ≠ []

theorem Sourced.rising (sourced : resolver.Sourced tokens)
    (apart : (tokens.map (·.span.start)).Pairwise (· < ·)) :
    (resolver.stack.map (·.span.start)).Pairwise (· > ·) := by
  have starts := sourced.map Span.start
  rw [List.map_map, List.map_map, List.map_reverse] at starts
  exact List.pairwise_reverse.mp (apart.sublist starts)

theorem Layered.neighbours {total : table.Total} (layered : resolver.Layered total)
    {above below : List (Spanned Waiting)} {upper lower : Spanned Operator}
    (shape : resolver.stack = above ++ upper.map .operator :: lower.map .operator :: below) :
    table.mustPrecede lower.value upper.value = .ok false := by
  have holds := layered upper.value upper.span _ ⟨above, shape.symm⟩
  rw [total.mustPrecede_eq, holds lower.value lower.span below rfl]

theorem Unended.kinds (unended : resolver.Unended) : ∀ entry ∈ resolver.stack,
    entry.value = .bracket ∨ ∃ op, entry.value = .operator op ∧ op ≠ .semicolon := by
  intro entry member
  cases value : entry.value with
  | bracket => exact .inl rfl
  | operator op =>
    refine .inr ⟨op, rfl, ?_⟩
    rintro rfl
    exact unended entry member value

theorem shaped_pushAll (total : table.Total)
    (taken : pushAll table tokens .start = (resolver, .ok ready)) : Shaped table tokens resolver where
  kinds := (unended_pushAll total taken).kinds
  neighbours _ _ _ _ shape := (layered_pushAll total taken).neighbours shape
  rising := by
    have sourced := pushAll_invariant Sourced .slnil
      (fun _ _ token sourced => sourced.push total token) taken
    exact sourced.rising
  supplied := by
    refine pushAll_invariant (fun _ => Supplied) ?_
      (fun _ _ token supplied => supplied.push total token) taken
    intro mode
    cases mode

end Resolver

/-! By the standard table. -/

/-- How one operator waits above another one. -/
structure Operator.Tops (upper lower : Operator) : Prop where
  /-- The upper one is no looser. -/
  tight : (standard_total.rule lower).precedence ≤ (standard_total.rule upper).precedence
  /-- Only two assignments or two print signs are equally tight. -/
  alike : (standard_total.rule lower).precedence = (standard_total.rule upper).precedence →
    lower = upper ∧ (upper = .equals ∨ upper = .print)

namespace PrecedenceTable

theorem standard_right {op : Operator}
    (right : (standard_total.rule op).associativity = .right) : op = .equals ∨ op = .print := by
  rcases op with _ | (_ | _ | _ | _) | _ | _
  case equals => exact .inl rfl
  case print => exact .inr rfl
  all_goals cases right

theorem standard_alone {op other : Operator} (right : op = .equals ∨ op = .print)
    (same : (standard_total.rule other).precedence = (standard_total.rule op).precedence) :
    other = op := by
  rcases right with rfl | rfl
  all_goals
    rcases other with _ | (_ | _ | _ | _) | _ | _
    all_goals first | rfl | cases same

end PrecedenceTable

namespace Operator

theorem tops_of_waits {upper lower : Operator}
    (waits : (standard_total.rule lower).appliesBefore (standard_total.rule upper) = false) :
    upper.Tops lower := by
  rw [← Bool.not_eq_true, Rule.appliesBefore_iff, not_or, not_and, Int.not_lt] at waits
  obtain ⟨tight, side⟩ := waits
  refine ⟨tight, fun same => ?_⟩
  have right : (standard_total.rule upper).associativity = .right := by
    cases found : (standard_total.rule upper).associativity with
    | left => exact absurd found (side same)
    | right => rfl
  have kind := PrecedenceTable.standard_right right
  exact ⟨PrecedenceTable.standard_alone kind same, kind⟩

theorem Tops.trans {upper middle lower : Operator} (first : upper.Tops middle)
    (second : middle.Tops lower) : upper.Tops lower := by
  refine ⟨Int.le_trans second.tight first.tight, fun same => ?_⟩
  have level := Int.le_antisymm first.tight (same ▸ second.tight)
  obtain ⟨rfl, kind⟩ := first.alike level
  exact ⟨(second.alike same).1, kind⟩

instance : Trans Tops Tops Tops :=
  ⟨Tops.trans⟩

end Operator

namespace Resolver

variable {resolver : Resolver} {tokens : List (Spanned RawToken)} {ready : List (Spanned Token)}

/-- In each level of brackets the operators are sorted, the tightest on top. -/
def Tiered (resolver : Resolver) : Prop :=
  ∀ level, waiting level <:+: resolver.stack →
    level.Pairwise fun upper lower : Spanned Operator => upper.value.Tops lower.value

theorem Layered.tiered (layered : resolver.Layered standard_total) : resolver.Tiered := by
  intro level inside
  obtain ⟨above, below, shape⟩ := inside
  -- Neighbours are enough, as the order of tightness is transitive.
  suffices chain : level.IsChain fun upper lower : Spanned Operator => upper.value.Tops lower.value from
    List.pairwise_map.mp (List.isChain_iff_pairwise.mp ((List.isChain_map _).mpr chain))
  apply List.isChain_iff_forall_rel_of_append_cons_cons.mpr
  intro upper lower first second row
  have place : resolver.stack = (above ++ waiting first) ++
      upper.map .operator :: lower.map .operator :: (waiting second ++ below) := by
    rw [← shape, row]
    simp [waiting]
  have holds := layered upper.value upper.span _ ⟨_, place.symm⟩
  exact Operator.tops_of_waits (holds lower.value lower.span _ rfl)

/-- By any table that knows every operator, whatever tokens have been taken in, only brackets and operators
that do not end a statement wait, no operator has to leave before the one right above it, entries stand in
the order of their places, and behind an operand there is an operand span. By the standard table the
operators in each level of brackets bind tighter from the bottom up, only assignments and print signs
waiting on their like, and a semicolon would be taken in and leave nothing above the innermost open
bracket and all below it as it is. -/
theorem pushAll_shaped {table : PrecedenceTable} (total : table.Total)
    (taken : pushAll table tokens .start = (resolver, .ok ready)) :
    Shaped table tokens resolver ∧
      (table = standard → resolver.Tiered ∧ ∀ span, ∃ after late,
        resolver.push standard ⟨.symbol (.operator .semicolon), span⟩ = (after, .ok late) ∧
          after.stack = Waiting.outside resolver.stack ∧
          (after.stack = [] ∨ ∃ opening below, after.stack = ⟨.bracket, opening⟩ :: below)) := by
  refine ⟨shaped_pushAll total taken, ?_⟩
  rintro rfl
  refine ⟨(layered_pushAll standard_total taken).tiered, fun span => ?_⟩
  have lowest := Waiting.outside_cases resolver.stack
  obtain ⟨operands, last, pushed⟩ := push_ending (Waiting.inside_outside resolver.stack) lowest span
  exact ⟨_, _, pushed, rfl, lowest⟩

/-- In `a=b=(c+%` two assignments wait below the bracket, and a print sign waits on a sum inside. -/
theorem pushAll_shaped_nested :
    let tokens : List (Spanned RawToken) := [⟨.name 0, ⟨0, 1⟩⟩, ⟨.symbol (.operator .equals), ⟨1, 2⟩⟩,
      ⟨.name 1, ⟨2, 3⟩⟩, ⟨.symbol (.operator .equals), ⟨3, 4⟩⟩, ⟨.symbol .leftParen, ⟨4, 5⟩⟩,
      ⟨.name 2, ⟨5, 6⟩⟩, ⟨.symbol (.operator (.arithmetic .add)), ⟨6, 7⟩⟩,
      ⟨.symbol (.operator .print), ⟨7, 8⟩⟩]
    let resolver : Resolver := ⟨.value, [⟨.operator .print, ⟨7, 8⟩⟩,
      ⟨.operator (.arithmetic .add), ⟨6, 7⟩⟩, ⟨.bracket, ⟨4, 5⟩⟩, ⟨.operator .equals, ⟨3, 4⟩⟩,
      ⟨.operator .equals, ⟨1, 2⟩⟩], [⟨5, 6⟩, ⟨2, 3⟩, ⟨0, 1⟩]⟩
    standard.Total ∧ (pushAll standard tokens .start).1 = resolver ∧ Shaped standard tokens resolver ∧
      resolver.Tiered := by
  intro tokens resolver
  have taken : pushAll standard tokens .start = (resolver, .ok
      [⟨.name 0, ⟨0, 1⟩⟩, ⟨.name 1, ⟨2, 3⟩⟩, ⟨.name 2, ⟨5, 6⟩⟩]) := rfl
  obtain ⟨shaped, tiered⟩ := pushAll_shaped standard_total taken
  exact ⟨standard_total, rfl, shaped, (tiered rfl).1⟩

end Resolver

end LineCalc
