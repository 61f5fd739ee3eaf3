import LineCalc.Proofs.Logging

/-!
The resolver and the machine keep their operands on stacks of their own, and both tell where an operand
stands. Token by token the two stacks fit: an entry with a value lies within the operand span that it
stands for, and a null stands for one operand span or for several next to each other. What waits in the
resolver can be ahead of the machine, but nothing it does to its spans undoes the fit.
-/

namespace LineCalc

open PrecedenceTable (standard standard_total)

/-- The entries stand for the operand spans, one for one from the bottom, but for nulls, each of which
stands for one span or for several in a row. -/
inductive Matched : List (Spanned Entry) → List Span → Prop where
  | nil : Matched [] []
  | present {entry : Spanned Entry} {stack : List (Spanned Entry)} {span : Span} {spans : List Span}
      (kind : entry.value.present = true) (inside : entry.span.Within span)
      (rest : Matched stack spans) : Matched (entry :: stack) (span :: spans)
  | null {place : Span} {stack : List (Spanned Entry)} {own spans : List Span} (some : own ≠ [])
      (rest : Matched stack spans) : Matched (⟨.null, place⟩ :: stack) (own ++ spans)

/-- The entries stand for the lowest of the operand spans. -/
def Fits (stack : List (Spanned Entry)) (spans : List Span) : Prop :=
  ∃ upper lower, spans = upper ++ lower ∧ Matched stack lower

section Matched

variable {entry : Spanned Entry} {stack upper lower : List (Spanned Entry)} {span wider : Span}
  {spans : List Span}

theorem Matched.fits (matched : Matched stack spans) : Fits stack spans :=
  ⟨[], spans, rfl, matched⟩

theorem Matched.of_nil (matched : Matched [] spans) : spans = [] := by
  cases matched
  rfl

/-- The top entry stands for the top span and for no more, unless it is a null. -/
theorem Matched.exists_cons (matched : Matched (entry :: stack) spans) :
    ∃ span own rest, spans = span :: (own ++ rest) ∧ Matched stack rest ∧
      (entry.value.present = true → own = [] ∧ entry.span.Within span) := by
  cases matched with
  | present kind inside rest => exact ⟨_, [], _, rfl, rest, fun _ => ⟨rfl, inside⟩⟩
  | @null place _ own spans some rest =>
    obtain ⟨span, others, rfl⟩ := List.exists_cons_of_ne_nil some
    exact ⟨span, others, spans, rfl, rest, fun present => by cases present⟩

theorem Matched.widen (matched : Matched (entry :: stack) (span :: spans))
    (grows : span.Within wider) : Matched (entry :: stack) (wider :: spans) := by
  generalize whole : span :: spans = all at matched
  cases matched with
  | present kind inside rest =>
    obtain ⟨rfl, rfl⟩ := List.cons.inj whole
    exact .present kind (inside.trans grows) rest
  | @null place _ own lower some rest =>
    obtain ⟨first, others, rfl⟩ := List.exists_cons_of_ne_nil some
    obtain ⟨rfl, rfl⟩ := List.cons.inj whole
    exact @Matched.null place stack (wider :: others) lower (List.cons_ne_nil _ _) rest

theorem Fits.tail (fits : Fits (entry :: stack) spans) : Fits stack spans := by
  obtain ⟨above, _, rfl, matched⟩ := fits
  obtain ⟨span, own, rest, rfl, below, -⟩ := matched.exists_cons
  exact ⟨above ++ span :: own, rest, by simp, below⟩

theorem Fits.suffix (fits : Fits stack spans) (left : lower <:+ stack) : Fits lower spans := by
  obtain ⟨gone, rfl⟩ := left
  induction gone with
  | nil => exact fits
  | cons entry gone ih => exact ih fits.tail

end Matched

theorem Span.hull_eq_right {a b : Span} (inside : a.Within b) : a.hull b = b := by
  simp only [hull, Int.min_eq_right inside.1, Int.max_eq_right inside.2]

/-- Letting a token go takes the operand spans `before` to those after it: an operand adds its own, an
operator replaces those that it takes by one around them and its sign. -/
inductive Token.Gives (token : Spanned Token) (before : List Span) : List Span → Prop where
  | number {value : Number} (read : token.value = .number value) :
      Gives token before (token.span :: before)
  | name {handle : Handle} (read : token.value = .name handle) :
      Gives token before (token.span :: before)
  | operator (op : Operator) (sign : Span)
      (same : token = (standard_total.rule op).token op sign before) :
      Gives token before ((standard_total.rule op).reduce sign before)

theorem Operator.reduce_dyadic {op : Operator} (binary : op.demand = 2) (sign : Span)
    (spans : List Span) :
    (standard_total.rule op).reduce sign spans =
      (spans.take 2).foldl Span.hull sign :: spans.drop 2 := by
  rcases op with _ | (_ | _ | _ | _) | _ | _ <;> first | rfl | cases binary

theorem Operator.reduce_single {op : Operator} (single : op.demand ≠ 2) (sign : Span)
    (spans : List Span) :
    (standard_total.rule op).reduce sign spans =
      (spans.take 1).foldl Span.hull sign :: spans.drop 1 := by
  cases op with
  | equals | arithmetic => exact absurd rfl single
  | print | semicolon => rfl

namespace Machine

variable {naming : Naming} {machine : Machine} {op : Operator} {span sign : Span}
  {spans : List Span}

/-- An operator of two operands that does not stop puts one entry in their place, with a span around
both of them and its own. -/
theorem dyadic_goes (binary : op.demand = 2)
    (clean : (machine.execute naming ⟨.operator op, span⟩).fault = none) :
    ∃ right left below result, machine.stack = right :: left :: below ∧
      right.value.present = true ∧ left.value.present = true ∧ result.value.present = true ∧
      result.span = (left.span.hull right.span).hull span ∧
      (machine.execute naming ⟨.operator op, span⟩).state.stack = result :: below := by
  cases op with
  | equals => exact assign_goes clean
  | arithmetic => exact calculate_goes clean
  | print | semicolon => cases binary

/-- The span that the resolver gives to the operator is around both operands already. -/
theorem dyadic_matched (matched : Matched machine.stack spans) (binary : op.demand = 2)
    (clean : (machine.execute naming ((standard_total.rule op).token op sign spans)).fault = none) :
    ∃ right left below result, machine.stack = right :: left :: below ∧
      (machine.execute naming ((standard_total.rule op).token op sign spans)).state.stack =
        result :: below ∧
      result.span = (standard_total.rule op).cover sign spans ∧
      Matched (result :: below) ((standard_total.rule op).reduce sign spans) := by
  obtain ⟨right, left, below, result, shape, rightKind, leftKind, kind, covers, after⟩ :=
    dyadic_goes binary clean
  rw [shape] at matched
  obtain ⟨second, own, rest, rfl, lower, alone⟩ := matched.exists_cons
  obtain ⟨rfl, rightInside⟩ := alone rightKind
  obtain ⟨first, own, rest, rfl, bottom, alone⟩ := lower.exists_cons
  obtain ⟨rfl, leftInside⟩ := alone leftKind
  have reduces := Operator.reduce_dyadic binary sign (second :: first :: rest)
  have whole : (standard_total.rule op).cover sign (second :: first :: rest) =
      (sign.hull second).hull first := (List.cons.inj reduces).1
  simp only [List.nil_append] at covers after ⊢
  rw [whole] at covers
  have inside : (left.span.hull right.span).Within ((sign.hull second).hull first) :=
    Span.hull_within (leftInside.trans (Span.within_hull_right _ _))
      (rightInside.trans ((Span.within_hull_right _ _).trans (Span.within_hull_left _ _)))
  rw [Span.hull_eq_right inside] at covers
  refine ⟨right, left, below, result, shape, after, by rw [covers, whole], ?_⟩
  rw [reduces]
  exact .present kind (covers ▸ .refl _) bottom

theorem takeOperands_stopped {use : Machine → Spanned Entry → Spanned Entry → Number → Outcome Machine}
    (keeps : ∀ right left below value, machine.stack = right :: left :: below →
      (use { machine with stack := below } left right value).fault ≠ none →
      (use { machine with stack := below } left right value).state.stack = below)
    (stopped : (machine.takeOperands naming op span use).fault ≠ none) :
    (machine.takeOperands naming op span use).state.stack <:+ machine.stack.tail := by
  rcases takeOperands_cases naming machine op span use with
    ⟨fault, taken⟩ | ⟨right, left, below, value, shape, -, taken⟩
  · rw [taken]
    exact List.suffix_rfl
  · rw [taken] at stopped ⊢
    rw [keeps right left below value shape stopped, shape]
    exact List.suffix_cons left below

/-- A token that stops a machine has taken entries off the top, and at least one if there was one; only
a print sign never takes any. -/
theorem stopped_stack {token : Spanned Token}
    (stopped : (machine.execute naming token).fault ≠ none) (takes : token.value ≠ .operator .print) :
    (machine.execute naming token).state.stack <:+ machine.stack.tail := by
  obtain ⟨_ | handle | (_ | op | _ | _), place⟩ := token
  case operator.equals =>
    refine takeOperands_stopped (fun right left below value shape stops => ?_) stopped
    obtain ⟨_ | handle | _, leftPlace⟩ := left
    case name =>
      cases spelled : naming.spelling handle with
      | error fault => simp only [spelled, Outcome.fail]
      | ok spelling => simp [spelled] at stops
    all_goals rfl
  case operator.arithmetic =>
    refine takeOperands_stopped (fun right left below value shape stops => ?_) stopped
    cases found : valueOf naming machine.environment left with
    | error fault => simp only [Outcome.fail]
    | ok leftValue => simp [found, Outcome.done] at stops
  case operator.print => exact absurd rfl takes
  case operator.semicolon =>
    obtain ⟨stack, environment⟩ := machine
    rcases stack with _ | ⟨⟨_ | handle | _, top⟩, below⟩
    case cons.name =>
      cases held : environment.get? handle with
      | some value => simp [execute, endStatement, held, Outcome.done] at stopped
      | none => simp [execute, endStatement, held, Outcome.fail]
    all_goals exact absurd rfl stopped
  all_goals exact absurd rfl stopped

end Machine

section Matched

variable {naming : Naming} {machine : Machine} {stack : List (Spanned Entry)} {op : Operator}
  {sign place : Span} {spans : List Span}

theorem Matched.exists_below {gone rest : List (Spanned Entry)}
    (matched : Matched (gone ++ rest) spans) :
    ∃ own lower, spans = own ++ lower ∧ Matched rest lower := by
  induction gone generalizing spans with
  | nil => exact ⟨[], spans, rfl, matched⟩
  | cons entry gone ih =>
    obtain ⟨span, own, lower, rfl, below, -⟩ := matched.exists_cons
    obtain ⟨others, bottom, rfl, restMatched⟩ := ih below
    exact ⟨span :: (own ++ others), bottom, by simp, restMatched⟩

theorem Matched.settle (matched : Matched stack spans) :
    Matched (Machine.settle place stack.tail) ((standard_total.rule .semicolon).reduce sign spans) := by
  obtain ⟨gone, rest, shape, -, -, settled⟩ := Machine.settle_eq place stack.tail
  rw [settled, Operator.reduce_single (by simp [Operator.demand])]
  cases stack with
  | nil =>
    obtain rfl := matched.of_nil
    obtain ⟨rfl, rfl⟩ := List.append_eq_nil_iff.mp shape.symm
    exact .null (List.cons_ne_nil sign []) .nil
  | cons top below =>
    obtain ⟨span, own, lower, rfl, belowMatched, -⟩ := matched.exists_cons
    rw [List.tail_cons] at shape
    rw [shape] at belowMatched
    obtain ⟨others, bottom, rfl, restMatched⟩ := belowMatched.exists_below
    have whole := @Matched.null (place.around gone) rest (sign.hull span :: (own ++ others)) bottom
      (List.cons_ne_nil _ _) restMatched
    simpa using whole

theorem Matched.print (matched : Matched stack spans) (some : stack ≠ []) :
    Matched stack ((standard_total.rule .print).reduce sign spans) := by
  obtain ⟨top, below, rfl⟩ := List.exists_cons_of_ne_nil some
  obtain ⟨span, own, lower, rfl, -⟩ := matched.exists_cons
  exact matched.widen (Span.within_hull_right sign span)

theorem Matched.operator_goes (matched : Matched machine.stack spans)
    (clean : (machine.execute naming ((standard_total.rule op).token op sign spans)).fault = none) :
    Matched (machine.execute naming ((standard_total.rule op).token op sign spans)).state.stack
      ((standard_total.rule op).reduce sign spans) := by
  by_cases binary : op.demand = 2
  · obtain ⟨right, left, below, result, -, after, -, fits⟩ :=
      Machine.dyadic_matched matched binary clean
    rwa [after]
  · cases op with
    | equals | arithmetic => exact absurd rfl binary
    | print =>
      obtain ⟨top, below, shape, -⟩ := Machine.print_goes clean
      have same : (machine.execute naming ((standard_total.rule .print).token .print sign spans)).state =
          machine := machine.print_state _
      rw [same]
      exact matched.print (shape ▸ List.cons_ne_nil top below)
    | semicolon =>
      obtain ⟨place, settled⟩ := Machine.endStatement_goes clean
      change Matched (machine.endStatement naming _).state.stack _
      rw [settled]
      exact matched.settle

theorem fits_nil (spans : List Span) : Fits [] spans :=
  ⟨spans, [], (List.append_nil _).symm, .nil⟩

theorem Matched.closed (matched : Matched stack spans) (opening closing : Span) :
    Matched stack (widened opening closing spans) := by
  cases stack with
  | nil =>
    obtain rfl := matched.of_nil
    exact .nil
  | cons top below =>
    obtain ⟨span, own, lower, rfl, -⟩ := matched.exists_cons
    exact matched.widen ((Span.within_hull_left span opening).trans (Span.within_hull_left _ closing))

/-- Whatever an operator takes, what is below the top entry stands for what is left. -/
theorem Matched.fits_tail (matched : Matched stack spans) (op : Operator) (sign : Span) :
    Fits stack.tail ((standard_total.rule op).reduce sign spans) := by
  cases stack with
  | nil => exact fits_nil _
  | cons top below =>
    obtain ⟨span, own, lower, rfl, belowMatched, -⟩ := matched.exists_cons
    by_cases binary : op.demand = 2
    · rw [Operator.reduce_dyadic binary]
      cases own with
      | cons first others => exact ⟨_ :: others, lower, rfl, belowMatched⟩
      | nil =>
        cases below with
        | nil => exact fits_nil _
        | cons next below =>
          obtain ⟨first, others, bottom, rfl, -⟩ := belowMatched.exists_cons
          exact (belowMatched.widen (Span.within_hull_right (sign.hull span) first)).fits
    · rw [Operator.reduce_single binary]
      exact ⟨_ :: own, lower, rfl, belowMatched⟩

/-- Even where an operator stops, what is left stands for what is below. -/
theorem Matched.operator_fits (matched : Matched machine.stack spans) (op : Operator) (sign : Span) :
    Fits (machine.execute naming ((standard_total.rule op).token op sign spans)).state.stack
      ((standard_total.rule op).reduce sign spans) := by
  by_cases clean :
      (machine.execute naming ((standard_total.rule op).token op sign spans)).fault = none
  · exact (matched.operator_goes clean).fits
  · by_cases prints : op = .print
    · subst prints
      have same : (machine.execute naming ((standard_total.rule .print).token .print sign spans)).state =
          machine := machine.print_state _
      rw [same]
      cases shape : machine.stack with
      | nil => exact fits_nil _
      | cons top below =>
        rw [shape] at matched
        exact (matched.print (List.cons_ne_nil top below)).fits
    · have takes : ((standard_total.rule op).token op sign spans).value ≠ .operator .print := by
        simpa [Rule.token] using prints
      exact (matched.fits_tail op sign).suffix (Machine.stopped_stack clean takes)

end Matched

/-- What becomes of the fit when a token is executed: it stays, and an operator of two operands leaves
an entry that has just the span of the token; where the token stops, what is left still fits. -/
structure Token.Keeps (token : Spanned Token) (spans : List Span) (before : List (Spanned Entry))
    (executed : Outcome Machine) : Prop where
  fits : Fits executed.state.stack spans
  matched : executed.fault = none → Matched executed.state.stack spans
  exact : executed.fault = none → ∀ op, token.value = .operator op → op.demand = 2 →
    ∃ right left below result, before = right :: left :: below ∧
      executed.state.stack = result :: below ∧ result.span = token.span

theorem Token.Gives.keeps {token : Spanned Token} {spans after : List Span} {machine : Machine}
    (gives : Gives token spans after) (matched : Matched machine.stack spans) (naming : Naming) :
    Keeps token after machine.stack (machine.execute naming token) := by
  cases gives with
  | number read | name read =>
    have pushed : Matched (machine.execute naming token).state.stack (token.span :: spans) := by
      simp only [Machine.execute, read]
      exact .present rfl (.refl _) matched
    refine ⟨pushed.fits, fun _ => pushed, fun _ op same => ?_⟩
    rw [read] at same
    cases same
  | operator op sign same =>
    subst same
    refine ⟨matched.operator_fits op sign, matched.operator_goes, fun clean other same binary => ?_⟩
    cases same
    obtain ⟨right, left, below, result, shape, after, place, -⟩ :=
      Machine.dyadic_matched matched binary clean
    exact ⟨right, left, below, result, shape, after, place⟩

/-! The fit along a whole line. -/

theorem exists_split_append {α : Type} {first second early later : List α} {item : α}
    (row : first ++ second = early ++ item :: later) :
    (∃ others, first = early ++ item :: others) ∨
      ∃ between, early = first ++ between ∧ second = between ++ item :: later := by
  rcases List.append_eq_append_iff.mp row with ⟨between, own, rest⟩ | ⟨between, own, rest⟩
  · exact .inr ⟨between, own, rest⟩
  · cases between with
    | nil => exact .inr ⟨[], by simp [own], rest.symm⟩
    | cons next others =>
      obtain ⟨rfl, -⟩ := List.cons.inj rest
      exact .inl ⟨others, own⟩

namespace Evaluation

variable {names : NameTable} {evaluation : Evaluation} {token : Spanned Token}
  {spans after : List Span}

theorem perform_matched (gives : Token.Gives token spans after)
    (matched : Matched evaluation.machine.stack spans) :
    (evaluation.perform (some names) token).Ensures
      (fun reached => Matched reached.machine.stack after) (fun _ => True) :=
  .of_cases (gives.keeps matched (some names)).matched fun _ _ => trivial

theorem performAll_matched (pending : List (Spanned Operator))
    (matched : Matched evaluation.machine.stack spans) :
    (performAll names (standard_total.emitAll pending spans).1 evaluation).Ensures
      (fun reached => Matched reached.machine.stack (standard_total.emitAll pending spans).2)
      (fun _ => True) := by
  induction pending generalizing spans evaluation with
  | nil => exact matched
  | cons entry later ih =>
    have first := @perform_matched names _ _ _ _ (.operator entry.value entry.span rfl) matched
    exact first.andThen fun reached held => ih held

end Evaluation

namespace Resolver

variable {names : NameTable} {evaluation : Evaluation} {resolver after : Resolver}
  {ready : List (Spanned Token)}

/-- What a token makes ready keeps the fit, and what its brackets add to a span does so as well. -/
theorem push_matched {token : Spanned RawToken}
    (pushed : resolver.push standard token = (after, .ok ready))
    (matched : Matched evaluation.machine.stack resolver.operands) :
    (Evaluation.performAll names ready evaluation).Ensures
      (fun reached => Matched reached.machine.stack after.operands) (fun _ => True) := by
  have cases := resolver.push_cases standard_total token
  rw [pushed] at cases
  obtain ⟨value, span⟩ := token
  dsimp only at cases
  cases cases with
  | number value mode =>
    change (Evaluation.performAll names [⟨.number value, span⟩] evaluation).Ensures _ _
    rw [Evaluation.performAll_singleton]
    exact Evaluation.perform_matched (.number rfl) matched
  | name handle mode =>
    change (Evaluation.performAll names [⟨.name handle, span⟩] evaluation).Ensures _ _
    rw [Evaluation.performAll_singleton]
    exact Evaluation.perform_matched (.name rfl) matched
  | opening mode => exact matched
  | waits => exact Evaluation.performAll_matched _ matched
  | ends =>
    rw [Evaluation.performAll_append]
    refine (Evaluation.performAll_matched _ matched).andThen fun reached held => ?_
    rw [Evaluation.performAll_singleton]
    exact Evaluation.perform_matched (.operator .semicolon span rfl) held
  | @closing pending opening base shape mode =>
    exact (Evaluation.performAll_matched pending matched).mono (fun _ held => held.closed opening span)
      fun _ => id

theorem pushAll_matched {tokens : List (Spanned RawToken)} {environment : Environment}
    (taken : pushAll standard tokens .start = (resolver, .ok ready)) :
    (Evaluation.performAll names ready (.start environment)).Ensures
      (fun reached => Matched reached.machine.stack resolver.operands) (fun _ => True) := by
  induction tokens using List.reverseRecOn generalizing resolver ready with
  | nil =>
    cases taken
    exact Matched.nil
  | append_singleton tokens token ih =>
    obtain ⟨middle, early, late, before, pushed, rfl⟩ := pushAll_snoc_ok taken
    rw [Evaluation.performAll_append]
    exact (ih before).andThen fun reached held => push_matched pushed held

/-- When `early` have been let go of the tokens of a line, the resolver has had these operand spans: it
has taken in the first of its tokens, and has let go of some of the operators that wait on top. -/
def Emits (tokens : List (Spanned RawToken)) (early : List (Spanned Token)) (spans : List Span) : Prop :=
  ∃ front resolver ready pending base, front <+: tokens ∧
    pushAll standard front .start = (resolver, .ok ready) ∧
    resolver.stack = waiting pending ++ base ∧
    early = ready ++ (standard_total.emitAll pending resolver.operands).1 ∧
    spans = (standard_total.emitAll pending resolver.operands).2

theorem Emits.matched {tokens : List (Spanned RawToken)} {early : List (Spanned Token)}
    {spans : List Span} (emits : Emits tokens early spans) (names : NameTable)
    (environment : Environment) :
    (Evaluation.performAll names early (.start environment)).Ensures
      (fun reached => Matched reached.machine.stack spans) (fun _ => True) := by
  obtain ⟨front, resolver, ready, pending, base, -, taken, -, rfl, rfl⟩ := emits
  rw [Evaluation.performAll_append]
  exact (pushAll_matched taken).andThen fun reached held => Evaluation.performAll_matched pending held

/-- Behind `early` the token is let go, from the operand spans that the resolver has then. -/
def Follows (tokens : List (Spanned RawToken)) (early : List (Spanned Token)) (token : Spanned Token) :
    Prop :=
  ∃ spans after, Emits tokens early spans ∧ Emits tokens (early ++ [token]) after ∧
    Token.Gives token spans after

variable {front tokens whole : List (Spanned RawToken)} {early later : List (Spanned Token)}
  {token : Spanned Token}

theorem emits_taken (inside : front <+: tokens)
    (taken : pushAll standard front .start = (resolver, .ok ready)) :
    Emits tokens ready resolver.operands :=
  ⟨front, resolver, ready, [], resolver.stack, inside, taken, rfl, (List.append_nil _).symm, rfl⟩

theorem emitAll_split {pending : List (Spanned Operator)} {spans : List Span}
    (split : (standard_total.emitAll pending spans).1 = early ++ token :: later) :
    ∃ first entry others, pending = first ++ entry :: others ∧
      early = (standard_total.emitAll first spans).1 ∧
      token = (standard_total.rule entry.value).token entry.value entry.span
        (standard_total.emitAll first spans).2 := by
  induction pending generalizing early spans with
  | nil => simp [PrecedenceTable.Total.emitAll] at split
  | cons entry others ih =>
    cases early with
    | nil =>
      obtain ⟨same, -⟩ := List.cons.inj split
      exact ⟨[], entry, others, rfl, rfl, same.symm⟩
    | cons head early =>
      obtain ⟨rfl, rest⟩ := List.cons.inj split
      obtain ⟨first, next, last, rfl, rfl, same⟩ := ih rest
      exact ⟨entry :: first, next, last, rfl, rfl, same⟩

theorem follows_waiting (inside : front <+: tokens)
    (taken : pushAll standard front .start = (resolver, .ok ready))
    {pending : List (Spanned Operator)} {base : List (Spanned Waiting)}
    (shape : resolver.stack = waiting pending ++ base)
    (split : (standard_total.emitAll pending resolver.operands).1 = early ++ token :: later) :
    Follows tokens (ready ++ early) token := by
  obtain ⟨first, entry, others, rfl, rfl, rfl⟩ := emitAll_split split
  refine ⟨_, _, ⟨front, resolver, ready, first, waiting (entry :: others) ++ base, inside, taken, ?_,
    rfl, rfl⟩, ⟨front, resolver, ready, first ++ [entry], waiting others ++ base, inside, taken, ?_, ?_,
    rfl⟩, ?_⟩
  · rw [shape, waiting_append, List.append_assoc]
  · rw [shape, List.append_cons, waiting_append, List.append_assoc]
  · rw [standard_total.emitAll_append, List.append_assoc]
    rfl
  · rw [standard_total.emitAll_append_spans]
    exact .operator entry.value entry.span rfl

theorem follows_push {raw : Spanned RawToken} (inside : front ++ [raw] <+: tokens)
    (taken : pushAll standard front .start = (resolver, .ok ready))
    (pushed : resolver.push standard raw = (after, .ok (early ++ token :: later))) :
    Follows tokens (ready ++ early) token := by
  have before : front <+: tokens := (List.prefix_append front [raw]).trans inside
  have takenOn := pushAll_snoc taken pushed
  have cases := resolver.push_cases standard_total raw
  rw [pushed] at cases
  obtain ⟨value, span⟩ := raw
  dsimp only at cases
  generalize row : early ++ token :: later = batch at cases takenOn
  cases cases with
  | number value mode =>
    obtain ⟨rfl, rfl, rfl⟩ : early = [] ∧ token = ⟨.number value, span⟩ ∧ later = [] := by
      simpa [List.append_eq_cons_iff] using row
    rw [List.append_nil]
    exact ⟨_, _, emits_taken before taken, emits_taken inside takenOn, .number rfl⟩
  | name handle mode =>
    obtain ⟨rfl, rfl, rfl⟩ : early = [] ∧ token = ⟨.name handle, span⟩ ∧ later = [] := by
      simpa [List.append_eq_cons_iff] using row
    rw [List.append_nil]
    exact ⟨_, _, emits_taken before taken, emits_taken inside takenOn, .name rfl⟩
  | opening mode => simp at row
  | waits _ shape => exact follows_waiting before taken shape row.symm
  | @ends pending base shape holds =>
    rcases List.eq_nil_or_concat' later with rfl | ⟨others, last, rfl⟩
    · -- The semicolon itself comes behind all that it releases.
      obtain ⟨rfl, same⟩ := List.append_inj' row rfl
      obtain rfl := List.singleton_inj.mp same
      rw [← List.append_assoc] at takenOn
      exact ⟨_, _, ⟨front, resolver, ready, pending, base, before, taken, shape, rfl, rfl⟩,
        emits_taken inside takenOn, .operator .semicolon span rfl⟩
    · rw [← List.cons_append, ← List.append_assoc] at row
      exact follows_waiting before taken shape (List.append_inj' row rfl).1.symm
  | closing shape mode => exact follows_waiting before taken shape row.symm

theorem follows_batches {tokens : List (Spanned RawToken)} (inside : front ++ tokens <+: whole)
    (taken : pushAll standard front .start = (resolver, .ok ready))
    (row : (batches standard tokens resolver).1.flatten = early ++ token :: later) :
    Follows whole (ready ++ early) token := by
  induction tokens generalizing front resolver ready early with
  | nil => simp [batches] at row
  | cons raw tokens ih =>
    rw [List.append_cons] at inside
    cases pushed : resolver.push standard raw with
    | mk after result =>
      cases result with
      | error fault => simp [batches, pushed] at row
      | ok batch =>
        simp only [batches, pushed, List.flatten_cons] at row
        have first : front ++ [raw] <+: whole := (List.prefix_append _ tokens).trans inside
        rcases exists_split_append row with ⟨others, rfl⟩ | ⟨between, rfl, rest⟩
        · exact follows_push first taken pushed
        · rw [← List.append_assoc]
          exact ih inside (pushAll_snoc taken pushed) rest

theorem follows_finish (taken : pushAll standard tokens .start = (resolver, .ok ready))
    (finished : (resolver.finish standard).2 = .ok (early ++ token :: later)) :
    Follows tokens (ready ++ early) token := by
  rcases exists_bracket resolver.stack with ⟨pending, shape⟩ | ⟨pending, opening, base, shape⟩
  · rw [finish_waiting standard_total shape] at finished
    rw [← List.append_nil (waiting pending)] at shape
    exact follows_waiting List.prefix_rfl taken shape (Except.ok.inj finished)
  · rw [finish_bracketed standard_total shape] at finished
    cases finished

end Resolver

namespace Listing

variable {raw : Listing RawToken} {early later : List (Spanned Token)} {token : Spanned Token}

theorem follows_ending (row : remaining raw.plan.ending = early ++ token :: later) :
    Resolver.Follows raw.tokens (raw.plan.batches.flatten ++ early) token := by
  cases ending : raw.plan.ending with
  | error fault => simp [ending, remaining] at row
  | ok rest =>
    obtain ⟨-, resolver, taken, finished⟩ := plan_ok ending
    rw [ending, remaining] at row
    rw [row] at finished
    exact Resolver.follows_finish taken finished

/-- Every token of a line in postfix order follows those before it. -/
theorem follows (row : (reorder raw).tokens = early ++ token :: later) :
    Resolver.Follows raw.tokens early token := by
  rw [tokens_reorder] at row
  rcases exists_split_append row with ⟨others, own⟩ | ⟨between, rfl, rest⟩
  · exact @Resolver.follows_batches .start [] [] raw.tokens early others token raw.tokens
      List.prefix_rfl rfl own
  · exact follows_ending rest

end Listing

namespace Evaluation

theorem exists_split {names : NameTable} {tokens early later : List (Spanned Token)}
    {token : Spanned Token} {evaluation : Evaluation}
    (row : executed names tokens evaluation = early ++ token :: later) :
    (∃ rest, tokens = early ++ token :: rest) ∧ (performAll names early evaluation).fault = none := by
  induction tokens generalizing early evaluation with
  | nil => simp [executed] at row
  | cons first others ih =>
    rw [executed] at row
    cases early with
    | nil =>
      obtain ⟨rfl, -⟩ := List.cons.inj row
      exact ⟨⟨others, rfl⟩, rfl⟩
    | cons head early =>
      obtain ⟨rfl, rest⟩ := List.cons.inj row
      by_cases clean : (evaluation.perform (some names) first).fault = none
      · rw [if_pos clean] at rest
        obtain ⟨⟨last, rfl⟩, goes⟩ := ih rest
        refine ⟨⟨last, rfl⟩, ?_⟩
        rw [performAll, Outcome.runAll, Outcome.andThen, clean]
        exact goes
      · rw [if_neg clean] at rest
        simp at rest

end Evaluation

namespace LineRun

def Aligned (run : LineRun) : Prop :=
  Matched run.evaluation.machine.stack run.resolver.operands

theorem Aligned.feed {run : LineRun} (aligned : run.Aligned) (lexeme : Spanned Lexeme) :
    (feed lexeme run).Ensures Aligned (fun _ => True) := by
  cases pushed : run.resolver.push standard
      ⟨(run.names.take lexeme.value).token, lexeme.span⟩ with
  | mk after result =>
    cases result with
    | error fault =>
      rw [feed_refused pushed]
      exact trivial
    | ok ready =>
      rw [feed_ready pushed]
      exact ((Resolver.push_matched pushed aligned).map).following _

theorem aligned_runAll (session : Session) (lexemes : List (Spanned Lexeme)) :
    (Outcome.runAll feed lexemes session.begin).Ensures Aligned (fun _ => True) :=
  .runAll_kept Matched.nil fun lexeme _ _ aligned => aligned.feed lexeme

/-- Behind the end of a line there is a null on top, and what is below it fits. -/
theorem Aligned.finish {run : LineRun} (aligned : run.Aligned) :
    run.finish.Ensures (fun ended => ∃ place rest,
      ended.evaluation.machine.stack = ⟨.null, place⟩ :: rest ∧ Fits rest ended.resolver.operands)
      (fun _ => True) := by
  rcases exists_bracket run.resolver.stack with ⟨pending, shape⟩ | ⟨pending, opening, base, shape⟩
  · rw [finish_waiting shape]
    refine ((Evaluation.performAll_matched pending aligned).andThen fun reached held => ?_).map
    refine .of_cases (fun clean => ?_) fun _ _ => trivial
    obtain ⟨place, settled⟩ := Machine.endStatement_goes clean
    obtain ⟨gone, rest, shape, -, -, nulls⟩ := Machine.settle_eq place reached.machine.stack.tail
    have lower : rest <:+ reached.machine.stack :=
      (shape ▸ List.suffix_append gone rest).trans (List.tail_suffix _)
    exact ⟨place.around gone, rest, settled.trans nulls, held.fits.suffix lower⟩
  · rw [finish_refused shape]
    exact trivial

theorem aligned_feedAll (session : Session) (scan : Scan) :
    (feedAll scan session.begin).Ensures (fun ended => ∃ place rest,
      ended.evaluation.machine.stack = ⟨.null, place⟩ :: rest ∧ Fits rest ended.resolver.operands)
      (fun _ => True) := by
  refine (aligned_runAll session scan.lexemes).andThen fun run aligned => ?_
  cases scan.mistake with
  | some error => exact trivial
  | none => exact aligned.finish

end LineRun

/-- Between two lexemes a line has executed just what the resolver has let go. -/
theorem Session.exists_emitted (session : Session) (line : String) {front : List (Spanned Lexeme)}
    (inside : front <+: (Scan.ofLine line).lexemes)
    (clean : (Outcome.runAll LineRun.feed front session.begin).fault = none) :
    let raw := Listing.read session.names line
    let fed := (Outcome.runAll LineRun.feed front session.begin).state
    ∃ ready, Resolver.Emits raw.tokens ready fed.resolver.operands ∧
      fed.evaluation =
        (Evaluation.performAll raw.names ready (.start session.environment)).state := by
  intro raw fed
  have grows : (session.names.learn (Lexeme.words front)).Extends raw.names := by
    rw [List.prefix_iff_eq_take.mp inside, Listing.read_names]
    exact session.names.learn_grows _ _
  have row : (Listing.takeAll none session.names front).tokens <+: raw.tokens := by
    obtain ⟨later, parts⟩ := inside
    rw [Listing.read_tokens, ← parts, (Listing.takeAll_append session.names front later).2]
    exact List.prefix_append _ _
  have named : session.begin.evaluation.machine.Named session.begin.names := List.forall_mem_nil _
  cases LineRun.runAll_course named front grows with
  | stopped shape cleanRow stops does => exact absurd (does.fault.symm.trans clean) stops
  | refused refused cleanRow does => cases (Outcome.andThen_clean (does.fault.symm.trans clean)).2.1
  | taken taken count cleanRow does reached =>
    refine ⟨_, ?_, does.evaluation⟩
    have emits := Resolver.emits_taken row (Resolver.batches_ok taken)
    rwa [← reached] at emits

/-- While a line is run, the operands of the resolver and those of the machine fit. Whatever the resolver
has let go, the entries of a machine that has executed it without a mistake stand for the operand spans
that the resolver had then. A token that is executed keeps the fit, and leaves a rest that fits even where
it stops; an assignment or a calculation that does not stop leaves an entry with just the span of its
token. The fit is there behind every lexeme, where the machine has executed just what the resolver has
let go, and at the end of the line under the null that it leaves. -/
theorem Session.run_aligned (session : Session) (line : String) :
    let raw := Listing.read session.names line
    let performed := fun tokens =>
      Evaluation.performAll raw.names tokens (.start session.environment)
    let stackAfter := fun tokens => (performed tokens).state.machine.stack
    (∀ early spans, Resolver.Emits raw.tokens early spans → (performed early).fault = none →
      Matched (stackAfter early) spans) ∧
    (∀ early token later, Event.executions (session.run line).events = early ++ token :: later →
      (performed early).fault = none ∧
      ∃ spans after, Resolver.Emits raw.tokens early spans ∧
        Resolver.Emits raw.tokens (early ++ [token]) after ∧ Token.Gives token spans after ∧
        Matched (stackAfter early) spans ∧ Fits (stackAfter (early ++ [token])) after ∧
        ((performed (early ++ [token])).fault = none →
          Matched (stackAfter (early ++ [token])) after ∧
          ∀ op, token.value = .operator op → op.demand = 2 →
            ∃ right left below result, stackAfter early = right :: left :: below ∧
              stackAfter (early ++ [token]) = result :: below ∧ result.span = token.span)) ∧
    (∀ front, front <+: (Scan.ofLine line).lexemes →
      let fed := Outcome.runAll LineRun.feed front session.begin
      fed.fault = none →
        Matched fed.state.evaluation.machine.stack fed.state.resolver.operands ∧
        ∃ ready, Resolver.Emits raw.tokens ready fed.state.resolver.operands ∧
          fed.state.evaluation = (performed ready).state) ∧
    let ended := LineRun.feedAll (Scan.ofLine line) session.begin
    ended.fault = none → ∃ place rest,
      ended.state.evaluation.machine.stack = ⟨.null, place⟩ :: rest ∧
        Fits rest ended.state.resolver.operands := by
  intro raw performed stackAfter
  refine ⟨fun early spans emits => (emits.matched _ _).state, ?_, ?_, ?_⟩
  · intro early token later row
    rw [session.executions_run] at row
    obtain ⟨⟨rest, parts⟩, clean⟩ := Evaluation.exists_split row
    obtain ⟨spans, after, emits, emitsToo, gives⟩ := Listing.follows parts
    have matched : Matched (stackAfter early) spans :=
      (emits.matched raw.names session.environment).state clean
    have step : performed (early ++ [token]) =
        ((performed early).state.perform (some raw.names) token).following (performed early).events := by
      rw [← Evaluation.performAll_singleton]
      exact Evaluation.performAll_after clean [token]
    have keeps := gives.keeps matched (some raw.names)
    refine ⟨clean, spans, after, emits, emitsToo, gives, matched, ?_, ?_⟩
    · simp only [stackAfter, step]
      exact keeps.fits
    · simp only [stackAfter, step]
      exact fun goes => ⟨keeps.matched goes, keeps.exact goes⟩
  · intro front inside fed clean
    exact ⟨(LineRun.aligned_runAll session front).state clean,
      session.exists_emitted line inside clean⟩
  · exact (LineRun.aligned_feedAll session (Scan.ofLine line)).state

/-- In `1+(2;3)*4` the product covers the brackets from which it has one operand, and the null of the
statement before it is left for the sum. -/
theorem Session.run_aligned_bracketed :
    let raw := Listing.read Session.empty.names "1+(2;3)*4"
    let number := fun digit : Nat => Token.number (Number.ofDecimal ⟨digit, 0⟩)
    let early : List (Spanned Token) := [⟨number 1, ⟨0, 1⟩⟩, ⟨number 2, ⟨3, 4⟩⟩,
      ⟨.operator .semicolon, ⟨3, 5⟩⟩, ⟨number 3, ⟨5, 6⟩⟩, ⟨number 4, ⟨8, 9⟩⟩]
    let token : Spanned Token := ⟨.operator (.arithmetic .mul), ⟨2, 9⟩⟩
    let stackAfter := fun tokens =>
      (Evaluation.performAll raw.names tokens (.start .empty)).state.machine.stack
    ∃ spans after, Resolver.Emits raw.tokens early spans ∧
      Resolver.Emits raw.tokens (early ++ [token]) after ∧
      Matched (stackAfter early) spans ∧ Matched (stackAfter (early ++ [token])) after ∧
      ∃ right left below result, stackAfter early = right :: left :: below ∧
        stackAfter (early ++ [token]) = result :: below ∧ result.span = ⟨2, 9⟩ := by
  intro raw number early token stackAfter
  obtain ⟨-, executed, -⟩ := Session.run_aligned .empty "1+(2;3)*4"
  obtain ⟨clean, spans, after, emits, emitsToo, gives, matched, fits, goes⟩ :=
    executed early token [⟨.operator (.arithmetic .add), ⟨1, 9⟩⟩] (by decide +kernel)
  obtain ⟨matchedToo, exact⟩ := goes (by decide +kernel)
  exact ⟨spans, after, emits, emitsToo, matched, matchedToo, exact (.arithmetic .mul) rfl rfl⟩

end LineCalc
