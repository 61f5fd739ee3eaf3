import LineCalc.Proofs.Release
import Mathlib.Data.List.Induction

/-!
Which rows of tokens can be reordered. What a token may be is decided by the tokens before it alone:
by what they leave to be expected and by the brackets they leave open. The operators that wait, and
the table that orders them, have no say in it.
-/

namespace LineCalc

/-- What is expected behind a token, if `expect` was expected in its place. -/
def Expect.behind (expect : Expect) : RawToken → Expect
  | .number _ | .name _ | .symbol .rightParen => .operator
  | .symbol (.operator .print) => expect
  | .symbol _ => .value

/-- What is expected behind a row of tokens at the start of a line. -/
def Expect.behindAll (tokens : List (Spanned RawToken)) : Expect :=
  tokens.foldl (fun expect token => expect.behind token.value) .value

/-- The opening brackets that are left open behind a token, latest first. -/
def openBehind (opened : List Span) (token : Spanned RawToken) : List Span :=
  match token.value with
  | .symbol .leftParen => token.span :: opened
  | .symbol .rightParen => opened.tail
  | _ => opened

/-- The opening brackets that a row of tokens leaves open, latest first. -/
def openBrackets (tokens : List (Spanned RawToken)) : List Span :=
  tokens.foldl openBehind []

/-- A token that is not what is expected, and the mistake that it is. -/
inductive Misplaced : Expect → RawToken → Cause → Prop where
  | equals : Misplaced .value (.symbol (.operator .equals)) (.expectedExpression (.operator .equals))
  | arithmetic (op : Arithmetic) : Misplaced .value (.symbol (.operator (.arithmetic op)))
      (.expectedExpression (.operator (.arithmetic op)))
  | closing : Misplaced .value (.symbol .rightParen) (.expectedExpression .rightParen)
  | number (value : Number) : Misplaced .operator (.number value) (.expectedOperator .number)
  | name (handle : Handle) : Misplaced .operator (.name handle) (.expectedOperator .name)
  | opening : Misplaced .operator (.symbol .leftParen) (.expectedOperator .bracket)

/-- A token that cannot stand behind the earlier ones: it is misplaced, or it closes a bracket where
none is open. -/
inductive Offends (earlier : List (Spanned RawToken)) : RawToken → Cause → Prop where
  | misplaced {token : RawToken} {cause : Cause}
      (found : Misplaced (.behindAll earlier) token cause) : Offends earlier token cause
  | unopened (mode : Expect.behindAll earlier = .operator) (closed : openBrackets earlier = []) :
      Offends earlier (.symbol .rightParen) .unclosedRightBracket

/-- Nothing bad stands behind what comes before it in a row. -/
def Nowhere (bad : List (Spanned RawToken) → Spanned RawToken → Prop)
    (tokens : List (Spanned RawToken)) : Prop :=
  ∀ earlier token, earlier ++ [token] <+: tokens → ¬ bad earlier token

/-- Every token is what the earlier ones leave to be expected. -/
def Placed : List (Spanned RawToken) → Prop :=
  Nowhere fun earlier token => ∃ cause, Misplaced (.behindAll earlier) token.value cause

def Unoffending : List (Spanned RawToken) → Prop :=
  Nowhere fun earlier token => ∃ cause, Offends earlier token.value cause

def countSymbol (symbol : Symbol) (tokens : List (Spanned RawToken)) : Nat :=
  tokens.countP fun token => token.value = .symbol symbol

/-- There are as many closing as opening brackets, and nowhere up to a point more closing ones. -/
def Balanced (tokens : List (Spanned RawToken)) : Prop :=
  (∀ earlier, earlier <+: tokens →
    countSymbol .rightParen earlier ≤ countSymbol .leftParen earlier) ∧
  countSymbol .rightParen tokens = countSymbol .leftParen tokens

@[simp] theorem Expect.behindAll_append (earlier : List (Spanned RawToken))
    (token : Spanned RawToken) :
    behindAll (earlier ++ [token]) = (behindAll earlier).behind token.value := by
  simp [behindAll]

@[simp] theorem openBrackets_append (earlier : List (Spanned RawToken))
    (token : Spanned RawToken) :
    openBrackets (earlier ++ [token]) = openBehind (openBrackets earlier) token := by
  simp [openBrackets]

theorem nowhere_nil (bad : List (Spanned RawToken) → Spanned RawToken → Prop) :
    Nowhere bad [] := by
  intro earlier token row
  simp at row

theorem nowhere_append {bad : List (Spanned RawToken) → Spanned RawToken → Prop}
    {tokens : List (Spanned RawToken)} {token : Spanned RawToken} :
    Nowhere bad (tokens ++ [token]) ↔ Nowhere bad tokens ∧ ¬ bad tokens token := by
  constructor
  · intro clear
    exact ⟨fun earlier other row => clear earlier other (List.prefix_concat_iff.mpr (.inr row)),
      clear tokens token List.prefix_rfl⟩
  · intro both earlier other row
    obtain ⟨clear, last⟩ := both
    rcases List.prefix_concat_iff.mp row with whole | inside
    · obtain ⟨rfl, same⟩ := List.append_inj' whole rfl
      cases same
      exact last
    · exact clear earlier other inside

/-! As long as every closing bracket finds an open one, the open ones are those by which the opening
brackets are ahead. -/

def Unopened (earlier : List (Spanned RawToken)) (token : Spanned RawToken) : Prop :=
  token.value = .symbol .rightParen ∧ openBrackets earlier = []

theorem countSymbol_append (symbol : Symbol) (tokens : List (Spanned RawToken))
    (token : Spanned RawToken) :
    countSymbol symbol (tokens ++ [token]) =
      countSymbol symbol tokens + if token.value = .symbol symbol then 1 else 0 := by
  simp [countSymbol, List.countP_append, List.countP_cons]

theorem countSymbol_leftParen {tokens : List (Spanned RawToken)}
    (matched : Nowhere Unopened tokens) :
    countSymbol .leftParen tokens =
      countSymbol .rightParen tokens + (openBrackets tokens).length := by
  induction tokens using List.reverseRecOn with
  | nil => rfl
  | append_singleton tokens token ih =>
    obtain ⟨before, last⟩ := nowhere_append.mp matched
    have ahead := ih before
    rw [countSymbol_append, countSymbol_append, openBrackets_append]
    obtain ⟨value, span⟩ := token
    rcases value with _ | _ | (_ | _ | _)
    case symbol.leftParen =>
      simp [openBehind]
      omega
    case symbol.rightParen =>
      have opened : openBrackets tokens ≠ [] := fun none => last ⟨rfl, none⟩
      have some := List.length_pos_iff.mpr opened
      simp [openBehind]
      omega
    all_goals simpa [openBehind] using ahead

theorem nowhere_unopened_iff {tokens : List (Spanned RawToken)} :
    Nowhere Unopened tokens ↔ ∀ earlier, earlier <+: tokens →
      countSymbol .rightParen earlier ≤ countSymbol .leftParen earlier := by
  constructor
  · intro matched earlier row
    have part : Nowhere Unopened earlier :=
      fun shorter token inside => matched shorter token (inside.trans row)
    rw [countSymbol_leftParen part]
    exact Nat.le_add_right _ _
  · intro ahead
    induction tokens using List.reverseRecOn with
    | nil => exact nowhere_nil _
    | append_singleton tokens token ih =>
      have before := ih fun earlier row => ahead earlier (row.trans (List.prefix_append _ _))
      refine nowhere_append.mpr ⟨before, ?_⟩
      rintro ⟨closing, none⟩
      have even := countSymbol_leftParen before
      have bound := ahead _ List.prefix_rfl
      simp only [countSymbol_append, closing, none, List.length_nil] at even bound
      simp at bound
      omega

/-- Brackets are balanced where every closing one finds an open one and none stays open. -/
theorem balanced_iff {tokens : List (Spanned RawToken)} :
    Balanced tokens ↔ Nowhere Unopened tokens ∧ openBrackets tokens = [] := by
  rw [Balanced, ← nowhere_unopened_iff]
  refine and_congr_right fun matched => ?_
  rw [countSymbol_leftParen matched, ← List.length_eq_zero_iff]
  omega

/-! The brackets on the stack of a resolver are the ones left open, whatever operators wait between
them. -/

/-- The places of the brackets on a stack, latest first. -/
def bracketsOn (stack : List (Spanned Waiting)) : List Span :=
  stack.filterMap fun entry =>
    match entry.value with
    | .bracket => some entry.span
    | .operator _ => none

@[simp] theorem bracketsOn_bracket (span : Span) (below : List (Spanned Waiting)) :
    bracketsOn (⟨.bracket, span⟩ :: below) = span :: bracketsOn below := rfl

@[simp] theorem bracketsOn_waiting (pending : List (Spanned Operator))
    (base : List (Spanned Waiting)) : bracketsOn (waiting pending ++ base) = bracketsOn base := by
  induction pending with
  | nil => rfl
  | cons entry later ih => exact ih

theorem bracketsOn_pending (pending : List (Spanned Operator)) :
    bracketsOn (waiting pending) = [] := by
  simpa [bracketsOn] using bracketsOn_waiting pending []

variable {table : PrecedenceTable}

namespace PrecedenceTable

theorem Total.releaseFor_brackets (total : table.Total) (incoming : Operator)
    (stack : List (Spanned Waiting)) (operands : List Span) :
    ∃ tokens, (table.releaseFor incoming stack operands).ready = .ok tokens ∧
      bracketsOn (table.releaseFor incoming stack operands).stack = bracketsOn stack := by
  obtain ⟨pending, base, rfl, holds, tight⟩ := total.exists_waiting incoming stack
  rw [total.releaseFor_waiting holds tight]
  exact ⟨_, rfl, (bracketsOn_waiting pending base).symm⟩

theorem Total.releaseBracket_unopened (total : table.Total) (closing : Span)
    {stack : List (Spanned Waiting)} (closed : bracketsOn stack = []) (operands : List Span) :
    (table.releaseBracket closing stack operands).ready =
      .error (.inLine .unclosedRightBracket closing) := by
  rcases exists_bracket stack with ⟨pending, rfl⟩ | ⟨pending, opening, base, rfl⟩
  · rw [total.releaseBracket_refused]
    rfl
  · simp at closed

theorem Total.releaseBracket_opened (total : table.Total) (closing : Span)
    {stack : List (Spanned Waiting)} {opening : Span} {outer : List Span}
    (opened : bracketsOn stack = opening :: outer) (operands : List Span) :
    ∃ tokens, (table.releaseBracket closing stack operands).ready = .ok tokens ∧
      bracketsOn (table.releaseBracket closing stack operands).stack = outer := by
  rcases exists_bracket stack with ⟨pending, rfl⟩ | ⟨pending, innermost, base, rfl⟩
  · rw [bracketsOn_pending] at opened
    cases opened
  · rw [bracketsOn_waiting, bracketsOn_bracket] at opened
    obtain ⟨rfl, same⟩ := List.cons.inj opened
    rw [total.releaseBracket_waiting]
    exact ⟨_, rfl, same⟩

theorem Total.releaseAll_closed (total : table.Total) {stack : List (Spanned Waiting)}
    (closed : bracketsOn stack = []) (operands : List Span) :
    ∃ tokens, (table.releaseAll stack operands).ready = .ok tokens := by
  rcases exists_bracket stack with ⟨pending, rfl⟩ | ⟨pending, opening, base, rfl⟩
  · rw [total.releaseAll_waiting]
    exact ⟨_, rfl⟩
  · simp at closed

theorem Total.releaseAll_opened (total : table.Total) {stack : List (Spanned Waiting)}
    {opening : Span} {outer : List Span} (opened : bracketsOn stack = opening :: outer)
    (operands : List Span) :
    (table.releaseAll stack operands).ready = .error (.inLine .unclosedLeftBracket opening) := by
  rcases exists_bracket stack with ⟨pending, rfl⟩ | ⟨pending, innermost, base, rfl⟩
  · rw [bracketsOn_pending] at opened
    cases opened
  · rw [bracketsOn_waiting, bracketsOn_bracket] at opened
    obtain ⟨rfl, -⟩ := List.cons.inj opened
    rw [total.releaseAll_refused]
    rfl

end PrecedenceTable

namespace Resolver

theorem pushOperator_brackets (total : table.Total) (resolver : Resolver) (op : Operator)
    (span : Span) :
    ∃ ready, (resolver.pushOperator table op span).2 = .ok ready ∧
      (resolver.pushOperator table op span).1.expect = resolver.expect ∧
      bracketsOn (resolver.pushOperator table op span).1.stack = bracketsOn resolver.stack := by
  obtain ⟨tokens, ready, kept⟩ :=
    total.releaseFor_brackets op resolver.stack resolver.operands
  by_cases ends : op = .semicolon
  · subst ends
    rw [pushOperator_semicolon total _ rfl ready]
    exact ⟨_, rfl, rfl, kept⟩
  · rw [pushOperator_waiting _ ends rfl ready]
    exact ⟨_, rfl, rfl, kept⟩

/-- A token that is expected, and finds an open bracket if it closes one, is taken in; what is
expected and open then follows from the token. -/
theorem push_expected (total : table.Total) (resolver : Resolver) (token : Spanned RawToken)
    (placed : ∀ cause, ¬ Misplaced resolver.expect token.value cause)
    (opened : resolver.expect = .operator → token.value = .symbol .rightParen →
      bracketsOn resolver.stack ≠ []) :
    ∃ ready, (resolver.push table token).2 = .ok ready ∧
      (resolver.push table token).1.expect = resolver.expect.behind token.value ∧
      bracketsOn (resolver.push table token).1.stack =
        openBehind (bracketsOn resolver.stack) token := by
  obtain ⟨expect, stack, operands⟩ := resolver
  obtain ⟨value, span⟩ := token
  cases expect with
  | value =>
    rcases value with _ | _ | ((_ | op | _ | _) | _ | _)
    case symbol.operator.equals => exact absurd .equals (placed _)
    case symbol.operator.arithmetic => exact absurd (.arithmetic op) (placed _)
    case symbol.operator.print => exact pushOperator_brackets total _ .print span
    case symbol.operator.semicolon => exact pushOperator_brackets total _ .semicolon span
    case symbol.rightParen => exact absurd .closing (placed _)
    all_goals exact ⟨_, rfl, rfl, rfl⟩
  | operator =>
    rcases value with value | handle | (op | _ | _)
    case number => exact absurd (.number value) (placed _)
    case name => exact absurd (.name handle) (placed _)
    case symbol.leftParen => exact absurd .opening (placed _)
    case symbol.operator =>
      have waits := pushOperator_brackets total
        ⟨if op.opensOperand then .value else .operator, stack, operands⟩ op span
      cases op <;> exact waits
    case symbol.rightParen =>
      obtain ⟨opening, outer, found⟩ := List.exists_cons_of_ne_nil (opened rfl rfl)
      obtain ⟨tokens, ready, kept⟩ := total.releaseBracket_opened span found operands
      exact ⟨tokens, ready, rfl, kept.trans (by rw [openBehind, found]; rfl)⟩

/-- What a resolver knows of the tokens it has taken in, as far as later tokens depend on it. -/
structure Tracks (earlier : List (Spanned RawToken)) (resolver : Resolver) : Prop where
  expect : resolver.expect = .behindAll earlier
  brackets : bracketsOn resolver.stack = openBrackets earlier

theorem tracks_start : Tracks [] .start := ⟨rfl, rfl⟩

variable {earlier : List (Spanned RawToken)} {resolver : Resolver} {token : Spanned RawToken}

theorem Tracks.push_offending (total : table.Total) (tracks : Tracks earlier resolver)
    {cause : Cause} (offends : Offends earlier token.value cause) :
    (resolver.push table token).2 = .error (.inLine cause token.span) := by
  obtain ⟨expect, stack, operands⟩ := resolver
  obtain ⟨value, span⟩ := token
  obtain ⟨mode, brackets⟩ := tracks
  cases offends with
  | misplaced found =>
    rw [← mode] at found
    cases found <;> rfl
  | unopened operator closed =>
    obtain rfl : expect = .operator := mode.trans operator
    exact total.releaseBracket_unopened span (brackets.trans closed) operands

theorem Tracks.push_unoffending (total : table.Total) (tracks : Tracks earlier resolver)
    (fits : ¬ ∃ cause, Offends earlier token.value cause) :
    ∃ ready, (resolver.push table token).2 = .ok ready ∧
      Tracks (earlier ++ [token]) (resolver.push table token).1 := by
  obtain ⟨ready, taken, expect, brackets⟩ := push_expected total resolver token
    (fun cause found => fits ⟨cause, .misplaced (tracks.expect ▸ found)⟩)
    (fun mode closing closed => fits ⟨.unclosedRightBracket, by
      rw [closing]
      exact .unopened (tracks.expect ▸ mode) (tracks.brackets ▸ closed)⟩)
  refine ⟨ready, taken, ?_, ?_⟩
  · rw [expect, tracks.expect, Expect.behindAll_append]
  · rw [brackets, tracks.brackets, openBrackets_append]

theorem pushAll_unoffending (total : table.Total) {tokens : List (Spanned RawToken)}
    (clear : Unoffending tokens) :
    ∃ resolver ready, pushAll table tokens .start = (resolver, .ok ready) ∧
      Tracks tokens resolver := by
  induction tokens using List.reverseRecOn with
  | nil => exact ⟨.start, [], rfl, tracks_start⟩
  | append_singleton tokens token ih =>
    obtain ⟨before, fits⟩ := nowhere_append.mp clear
    obtain ⟨resolver, ready, taken, tracks⟩ := ih before
    obtain ⟨late, pushed, tracksOn⟩ := tracks.push_unoffending total fits
    refine ⟨_, ready ++ late, ?_, tracksOn⟩
    simp [pushAll_append taken, pushAll, pushed, Except.map]

theorem pushAll_offending (total : table.Total) (clear : Unoffending earlier) {cause : Cause}
    (offends : Offends earlier token.value cause) (later : List (Spanned RawToken)) :
    (pushAll table (earlier ++ token :: later) .start).2 =
      .error (.inLine cause token.span) := by
  obtain ⟨resolver, ready, taken, tracks⟩ := pushAll_unoffending total clear
  simp [pushAll_append taken, pushAll, tracks.push_offending total offends, Except.map]

end Resolver

/-- Nothing offends exactly where every token is placed and no closing bracket lacks an open one. -/
theorem unoffending_iff {tokens : List (Spanned RawToken)} :
    Unoffending tokens ↔ Placed tokens ∧ Nowhere Unopened tokens := by
  constructor
  · intro clear
    refine ⟨fun earlier token row => ?_, fun earlier token row => ?_⟩
    · intro found
      obtain ⟨cause, found⟩ := found
      exact clear earlier token row ⟨cause, .misplaced found⟩
    · intro unopened
      obtain ⟨closing, closed⟩ := unopened
      -- Where a value is expected, a closing bracket is misplaced whether or not one is open.
      apply clear earlier token row
      rw [closing]
      cases mode : Expect.behindAll earlier with
      | value => exact ⟨_, .misplaced (by rw [mode]; exact .closing)⟩
      | operator => exact ⟨_, .unopened mode closed⟩
  · intro both earlier token row found
    obtain ⟨placed, matched⟩ := both
    obtain ⟨cause, offends⟩ := found
    obtain ⟨value, span⟩ := token
    cases offends with
    | misplaced found => exact placed earlier _ row ⟨cause, found⟩
    | unopened mode closed => exact matched earlier _ row ⟨rfl, closed⟩

/-- A token that offends while none before it does. -/
structure FirstOffence (tokens : List (Spanned RawToken)) (token : Spanned RawToken)
    (cause : Cause) : Prop where
  place : ∃ earlier later, tokens = earlier ++ token :: later ∧ Unoffending earlier ∧
    Offends earlier token.value cause

theorem unoffending_or_firstOffence (tokens : List (Spanned RawToken)) :
    Unoffending tokens ∨ ∃ token cause, FirstOffence tokens token cause := by
  induction tokens using List.reverseRecOn with
  | nil => exact .inl (nowhere_nil _)
  | append_singleton tokens token ih =>
    rcases ih with clear | ⟨first, cause, ⟨earlier, later, split, found⟩⟩
    · by_cases offends : ∃ cause, Offends tokens token.value cause
      · obtain ⟨cause, offends⟩ := offends
        exact .inr ⟨token, cause, ⟨tokens, [], rfl, clear, offends⟩⟩
      · exact .inl (nowhere_append.mpr ⟨clear, offends⟩)
    · exact .inr ⟨first, cause, ⟨earlier, later ++ [token], by simp [split], found⟩⟩

/-- What becomes of any row of tokens, by any table that knows every operator. The row is reordered
exactly if every token is placed and the brackets are balanced. A row with an offending token is
refused for the first one when that is pushed. Any other row is pushed as a whole, and it is only at
its end that the last bracket left open, if there is one, is a mistake. -/
theorem reorder_verdict (total : table.Total) (tokens : List (Spanned RawToken)) :
    ((∃ ready, table.reorder tokens = .ok ready) ↔ Placed tokens ∧ Balanced tokens) ∧
    (∀ token cause, FirstOffence tokens token cause →
      (Resolver.pushAll table tokens .start).2 = .error (.inLine cause token.span)) ∧
    (Unoffending tokens → ∃ resolver ready,
      Resolver.pushAll table tokens .start = (resolver, .ok ready) ∧
      ∀ opening outer, openBrackets tokens = opening :: outer →
        (resolver.finish table).2 = .error (.inLine .unclosedLeftBracket opening)) ∧
    (Unoffending tokens ∨ ∃ token cause, FirstOffence tokens token cause) := by
  have refused : ∀ token cause, FirstOffence tokens token cause →
      (Resolver.pushAll table tokens .start).2 = .error (.inLine cause token.span) := by
    intro token cause first
    obtain ⟨earlier, later, rfl, clear, offends⟩ := first
    exact Resolver.pushAll_offending total clear offends later
  refine ⟨?_, refused, ?_, unoffending_or_firstOffence tokens⟩
  · rw [balanced_iff, ← and_assoc, ← unoffending_iff]
    constructor
    · intro reordered
      obtain ⟨ready, done⟩ := reordered
      rcases unoffending_or_firstOffence tokens with clear | ⟨token, cause, first⟩
      · refine ⟨clear, ?_⟩
        obtain ⟨resolver, early, taken, tracks⟩ := Resolver.pushAll_unoffending total clear
        cases left : openBrackets tokens with
        | nil => rfl
        | cons opening outer =>
          have fault := total.releaseAll_opened (tracks.brackets.trans left) resolver.operands
          simp [PrecedenceTable.reorder, taken, Resolver.finish, Resolver.after, fault,
            Except.map] at done
      · simp [PrecedenceTable.reorder, refused token cause first] at done
    · intro both
      obtain ⟨clear, closed⟩ := both
      obtain ⟨resolver, early, taken, tracks⟩ := Resolver.pushAll_unoffending total clear
      obtain ⟨late, released⟩ :=
        total.releaseAll_closed (tracks.brackets.trans closed) resolver.operands
      exact ⟨early ++ late, by
        simp [PrecedenceTable.reorder, taken, Resolver.finish, Resolver.after, released,
          Except.map]⟩
  · intro clear
    obtain ⟨resolver, ready, taken, tracks⟩ := Resolver.pushAll_unoffending total clear
    exact ⟨resolver, ready, taken, fun opening outer left =>
      total.releaseAll_opened (tracks.brackets.trans left) resolver.operands⟩

/-- In `a)(` the closing bracket is the mistake, though the opening one is misplaced as well. -/
theorem reorder_verdict_unopened :
    PrecedenceTable.standard.Total ∧
    (Resolver.pushAll .standard [⟨.name 0, ⟨0, 1⟩⟩, ⟨.symbol .rightParen, ⟨1, 2⟩⟩,
      ⟨.symbol .leftParen, ⟨2, 3⟩⟩] .start).2 =
      .error (.inLine .unclosedRightBracket ⟨1, 2⟩) := by
  have clear : Unoffending ([] ++ [⟨.name 0, ⟨0, 1⟩⟩]) := by
    refine nowhere_append.mpr ⟨nowhere_nil _, ?_⟩
    rintro ⟨cause, ⟨found⟩⟩
    cases found
  have first : FirstOffence [⟨.name 0, ⟨0, 1⟩⟩, ⟨.symbol .rightParen, ⟨1, 2⟩⟩,
      ⟨.symbol .leftParen, ⟨2, 3⟩⟩] ⟨.symbol .rightParen, ⟨1, 2⟩⟩ .unclosedRightBracket :=
    ⟨[⟨.name 0, ⟨0, 1⟩⟩], [⟨.symbol .leftParen, ⟨2, 3⟩⟩], rfl, clear, .unopened rfl rfl⟩
  exact ⟨PrecedenceTable.standard_total,
    (reorder_verdict PrecedenceTable.standard_total _).2.1 _ _ first⟩

end LineCalc
