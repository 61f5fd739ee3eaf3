import LineCalc.Proofs.Feeding

/-!
What becomes of tokens that are taken in, by any table and however many operands are missing. Operands
come out as they went in. Each operator is ready or waits, never both and never twice, and only brackets
are gone: an open one waits until it is closed.
-/

namespace LineCalc

namespace Spanned

variable {α β : Type}

/-- What is in view of a row, each with its place. -/
def collect (view : α → Option β) (row : List (Spanned α)) : List (Spanned β) :=
  row.filterMap fun item => (view item.value).map (⟨·, item.span⟩)

variable {view : α → Option β}

@[simp] theorem collect_nil : collect view [] = [] := rfl

@[simp] theorem collect_append (first second : List (Spanned α)) :
    collect view (first ++ second) = collect view first ++ collect view second :=
  List.filterMap_append

theorem collect_cons_none {item : Spanned α} (hidden : view item.value = none)
    (later : List (Spanned α)) : collect view (item :: later) = collect view later := by
  simp [collect, hidden]

theorem collect_cons_some {item : Spanned α} {seen : β} (shown : view item.value = some seen)
    (later : List (Spanned α)) :
    collect view (item :: later) = ⟨seen, item.span⟩ :: collect view later := by
  simp [collect, shown]

theorem collect_snoc_none {row : List (Spanned α)} {item : Spanned α}
    (hidden : view item.value = none) : collect view (row ++ [item]) = collect view row := by
  simp [collect, hidden]

theorem collect_snoc_some {row : List (Spanned α)} {item : Spanned α} {seen : β}
    (shown : view item.value = some seen) :
    collect view (row ++ [item]) = collect view row ++ [⟨seen, item.span⟩] := by
  simp [collect, shown]

theorem collect_collect {γ : Type} (first : α → Option β) (second : β → Option γ)
    (row : List (Spanned α)) :
    collect second (collect first row) = collect (fun value => (first value).bind second) row := by
  rw [collect, collect, List.filterMap_filterMap]
  refine congrArg (List.filterMap · row) (funext fun item => ?_)
  cases found : first item.value <;> simp [found]

theorem collect_sublist {wider : α → Option β}
    (fewer : ∀ value seen, view value = some seen → wider value = some seen)
    {row wide : List (Spanned α)} (inside : row.Sublist wide) :
    (collect view row).Sublist (collect wider wide) := by
  refine List.Sublist.trans ?_ (inside.filterMap _)
  clear inside
  induction row with
  | nil => exact .slnil
  | cons item later ih =>
    cases shown : view item.value with
    | none =>
      rw [collect_cons_none shown]
      exact ih.trans ((List.sublist_cons_self item later).filterMap _)
    | some seen =>
      rw [collect_cons_some shown]
      exact (ih.cons_cons _).trans (collect_cons_some (fewer _ _ shown) later ▸ List.Sublist.refl _)

end Spanned

def RawToken.operand? : RawToken → Option Token
  | number value => some (.number value)
  | name handle => some (.name handle)
  | symbol _ => none

/-- The operator that a token is written for. -/
def RawToken.operator? : RawToken → Option Operator
  | symbol (.operator op) => some op
  | _ => none

def Token.operand? : Token → Option Token
  | operator _ => none
  | token => some token

def Token.operator? : Token → Option Operator
  | operator op => some op
  | _ => none

def Waiting.operator? : Waiting → Option Operator
  | operator op => some op
  | bracket => none

open Spanned (collect)

/-- The operator has come out with a span around that of its sign. -/
def Operator.Widens (sign wide : Spanned Operator) : Prop :=
  wide.value = sign.value ∧ sign.span.Within wide.span

/-- What has become of tokens. Their numbers and names are ready, in their order and at their places.
Each of their operators is ready, with a span around its sign, or waits at its sign. -/
structure Retained (tokens : List (Spanned RawToken)) (ready : List (Spanned Token))
    (stack : List (Spanned Waiting)) : Prop where
  operands : collect Token.operand? ready = collect RawToken.operand? tokens
  operators : ∃ signs, List.Forall₂ Operator.Widens signs (collect Token.operator? ready) ∧
    (signs ++ collect Waiting.operator? stack).Perm (collect RawToken.operator? tokens)

variable {tokens : List (Spanned RawToken)} {ready : List (Spanned Token)}
  {base stack : List (Spanned Waiting)} {pending : List (Spanned Operator)}

/-! Operators that leave a stack. -/

theorem collect_waiting (pending : List (Spanned Operator)) :
    collect Waiting.operator? (waiting pending) = pending := by
  induction pending with
  | nil => rfl
  | cons entry later ih => exact congrArg (List.cons entry) ih

theorem Rule.within_cover (rule : Rule) (span : Span) (operands : List Span) :
    span.Within (rule.cover span operands) := by
  rw [cover]
  generalize operands.take rule.arity.toNat = taken
  induction taken generalizing span with
  | nil => exact .refl span
  | cons first later ih => exact (span.within_hull_left first).trans (ih _)

namespace PrecedenceTable.Total

variable {table : PrecedenceTable} (total : table.Total)

theorem operands_emitAll (pending : List (Spanned Operator)) (operands : List Span) :
    collect Token.operand? (total.emitAll pending operands).1 = [] := by
  induction pending generalizing operands with
  | nil => rfl
  | cons entry later ih => exact ih _

theorem operators_emitAll (pending : List (Spanned Operator)) (operands : List Span) :
    List.Forall₂ Operator.Widens pending
      (collect Token.operator? (total.emitAll pending operands).1) := by
  induction pending generalizing operands with
  | nil => exact .nil
  | cons entry later ih => exact .cons ⟨rfl, Rule.within_cover _ entry.span operands⟩ (ih _)

end PrecedenceTable.Total

/-! One token after the other. -/

theorem perm_insert {α : Type} {front back row : List α} (all : (front ++ back).Perm row) (item : α) :
    (front ++ item :: back).Perm (row ++ [item]) :=
  List.perm_middle.trans ((all.cons item).trans (List.perm_append_singleton item row).symm)

namespace Retained

theorem nothing : Retained [] [] [] :=
  ⟨rfl, [], .nil, .nil⟩

theorem release {table : PrecedenceTable} (total : table.Total)
    (retained : Retained tokens ready (waiting pending ++ base)) (operands : List Span) :
    Retained tokens (ready ++ (total.emitAll pending operands).1) base := by
  obtain ⟨same, signs, widened, all⟩ := retained
  refine ⟨?_, signs ++ pending, ?_, ?_⟩
  · rw [Spanned.collect_append, total.operands_emitAll, List.append_nil, same]
  · rw [Spanned.collect_append]
    exact List.rel_append widened (total.operators_emitAll pending operands)
  · rwa [Spanned.collect_append, collect_waiting, ← List.append_assoc] at all

theorem closed {opening : Span} (retained : Retained tokens ready (⟨.bracket, opening⟩ :: base)) :
    Retained tokens ready base :=
  ⟨retained.operands, retained.operators⟩

theorem opened (retained : Retained tokens ready base) (opening : Span) :
    Retained tokens ready (⟨.bracket, opening⟩ :: base) :=
  ⟨retained.operands, retained.operators⟩

theorem bracket (retained : Retained tokens ready stack) {token : Spanned RawToken}
    (plain : token.value.operand? = none) (silent : token.value.operator? = none) :
    Retained (tokens ++ [token]) ready stack := by
  obtain ⟨same, operators⟩ := retained
  constructor
  · rw [Spanned.collect_snoc_none plain, same]
  · rwa [Spanned.collect_snoc_none silent]

theorem operand (retained : Retained tokens ready stack) {token : Spanned RawToken} {passed : Token}
    (read : token.value.operand? = some passed) :
    Retained (tokens ++ [token]) (ready ++ [⟨passed, token.span⟩]) stack := by
  obtain ⟨same, operators⟩ := retained
  have kind : passed.operand? = some passed ∧ passed.operator? = none ∧
      token.value.operator? = none := by
    cases value : token.value <;> rw [value] at read <;> cases read <;> exact ⟨rfl, rfl, rfl⟩
  obtain ⟨shown, hidden, silent⟩ := kind
  constructor
  · rw [Spanned.collect_snoc_some shown, Spanned.collect_snoc_some read, same]
  · rwa [Spanned.collect_snoc_none hidden, Spanned.collect_snoc_none silent]

theorem waits (retained : Retained tokens ready stack) {token : Spanned RawToken} {op : Operator}
    (read : token.value = .symbol (.operator op)) :
    Retained (tokens ++ [token]) ready (⟨.operator op, token.span⟩ :: stack) := by
  obtain ⟨same, signs, widened, all⟩ := retained
  refine ⟨?_, signs, widened, ?_⟩
  · rw [Spanned.collect_snoc_none (by rw [read]; rfl), same]
  · rw [Spanned.collect_snoc_some (by rw [read]; rfl)]
    exact perm_insert all _

theorem passes (retained : Retained tokens ready stack) {token : Spanned RawToken} {op : Operator}
    (read : token.value = .symbol (.operator op)) (rule : Rule) (operands : List Span) :
    Retained (tokens ++ [token]) (ready ++ [rule.token op token.span operands]) stack := by
  obtain ⟨same, signs, widened, all⟩ := retained
  refine ⟨?_, signs ++ [⟨op, token.span⟩], ?_, ?_⟩
  · rw [Spanned.collect_snoc_none rfl, Spanned.collect_snoc_none (by rw [read]; rfl), same]
  · have shown : (rule.token op token.span operands).value.operator? = some op := rfl
    rw [Spanned.collect_snoc_some shown]
    exact List.rel_append widened (.cons ⟨rfl, rule.within_cover token.span operands⟩ .nil)
  · rw [Spanned.collect_snoc_some (by rw [read]; rfl), List.append_assoc]
    exact perm_insert all _

variable {table : PrecedenceTable} (total : table.Total) {resolver after : Resolver}
include total

theorem push {token : Spanned RawToken} {late : List (Spanned Token)}
    (retained : Retained tokens ready resolver.stack)
    (pushed : resolver.push table token = (after, .ok late)) :
    Retained (tokens ++ [token]) (ready ++ late) after.stack := by
  have shape := resolver.push_cases total token
  rw [pushed] at shape
  generalize read : token.value = value at shape
  cases shape with
  | number | name => exact retained.operand (by rw [read]; rfl)
  | opening =>
    rw [List.append_nil]
    exact (retained.opened _).bracket (by rw [read]; rfl) (by rw [read]; rfl)
  | waits expect shape =>
    rw [shape] at retained
    exact (retained.release total resolver.operands).waits read
  | ends shape =>
    rw [shape] at retained
    rw [← List.append_assoc]
    exact (retained.release total resolver.operands).passes read _ _
  | closing shape =>
    rw [shape] at retained
    exact (retained.release total resolver.operands).closed.bracket (by rw [read]; rfl)
      (by rw [read]; rfl)

theorem pushAll (taken : Resolver.pushAll table tokens .start = (resolver, .ok ready)) :
    Retained tokens ready resolver.stack := by
  induction tokens using List.reverseRecOn generalizing resolver ready with
  | nil =>
    cases taken
    exact nothing
  | append_singleton tokens token ih =>
    -- What a token does depends on what the ones before it have left, so the last one is split off.
    obtain ⟨middle, early, late, before, pushed, rfl⟩ := Resolver.pushAll_snoc_ok taken
    exact (ih before).push total pushed

/-- At the end of a line all that waits becomes ready. -/
theorem finish {rest : List (Spanned Token)} (retained : Retained tokens ready resolver.stack)
    (finished : (resolver.finish table).2 = .ok rest) :
    Retained tokens (ready ++ rest) [] ∧ (resolver.finish table).1.stack = [] := by
  rcases exists_bracket resolver.stack with ⟨pending, shape⟩ | ⟨pending, opening, base, shape⟩
  · rw [Resolver.finish_waiting total shape] at finished ⊢
    cases finished
    rw [shape, ← List.append_nil (waiting pending)] at retained
    exact ⟨retained.release total resolver.operands, rfl⟩
  · rw [Resolver.finish_bracketed total shape] at finished
    cases finished

end Retained

/-! Nothing else is ready. -/

theorem Token.length_collect (ready : List (Spanned Token)) :
    (collect Token.operand? ready).length + (collect Token.operator? ready).length = ready.length := by
  induction ready using List.reverseRecOn with
  | nil => rfl
  | append_singleton ready token ih =>
    obtain ⟨_ | _ | _, span⟩ := token <;>
    simp [collect, Token.operand?, Token.operator?] at ih ⊢ <;>
    omega

theorem RawToken.length_collect (tokens : List (Spanned RawToken)) :
    (collect RawToken.operand? tokens).length + (collect RawToken.operator? tokens).length +
      countSymbol .leftParen tokens + countSymbol .rightParen tokens = tokens.length := by
  induction tokens using List.reverseRecOn with
  | nil => rfl
  | append_singleton tokens token ih =>
    rw [countSymbol_append, countSymbol_append]
    obtain ⟨_ | _ | (_ | _ | _), span⟩ := token <;>
    simp [collect, RawToken.operand?, RawToken.operator?] at ih ⊢ <;>
    omega

/-- Each token that is not a bracket is ready or waits, and nothing else is ready. -/
theorem Retained.length (retained : Retained tokens ready stack) :
    ready.length + (collect Waiting.operator? stack).length +
      countSymbol .leftParen tokens + countSymbol .rightParen tokens = tokens.length := by
  obtain ⟨same, signs, widened, all⟩ := retained
  have signed := widened.length_eq
  have counted := all.length_eq
  rw [List.length_append] at counted
  rw [← Token.length_collect ready, ← RawToken.length_collect tokens, same]
  omega

/-- By any table that knows every operator, nothing gets lost and nothing doubled on the way into postfix
order, however many tokens have been taken in and whatever operands are missing among them. The numbers
and names are ready in their order and at their places. Each operator is ready, with a span around its
sign, or waits at its sign. The brackets that wait are those left open, and no bracket is ever ready. If
the line may end here, all is ready and nothing waits. -/
theorem pushAll_retained {table : PrecedenceTable} (total : table.Total)
    {tokens : List (Spanned RawToken)} {resolver : Resolver} {ready : List (Spanned Token)}
    (taken : Resolver.pushAll table tokens .start = (resolver, .ok ready)) :
    Retained tokens ready resolver.stack ∧
      bracketsOn resolver.stack = openBrackets tokens ∧
      ready.length + (collect Waiting.operator? resolver.stack).length +
        countSymbol .leftParen tokens + countSymbol .rightParen tokens = tokens.length ∧
      ∀ rest, (resolver.finish table).2 = .ok rest →
        Retained tokens (ready ++ rest) [] ∧ (resolver.finish table).1.stack = [] := by
  have retained := Retained.pushAll total taken
  exact ⟨retained, (Resolver.tracks_pushAll total taken).brackets, retained.length,
    fun rest finished => retained.finish total finished⟩

/-- In `%;a*(b)` the first print sign has no operand and the product waits until the line ends. -/
theorem pushAll_retained_product :
    let tokens : List (Spanned RawToken) := [⟨.symbol (.operator .print), ⟨0, 1⟩⟩,
      ⟨.symbol (.operator .semicolon), ⟨1, 2⟩⟩, ⟨.name 0, ⟨2, 3⟩⟩,
      ⟨.symbol (.operator (.arithmetic .mul)), ⟨3, 4⟩⟩, ⟨.symbol .leftParen, ⟨4, 5⟩⟩,
      ⟨.name 1, ⟨5, 6⟩⟩, ⟨.symbol .rightParen, ⟨6, 7⟩⟩]
    let ready : List (Spanned Token) := [⟨.operator .print, ⟨0, 1⟩⟩,
      ⟨.operator .semicolon, ⟨0, 2⟩⟩, ⟨.name 0, ⟨2, 3⟩⟩, ⟨.name 1, ⟨5, 6⟩⟩]
    Retained tokens ready [⟨.operator (.arithmetic .mul), ⟨3, 4⟩⟩] ∧
      Retained tokens (ready ++ [⟨.operator (.arithmetic .mul), ⟨2, 7⟩⟩]) [] := by
  intro tokens ready
  have taken : Resolver.pushAll .standard tokens .start =
      (⟨.operator, [⟨.operator (.arithmetic .mul), ⟨3, 4⟩⟩], [⟨4, 7⟩, ⟨2, 3⟩, ⟨0, 2⟩]⟩,
        .ok ready) := rfl
  obtain ⟨retained, -, -, ends⟩ := pushAll_retained PrecedenceTable.standard_total taken
  exact ⟨retained, (ends _ rfl).1⟩

end LineCalc
