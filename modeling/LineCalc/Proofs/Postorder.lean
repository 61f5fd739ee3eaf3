import LineCalc.Proofs.Phrase
import LineCalc.Proofs.Release

/-!
A line that is written with enough brackets is reordered into the postorder of its tree. While an
expression is taken in, whatever waits below it stays untouched; behind it there wait, on top of
that, just those operators that its tokens so far lack of its postorder.
-/

namespace LineCalc

/-- An operand with its handle, as far as reordering is concerned. -/
inductive Operand where
  | number (value : Number)
  | name (handle : Handle)
deriving DecidableEq

def Operand.raw : Operand → RawToken
  | number value => .number value
  | name handle => .name handle

def Operand.token : Operand → Token
  | number value => .number value
  | name handle => .name handle

/-- A table in which expressions have one reading: it knows every operator, operators between
operands group to the same side if they bind equally, printing groups to the right and binds tightest,
and the end of a statement binds loosest. -/
structure PrecedenceTable.Graded (table : PrecedenceTable) : Prop where
  total : table.Total
  sides : ∀ a b : Dyadic,
    (total.rule a.operator).precedence = (total.rule b.operator).precedence →
    (total.rule a.operator).associativity = (total.rule b.operator).associativity
  printRight : (total.rule .print).associativity = .right
  printTightest : ∀ a : Dyadic,
    (total.rule a.operator).precedence < (total.rule .print).precedence
  semicolonLoosest : ∀ op, op ≠ .semicolon →
    (total.rule .semicolon).precedence < (total.rule op).precedence

theorem PrecedenceTable.standard_graded : standard.Graded where
  total := standard_total
  sides := by rintro (_ | (_ | _ | _ | _)) (_ | (_ | _ | _ | _)) <;> decide
  printRight := rfl
  printTightest := by rintro (_ | (_ | _ | _ | _)) <;> decide
  semicolonLoosest := by rintro (_ | (_ | _ | _ | _) | _ | _) waits <;> first | decide | contradiction

theorem Rule.appliesBefore_iff {waiting incoming : Rule} :
    waiting.appliesBefore incoming = true ↔ incoming.precedence < waiting.precedence ∨
      waiting.precedence = incoming.precedence ∧ incoming.associativity = .left := by
  unfold appliesBefore
  split
  next same => simp [same]
  next different => simp [different]

/-! The operators outside of brackets are those that an expression shows to its neighbours. -/

/-- The operators of an expression that stand outside of brackets. -/
def Phrase.exposed {α : Type} : Phrase α → List Operator
  | .operand _ | .brackets _ => []
  | .binary op left right => left.exposed ++ op.operator :: right.exposed
  | .printBefore phrase | .printAfter phrase => .print :: phrase.exposed

variable {α : Type} {table : PrecedenceTable}

theorem Phrase.exposed_print : ∀ {phrase : Phrase α} {rules : Operator → Rule},
    phrase.bracketed rules = true → phrase.root? = none →
    ∀ op ∈ phrase.exposed, op = .print
  | .operand _, _, _, _, _, member => by simp [exposed] at member
  | .brackets _, _, _, _, _, member => by simp [exposed] at member
  | .binary _ _ _, _, _, bare, _, _ => by simp [root?] at bare
  | .printBefore phrase, rules, bracketed, _, op, member => by
    simp only [Phrase.bracketed, Bool.and_eq_true, Option.isNone_iff_eq_none] at bracketed
    rcases List.mem_cons.mp member with same | inside
    · exact same
    · exact exposed_print bracketed.2 bracketed.1 op inside
  | .printAfter phrase, rules, bracketed, _, op, member => by
    simp only [Phrase.bracketed, Bool.and_eq_true, Option.isNone_iff_eq_none] at bracketed
    rcases List.mem_cons.mp member with same | inside
    · exact same
    · exact exposed_print bracketed.2 bracketed.1 op inside

theorem Phrase.exposed_kind : ∀ {phrase : Phrase α},
    ∀ op ∈ phrase.exposed, op = .print ∨ ∃ between : Dyadic, op = between.operator
  | .operand _, _, member => by simp [exposed] at member
  | .brackets _, _, member => by simp [exposed] at member
  | .binary between left right, op, member => by
    rcases List.mem_append.mp member with inside | inside
    · exact exposed_kind op inside
    · rcases List.mem_cons.mp inside with same | inside
      · exact .inr ⟨between, same⟩
      · exact exposed_kind op inside
  | .printBefore phrase, op, member => by
    rcases List.mem_cons.mp member with same | inside
    · exact .inl same
    · exact exposed_kind op inside
  | .printAfter phrase, op, member => by
    rcases List.mem_cons.mp member with same | inside
    · exact .inl same
    · exact exposed_kind op inside

theorem Phrase.exposed_ne_semicolon {phrase : Phrase α} :
    ∀ op ∈ phrase.exposed, op ≠ .semicolon := by
  intro op member
  rcases exposed_kind op member with rfl | ⟨_ | _, rfl⟩ <;> simp [Dyadic.operator]

namespace PrecedenceTable.Graded

variable (graded : table.Graded)
include graded

/-- No exposed operator binds looser than an operator that every bare operation may stand next to. -/
theorem exposed_precedence : ∀ {phrase : Phrase α} (outer : Dyadic),
    phrase.bracketed graded.total.rule = true →
    (∀ root, phrase.root? = some root → (graded.total.rule outer.operator).precedence ≤
      (graded.total.rule root.operator).precedence) →
    ∀ op ∈ phrase.exposed,
      (graded.total.rule outer.operator).precedence ≤ (graded.total.rule op).precedence
  | .binary root left right, outer, bracketed, loose, op, member => by
    simp only [Phrase.bracketed, Bool.and_eq_true, Option.all_eq_true] at bracketed
    obtain ⟨⟨⟨leftBare, rightBare⟩, leftBracketed⟩, rightBracketed⟩ := bracketed
    refine Int.le_trans (loose root rfl) ?_
    rcases List.mem_append.mp member with inside | inside
    · refine exposed_precedence root leftBracketed (fun inner found => ?_) op inside
      have bound := leftBare inner found
      simp only [Rule.mayStandLeft, Bool.or_eq_true, decide_eq_true_eq] at bound
      omega
    · rcases List.mem_cons.mp inside with rfl | inside
      · exact Int.le_refl _
      · refine exposed_precedence root rightBracketed (fun inner found => ?_) op inside
        have bound := rightBare inner found
        simp only [Rule.mayStandRight, Bool.or_eq_true, decide_eq_true_eq] at bound
        omega
  | .operand _, _, _, _, _, member => by simp [Phrase.exposed] at member
  | .brackets _, _, _, _, _, member => by simp [Phrase.exposed] at member
  | .printBefore _, outer, bracketed, _, op, member => by
    rw [Phrase.exposed_print bracketed rfl op member]
    exact Int.le_of_lt (graded.printTightest outer)
  | .printAfter _, outer, bracketed, _, op, member => by
    rw [Phrase.exposed_print bracketed rfl op member]
    exact Int.le_of_lt (graded.printTightest outer)

/-- What a left operand exposes has to leave before its operator. -/
theorem applies_left {op : Dyadic} {left : Phrase α}
    (bracketed : left.bracketed graded.total.rule = true)
    (bare : ∀ inner, left.root? = some inner →
      (graded.total.rule inner.operator).mayStandLeft (graded.total.rule op.operator) = true)
    {inside : Operator} (member : inside ∈ left.exposed) :
    (graded.total.rule inside).appliesBefore (graded.total.rule op.operator) = true := by
  simp only [Rule.mayStandLeft, Bool.or_eq_true, decide_eq_true_eq] at bare
  have bound := graded.exposed_precedence op bracketed
    (fun root found => by have := bare root found; omega) inside member
  rw [Rule.appliesBefore_iff]
  cases found : left.root? with
  | none =>
    rw [Phrase.exposed_print bracketed found inside member]
    exact .inl (graded.printTightest op)
  | some root =>
    rcases bare root found with tighter | ⟨-, side⟩
    · exact .inl (Int.lt_of_lt_of_le tighter (graded.exposed_precedence root bracketed
        (fun other same => by rw [found] at same; cases same; exact Int.le_refl _) inside member))
    · rcases Int.lt_or_eq_of_le bound with tighter | even
      · exact .inl tighter
      · exact .inr ⟨even.symm, side⟩

/-- An operator waits while its right operand brings in what it exposes. -/
theorem not_applies_right {op : Dyadic} {right : Phrase α}
    (bracketed : right.bracketed graded.total.rule = true)
    (bare : ∀ inner, right.root? = some inner →
      (graded.total.rule inner.operator).mayStandRight (graded.total.rule op.operator) = true)
    {inside : Operator} (member : inside ∈ right.exposed) :
    (graded.total.rule op.operator).appliesBefore (graded.total.rule inside) = false := by
  simp only [Rule.mayStandRight, Bool.or_eq_true, decide_eq_true_eq] at bare
  have bound := graded.exposed_precedence op bracketed
    (fun root found => by have := bare root found; omega) inside member
  rw [← Bool.not_eq_true, Rule.appliesBefore_iff]
  rintro (looser | ⟨even, side⟩)
  · omega
  · rcases Phrase.exposed_kind inside member with rfl | ⟨between, rfl⟩
    · have tightest := graded.printTightest op
      omega
    · have same := graded.sides op between even
      cases found : right.root? with
      | none =>
        have print := Phrase.exposed_print bracketed found _ member
        cases between <;> cases print
      | some root =>
        have above := graded.exposed_precedence root bracketed
          (fun other again => by rw [found] at again; cases again; exact Int.le_refl _) _ member
        rcases bare root found with tighter | ⟨-, right⟩
        · omega
        · rw [same, side] at right
          cases right

theorem not_applies_print {op : Operator} (kind : op = .print ∨ ∃ a : Dyadic, op = a.operator) :
    (graded.total.rule op).appliesBefore (graded.total.rule .print) = false := by
  rw [← Bool.not_eq_true, Rule.appliesBefore_iff, graded.printRight]
  rintro (looser | ⟨-, side⟩)
  · rcases kind with rfl | ⟨a, rfl⟩
    · omega
    · have tightest := graded.printTightest a
      omega
  · cases side

theorem applies_semicolon {op : Operator} (waits : op ≠ .semicolon) :
    (graded.total.rule op).appliesBefore (graded.total.rule .semicolon) = true :=
  Rule.appliesBefore_iff.mpr (.inl (graded.semicolonLoosest op waits))

end PrecedenceTable.Graded

namespace Resolver

/-- Taking the tokens in where a value is expected brings out some of `order` and leaves the rest of
it, operators taken from `shown`, waiting on top of a stack that is otherwise as before. -/
def Yields (table : PrecedenceTable) (tokens : List (Spanned RawToken))
    (base : List (Spanned Waiting)) (operands : List Span) (shown : List Operator)
    (order : List Token) : Prop :=
  ∃ pending after ready,
    pushAll table tokens ⟨.value, base, operands⟩ =
      (⟨.operator, waiting pending ++ base, after⟩, .ok ready) ∧
    (∀ entry ∈ pending, entry.value ∈ shown) ∧
    ready.map Spanned.value ++ emitted pending = order

theorem pushAll_nil (resolver : Resolver) : pushAll table [] resolver = (resolver, .ok []) := rfl

theorem pushAll_cons {token : Spanned RawToken} {before middle after : Resolver}
    {early late : List (Spanned Token)} {later : List (Spanned RawToken)}
    (pushed : before.push table token = (middle, .ok early))
    (rest : pushAll table later middle = (after, .ok late)) :
    pushAll table (token :: later) before = (after, .ok (early ++ late)) := by
  simp [pushAll, pushed, rest, Except.map]

theorem pushAll_trans {first second : List (Spanned RawToken)} {before middle after : Resolver}
    {early late : List (Spanned Token)}
    (pushed : pushAll table first before = (middle, .ok early))
    (rest : pushAll table second middle = (after, .ok late)) :
    pushAll table (first ++ second) before = (after, .ok (early ++ late)) := by
  simp [pushAll_append pushed, rest, Except.map]

theorem pushAll_single {token : Spanned RawToken} {before after : Resolver}
    {ready : List (Spanned Token)} (pushed : before.push table token = (after, .ok ready)) :
    pushAll table [token] before = (after, .ok ready) := by
  rw [pushAll_cons pushed (pushAll_nil after), List.append_nil]

theorem pushAll_snoc {tokens : List (Spanned RawToken)} {token : Spanned RawToken}
    {before middle after : Resolver} {early late : List (Spanned Token)}
    (taken : pushAll table tokens before = (middle, .ok early))
    (pushed : middle.push table token = (after, .ok late)) :
    pushAll table (tokens ++ [token]) before = (after, .ok (early ++ late)) :=
  pushAll_trans taken (pushAll_single pushed)

theorem push_closing (total : table.Total) (opening closing : Span) (base : List (Spanned Waiting))
    (pending : List (Spanned Operator)) (operands : List Span) :
    push table ⟨.operator, waiting pending ++ ⟨.bracket, opening⟩ :: base, operands⟩
        ⟨.symbol .rightParen, closing⟩ =
      (⟨.operator, base, widened opening closing (total.emitAll pending operands).2⟩,
        .ok (total.emitAll pending operands).1) := by
  simp [push, Resolver.after, total.releaseBracket_waiting closing opening base pending operands]

/-- An operator that releases all that waits above `base` comes to wait there itself. -/
theorem push_releasing (total : table.Total) {op : Operator} (waits : op ≠ .semicolon)
    {base : List (Spanned Waiting)} (holds : total.Holds op base)
    {pending : List (Spanned Operator)}
    (tight : ∀ entry ∈ pending,
      (total.rule entry.value).appliesBefore (total.rule op) = true)
    (expect : Expect) (operands : List Span) (span : Span) :
    ∃ after ready, pushOperator table ⟨expect, waiting pending ++ base, operands⟩ op span =
        (⟨expect, ⟨.operator op, span⟩ :: base, after⟩, .ok ready) ∧
      ready.map Spanned.value = emitted pending := by
  have released := total.releaseFor_waiting holds tight operands
  have pushed :=
    pushOperator_waiting ⟨expect, waiting pending ++ base, operands⟩ waits released rfl span
  exact ⟨_, _, pushed, total.emitAll_values pending operands⟩

/-- A semicolon brings out all that waits down to the innermost bracket, and itself. -/
theorem push_semicolon (graded : table.Graded) {base : List (Spanned Waiting)}
    (holds : graded.total.Holds .semicolon base) {pending : List (Spanned Operator)}
    (waits : ∀ entry ∈ pending, entry.value ≠ .semicolon) (expect : Expect)
    (operands : List Span) (span : Span) :
    ∃ after ready,
      push table ⟨expect, waiting pending ++ base, operands⟩
        ⟨.symbol (.operator .semicolon), span⟩ = (⟨.value, base, after⟩, .ok ready) ∧
      ready.map Spanned.value = emitted pending ++ [.operator .semicolon] := by
  have released := graded.total.releaseFor_waiting holds
    (fun entry member => graded.applies_semicolon (waits entry member)) operands
  have pushed := pushOperator_semicolon graded.total ⟨.value, waiting pending ++ base, operands⟩
    released rfl span
  refine ⟨_, _, by cases expect <;> exact pushed, ?_⟩
  rw [List.map_append, graded.total.emitAll_values]
  rfl

theorem holds_print (graded : table.Graded) {pending : List (Spanned Operator)}
    (prints : ∀ entry ∈ pending, entry.value = .print) {base : List (Spanned Waiting)}
    (holds : graded.total.Holds .print base) :
    graded.total.Holds .print (waiting pending ++ base) := by
  cases pending with
  | nil => exact holds
  | cons entry later =>
    refine graded.total.holds_operator ?_
    rw [prints entry List.mem_cons_self]
    exact graded.not_applies_print (.inl rfl)

/-- Among print signs the order does not show. -/
theorem emitted_print {pending : List (Spanned Operator)} {span : Span}
    (prints : ∀ entry ∈ pending, entry.value = .print) :
    emitted (⟨.print, span⟩ :: pending) = emitted pending ++ [.operator .print] := by
  have same : emitted pending = List.replicate pending.length (.operator .print) := by
    refine List.eq_replicate_iff.mpr ⟨by simp [emitted], fun token member => ?_⟩
    obtain ⟨entry, inside, rfl⟩ := List.mem_map.mp member
    rw [prints entry inside]
  rw [same, ← List.replicate_succ', List.replicate_succ, ← same]
  rfl

/-- What stands between brackets yields its postorder on top of the opening one. -/
def SeriesYields (table : PrecedenceTable) (operand : α → Operand) (series : Series α) : Prop :=
  ∀ ⦃tokens : List (Spanned RawToken)⦄,
    tokens.map Spanned.value = series.written (fun value => (operand value).raw) .symbol →
    ∀ (opening : Span) (below : List (Spanned Waiting)) (operands : List Span),
    ∃ shown, Yields table tokens (⟨.bracket, opening⟩ :: below) operands shown
      (series.postorder (fun value => (operand value).token) .operator)

section Yields

variable (operand : α → Operand) (graded : table.Graded)

/-- An expression yields its postorder on top of any stack that lets what it exposes in. -/
def PhraseYields (phrase : Phrase α) : Prop :=
  ∀ ⦃tokens : List (Spanned RawToken)⦄,
    tokens.map Spanned.value = phrase.written (fun value => (operand value).raw) .symbol →
    ∀ ⦃base : List (Spanned Waiting)⦄,
    (∀ op ∈ phrase.exposed, graded.total.Holds op base) → ∀ operands : List Span,
    Yields table tokens base operands phrase.exposed
      (phrase.postorder (fun value => (operand value).token) .operator)

variable {operand graded}

theorem yields_operand (value : α) : PhraseYields operand graded (.operand value) := by
  intro tokens written base _ operands
  rw [Phrase.written] at written
  obtain ⟨span, rfl⟩ := Spanned.exists_of_values_singleton written
  refine ⟨[], span :: operands, [⟨(operand value).token, span⟩], ?_, by simp, rfl⟩
  cases operand value <;> rfl

theorem yields_binary {op : Dyadic} {left right : Phrase α}
    (bracketed : (Phrase.binary op left right).bracketed graded.total.rule = true)
    (leftYields : PhraseYields operand graded left)
    (rightYields : PhraseYields operand graded right) :
    PhraseYields operand graded (.binary op left right) := by
  intro tokens written base holds operands
  simp only [Phrase.bracketed, Bool.and_eq_true, Option.all_eq_true] at bracketed
  obtain ⟨⟨⟨leftBare, rightBare⟩, leftBracketed⟩, rightBracketed⟩ := bracketed
  obtain ⟨first, rest, rfl, leftWritten, restWritten⟩ := List.map_eq_append_iff.mp written
  obtain ⟨span, second, rfl, rightWritten⟩ := Spanned.exists_of_values_cons restWritten
  obtain ⟨leftPending, leftAfter, leftReady, leftPushed, leftShown, leftOrder⟩ :=
    leftYields leftWritten (fun inside member => holds inside (List.mem_append_left _ member))
      operands
  have waits : op.operator ≠ .semicolon := by cases op <;> simp [Dyadic.operator]
  -- The operator releases what its left operand left waiting, and nothing below.
  obtain ⟨signAfter, signReady, signPushed, signValues⟩ :=
    push_releasing graded.total waits
      (holds op.operator (List.mem_append_right _ List.mem_cons_self))
      (fun entry member => graded.applies_left leftBracketed leftBare (leftShown entry member))
      .value leftAfter span
  have signTaken : push table ⟨.operator, waiting leftPending ++ base, leftAfter⟩
      ⟨.symbol (.operator op.operator), span⟩ =
        (⟨.value, ⟨.operator op.operator, span⟩ :: base, signAfter⟩, .ok signReady) := by
    cases op <;> exact signPushed
  obtain ⟨rightPending, rightAfter, rightReady, rightPushed, rightShown, rightOrder⟩ :=
    rightYields rightWritten
      (fun inside member => graded.total.holds_operator
        (graded.not_applies_right rightBracketed rightBare member)) signAfter
  refine ⟨rightPending ++ [⟨op.operator, span⟩], rightAfter,
    leftReady ++ (signReady ++ rightReady), ?_, ?_, ?_⟩
  · have whole := pushAll_trans leftPushed (pushAll_cons signTaken rightPushed)
    simpa [waiting, Spanned.map] using whole
  · intro entry member
    rcases List.mem_append.mp member with inside | last
    · exact List.mem_append_right _ (List.mem_cons_of_mem _ (rightShown entry inside))
    · rw [List.mem_singleton.mp last]
      exact List.mem_append_right _ List.mem_cons_self
  · simp [Phrase.postorder, ← leftOrder, ← rightOrder, signValues, emitted]

theorem yields_printBefore {phrase : Phrase α}
    (bracketed : (Phrase.printBefore phrase).bracketed graded.total.rule = true)
    (yields : PhraseYields operand graded phrase) :
    PhraseYields operand graded (.printBefore phrase) := by
  intro tokens written base holds operands
  have exposed := Phrase.exposed_print bracketed rfl
  obtain ⟨span, later, rfl, inside⟩ := Spanned.exists_of_values_cons written
  obtain ⟨signAfter, signReady, signPushed, signValues⟩ :=
    push_releasing graded.total (by simp) (holds .print List.mem_cons_self)
      (List.forall_mem_nil _) .value operands span
  have signTaken : push table ⟨.value, base, operands⟩ ⟨.symbol (.operator .print), span⟩ =
      (⟨.value, ⟨.operator .print, span⟩ :: base, signAfter⟩, .ok signReady) := signPushed
  have holdsInside : ∀ op ∈ phrase.exposed,
      graded.total.Holds op (⟨.operator .print, span⟩ :: base) := by
    intro op member
    apply graded.total.holds_operator
    rw [exposed op (List.mem_cons_of_mem _ member)]
    exact graded.not_applies_print (.inl rfl)
  obtain ⟨pending, after, ready, pushed, shown, order⟩ := yields inside holdsInside signAfter
  refine ⟨pending ++ [⟨.print, span⟩], after, signReady ++ ready, ?_, ?_, ?_⟩
  · have whole := pushAll_cons signTaken pushed
    simpa [waiting, Spanned.map] using whole
  · intro entry member
    rcases List.mem_append.mp member with inside | last
    · exact List.mem_cons_of_mem _ (shown entry inside)
    · rw [List.mem_singleton.mp last]
      exact List.mem_cons_self
  · simp [Phrase.postorder, ← order, List.map_eq_nil_iff.mp signValues, emitted]

theorem yields_printAfter {phrase : Phrase α}
    (bracketed : (Phrase.printAfter phrase).bracketed graded.total.rule = true)
    (yields : PhraseYields operand graded phrase) :
    PhraseYields operand graded (.printAfter phrase) := by
  intro tokens written base holds operands
  have exposed := Phrase.exposed_print bracketed rfl
  obtain ⟨first, rest, rfl, inside, restWritten⟩ := List.map_eq_append_iff.mp written
  obtain ⟨span, rfl⟩ := Spanned.exists_of_values_singleton restWritten
  obtain ⟨pending, after, ready, pushed, shown, order⟩ :=
    yields inside (fun op member => holds op (List.mem_cons_of_mem _ member)) operands
  -- Only print signs wait, and none of them leaves before another one.
  have prints : ∀ entry ∈ pending, entry.value = .print :=
    fun entry member => exposed _ (List.mem_cons_of_mem _ (shown entry member))
  obtain ⟨signAfter, signReady, signPushed, signValues⟩ :=
    push_releasing graded.total (by simp)
      (holds_print graded prints (holds .print List.mem_cons_self))
      (List.forall_mem_nil _) .operator after span
  have signTaken : push table ⟨.operator, waiting pending ++ base, after⟩
      ⟨.symbol (.operator .print), span⟩ =
        (⟨.operator, ⟨.operator .print, span⟩ :: (waiting pending ++ base), signAfter⟩,
          .ok signReady) := signPushed
  refine ⟨⟨.print, span⟩ :: pending, signAfter, ready ++ signReady, ?_, ?_, ?_⟩
  · exact pushAll_snoc pushed signTaken
  · intro entry member
    rcases List.mem_cons.mp member with rfl | inside
    · exact List.mem_cons_self
    · exact List.mem_cons_of_mem _ (shown entry inside)
  · simp [Phrase.postorder, ← order, List.map_eq_nil_iff.mp signValues,
      emitted_print prints]

theorem yields_brackets {series : Series α} (yields : SeriesYields table operand series) :
    PhraseYields operand graded (.brackets series) := by
  intro tokens written base holds operands
  obtain ⟨opening, rest, rfl, restWritten⟩ := Spanned.exists_of_values_cons written
  obtain ⟨middle, last, rfl, insideWritten, lastWritten⟩ := List.map_eq_append_iff.mp restWritten
  obtain ⟨closing, rfl⟩ := Spanned.exists_of_values_singleton lastWritten
  obtain ⟨shown, pending, after, ready, pushed, -, order⟩ :=
    yields insideWritten opening base operands
  have values := graded.total.emitAll_values pending after
  have opened : push table ⟨.value, base, operands⟩ ⟨.symbol .leftParen, opening⟩ =
      (⟨.value, ⟨.bracket, opening⟩ :: base, operands⟩, .ok []) := rfl
  have closed := push_closing graded.total opening closing base pending after
  refine ⟨[], widened opening closing (graded.total.emitAll pending after).2,
    ready ++ (graded.total.emitAll pending after).1, ?_, by simp, ?_⟩
  · have whole := pushAll_cons opened (pushAll_snoc pushed closed)
    simpa [waiting] using whole
  · simp [Phrase.postorder, ← order, values, emitted]

theorem yields_empty (graded : table.Graded) {later : Series α}
    (yields : SeriesYields table operand later) :
    SeriesYields table operand (.empty later) := by
  intro tokens written opening below operands
  obtain ⟨span, rest, rfl, laterWritten⟩ := Spanned.exists_of_values_cons written
  obtain ⟨ended, early, ends, values⟩ := push_semicolon graded
    (graded.total.holds_bracket .semicolon opening below) (List.forall_mem_nil _)
    .value operands span
  obtain ⟨shown, pending, after, ready, pushed, among, order⟩ :=
    yields laterWritten opening below ended
  refine ⟨shown, pending, after, early ++ ready, pushAll_cons ends pushed, among, ?_⟩
  simp [Series.postorder, values, ← order, emitted]

theorem yields_statement {phrase : Phrase α} {later : Series α}
    (phraseYields : PhraseYields operand graded phrase)
    (yields : SeriesYields table operand later) :
    SeriesYields table operand (.statement phrase later) := by
  intro tokens written opening below operands
  obtain ⟨first, rest, rfl, firstWritten, restWritten⟩ := List.map_eq_append_iff.mp written
  obtain ⟨span, second, rfl, laterWritten⟩ := Spanned.exists_of_values_cons restWritten
  obtain ⟨waits, stop, first, taken, exposed, firstOrder⟩ :=
    phraseYields firstWritten (fun op _ => graded.total.holds_bracket op opening below) operands
  obtain ⟨ended, early, ends, values⟩ := push_semicolon graded
    (graded.total.holds_bracket .semicolon opening below)
    (fun entry member => Phrase.exposed_ne_semicolon _ (exposed entry member)) .operator stop span
  obtain ⟨shown, pending, after, ready, pushed, among, order⟩ :=
    yields laterWritten opening below ended
  refine ⟨shown, pending, after, first ++ (early ++ ready),
    pushAll_trans taken (pushAll_cons ends pushed), among, ?_⟩
  simp [Series.postorder, values, ← order, ← firstOrder]

variable (operand graded)

mutual

theorem yields_phrase : ∀ phrase : Phrase α, phrase.bracketed graded.total.rule = true →
    PhraseYields operand graded phrase
  | .operand value, _ => yields_operand value
  | .binary op left right, bracketed => by
    have parts := bracketed
    simp only [Phrase.bracketed, Bool.and_eq_true] at parts
    exact yields_binary bracketed (yields_phrase left parts.1.2) (yields_phrase right parts.2)
  | .printBefore phrase, bracketed => by
    have parts := bracketed
    simp only [Phrase.bracketed, Bool.and_eq_true] at parts
    exact yields_printBefore bracketed (yields_phrase phrase parts.2)
  | .printAfter phrase, bracketed => by
    have parts := bracketed
    simp only [Phrase.bracketed, Bool.and_eq_true] at parts
    exact yields_printAfter bracketed (yields_phrase phrase parts.2)
  | .brackets series, bracketed => by
    simp only [Phrase.bracketed] at bracketed
    exact yields_brackets (yields_series series bracketed)

theorem yields_series : ∀ series : Series α, series.bracketed graded.total.rule = true →
    SeriesYields table operand series
  | .last phrase, bracketed => by
    intro tokens written opening below operands
    exact ⟨phrase.exposed, yields_phrase phrase bracketed written
      (fun op _ => graded.total.holds_bracket op opening below) operands⟩
  | .empty later, bracketed => yields_empty graded (yields_series later bracketed)
  | .statement phrase later, bracketed => by
    simp only [Series.bracketed, Bool.and_eq_true] at bracketed
    exact yields_statement (yields_phrase phrase bracketed.1) (yields_series later bracketed.2)

end

end Yields

variable (operand : α → Operand)

theorem pushAll_statement (graded : table.Graded) {statement : Statement α}
    (bracketed : statement.all (Phrase.bracketed graded.total.rule) = true)
    {tokens : List (Spanned RawToken)}
    (written : tokens.map Spanned.value =
      statement.written (fun value => (operand value).raw) .symbol ++
        [.symbol (.operator .semicolon)]) (operands : List Span) :
    ∃ after ready, pushAll table tokens ⟨.value, [], operands⟩ = (⟨.value, [], after⟩, .ok ready) ∧
      ready.map Spanned.value =
        statement.postorder (fun value => (operand value).token) .operator ++
          [.operator .semicolon] := by
  obtain ⟨first, rest, rfl, firstWritten, restWritten⟩ := List.map_eq_append_iff.mp written
  obtain ⟨span, rfl⟩ := Spanned.exists_of_values_singleton restWritten
  cases statement with
  | none =>
    obtain rfl := List.map_eq_nil_iff.mp firstWritten
    obtain ⟨after, ready, ends, values⟩ := push_semicolon graded (graded.total.holds_nil .semicolon)
      (List.forall_mem_nil _) .value operands span
    exact ⟨after, ready, pushAll_single ends, by simp [values, emitted, Statement.postorder]⟩
  | some phrase =>
    obtain ⟨pending, stop, early, taken, exposed, order⟩ :=
      yields_phrase operand graded phrase bracketed firstWritten
        (fun op _ => graded.total.holds_nil op) operands
    obtain ⟨after, ready, ends, values⟩ := push_semicolon graded (graded.total.holds_nil .semicolon)
      (fun entry member => Phrase.exposed_ne_semicolon _ (exposed entry member)) .operator stop span
    refine ⟨after, early ++ ready, pushAll_snoc taken ends, ?_⟩
    simp [Statement.postorder, values, ← order]

theorem pushAll_ended (graded : table.Graded) {ended : List (Statement α)}
    (bracketed : ended.all (·.all (Phrase.bracketed graded.total.rule)) = true)
    {tokens : List (Spanned RawToken)}
    (written : tokens.map Spanned.value = ended.flatMap fun statement =>
      statement.written (fun value => (operand value).raw) .symbol ++
        [.symbol (.operator .semicolon)]) (operands : List Span) :
    ∃ after ready, pushAll table tokens ⟨.value, [], operands⟩ = (⟨.value, [], after⟩, .ok ready) ∧
      ready.map Spanned.value = ended.flatMap fun statement =>
        statement.postorder (fun value => (operand value).token) .operator ++
          [.operator .semicolon] := by
  induction ended generalizing tokens operands with
  | nil =>
    obtain rfl := List.map_eq_nil_iff.mp written
    exact ⟨operands, [], rfl, rfl⟩
  | cons statement later ih =>
    simp only [List.all_cons, Bool.and_eq_true] at bracketed
    obtain ⟨first, rest, rfl, firstWritten, restWritten⟩ := List.map_eq_append_iff.mp written
    obtain ⟨middle, early, taken, firstOrder⟩ :=
      pushAll_statement operand graded bracketed.1 firstWritten operands
    obtain ⟨after, late, takenOn, laterOrder⟩ := ih bracketed.2 restWritten middle
    refine ⟨after, early ++ late, pushAll_trans taken takenOn, ?_⟩
    rw [List.map_append, firstOrder, laterOrder, List.flatMap_cons]

/-- The last statement comes out as a whole at the end of the line. -/
theorem pushAll_last (graded : table.Graded) {statement : Statement α}
    (bracketed : statement.all (Phrase.bracketed graded.total.rule) = true)
    {tokens : List (Spanned RawToken)}
    (written : tokens.map Spanned.value =
      statement.written (fun value => (operand value).raw) .symbol) (operands : List Span) :
    ∃ after ready rest, pushAll table tokens ⟨.value, [], operands⟩ = (after, .ok ready) ∧
      (after.finish table).2 = .ok rest ∧
      (ready ++ rest).map Spanned.value =
        statement.postorder (fun value => (operand value).token) .operator := by
  cases statement with
  | none =>
    obtain rfl := List.map_eq_nil_iff.mp written
    exact ⟨_, [], [], rfl, rfl, rfl⟩
  | some phrase =>
    obtain ⟨pending, stop, ready, taken, -, order⟩ :=
      yields_phrase operand graded phrase bracketed written
        (fun op _ => graded.total.holds_nil op) operands
    have released := graded.total.releaseAll_waiting pending stop
    have values := graded.total.emitAll_values pending stop
    refine ⟨_, ready, (graded.total.emitAll pending stop).1, taken, ?_, ?_⟩
    · simp [finish, Resolver.after, released]
    · simp [Statement.postorder, values, ← order]

/-- A whole line comes out as its postorder, some of it while it is taken in and the rest at its
end. -/
theorem pushAll_passage (graded : table.Graded) {passage : Passage α}
    (bracketed : passage.bracketed graded.total.rule = true) {tokens : List (Spanned RawToken)}
    (written : tokens.map Spanned.value =
      passage.written (fun value => (operand value).raw) .symbol) :
    ∃ after ready rest, pushAll table tokens .start = (after, .ok ready) ∧
      (after.finish table).2 = .ok rest ∧
      (ready ++ rest).map Spanned.value =
        passage.postorder (fun value => (operand value).token) .operator := by
  simp only [Passage.bracketed, Bool.and_eq_true] at bracketed
  obtain ⟨ended, last, rfl, endedWritten, lastWritten⟩ := List.map_eq_append_iff.mp written
  obtain ⟨middle, early, taken, endedOrder⟩ :=
    pushAll_ended operand graded bracketed.1 endedWritten []
  obtain ⟨after, late, rest, takenOn, finished, lastOrder⟩ :=
    pushAll_last operand graded bracketed.2 lastWritten middle
  refine ⟨after, early ++ late, rest, pushAll_trans taken takenOn, finished, ?_⟩
  rw [List.append_assoc, List.map_append, endedOrder, lastOrder]
  rfl

end Resolver

/-- By every graded table, a line with brackets at least where the table needs them is reordered into
its postorder, whatever further brackets it has. -/
theorem reorder_written (graded : table.Graded) {passage : Passage Operand}
    (bracketed : passage.bracketed graded.total.rule = true) {tokens : List (Spanned RawToken)}
    (written : tokens.map Spanned.value = passage.written Operand.raw .symbol) :
    ∃ ready, table.reorder tokens = .ok ready ∧
      ready.map Spanned.value = passage.postorder Operand.token .operator := by
  obtain ⟨after, ready, rest, taken, finished, order⟩ :=
    Resolver.pushAll_passage id graded bracketed written
  refine ⟨ready ++ rest, ?_, order⟩
  simp [PrecedenceTable.reorder, taken, finished, Except.map]

/-- In `x=(;y;%1)*2` the statements between the brackets come out before what is around them ends. -/
theorem reorder_written_nested :
    PrecedenceTable.standard.Graded ∧
    ∃ passage : Passage Operand,
      passage.bracketed PrecedenceTable.standard_graded.total.rule = true ∧
      ∃ tokens : List (Spanned RawToken),
        tokens.map Spanned.value = passage.written Operand.raw .symbol ∧
        ∃ ready, PrecedenceTable.standard.reorder tokens = .ok ready ∧
          ready.map Spanned.value =
            [.name 0, .operator .semicolon, .name 1, .operator .semicolon, .number 1,
              .operator .print, .number 2, .operator (.arithmetic .mul), .operator .equals] := by
  let passage : Passage Operand := ⟨[], some (.binary .equals (.operand (.name 0))
    (.binary (.arithmetic .mul)
      (.brackets (.empty (.statement (.operand (.name 1))
        (.last (.printBefore (.operand (.number 1)))))))
      (.operand (.number 2))))⟩
  have bracketed : passage.bracketed PrecedenceTable.standard_graded.total.rule = true := rfl
  let tokens : List (Spanned RawToken) :=
    (passage.written Operand.raw .symbol).map fun value => ⟨value, ⟨0, 1⟩⟩
  have written : tokens.map Spanned.value = passage.written Operand.raw .symbol := rfl
  exact ⟨PrecedenceTable.standard_graded, passage, bracketed, tokens, written,
    reorder_written PrecedenceTable.standard_graded bracketed written⟩

end LineCalc
