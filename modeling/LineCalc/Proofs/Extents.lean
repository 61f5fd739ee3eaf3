import LineCalc.Proofs.Postorder

/-!
The places of reordered tokens. An operator between two operands covers all that is written from the
start of the first to the end of the second, and so with the brackets around them but not with those
around itself. A print sign covers itself and what it prints, a semicolon its statement.
-/

namespace LineCalc

/-- No place ends before it starts or starts before the places ahead of it have ended. -/
def Spanned.InOrder {α : Type} (items : List (Spanned α)) : Prop :=
  (items.Pairwise fun earlier later => earlier.span.stop ≤ later.span.start) ∧
    ∀ item ∈ items, item.span.start ≤ item.span.stop

theorem Spanned.inOrder_append {α : Type} {first second : List (Spanned α)} :
    InOrder (first ++ second) ↔ InOrder first ∧ InOrder second ∧
      ∀ earlier ∈ first, ∀ later ∈ second, earlier.span.stop ≤ later.span.start := by
  simp only [InOrder, List.pairwise_append, List.mem_append, or_imp, forall_and]
  constructor
  · rintro ⟨⟨front, back, across⟩, frontOwn, backOwn⟩
    exact ⟨⟨front, frontOwn⟩, ⟨back, backOwn⟩, across⟩
  · rintro ⟨⟨front, frontOwn⟩, ⟨back, backOwn⟩, across⟩
    exact ⟨⟨front, back, across⟩, frontOwn, backOwn⟩

theorem Spanned.inOrder_cons {α : Type} {item : Spanned α} {later : List (Spanned α)} :
    InOrder (item :: later) ↔ item.span.start ≤ item.span.stop ∧ InOrder later ∧
      ∀ other ∈ later, item.span.stop ≤ other.span.start := by
  simp only [InOrder, List.pairwise_cons, List.forall_mem_cons]
  constructor
  · rintro ⟨⟨across, back⟩, own, backOwn⟩
    exact ⟨own, ⟨back, backOwn⟩, across⟩
  · rintro ⟨own, ⟨back, backOwn⟩, across⟩
    exact ⟨⟨across, back⟩, own, backOwn⟩

theorem Span.hull_of_ahead {a b : Span} (firstOwn : a.start ≤ a.stop) (secondOwn : b.start ≤ b.stop)
    (ahead : a.stop ≤ b.start) : a.hull b = ⟨a.start, b.stop⟩ := by
  have least : a.start ≤ b.start := Int.le_trans firstOwn ahead
  have greatest : a.stop ≤ b.stop := Int.le_trans ahead secondOwn
  rw [hull, Int.min_eq_left least, Int.max_eq_right greatest]

/-- An expression with the places of its tokens, and without statements between its brackets. -/
inductive Sited where
  | operand (value : Operand) (place : Span)
  | binary (op : Dyadic) (sign : Span) (left right : Sited)
  | printBefore (sign : Span) (operand : Sited)
  | printAfter (operand : Sited) (sign : Span)
  | brackets (opening closing : Span) (inside : Sited)

namespace Sited

def phrase : Sited → Phrase Operand
  | operand value _ => .operand value
  | binary op _ left right => .binary op left.phrase right.phrase
  | printBefore _ inner => .printBefore inner.phrase
  | printAfter inner _ => .printAfter inner.phrase
  | brackets _ _ inside => .brackets (.last inside.phrase)

def tokens : Sited → List (Spanned RawToken)
  | operand value place => [⟨value.raw, place⟩]
  | binary op sign left right =>
    left.tokens ++ ⟨.symbol (.operator op.operator), sign⟩ :: right.tokens
  | printBefore sign inner => ⟨.symbol (.operator .print), sign⟩ :: inner.tokens
  | printAfter inner sign => inner.tokens ++ [⟨.symbol (.operator .print), sign⟩]
  | brackets opening closing inside =>
    ⟨.symbol .leftParen, opening⟩ :: (inside.tokens ++ [⟨.symbol .rightParen, closing⟩])

/-- From the start of the first token of the expression to the end of the last. -/
def extent : Sited → Span
  | operand _ place => place
  | binary _ _ left right => ⟨left.extent.start, right.extent.stop⟩
  | printBefore sign inner => ⟨sign.start, inner.extent.stop⟩
  | printAfter inner sign => ⟨inner.extent.start, sign.stop⟩
  | brackets opening closing _ => ⟨opening.start, closing.stop⟩

/-- The print signs around what they print, in the order in which they are read. -/
def signs : Sited → List Span
  | printBefore sign inner => sign :: inner.signs
  | printAfter inner sign => inner.signs ++ [sign]
  | _ => []

/-- The extent without the print signs around it. -/
def core : Sited → Span
  | printBefore _ inner | printAfter inner _ => inner.core
  | sited => sited.extent

/-- The tokens of print signs that are applied one after the other, each to the operand and the signs
before it. -/
def printed : List Span → Span → List (Spanned Token)
  | [], _ => []
  | sign :: later, inner => ⟨.operator .print, sign.hull inner⟩ :: printed later (sign.hull inner)

/-- The reordered tokens, without those of the print signs around all of the expression. -/
def unsigned : Sited → List (Spanned Token)
  | operand value place => [⟨value.token, place⟩]
  | binary op _ left right =>
    left.unsigned ++ printed left.signs.reverse left.core ++
      (right.unsigned ++ printed right.signs.reverse right.core) ++
      [⟨.operator op.operator, ⟨left.extent.start, right.extent.stop⟩⟩]
  | printBefore _ inner | printAfter inner _ => inner.unsigned
  | brackets _ _ inside => inside.unsigned ++ printed inside.signs.reverse inside.core

/-- The reordered tokens with their places. Signs that print the same are applied from the last one
read to the first. -/
def located (sited : Sited) : List (Spanned Token) :=
  sited.unsigned ++ printed sited.signs.reverse sited.core

theorem tokens_head (sited : Sited) :
    ∃ first later, sited.tokens = first :: later ∧ first.span.start = sited.extent.start := by
  induction sited with
  | operand value place => exact ⟨_, _, rfl, rfl⟩
  | binary op sign left right ihLeft ihRight =>
    obtain ⟨first, later, same, start⟩ := ihLeft
    exact ⟨first, _, by rw [tokens, same, List.cons_append], start⟩
  | printBefore sign inner ih => exact ⟨_, _, rfl, rfl⟩
  | printAfter inner sign ih =>
    obtain ⟨first, later, same, start⟩ := ih
    exact ⟨first, _, by rw [tokens, same, List.cons_append], start⟩
  | brackets opening closing inside ih => exact ⟨_, _, rfl, rfl⟩

theorem tokens_last (sited : Sited) :
    ∃ earlier last, sited.tokens = earlier ++ [last] ∧ last.span.stop = sited.extent.stop := by
  induction sited with
  | operand value place => exact ⟨[], _, rfl, rfl⟩
  | binary op sign left right ihLeft ihRight =>
    obtain ⟨earlier, last, same, stop⟩ := ihRight
    exact ⟨_, last, by rw [tokens, same, ← List.cons_append, ← List.append_assoc], stop⟩
  | printBefore sign inner ih =>
    obtain ⟨earlier, last, same, stop⟩ := ih
    exact ⟨_, last, by rw [tokens, same, ← List.cons_append], stop⟩
  | printAfter inner sign ih => exact ⟨_, _, rfl, rfl⟩
  | brackets opening closing inside ih => exact ⟨_ :: _, _, rfl, rfl⟩

/-- The tokens stand in their order: operands, their signs and brackets do not overlap. -/
def Orderly : Sited → Prop
  | operand _ place => place.start ≤ place.stop
  | binary _ sign left right =>
    left.Orderly ∧ right.Orderly ∧ sign.start ≤ sign.stop ∧
      left.extent.stop ≤ sign.start ∧ sign.stop ≤ right.extent.start
  | printBefore sign inner =>
    inner.Orderly ∧ sign.start ≤ sign.stop ∧ sign.stop ≤ inner.extent.start
  | printAfter inner sign =>
    inner.Orderly ∧ sign.start ≤ sign.stop ∧ inner.extent.stop ≤ sign.start
  | brackets opening closing inside =>
    inside.Orderly ∧ opening.start ≤ opening.stop ∧ closing.start ≤ closing.stop ∧
      opening.stop ≤ inside.extent.start ∧ inside.extent.stop ≤ closing.start

theorem extent_start_mem (sited : Sited) :
    ∃ first ∈ sited.tokens, first.span.start = sited.extent.start := by
  obtain ⟨first, later, same, start⟩ := sited.tokens_head
  exact ⟨first, same ▸ List.mem_cons_self, start⟩

theorem extent_stop_mem (sited : Sited) :
    ∃ last ∈ sited.tokens, last.span.stop = sited.extent.stop := by
  obtain ⟨earlier, last, same, stop⟩ := sited.tokens_last
  exact ⟨last, same ▸ List.mem_append_right _ List.mem_cons_self, stop⟩

theorem orderly (sited : Sited) (inOrder : Spanned.InOrder sited.tokens) : sited.Orderly := by
  induction sited with
  | operand value place => exact inOrder.2 _ List.mem_cons_self
  | binary op sign left right ihLeft ihRight =>
    obtain ⟨leftOrder, rest, ahead⟩ := Spanned.inOrder_append.mp inOrder
    obtain ⟨own, rightOrder, behind⟩ := Spanned.inOrder_cons.mp rest
    obtain ⟨last, lastIn, stop⟩ := left.extent_stop_mem
    obtain ⟨first, firstIn, start⟩ := right.extent_start_mem
    exact ⟨ihLeft leftOrder, ihRight rightOrder, own, stop ▸ ahead last lastIn _ List.mem_cons_self,
      start ▸ behind first firstIn⟩
  | printBefore sign inner ih =>
    obtain ⟨own, rest, behind⟩ := Spanned.inOrder_cons.mp inOrder
    obtain ⟨first, firstIn, start⟩ := inner.extent_start_mem
    exact ⟨ih rest, own, start ▸ behind first firstIn⟩
  | printAfter inner sign ih =>
    obtain ⟨front, own, ahead⟩ := Spanned.inOrder_append.mp inOrder
    obtain ⟨last, lastIn, stop⟩ := inner.extent_stop_mem
    exact ⟨ih front, own.2 _ List.mem_cons_self, stop ▸ ahead last lastIn _ List.mem_cons_self⟩
  | brackets opening closing inside ih =>
    obtain ⟨openingOwn, rest, behind⟩ := Spanned.inOrder_cons.mp inOrder
    obtain ⟨insideOrder, closingOwn, ahead⟩ := Spanned.inOrder_append.mp rest
    obtain ⟨first, firstIn, start⟩ := inside.extent_start_mem
    obtain ⟨last, lastIn, stop⟩ := inside.extent_stop_mem
    exact ⟨ih insideOrder, openingOwn, closingOwn.2 _ List.mem_cons_self,
      start ▸ behind first (List.mem_append_left _ firstIn),
      stop ▸ ahead last lastIn _ List.mem_cons_self⟩

theorem Orderly.extent {sited : Sited} (orderly : sited.Orderly) :
    sited.extent.start ≤ sited.extent.stop := by
  induction sited with
  | operand value place => exact orderly
  | binary op sign left right ihLeft ihRight =>
    obtain ⟨leftOrder, rightOrder, own, before, behind⟩ := orderly
    have leftOwn := ihLeft leftOrder
    have rightOwn := ihRight rightOrder
    simp only [Sited.extent]
    omega
  | printBefore sign inner ih =>
    obtain ⟨innerOrder, own, behind⟩ := orderly
    have innerOwn := ih innerOrder
    simp only [Sited.extent]
    omega
  | printAfter inner sign ih =>
    obtain ⟨innerOrder, own, before⟩ := orderly
    have innerOwn := ih innerOrder
    simp only [Sited.extent]
    omega
  | brackets opening closing inside ih =>
    obtain ⟨insideOrder, openingOwn, closingOwn, behind, before⟩ := orderly
    have insideOwn := ih insideOrder
    simp only [Sited.extent]
    omega

/-- What print signs cover that are applied one after the other. -/
def covered (signs : List Span) (inner : Span) : Span :=
  signs.foldl (fun whole sign => sign.hull whole) inner

theorem covered_hull (signs : List Span) (sign inner : Span) :
    covered signs (sign.hull inner) = sign.hull (covered signs inner) := by
  induction signs generalizing inner with
  | nil => rfl
  | cons first later ih =>
    rw [covered, List.foldl_cons, ← Span.hull_assoc, Span.hull_comm first sign, Span.hull_assoc]
    exact ih _

theorem covered_snoc (signs : List Span) (sign inner : Span) :
    covered (signs ++ [sign]) inner = sign.hull (covered signs inner) :=
  List.foldl_append

/-- In whatever order the signs are applied, the last one covers the whole expression. -/
theorem Orderly.covered_signs {sited : Sited} (orderly : sited.Orderly) :
    covered sited.signs.reverse sited.core = sited.extent := by
  induction sited with
  | operand | binary | brackets => rfl
  | printBefore sign inner ih =>
    obtain ⟨innerOrder, own, behind⟩ := orderly
    have innerOwn := innerOrder.extent
    rw [signs, List.reverse_cons, core, covered_snoc, ih innerOrder]
    exact Span.hull_of_ahead own innerOwn behind
  | printAfter inner sign ih =>
    obtain ⟨innerOrder, own, before⟩ := orderly
    have innerOwn := innerOrder.extent
    rw [signs, List.reverse_append, core, List.reverse_singleton, List.singleton_append]
    change covered inner.signs.reverse (sign.hull inner.core) = _
    rw [covered_hull, ih innerOrder, Span.hull_comm]
    exact Span.hull_of_ahead innerOwn own before

def prints (signs : List Span) : List (Spanned Operator) :=
  signs.map (⟨.print, ·⟩)

theorem emitAll_prints (signs : List Span) (inner : Span) (operands : List Span) :
    PrecedenceTable.standard_total.emitAll (prints signs) (inner :: operands) =
      (printed signs inner, covered signs inner :: operands) := by
  induction signs generalizing inner with
  | nil => rfl
  | cons sign later ih =>
    have rest := ih (sign.hull inner)
    exact Prod.ext (congrArg (List.cons _) (congrArg Prod.fst rest)) (congrArg Prod.snd rest :)

theorem print_exposed {sited : Sited} (signed : sited.signs ≠ []) : .print ∈ sited.phrase.exposed := by
  cases sited with
  | operand | binary | brackets => exact absurd rfl signed
  | printBefore | printAfter => exact List.mem_cons_self

end Sited

namespace Sited

open PrecedenceTable (standard standard_total standard_graded)

/-- The expression is taken in with nothing but the print signs around it left to wait, on top of a
stack that is otherwise as before. -/
def Stacks (sited : Sited) (base : List (Spanned Waiting)) (operands : List Span) : Prop :=
  Resolver.pushAll standard sited.tokens ⟨.value, base, operands⟩ =
    (⟨.operator, waiting (prints sited.signs.reverse) ++ base, sited.core :: operands⟩,
      .ok sited.unsigned)

/-- The expression is taken in, and what is left to wait completes its tokens. -/
def Settles (sited : Sited) (base : List (Spanned Waiting)) (operands : List Span) : Prop :=
  ∃ pending after ready,
    Resolver.pushAll standard sited.tokens ⟨.value, base, operands⟩ =
      (⟨.operator, waiting pending ++ base, after⟩, .ok ready) ∧
    (∀ entry ∈ pending, entry.value ∈ sited.phrase.exposed) ∧
    ready ++ (standard_total.emitAll pending after).1 = sited.located ∧
    (standard_total.emitAll pending after).2 = sited.extent :: operands

variable {sited : Sited} {base : List (Spanned Waiting)} {operands : List Span}

theorem Stacks.settles (stacked : sited.Stacks base operands) (orderly : sited.Orderly) :
    sited.Settles base operands := by
  have emits := emitAll_prints sited.signs.reverse sited.core operands
  refine ⟨prints sited.signs.reverse, sited.core :: operands, sited.unsigned, stacked, ?_, ?_, ?_⟩
  · intro entry member
    obtain ⟨sign, inside, rfl⟩ := List.mem_map.mp member
    exact print_exposed (List.ne_nil_of_mem (List.mem_reverse.mp inside))
  · rw [emits]
    rfl
  · rw [emits, orderly.covered_signs]

theorem push_print (expect : Expect) (stack : List (Spanned Waiting)) (operands : List Span)
    (span : Span) :
    Resolver.push standard ⟨expect, stack, operands⟩ ⟨.symbol (.operator .print), span⟩ =
      (⟨expect, ⟨.operator .print, span⟩ :: stack, operands⟩, .ok []) := by
  have holds : standard_total.Holds .print stack := by
    intro op span below same
    exact PrecedenceTable.standard_before_print op
  have pushed := Resolver.pushOperator_waiting ⟨expect, stack, operands⟩ (by simp)
    (holds.releaseFor_eq operands) rfl span
  cases expect <;> exact pushed

theorem stacks_operand (value : Operand) (place : Span) (base : List (Spanned Waiting))
    (operands : List Span) : (operand value place).Stacks base operands := by
  cases value <;> rfl

theorem stacks_printBefore {sign : Span} {inner : Sited}
    (stacked : inner.Stacks (⟨.operator .print, sign⟩ :: base) operands) :
    (printBefore sign inner).Stacks base operands := by
  have whole := Resolver.pushAll_cons (push_print .value base operands sign) stacked
  rw [Stacks, tokens, whole]
  simp [signs, prints, waiting, Spanned.map, core, unsigned]

theorem stacks_printAfter {sign : Span} {inner : Sited} (stacked : inner.Stacks base operands) :
    (printAfter inner sign).Stacks base operands := by
  have whole := Resolver.pushAll_snoc stacked (push_print .operator _ _ sign)
  rw [Stacks, tokens, whole]
  simp [signs, prints, waiting, Spanned.map, core, unsigned]

theorem stacks_brackets {opening closing : Span} {inside : Sited}
    (orderly : (brackets opening closing inside).Orderly)
    (settles : inside.Settles (⟨.bracket, opening⟩ :: base) operands) :
    (brackets opening closing inside).Stacks base operands := by
  obtain ⟨pending, after, ready, pushed, -, order, spans⟩ := settles
  obtain ⟨insideOrder, openingOwn, closingOwn, behind, before⟩ := orderly
  have insideOwn := insideOrder.extent
  have closed := Resolver.push_closing standard_total opening closing base pending after
  rw [spans] at closed
  have opened : Resolver.push standard ⟨.value, base, operands⟩ ⟨.symbol .leftParen, opening⟩ =
      (⟨.value, ⟨.bracket, opening⟩ :: base, operands⟩, .ok []) := rfl
  have front := Span.hull_of_ahead openingOwn insideOwn behind
  have frontOwn : opening.start ≤ inside.extent.stop := by omega
  have around : (inside.extent.hull opening).hull closing = ⟨opening.start, closing.stop⟩ := by
    rw [Span.hull_comm inside.extent, front]
    exact Span.hull_of_ahead frontOwn closingOwn before
  have whole := Resolver.pushAll_cons opened (Resolver.pushAll_snoc pushed closed)
  rw [Stacks, tokens, whole, widened, around, List.nil_append, order]
  rfl

theorem emitAll_dyadic (op : Dyadic) (sign first second : Span) (operands : List Span) :
    standard_total.emitAll [⟨op.operator, sign⟩] (second :: first :: operands) =
      ([⟨.operator op.operator, (sign.hull second).hull first⟩],
        (sign.hull second).hull first :: operands) := by
  rcases op with _ | _ | _ | _ | _ <;> rfl

theorem settles_binary {op : Dyadic} {sign : Span} {left right : Sited}
    (orderly : (binary op sign left right).Orderly)
    (bracketed : (binary op sign left right).phrase.bracketed standard_total.rule = true)
    (holds : ∀ inside ∈ (binary op sign left right).phrase.exposed, standard_total.Holds inside base)
    (leftSettles : left.Settles base operands)
    (rightSettles : right.Settles (⟨.operator op.operator, sign⟩ :: base)
      (left.extent :: operands)) :
    (binary op sign left right).Settles base operands := by
  simp only [phrase, Phrase.bracketed, Bool.and_eq_true, Option.all_eq_true] at bracketed
  obtain ⟨⟨⟨leftBare, rightBare⟩, leftBracketed⟩, rightBracketed⟩ := bracketed
  obtain ⟨leftPending, leftAfter, leftReady, leftPushed, leftShown, leftOrder, leftSpans⟩ :=
    leftSettles
  obtain ⟨rightPending, rightAfter, rightReady, rightPushed, rightShown, rightOrder, rightSpans⟩ :=
    rightSettles
  obtain ⟨leftOrderly, rightOrderly, own, before, behind⟩ := orderly
  have leftOwn := leftOrderly.extent
  have rightOwn := rightOrderly.extent
  have waits : op.operator ≠ .semicolon := by cases op <;> simp [Dyadic.operator]
  have released := standard_total.releaseFor_waiting
    (holds op.operator (List.mem_append_right _ List.mem_cons_self))
    (fun entry member => standard_graded.applies_left leftBracketed leftBare (leftShown entry member))
    leftAfter
  have signTaken : Resolver.push standard ⟨.operator, waiting leftPending ++ base, leftAfter⟩
      ⟨.symbol (.operator op.operator), sign⟩ =
        (⟨.value, ⟨.operator op.operator, sign⟩ :: base, left.extent :: operands⟩,
          .ok (standard_total.emitAll leftPending leftAfter).1) := by
    have pushed := Resolver.pushOperator_waiting
      ⟨.value, waiting leftPending ++ base, leftAfter⟩ waits released rfl sign
    rw [leftSpans] at pushed
    cases op <;> exact pushed
  have back := Span.hull_of_ahead own rightOwn behind
  have backOwn : sign.start ≤ right.extent.stop := by omega
  have around : (sign.hull right.extent).hull left.extent = ⟨left.extent.start, right.extent.stop⟩ := by
    rw [Span.hull_comm, back]
    exact Span.hull_of_ahead leftOwn backOwn before
  have applied := emitAll_dyadic op sign left.extent right.extent operands
  rw [around, ← rightSpans] at applied
  refine ⟨rightPending ++ [⟨op.operator, sign⟩], rightAfter,
    leftReady ++ ((standard_total.emitAll leftPending leftAfter).1 ++ rightReady), ?_, ?_, ?_, ?_⟩
  · have whole := Resolver.pushAll_trans leftPushed (Resolver.pushAll_cons signTaken rightPushed)
    simpa [tokens, waiting, Spanned.map] using whole
  · intro entry member
    rcases List.mem_append.mp member with inside | last
    · exact List.mem_append_right _ (List.mem_cons_of_mem _ (rightShown entry inside))
    · rw [List.mem_singleton.mp last]
      exact List.mem_append_right _ List.mem_cons_self
  · rw [standard_total.emitAll_append, applied, located, unsigned]
    change _ = (left.located ++ right.located ++ _) ++ []
    rw [← leftOrder, ← rightOrder]
    simp only [List.append_assoc, List.append_nil]
  · rw [standard_total.emitAll_append_spans, applied]
    rfl

/-- Every expression with brackets where it needs them settles on a stack that lets it in. One without
an operation outside of brackets leaves nothing but its print signs to wait. -/
theorem settles (sited : Sited) (orderly : sited.Orderly)
    (bracketed : sited.phrase.bracketed standard_total.rule = true) :
    ∀ base operands, (∀ op ∈ sited.phrase.exposed, standard_total.Holds op base) →
      sited.Settles base operands ∧ (sited.phrase.root? = none → sited.Stacks base operands) := by
  induction sited with
  | operand value place =>
    intro base operands _
    have stacked := stacks_operand value place base operands
    exact ⟨stacked.settles orderly, fun _ => stacked⟩
  | binary op sign left right ihLeft ihRight =>
    intro base operands holds
    have parts := bracketed
    simp only [phrase, Phrase.bracketed, Bool.and_eq_true, Option.all_eq_true] at parts
    obtain ⟨⟨⟨-, rightBare⟩, leftBracketed⟩, rightBracketed⟩ := parts
    have leftSettles := ihLeft orderly.1 leftBracketed base operands
      fun inside member => holds inside (List.mem_append_left _ member)
    have rightSettles := ihRight orderly.2.1 rightBracketed (⟨.operator op.operator, sign⟩ :: base)
      (left.extent :: operands) fun inside member => standard_total.holds_operator
        (standard_graded.not_applies_right rightBracketed rightBare member)
    exact ⟨settles_binary orderly bracketed holds leftSettles.1 rightSettles.1, by simp [phrase,
      Phrase.root?]⟩
  | printBefore sign inner ih =>
    intro base operands holds
    have prints := Phrase.exposed_print bracketed rfl
    simp only [phrase, Phrase.bracketed, Bool.and_eq_true, Option.isNone_iff_eq_none] at bracketed
    have holdsInner : ∀ op ∈ inner.phrase.exposed,
        standard_total.Holds op (⟨.operator .print, sign⟩ :: base) := by
      intro op member
      apply standard_total.holds_operator
      rw [prints op (List.mem_cons_of_mem _ member)]
      exact PrecedenceTable.standard_before_print .print
    have stacked := stacks_printBefore
      ((ih orderly.1 bracketed.2 _ operands holdsInner).2 bracketed.1)
    exact ⟨stacked.settles orderly, fun _ => stacked⟩
  | printAfter inner sign ih =>
    intro base operands holds
    simp only [phrase, Phrase.bracketed, Bool.and_eq_true, Option.isNone_iff_eq_none] at bracketed
    have stacked : (printAfter inner sign).Stacks base operands :=
      stacks_printAfter ((ih orderly.1 bracketed.2 base operands
        fun op member => holds op (List.mem_cons_of_mem _ member)).2 bracketed.1)
    exact ⟨stacked.settles orderly, fun _ => stacked⟩
  | brackets opening closing inside ih =>
    intro base operands _
    have insideSettles := (ih orderly.1 bracketed (⟨.bracket, opening⟩ :: base) operands
      fun op _ => standard_total.holds_bracket op opening base).1
    have stacked := stacks_brackets orderly insideSettles
    exact ⟨stacked.settles orderly, fun _ => stacked⟩

end Sited

/-- A line with the places of its tokens: statements with the semicolons behind them, and a last one
without. -/
structure SitedPassage where
  ended : List (Option Sited × Span)
  last : Option Sited

namespace SitedPassage

open PrecedenceTable (standard standard_total standard_graded)

def passage (sited : SitedPassage) : Passage Operand :=
  ⟨sited.ended.map fun statement => statement.1.map Sited.phrase, sited.last.map Sited.phrase⟩

/-- The tokens of statements and the semicolons behind them. -/
def endedTokens (ended : List (Option Sited × Span)) : List (Spanned RawToken) :=
  ended.flatMap fun statement =>
    statement.1.elim [] Sited.tokens ++ [⟨.symbol (.operator .semicolon), statement.2⟩]

def tokens (sited : SitedPassage) : List (Spanned RawToken) :=
  endedTokens sited.ended ++ sited.last.elim [] Sited.tokens

/-- Where the semicolon covers from: the start of its statement, or else of what the semicolon before it
covers, or else its own. -/
def begins (before : Option Int) (statement : Option Sited) (sign : Span) : Int :=
  statement.elim (before.getD sign.start) fun sited => sited.extent.start

/-- The reordered tokens of statements and their semicolons, behind one that covers from `before`. -/
def endedLocated : Option Int → List (Option Sited × Span) → List (Spanned Token)
  | _, [] => []
  | before, (statement, sign) :: later =>
    statement.elim [] Sited.located ++
      ⟨.operator .semicolon, ⟨begins before statement sign, sign.stop⟩⟩ ::
        endedLocated (some (begins before statement sign)) later

def located (sited : SitedPassage) : List (Spanned Token) :=
  endedLocated none sited.ended ++ sited.last.elim [] Sited.located

/-- What the latest operand covers ends before the tokens start. -/
def Precedes (operands : List Span) (tokens : List (Spanned RawToken)) : Prop :=
  ∀ latest ∈ operands.head?, latest.start ≤ latest.stop ∧
    ∀ token ∈ tokens, latest.stop ≤ token.span.start

theorem push_semicolon (expect : Expect) (pending : List (Spanned Operator)) (operands : List Span)
    (sign : Span) :
    Resolver.push standard ⟨expect, waiting pending, operands⟩
        ⟨.symbol (.operator .semicolon), sign⟩ =
      (⟨.value, [], (standard_total.rule .semicolon).reduce sign
          (standard_total.emitAll pending operands).2⟩,
        .ok ((standard_total.emitAll pending operands).1 ++
          [(standard_total.rule .semicolon).token .semicolon sign
            (standard_total.emitAll pending operands).2])) := by
  have released := standard_total.releaseFor_waiting (standard_total.holds_nil .semicolon)
    (fun entry (_ : entry ∈ pending) => PrecedenceTable.standard_before_semicolon entry.value)
    operands
  rw [List.append_nil] at released
  have pushed := Resolver.pushOperator_semicolon standard_total ⟨.value, waiting pending, operands⟩
    released rfl sign
  cases expect <;> exact pushed

theorem pushAll_statement {statement : Option Sited} {sign : Span}
    (inOrder : Spanned.InOrder (endedTokens [(statement, sign)]))
    (bracketed : ∀ sited ∈ statement, sited.phrase.bracketed standard_total.rule = true)
    {operands : List Span} (precedes : Precedes operands (endedTokens [(statement, sign)])) :
    let whole : Span := ⟨begins (operands.head?.map Span.start) statement sign, sign.stop⟩
    whole.start ≤ whole.stop ∧
    ∃ others, Resolver.pushAll standard (endedTokens [(statement, sign)]) ⟨.value, [], operands⟩ =
      (⟨.value, [], whole :: others⟩,
        .ok (statement.elim [] Sited.located ++ [⟨.operator .semicolon, whole⟩])) := by
  intro whole
  cases statement with
  | none =>
    have own : sign.start ≤ sign.stop := inOrder.2 _ List.mem_cons_self
    have taken := Resolver.pushAll_single (push_semicolon .value [] operands sign)
    cases operands with
    | nil => exact ⟨own, [], taken⟩
    | cons latest others =>
      obtain ⟨latestOwn, ahead⟩ := precedes latest rfl
      have apart : latest.stop ≤ sign.start := ahead _ List.mem_cons_self
      have cover : sign.hull latest = whole := by
        rw [Span.hull_comm]
        exact Span.hull_of_ahead latestOwn own apart
      refine ⟨show latest.start ≤ sign.stop by omega, others, ?_⟩
      rw [← cover]
      exact taken
  | some sited =>
    have written : endedTokens [(some sited, sign)] =
        sited.tokens ++ [⟨.symbol (.operator .semicolon), sign⟩] := List.append_nil _
    rw [written] at inOrder ⊢
    obtain ⟨sitedOrder, signOrder, ahead⟩ := Spanned.inOrder_append.mp inOrder
    have orderly := sited.orderly sitedOrder
    have extentOwn := orderly.extent
    have own : sign.start ≤ sign.stop := signOrder.2 _ List.mem_cons_self
    obtain ⟨last, lastIn, stop⟩ := sited.extent_stop_mem
    have apart : sited.extent.stop ≤ sign.start := stop ▸ ahead last lastIn _ List.mem_cons_self
    obtain ⟨⟨pending, after, ready, pushed, -, order, spans⟩, -⟩ :=
      sited.settles orderly (bracketed sited rfl) [] operands fun op _ => standard_total.holds_nil op
    have ends := push_semicolon .operator pending after sign
    rw [spans] at ends
    have cover : sign.hull sited.extent = whole := by
      rw [Span.hull_comm]
      exact Span.hull_of_ahead extentOwn own apart
    rw [List.append_nil] at pushed
    have taken := Resolver.pushAll_snoc pushed ends
    refine ⟨show sited.extent.start ≤ sign.stop by omega, operands, ?_⟩
    rw [← List.append_assoc, order] at taken
    rw [← cover]
    exact taken

theorem endedTokens_cons (statement : Option Sited × Span) (later : List (Option Sited × Span)) :
    endedTokens (statement :: later) = endedTokens [statement] ++ endedTokens later := by
  simp [endedTokens]

theorem pushAll_ended {ended : List (Option Sited × Span)}
    (inOrder : Spanned.InOrder (endedTokens ended))
    (bracketed : ∀ statement ∈ ended, ∀ sited ∈ statement.1,
      sited.phrase.bracketed standard_total.rule = true)
    {operands : List Span} (precedes : Precedes operands (endedTokens ended)) :
    ∃ after, Resolver.pushAll standard (endedTokens ended) ⟨.value, [], operands⟩ =
      (⟨.value, [], after⟩, .ok (endedLocated (operands.head?.map Span.start) ended)) := by
  induction ended generalizing operands with
  | nil => exact ⟨operands, rfl⟩
  | cons statement later ih =>
    obtain ⟨statement, sign⟩ := statement
    rw [endedTokens_cons] at inOrder precedes ⊢
    obtain ⟨ownOrder, laterOrder, ahead⟩ := Spanned.inOrder_append.mp inOrder
    obtain ⟨ownBracketed, laterBracketed⟩ := List.forall_mem_cons.mp bracketed
    have ownPrecedes : Precedes operands (endedTokens [(statement, sign)]) := fun latest first =>
      ⟨(precedes latest first).1, fun token member =>
        (precedes latest first).2 token (List.mem_append_left _ member)⟩
    obtain ⟨own, others, taken⟩ := pushAll_statement ownOrder ownBracketed ownPrecedes
    have nextPrecedes : Precedes
        (⟨begins (operands.head?.map Span.start) statement sign, sign.stop⟩ :: others)
        (endedTokens later) := by
      intro latest first
      obtain rfl := Option.some.inj first
      refine ⟨own, fun token member => ahead ⟨.symbol (.operator .semicolon), sign⟩ ?_ token member⟩
      simp [endedTokens]
    obtain ⟨after, takenOn⟩ := ih laterOrder laterBracketed nextPrecedes
    refine ⟨after, (Resolver.pushAll_trans taken takenOn).trans ?_⟩
    rw [endedLocated, List.append_assoc]
    rfl

/-- The last statement comes out as a whole, at the latest where the line ends. -/
theorem pushAll_last {last : Option Sited} (inOrder : Spanned.InOrder (last.elim [] Sited.tokens))
    (bracketed : ∀ sited ∈ last, sited.phrase.bracketed standard_total.rule = true)
    (operands : List Span) :
    ∃ after ready rest,
      Resolver.pushAll standard (last.elim [] Sited.tokens) ⟨.value, [], operands⟩ =
        (after, .ok ready) ∧
      (after.finish standard).2 = .ok rest ∧ ready ++ rest = last.elim [] Sited.located := by
  cases last with
  | none => exact ⟨_, [], [], rfl, rfl, rfl⟩
  | some sited =>
    obtain ⟨⟨pending, after, ready, pushed, -, order, -⟩, -⟩ :=
      sited.settles (sited.orderly inOrder) (bracketed sited rfl) [] operands
        fun op _ => standard_total.holds_nil op
    rw [List.append_nil] at pushed
    have released := standard_total.releaseAll_waiting pending after
    refine ⟨_, ready, (standard_total.emitAll pending after).1, pushed, ?_, order⟩
    simp [Resolver.finish, Resolver.after, released]

theorem reorder_tokens (sited : SitedPassage) (inOrder : Spanned.InOrder sited.tokens)
    (bracketed : sited.passage.bracketed standard_total.rule = true) :
    standard.reorder sited.tokens = .ok sited.located := by
  simp only [passage, Passage.bracketed, Bool.and_eq_true, List.all_eq_true] at bracketed
  have endedBracketed : ∀ statement ∈ sited.ended, ∀ inner ∈ statement.1,
      inner.phrase.bracketed standard_total.rule = true := by
    intro statement member inner found
    have own := bracketed.1 _ (List.mem_map_of_mem member)
    rw [Option.mem_def.mp found] at own
    exact own
  have lastBracketed : ∀ inner ∈ sited.last,
      inner.phrase.bracketed standard_total.rule = true := by
    intro inner found
    have own := bracketed.2
    rw [Option.mem_def.mp found] at own
    exact own
  obtain ⟨endedOrder, lastOrder, -⟩ := Spanned.inOrder_append.mp inOrder
  have nothing : Precedes [] (endedTokens sited.ended) := by
    intro latest first
    simp at first
  obtain ⟨middle, taken⟩ := pushAll_ended endedOrder endedBracketed nothing
  obtain ⟨after, ready, rest, takenOn, finished, order⟩ :=
    pushAll_last lastOrder lastBracketed middle
  have whole := Resolver.pushAll_trans taken takenOn
  rw [PrecedenceTable.reorder, Resolver.start, tokens, whole]
  simp only [finished, Except.map, located, ← order, List.append_assoc]
  rfl

end SitedPassage

/-! Every way to write such a line down gives its tokens places. -/

section Plain

variable {α : Type}

mutual

/-- No semicolon stands between brackets. -/
def Phrase.plain : Phrase α → Bool
  | .operand _ => true
  | .binary _ left right => left.plain && right.plain
  | .printBefore phrase | .printAfter phrase => phrase.plain
  | .brackets inside => inside.plain

def Series.plain : Series α → Bool
  | .last phrase => phrase.plain
  | .empty _ | .statement _ _ => false

end

/-- Semicolons stand between the statements of the line only. -/
def Passage.plain (passage : Passage α) : Bool :=
  passage.ended.all (·.all Phrase.plain) && passage.last.all Phrase.plain

end Plain

mutual

theorem Phrase.exists_sited : ∀ (phrase : Phrase Operand) {tokens : List (Spanned RawToken)},
    phrase.plain = true → tokens.map Spanned.value = phrase.written Operand.raw .symbol →
    ∃ sited : Sited, sited.phrase = phrase ∧ sited.tokens = tokens
  | .operand value, tokens, _, written => by
    rw [Phrase.written] at written
    obtain ⟨place, rfl⟩ := Spanned.exists_of_values_singleton written
    exact ⟨.operand value place, rfl, rfl⟩
  | .binary op left right, tokens, plain, written => by
    simp only [Phrase.plain, Bool.and_eq_true] at plain
    obtain ⟨first, rest, rfl, leftWritten, restWritten⟩ := List.map_eq_append_iff.mp written
    obtain ⟨sign, second, rfl, rightWritten⟩ := Spanned.exists_of_values_cons restWritten
    obtain ⟨leftSited, rfl, rfl⟩ := left.exists_sited plain.1 leftWritten
    obtain ⟨rightSited, rfl, rfl⟩ := right.exists_sited plain.2 rightWritten
    exact ⟨.binary op sign leftSited rightSited, rfl, rfl⟩
  | .printBefore phrase, tokens, plain, written => by
    obtain ⟨sign, later, rfl, inside⟩ := Spanned.exists_of_values_cons written
    obtain ⟨sited, rfl, rfl⟩ := phrase.exists_sited plain inside
    exact ⟨.printBefore sign sited, rfl, rfl⟩
  | .printAfter phrase, tokens, plain, written => by
    obtain ⟨first, rest, rfl, inside, restWritten⟩ := List.map_eq_append_iff.mp written
    obtain ⟨sign, rfl⟩ := Spanned.exists_of_values_singleton restWritten
    obtain ⟨sited, rfl, rfl⟩ := phrase.exists_sited plain inside
    exact ⟨.printAfter sited sign, rfl, rfl⟩
  | .brackets series, tokens, plain, written => by
    obtain ⟨opening, rest, rfl, restWritten⟩ := Spanned.exists_of_values_cons written
    obtain ⟨middle, last, rfl, inside, lastWritten⟩ := List.map_eq_append_iff.mp restWritten
    obtain ⟨closing, rfl⟩ := Spanned.exists_of_values_singleton lastWritten
    obtain ⟨sited, rfl, rfl⟩ := series.exists_sited plain inside
    exact ⟨.brackets opening closing sited, rfl, rfl⟩

theorem Series.exists_sited : ∀ (series : Series Operand) {tokens : List (Spanned RawToken)},
    series.plain = true → tokens.map Spanned.value = series.written Operand.raw .symbol →
    ∃ sited : Sited, .last sited.phrase = series ∧ sited.tokens = tokens
  | .last phrase, tokens, plain, written => by
    obtain ⟨sited, rfl, same⟩ := phrase.exists_sited plain written
    exact ⟨sited, rfl, same⟩
  | .empty _, _, plain, _ => nomatch plain
  | .statement _ _, _, plain, _ => nomatch plain

end

theorem Statement.exists_sited {statement : Statement Operand} {tokens : List (Spanned RawToken)}
    (plain : statement.all Phrase.plain = true)
    (written : tokens.map Spanned.value = statement.written Operand.raw .symbol) :
    ∃ sited : Option Sited, sited.map Sited.phrase = statement ∧ sited.elim [] Sited.tokens = tokens := by
  cases statement with
  | none => exact ⟨none, rfl, (List.map_eq_nil_iff.mp written).symm⟩
  | some phrase =>
    obtain ⟨sited, rfl, same⟩ := phrase.exists_sited plain written
    exact ⟨some sited, rfl, same⟩

theorem Statement.exists_ended {ended : List (Statement Operand)} {tokens : List (Spanned RawToken)}
    (plain : ended.all (·.all Phrase.plain) = true)
    (written : tokens.map Spanned.value = ended.flatMap fun statement =>
      statement.written Operand.raw .symbol ++ [.symbol (.operator .semicolon)]) :
    ∃ sited : List (Option Sited × Span),
      (sited.map fun statement => statement.1.map Sited.phrase) = ended ∧
        SitedPassage.endedTokens sited = tokens := by
  induction ended generalizing tokens with
  | nil => exact ⟨[], rfl, (List.map_eq_nil_iff.mp written).symm⟩
  | cons statement later ih =>
    simp only [List.all_cons, Bool.and_eq_true] at plain
    obtain ⟨own, others, rfl, ownWritten, othersWritten⟩ := List.map_eq_append_iff.mp written
    obtain ⟨words, last, rfl, inside, signWritten⟩ := List.map_eq_append_iff.mp ownWritten
    obtain ⟨sign, rfl⟩ := Spanned.exists_of_values_singleton signWritten
    obtain ⟨sited, rfl, rfl⟩ := exists_sited plain.1 inside
    obtain ⟨othersSited, rfl, rfl⟩ := ih plain.2 othersWritten
    exact ⟨(sited, sign) :: othersSited, rfl, List.flatMap_cons⟩

theorem Passage.exists_sited {passage : Passage Operand} {tokens : List (Spanned RawToken)}
    (plain : passage.plain = true)
    (written : tokens.map Spanned.value = passage.written Operand.raw .symbol) :
    ∃ sited : SitedPassage, sited.passage = passage ∧ sited.tokens = tokens := by
  obtain ⟨ended, last⟩ := passage
  simp only [Passage.plain, Bool.and_eq_true] at plain
  obtain ⟨front, rest, rfl, frontWritten, lastWritten⟩ := List.map_eq_append_iff.mp written
  obtain ⟨endedSited, rfl, rfl⟩ := Statement.exists_ended plain.1 frontWritten
  obtain ⟨lastSited, rfl, rfl⟩ := Statement.exists_sited plain.2 lastWritten
  exact ⟨⟨endedSited, lastSited⟩, rfl, rfl⟩

/-- A line with semicolons between its statements only, written with enough brackets and from tokens
that do not overlap, is reordered into tokens with these places: each operand has its own; an operator
between two operands covers them from their first token to their last; a print sign covers itself and
what it prints, and of the signs around the same expression the last one read comes first; a semicolon
covers its statement. -/
theorem reorder_located {passage : Passage Operand} (plain : passage.plain = true)
    (bracketed : passage.bracketed PrecedenceTable.standard_total.rule = true)
    {tokens : List (Spanned RawToken)}
    (written : tokens.map Spanned.value = passage.written Operand.raw .symbol)
    (inOrder : Spanned.InOrder tokens) :
    ∃ sited : SitedPassage, sited.passage = passage ∧ sited.tokens = tokens ∧
      PrecedenceTable.standard.reorder tokens = .ok sited.located := by
  obtain ⟨sited, rfl, rfl⟩ := passage.exists_sited plain written
  exact ⟨sited, rfl, rfl, sited.reorder_tokens inOrder bracketed⟩

/-- In `x=%(1+2)%*3;;%y` the sum covers what is between its brackets, the product the first print sign
too, and the second semicolon goes back to where the first statement starts. -/
theorem reorder_located_printed :
    ∃ (passage : Passage Operand) (tokens : List (Spanned RawToken)),
      passage.plain = true ∧
      passage.bracketed PrecedenceTable.standard_total.rule = true ∧
      tokens.map Spanned.value = passage.written Operand.raw .symbol ∧
      Spanned.InOrder tokens ∧
      ∃ sited : SitedPassage, sited.passage = passage ∧ sited.tokens = tokens ∧
        PrecedenceTable.standard.reorder tokens = .ok sited.located ∧
        sited.located =
          [⟨.name 0, ⟨0, 1⟩⟩, ⟨.number 1, ⟨4, 5⟩⟩, ⟨.number 2, ⟨6, 7⟩⟩,
            ⟨.operator (.arithmetic .add), ⟨4, 7⟩⟩, ⟨.operator .print, ⟨3, 9⟩⟩,
            ⟨.operator .print, ⟨2, 9⟩⟩, ⟨.number 3, ⟨10, 11⟩⟩,
            ⟨.operator (.arithmetic .mul), ⟨2, 11⟩⟩, ⟨.operator .equals, ⟨0, 11⟩⟩,
            ⟨.operator .semicolon, ⟨0, 12⟩⟩, ⟨.operator .semicolon, ⟨0, 13⟩⟩,
            ⟨.name 1, ⟨14, 15⟩⟩, ⟨.operator .print, ⟨13, 15⟩⟩] := by
  let sum : Phrase Operand :=
    .binary (.arithmetic .add) (.operand (.number 1)) (.operand (.number 2))
  let product : Phrase Operand := .binary (.arithmetic .mul)
    (.printBefore (.printAfter (.brackets (.last sum)))) (.operand (.number 3))
  let passage : Passage Operand :=
    ⟨[some (.binary .equals (.operand (.name 0)) product), none],
      some (.printBefore (.operand (.name 1)))⟩
  let tokens : List (Spanned RawToken) :=
    (passage.written Operand.raw .symbol).zipIdx.map fun entry => ⟨entry.1, ⟨entry.2, entry.2 + 1⟩⟩
  have written : tokens.map Spanned.value = passage.written Operand.raw .symbol := rfl
  have inOrder : Spanned.InOrder tokens := by
    constructor
    · decide +kernel
    · decide +kernel
  obtain ⟨sited, same, places, reordered⟩ := reorder_located rfl rfl written inOrder
  refine ⟨passage, tokens, rfl, rfl, written, inOrder, sited, same, places, reordered, ?_⟩
  have result := congrArg Except.toOption reordered
  exact Option.some.inj (result.symm.trans (by decide +kernel))

end LineCalc
