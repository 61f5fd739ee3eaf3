import LineCalc.OneShot
import LineCalc.Proofs.Conservation
import LineCalc.Proofs.Interpretation
import LineCalc.Proofs.Location

/-!
What becomes of a single expression, whatever its text is. The text may close the bracket it is put in
and end statements of its own: a line that ends well prints once for the sign in front of the bracket
and once for each print sign in the text, and only a single number can be read back.
-/

namespace LineCalc

/-! A text without outer blanks. -/

namespace Text

/-- The text neither starts nor ends with a blank, and it is not empty. -/
structure Bare (text : List Char) : Prop where
  first : ∃ c ∈ text.head?, isBlank c = false
  last : ∃ c ∈ text.getLast?, isBlank c = false

namespace Bare

variable {text : List Char}

theorem of_visible (inhabited : text ≠ []) (visible : ∀ c ∈ text, isBlank c = false) : Bare text :=
  ⟨⟨_, List.head?_eq_some_head inhabited, visible _ (List.head_mem inhabited)⟩,
    ⟨_, List.getLast?_eq_some_getLast inhabited, visible _ (List.getLast_mem inhabited)⟩⟩

theorem append {later : List Char} (bare : Bare text) (bareToo : Bare later) (between : List Char) :
    Bare (text ++ between ++ later) := by
  obtain ⟨⟨first, found, visible⟩, -⟩ := bare
  obtain ⟨-, last, foundLast, visibleLast⟩ := bareToo
  refine ⟨⟨first, ?_, visible⟩, ⟨last, ?_, visibleLast⟩⟩
  · rw [List.append_assoc, List.head?_append, found]
    rfl
  · rw [List.getLast?_append, foundLast]
    rfl

theorem dropWhile_eq (bare : Bare text) : text.dropWhile isBlank = text := by
  obtain ⟨⟨c, found, visible⟩, -⟩ := bare
  obtain ⟨rest, rfl⟩ := List.head?_eq_some_iff.mp found
  rw [List.dropWhile_cons_of_neg (by simp [visible])]

theorem reverse (bare : Bare text) : Bare text.reverse := by
  obtain ⟨first, last⟩ := bare
  refine ⟨?_, ?_⟩
  · rwa [List.head?_reverse]
  · rwa [List.getLast?_reverse]

theorem withoutOuterBlanks_cons (bare : Bare text) {c : Char} (blank : isBlank c = true) :
    withoutOuterBlanks (c :: text) = text := by
  rw [withoutOuterBlanks, List.dropWhile_cons_of_pos blank, bare.dropWhile_eq,
    bare.reverse.dropWhile_eq, List.reverse_reverse]

end Bare

end Text

/-! Nothing that reads as a number has a blank in it. -/

namespace Number

theorem visible_of_readMagnitude {text : List Char} {magnitude : Nat}
    (read : readMagnitude? text = some magnitude) : ∀ c ∈ text, Text.isBlank c = false := by
  unfold readMagnitude? at read
  split at read
  next same =>
    subst same
    simp only [List.forall_mem_cons, List.not_mem_nil, false_implies, implies_true]
    decide
  · obtain ⟨d, found, -⟩ := Option.map_eq_some_iff.mp read
    obtain ⟨first, others, rfl, digit, more⟩ := Numeral.text_eq ⟨text, d, found⟩
    exact List.forall_mem_cons.mpr ⟨Text.not_isBlank_of_isDigit digit,
      fun c member => Scan.not_isBlank_of_isNumeralChar (more c member)⟩

theorem visible_of_read {text : List Char} {v : Number} (read : read? text = some v) :
    ∀ c ∈ text, Text.isBlank c = false := by
  unfold read? at read
  split at read
  · simp only [List.forall_mem_cons, List.not_mem_nil, false_implies, implies_true]
    decide
  · obtain ⟨magnitude, found, -⟩ := Option.map_eq_some_iff.mp read
    exact List.forall_mem_cons.mpr ⟨by decide, visible_of_readMagnitude found⟩
  · obtain ⟨magnitude, found, -⟩ := Option.map_eq_some_iff.mp read
    exact visible_of_readMagnitude found

theorem bare_displayChars (v : Number) : Text.Bare v.displayChars := by
  have read := v.read?_displayChars
  refine .of_visible (fun empty => ?_) (visible_of_read read)
  rw [empty] at read
  cases read

end Number

namespace Event

theorem toList_output (events : List Event) :
    (output events).toList = (numbers events).flatMap fun v => ' ' :: v.displayChars := by
  rw [output_eq, output, String.toList_ofList, List.flatMap_map]
  rfl

/-- Behind the first blank of an output stands a bare text. -/
theorem bare_output (first : Number) (others : List Number) :
    Text.Bare (first.displayChars ++ others.flatMap fun v => ' ' :: v.displayChars) := by
  have further {text : List Char} (bare : Text.Bare text) :
      Text.Bare (text ++ others.flatMap fun v => ' ' :: v.displayChars) := by
    induction others generalizing text with
    | nil => rwa [List.flatMap_nil, List.append_nil]
    | cons v later ih =>
      have joined := ih (bare.append v.bare_displayChars [' '])
      simpa using joined
  exact further first.bare_displayChars

/-- An output of one number reads back as that number, and a longer one does not read as a number. -/
theorem read?_output {events : List Event} {first : Number} {others : List Number}
    (printed : numbers events = first :: others) :
    Number.read? (Text.withoutOuterBlanks (output events).toList) =
      if others = [] then some first else none := by
  have blank : Text.isBlank ' ' = true := by decide
  rw [toList_output, printed, List.flatMap_cons, List.cons_append,
    (bare_output first others).withoutOuterBlanks_cons blank]
  cases others with
  | nil => rw [List.flatMap_nil, List.append_nil, if_pos rfl, Number.read?_displayChars]
  | cons second later =>
    rw [if_neg (List.cons_ne_nil second later), Option.eq_none_iff_forall_ne_some]
    intro v read
    have visible := Number.visible_of_read read ' ' (by simp)
    rw [blank] at visible
    cases visible

end Event

/-! Calculations, and how they are written. -/

/-- Numbers and arithmetic operators between them, without brackets. -/
inductive Calculation where
  | numeral (numeral : Numeral)
  | join (op : Arithmetic) (left right : Calculation)

namespace Calculation

def value : Calculation → Number
  | numeral written => written.value
  | join op left right => op.apply left.value right.value

def expression : Calculation → Expression
  | numeral written => .literal (.numeral written)
  | join op left right => .binary (.arithmetic op) left.expression right.expression

theorem run_expression (calculation : Calculation) (world : World) :
    calculation.expression.run world = (.ok (.number calculation.value), world) := by
  induction calculation with
  | numeral written => rfl
  | join op left right leftIH rightIH =>
    rw [expression, Expression.run, Interpreter.bind_eq, leftIH]
    simp only
    rw [Interpreter.bind_eq, rightIH]
    rfl

theorem meaning_print (calculation : Calculation) :
    Program.meaning [some (.print calculation.expression)] [] =
      (.ok (), ⟨[], [calculation.value]⟩) := by
  rw [Program.meaning, Program.run_singleton, Program.runStatement, Interpreter.bind_eq,
    Expression.run, Interpreter.bind_eq, run_expression]
  rfl

end Calculation

theorem Layout.symbol_behind {words : List Word} {text : List Char} (layout : Layout words text)
    (sign : Symbol) : Layout (words ++ [.symbol sign]) (text ++ [sign.character]) := by
  have nothing : ∀ c ∈ [], Text.isBlank c = true := List.forall_mem_nil _
  induction layout with
  | ended blank => exact .word blank (.ended nothing)
  | @word gap text word later blank rest ih =>
    rw [List.append_assoc, List.append_assoc]
    exact .word blank ih

namespace OneShot

/-- What is answered in words: what is wrong with the expression. -/
def refusal? : OneShot → Option String
  | failed (.line error) => some error.caption
  | _ => none

def line (expression : String) : String :=
  "%(" ++ expression ++ ")"

theorem toList_line (expression : String) :
    (line expression).toList = '%' :: '(' :: (expression.toList ++ [')']) := by
  simp [line]

section Line

variable {expression : String}

theorem ofExpression_stopped {fault : Fault}
    (stopped : (Session.empty.run (line expression)).fault = some fault) :
    ofExpression expression = .failed fault := by
  unfold line at stopped
  simp only [ofExpression, stopped]

theorem ofExpression_read (clean : (Session.empty.run (line expression)).fault = none)
    {v : Number} (read : Number.read? (Text.withoutOuterBlanks
      (Event.output (Session.empty.run (line expression)).events).toList) = some v) :
    ofExpression expression = .value v := by
  unfold line at clean read
  simp only [ofExpression, clean, read]

theorem ofExpression_unread (clean : (Session.empty.run (line expression)).fault = none)
    (unread : Number.read? (Text.withoutOuterBlanks
      (Event.output (Session.empty.run (line expression)).events).toList) = none) :
    ofExpression expression =
      .unreadable (Event.output (Session.empty.run (line expression)).events) := by
  unfold line at clean unread ⊢
  simp only [ofExpression, clean, unread]

/-- The line prints once for its own sign and once for each sign in the expression. -/
theorem exists_numbers (clean : (Session.empty.run (line expression)).fault = none) :
    ∃ first others, Event.numbers (Session.empty.run (line expression)).events = first :: others ∧
      (others = [] ↔ '%' ∉ expression.toList) := by
  have count := Session.numbers_run clean
  have length : (line expression).toList.count '%' = expression.toList.count '%' + 1 := by
    simp [toList_line]
  rw [show (Symbol.operator .print).character = '%' from rfl, length] at count
  cases printed : Event.numbers (Session.empty.run (line expression)).events with
  | nil => simp [printed] at count
  | cons first others =>
    refine ⟨first, others, rfl, ?_⟩
    rw [printed, List.length_cons, Nat.add_right_cancel_iff] at count
    rw [← List.length_eq_zero_iff, count, List.count_eq_zero]

end Line

/-- What an expression comes to, by what its line has done. -/
inductive Answers (expression : String) : OneShot → Prop where
  | failed (error : CalcError)
      (stopped : (Session.empty.run (line expression)).fault = some (.line error)) :
      Answers expression (.failed (.line error))
  | unreadable (clean : (Session.empty.run (line expression)).fault = none)
      (signed : '%' ∈ expression.toList) :
      Answers expression (.unreadable (Event.output (Session.empty.run (line expression)).events))
  | value (value : Number) (clean : (Session.empty.run (line expression)).fault = none)
      (plain : '%' ∉ expression.toList)
      (printed : Event.numbers (Session.empty.run (line expression)).events = [value]) :
      Answers expression (.value value)

theorem answers (expression : String) : Answers expression (ofExpression expression) := by
  cases fault : (Session.empty.run (line expression)).fault with
  | some stop =>
    have points := (LineRun.feedAll_points Session.empty (line expression)).fault fault
    obtain ⟨cause, span, rfl, -⟩ := points
    rw [ofExpression_stopped fault]
    exact .failed ⟨cause, span⟩ fault
  | none =>
    obtain ⟨first, others, printed, single⟩ := exists_numbers fault
    have read := Event.read?_output printed
    by_cases signed : '%' ∈ expression.toList
    · rw [if_neg fun alone => single.mp alone signed] at read
      rw [ofExpression_unread fault read]
      exact .unreadable fault signed
    · obtain rfl := single.mpr signed
      rw [ofExpression_read fault read]
      exact .value first fault signed printed

/-- The line of a written calculation ends well and prints its value. -/
theorem run_calculation {calculation : Calculation} {phrase : Phrase Literal}
    (writes : phrase.Writes calculation.expression)
    (bracketed : phrase.bracketed PrecedenceTable.standard_total.rule = true) {expression : String}
    (layout : Layout (phrase.written Word.literal .symbol) expression.toList) :
    (Session.empty.run (line expression)).fault = none ∧
      Event.numbers (Session.empty.run (line expression)).events = [calculation.value] := by
  let passage : Passage Literal := ⟨[], some (.printBefore (.brackets (.last phrase)))⟩
  have passageWrites : passage.Writes [some (.print calculation.expression)] :=
    .cons (.some (.printBefore (.brackets writes))) .nil
  have passageBracketed : passage.bracketed PrecedenceTable.standard_total.rule = true := by
    simp [passage, Passage.bracketed, Phrase.bracketed, Series.bracketed, Phrase.root?, bracketed]
  have nothing : ∀ c ∈ [], Text.isBlank c = true := List.forall_mem_nil _
  have passageLayout : Layout (passage.written Word.literal .symbol) (line expression).toList := by
    rw [toList_line]
    exact .word nothing (.word nothing (layout.symbol_behind .rightParen))
  obtain ⟨final, staged, stages, agrees⟩ :=
    passageWrites.exists_stages .empty passageBracketed passageLayout
  rw [show Session.empty.namedVariables = [] from rfl, calculation.meaning_print] at agrees
  obtain ⟨-, -, clean⟩ := stages.run agrees
  exact ⟨clean, stages.numbers_run agrees⟩

/-- What becomes of an expression, whatever its text is. It is answered in words exactly if its line
has a mistake, and then with the mistake; what its line prints does not read as a number exactly if the
line ends well and the expression has a print sign; otherwise its line prints a single number, and the
expression has that number as its value. A calculation that is written with enough brackets, and with
any further ones and any blanks, has the value that it has as a tree. -/
theorem ofExpression_answer (expression : String) :
    let ran := Session.empty.run (line expression)
    (∀ text, (ofExpression expression).refusal? = some text ↔
      ∃ error, ran.fault = some (.line error) ∧ error.caption = text) ∧
    (∀ fault, ran.fault = some fault → ∃ error, fault = .line error) ∧
    ((∃ printed, ofExpression expression = .unreadable printed) ↔
      ran.fault = none ∧ '%' ∈ expression.toList) ∧
    (ran.fault = none → '%' ∉ expression.toList →
      ∃ value, Event.numbers ran.events = [value] ∧ ofExpression expression = .value value) ∧
    ∀ (calculation : Calculation) (phrase : Phrase Literal),
      phrase.Writes calculation.expression →
      phrase.bracketed PrecedenceTable.standard_total.rule = true →
      Layout (phrase.written Word.literal .symbol) expression.toList →
      ofExpression expression = .value calculation.value := by
  intro ran
  have answers := answers expression
  generalize ofExpression expression = answer at answers ⊢
  refine ⟨fun text => ?_, fun fault stopped => ?_, ?_, fun clean plain => ?_, ?_⟩
  · cases answers with
    | failed error stopped => simp [refusal?, ran, stopped]
    | unreadable clean => simp [refusal?, ran, clean]
    | value v clean => simp [refusal?, ran, clean]
  · cases answers with
    | failed error same => exact ⟨error, Option.some.inj (stopped.symm.trans same)⟩
    | unreadable clean | value _ clean => cases clean.symm.trans stopped
  · cases answers with
    | failed error stopped => simp [ran, stopped]
    | unreadable clean signed => simp [ran, clean, signed]
    | value v clean plain => simp [plain]
  · cases answers with
    | failed error stopped => cases clean.symm.trans stopped
    | unreadable clean signed => exact absurd signed plain
    | value v clean plain printed => exact ⟨v, printed, rfl⟩
  · intro calculation phrase writes bracketed layout
    obtain ⟨ends, prints⟩ := run_calculation writes bracketed layout
    obtain ⟨first, others, numbers, single⟩ := exists_numbers ends
    cases answers with
    | failed error stopped => cases ends.symm.trans stopped
    | unreadable clean signed =>
      obtain ⟨-, rfl⟩ := List.cons.inj (numbers.symm.trans prints)
      exact absurd signed (single.mp rfl)
    | value v clean plain printed =>
      obtain ⟨rfl, -⟩ := List.cons.inj (printed.symm.trans prints)
      rfl

/-- The expression `6 /(1+ 2)` has the value of six divided by the sum in the brackets. -/
theorem ofExpression_answer_quotient : ∃ calculation : Calculation,
    calculation.value = (Number.ofDecimal ⟨6, 0⟩ : Number) /
      ((Number.ofDecimal ⟨1, 0⟩ : Number) + Number.ofDecimal ⟨2, 0⟩) ∧
    ofExpression "6 /(1+ 2)" = .value calculation.value := by
  let one : Numeral := ⟨['1'], ⟨1, 0⟩, by decide +kernel⟩
  let two : Numeral := ⟨['2'], ⟨2, 0⟩, by decide +kernel⟩
  let six : Numeral := ⟨['6'], ⟨6, 0⟩, by decide +kernel⟩
  let calculation : Calculation :=
    .join .div (.numeral six) (.join .add (.numeral one) (.numeral two))
  let phrase : Phrase Literal :=
    .binary (.arithmetic .div) (.operand (.numeral six)) (.brackets (.last
      (.binary (.arithmetic .add) (.operand (.numeral one)) (.operand (.numeral two)))))
  have writes : phrase.Writes calculation.expression :=
    .binary _ (.operand _) (.brackets (.binary _ (.operand _) (.operand _)))
  have none : ∀ c ∈ [], Text.isBlank c = true := List.forall_mem_nil _
  have space : ∀ c ∈ [' '], Text.isBlank c = true :=
    List.forall_mem_singleton.mpr (by decide +kernel)
  have layout : Layout (phrase.written Word.literal .symbol) "6 /(1+ 2)".toList :=
    .word none (.word space (.word none (.word none (.word none (.word space (.word none
      (.ended none)))))))
  obtain ⟨-, -, -, -, written⟩ := ofExpression_answer "6 /(1+ 2)"
  exact ⟨calculation, rfl, written calculation phrase writes rfl layout⟩

end OneShot

end LineCalc
