import LineCalc.Evaluation
import LineCalc.Proofs.Meaning
import LineCalc.Proofs.Postorder

/-!
A machine that executes the postfix order of a tree does what the interpreter does, on top of any
stack and wherever the tokens stand in the line.
-/

namespace LineCalc

variable {α β : Type} {names : NameTable}

theorem Interpreter.bind_eq (first : Interpreter α) (second : α → Interpreter β) (world : World) :
    (first >>= second) world =
      match first world with
      | (.ok value, later) => second value later
      | (.error cause, later) => (.error cause, later) := by
  have step : (first >>= second) world =
      StateT.bind (m := Id) first (ExceptT.bindCont second) world := rfl
  cases found : first world with
  | mk result later =>
    rw [step, StateT.bind, found]
    cases result <;> rfl

/-- Evaluation and interpreter have come to the same end: with the same variables, the same numbers
printed on top of those before, and the same mistake or a stack on which `leaves` finds the value. -/
inductive Agrees (names : NameTable) (before : List Number)
    (leaves : List (Spanned Entry) → α → Prop) :
    Outcome Evaluation → Except Cause α × World → Prop where
  | ok {evaluation : Evaluation} {events : List Event} {value : α} {world : World}
      (stack : leaves evaluation.machine.stack value)
      (spells : names.Spells evaluation.machine.environment world.named)
      (printed : world.printed = before ++ Event.numbers events) :
      Agrees names before leaves ⟨evaluation, events, none⟩ (.ok value, world)
  | error {evaluation : Evaluation} {events : List Event} {world : World} (cause : Cause)
      (span : Span) (spells : names.Spells evaluation.machine.environment world.named)
      (printed : world.printed = before ++ Event.numbers events) :
      Agrees names before leaves ⟨evaluation, events, some (.inLine cause span)⟩
        (.error cause, world)

theorem Agrees.bind {before : List Number} {leaves : List (Spanned Entry) → α → Prop}
    {leavesToo : List (Spanned Entry) → β → Prop} {first : Outcome Evaluation}
    {interpreter : Interpreter α} {world : World}
    (agrees : Agrees names before leaves first (interpreter world))
    {second : Evaluation → Outcome Evaluation} {next : α → Interpreter β}
    (agreesToo : ∀ evaluation value later, leaves evaluation.machine.stack value →
      names.Spells evaluation.machine.environment later.named →
      Agrees names later.printed leavesToo (second evaluation) (next value later)) :
    Agrees names before leavesToo (first.andThen second) ((interpreter >>= next) world) := by
  rw [Interpreter.bind_eq]
  generalize interpreter world = reached at agrees
  cases agrees with
  | error cause span spells printed => exact .error cause span spells printed
  | @ok evaluation events value later stack spells printed =>
    have both := agreesToo evaluation value later stack spells
    simp only [Outcome.andThen]
    generalize second evaluation = outcome at both
    generalize next value later = last at both
    cases both with
    | ok stack spells printedToo =>
      refine .ok stack spells ?_
      rw [printedToo, printed, Event.numbers_append, List.append_assoc]
    | error cause span spells printedToo =>
      refine .error cause span spells ?_
      rw [printedToo, printed, Event.numbers_append, List.append_assoc]

theorem Result.value_reference (name : String) (world : World) :
    (Result.reference name).value world =
      match world.named.lookup name with
      | some value => (.ok value, world)
      | none => (.error (.unassignedVariable name), world) := by
  have looked : (Result.reference name).value world =
      (match world.named.lookup name with
        | some value => (pure value : Interpreter Number)
        | none => throw (Cause.unassignedVariable name)) world := rfl
  rw [looked]
  cases world.named.lookup name <;> rfl

theorem Entry.Shows.value (distinct : names.spellings.Nodup) {environment : Environment}
    {world : World} (spells : names.Spells environment world.named) {entry : Spanned Entry}
    {result : Result} (shown : entry.value.Shows names result) :
    (∃ value, result.value world = (.ok value, world) ∧
      Machine.valueOf (some names) environment entry = .ok value) ∨
    (∃ cause, result.value world = (.error cause, world) ∧
      Machine.valueOf (some names) environment entry = .error (.inLine cause entry.span)) := by
  obtain ⟨entry, span⟩ := entry
  cases shown with
  | number value => exact .inl ⟨value, rfl, rfl⟩
  | @name handle spelling stands =>
    have same := spells.get? distinct stands
    have looked := Result.value_reference spelling world
    cases found : world.named.lookup spelling with
    | some value =>
      rw [found] at looked same
      refine .inl ⟨value, looked, ?_⟩
      simp [Machine.valueOf, same]
    | none =>
      rw [found] at looked same
      refine .inr ⟨.unassignedVariable spelling, looked, ?_⟩
      simp [Machine.valueOf, same, Naming.unassigned, Naming.spelling, stands.spelling?]

/-- A result stands on top of the stack that was there before. -/
def Atop (names : NameTable) (base : List (Spanned Entry)) (stack : List (Spanned Entry))
    (result : Result) : Prop :=
  ∃ entry, stack = entry :: base ∧ entry.value.Shows names result

theorem Evaluation.perform_eq {naming : Naming} {token : Spanned Token} {evaluation : Evaluation}
    {machine : Machine} {events : List Event} {fault : Option Fault}
    (executed : evaluation.machine.execute naming token = ⟨machine, events, fault⟩) :
    evaluation.perform naming token =
      ⟨⟨machine, max evaluation.reach token.span.stop⟩, .executing token :: events, fault⟩ := by
  rw [perform, executed]
  rfl

section Steps

variable {evaluation : Evaluation} {world : World} {base : List (Spanned Entry)}
  {right left : Spanned Entry} {first second : Result}

theorem agrees_calculate (distinct : names.spellings.Nodup)
    (spells : names.Spells evaluation.machine.environment world.named)
    (shape : evaluation.machine.stack = right :: left :: base)
    (leftShown : left.value.Shows names first) (rightShown : right.value.Shows names second)
    (op : Arithmetic) (span : Span) :
    Agrees names world.printed (Atop names base)
      (evaluation.perform (some names) ⟨.operator (.arithmetic op), span⟩)
      ((do
        let secondValue ← second.value
        let firstValue ← first.value
        return .number (op.apply firstValue secondValue) : Interpreter Result) world) := by
  rw [Interpreter.bind_eq]
  rcases rightShown.value distinct spells with ⟨secondValue, ran, found⟩ | ⟨cause, ran, found⟩
  case inr =>
    have executed : evaluation.machine.execute (some names) ⟨.operator (.arithmetic op), span⟩ =
        ⟨{ evaluation.machine with stack := left :: base }, [],
          some (.inLine cause right.span)⟩ := by
      simp [Machine.execute, Machine.calculate, Machine.takeOperands, shape, found, Outcome.fail]
    rw [ran, Evaluation.perform_eq executed]
    exact .error cause _ spells (by simp [Event.numbers])
  rw [ran]
  simp only
  rw [Interpreter.bind_eq]
  rcases leftShown.value distinct spells with ⟨firstValue, ranToo, foundToo⟩ |
    ⟨cause, ranToo, foundToo⟩
  case inr =>
    have executed : evaluation.machine.execute (some names) ⟨.operator (.arithmetic op), span⟩ =
        ⟨{ evaluation.machine with stack := base }, [], some (.inLine cause left.span)⟩ := by
      simp [Machine.execute, Machine.calculate, Machine.takeOperands, shape, found, foundToo,
        Outcome.fail]
    rw [ranToo, Evaluation.perform_eq executed]
    exact .error cause _ spells (by simp [Event.numbers])
  have executed : evaluation.machine.execute (some names) ⟨.operator (.arithmetic op), span⟩ =
      ⟨⟨⟨.number (op.apply firstValue secondValue), (left.span.hull right.span).hull span⟩ :: base,
        evaluation.machine.environment⟩, [], none⟩ := by
    simp [Machine.execute, Machine.calculate, Machine.takeOperands, shape, found, foundToo,
      Outcome.done, Machine.push]
  rw [ranToo, Evaluation.perform_eq executed]
  exact .ok ⟨_, rfl, .number _⟩ spells (by simp [Event.numbers])

theorem agrees_assign (distinct : names.spellings.Nodup)
    (spells : names.Spells evaluation.machine.environment world.named)
    (shape : evaluation.machine.stack = right :: left :: base)
    (leftShown : left.value.Shows names first) (rightShown : right.value.Shows names second)
    (span : Span) :
    Agrees names world.printed (Atop names base)
      (evaluation.perform (some names) ⟨.operator .equals, span⟩)
      ((do
        let value ← second.value
        match first with
        | .number _ => throw .assigningToExpression
        | .reference name =>
          modify fun world => { world with named := assignName name value world.named }
          return first : Interpreter Result) world) := by
  rw [Interpreter.bind_eq]
  rcases rightShown.value distinct spells with ⟨value, ran, found⟩ | ⟨cause, ran, found⟩
  case inr =>
    have executed : evaluation.machine.execute (some names) ⟨.operator .equals, span⟩ =
        ⟨{ evaluation.machine with stack := left :: base }, [],
          some (.inLine cause right.span)⟩ := by
      simp [Machine.execute, Machine.assign, Machine.takeOperands, shape, found, Outcome.fail]
    rw [ran, Evaluation.perform_eq executed]
    exact .error cause _ spells (by simp [Event.numbers])
  rw [ran]
  obtain ⟨entry, place⟩ := left
  cases leftShown with
  | number number =>
    have executed : evaluation.machine.execute (some names) ⟨.operator .equals, span⟩ =
        ⟨{ evaluation.machine with stack := base }, [],
          some (.inLine .assigningToExpression place)⟩ := by
      simp [Machine.execute, Machine.assign, Machine.takeOperands, shape, found, Outcome.fail]
    rw [Evaluation.perform_eq executed]
    exact .error _ _ spells (by simp [Event.numbers])
  | @name handle spelling stands =>
    have executed : evaluation.machine.execute (some names) ⟨.operator .equals, span⟩ =
        ⟨⟨⟨.name handle, (place.hull right.span).hull span⟩ :: base,
          evaluation.machine.environment.assign handle value⟩, [.assigned spelling value],
          none⟩ := by
      simp [Machine.execute, Machine.assign, Machine.takeOperands, shape, found, Machine.push,
        Naming.spelling, stands.spelling?]
    rw [Evaluation.perform_eq executed]
    exact .ok ⟨_, rfl, .name stands⟩ (spells.assign distinct stands value)
      (by simp [Event.numbers])

/-- A print sign looks up its operand and leaves it. -/
theorem agrees_print (distinct : names.spellings.Nodup)
    (spells : names.Spells evaluation.machine.environment world.named)
    (shape : evaluation.machine.stack = left :: base) (shown : left.value.Shows names first)
    (span : Span) :
    Agrees names world.printed (Atop names base)
      (evaluation.perform (some names) ⟨.operator .print, span⟩)
      ((do
        let value ← first.value
        modify fun world => { world with printed := world.printed ++ [value] }
        return first : Interpreter Result) world) := by
  rw [Interpreter.bind_eq]
  rcases shown.value distinct spells with ⟨value, ran, found⟩ | ⟨cause, ran, found⟩
  · have executed : evaluation.machine.execute (some names) ⟨.operator .print, span⟩ =
        ⟨evaluation.machine, [.printed value], none⟩ := Machine.print_value shape found span
    rw [ran, Evaluation.perform_eq executed]
    exact .ok ⟨left, shape, shown⟩ spells (by simp [Event.numbers])
  · have executed : evaluation.machine.execute (some names) ⟨.operator .print, span⟩ =
        ⟨evaluation.machine, [], some (.inLine cause left.span)⟩ :=
      Machine.print_fault shape shown.present found span
    rw [ran, Evaluation.perform_eq executed]
    exact .error cause _ spells (by simp [Event.numbers])

theorem ends_shown (distinct : names.spellings.Nodup)
    (spells : names.Spells evaluation.machine.environment world.named)
    (shape : evaluation.machine.stack = left :: base) (shown : left.value.Shows names first)
    (span : Span) :
    (∃ value, first.value world = (.ok value, world) ∧
      evaluation.machine.endStatement (some names) span =
        .done ⟨Machine.settle (span.hull left.span) base, evaluation.machine.environment⟩) ∨
    (∃ cause, first.value world = (.error cause, world) ∧
      evaluation.machine.endStatement (some names) span =
        .fail ⟨base, evaluation.machine.environment⟩ (.inLine cause left.span)) := by
  obtain ⟨entry, place⟩ := left
  cases shown with
  | number value =>
    refine .inl ⟨value, rfl, ?_⟩
    simp [Machine.endStatement, shape]
  | @name handle spelling stands =>
    have same := spells.get? distinct stands
    have looked := Result.value_reference spelling world
    cases found : world.named.lookup spelling with
    | some value =>
      rw [found] at looked same
      refine .inl ⟨value, looked, ?_⟩
      simp [Machine.endStatement, shape, same]
    | none =>
      rw [found] at looked same
      refine .inr ⟨.unassignedVariable spelling, looked, ?_⟩
      simp [Machine.endStatement, shape, same, Naming.unassigned, Naming.spelling,
        stands.spelling?]

end Steps

def Literal.operand (names : NameTable) : Literal → Operand
  | .numeral text => .number text.value
  | .identifier text => .name ((names.handle? text.spelling).getD 0)

def NameTable.Knows (names : NameTable) (words : List Word) : Prop :=
  ∀ identifier, Word.literal (.identifier identifier) ∈ words →
    ∃ handle, names.handle? identifier.spelling = some handle

theorem NameTable.knows_append {first second : List Word} :
    names.Knows (first ++ second) ↔ names.Knows first ∧ names.Knows second := by
  simp only [Knows, List.mem_append]
  constructor
  · intro known
    exact ⟨fun identifier member => known identifier (.inl member),
      fun identifier member => known identifier (.inr member)⟩
  · rintro ⟨known, knownToo⟩ identifier (member | member)
    · exact known identifier member
    · exact knownToo identifier member

theorem NameTable.knows_symbol {symbol : Symbol} {words : List Word} :
    names.Knows (.symbol symbol :: words) ↔ names.Knows words := by
  simp [Knows]

namespace Evaluation

def performAll (names : NameTable) (tokens : List (Spanned Token)) :
    Evaluation → Outcome Evaluation :=
  Outcome.runAll (perform (some names)) tokens

theorem performAll_append (first second : List (Spanned Token)) (evaluation : Evaluation) :
    performAll names (first ++ second) evaluation =
      (performAll names first evaluation).andThen (performAll names second) :=
  Outcome.runAll_append _ first second evaluation

theorem performAll_singleton (token : Spanned Token) (evaluation : Evaluation) :
    performAll names [token] evaluation = evaluation.perform (some names) token :=
  Outcome.andThen_done _

end Evaluation

theorem agrees_literal {literal : Literal} (known : names.Knows [.literal literal])
    {evaluation : Evaluation} {world : World}
    (spells : names.Spells evaluation.machine.environment world.named) (span : Span) :
    Agrees names world.printed (Atop names evaluation.machine.stack)
      (evaluation.perform (some names) ⟨(literal.operand names).token, span⟩)
      ((Expression.literal literal).run world) := by
  cases literal with
  | numeral numeral =>
    have executed : evaluation.machine.execute (some names) ⟨.number numeral.value, span⟩ =
        ⟨evaluation.machine.push ⟨.number numeral.value, span⟩, [], none⟩ := rfl
    have ran : (Expression.literal (.numeral numeral)).run world =
        (.ok (.number numeral.value), world) := rfl
    rw [ran]
    simp only [Literal.operand, Operand.token, Evaluation.perform_eq executed]
    exact .ok ⟨_, rfl, .number _⟩ spells (by simp [Event.numbers])
  | identifier identifier =>
    obtain ⟨handle, found⟩ := known identifier List.mem_cons_self
    have executed : evaluation.machine.execute (some names) ⟨.name handle, span⟩ =
        ⟨evaluation.machine.push ⟨.name handle, span⟩, [], none⟩ := rfl
    have ran : (Expression.literal (.identifier identifier)).run world =
        (.ok (.reference identifier.spelling), world) := rfl
    rw [ran]
    simp only [Literal.operand, Operand.token, found, Option.getD_some,
      Evaluation.perform_eq executed]
    exact .ok ⟨_, rfl, .name (NameTable.stands_of_handle? found)⟩ spells
      (by simp [Event.numbers])

/-- On whichever side of its operand a print sign stands, it comes behind it. -/
theorem agrees_printed (distinct : names.spellings.Nodup) {expression : Expression}
    {operand : List Token} {tokens : List (Spanned Token)}
    (order : tokens.map Spanned.value = operand ++ [.operator .print])
    {evaluation : Evaluation} {world : World}
    (agrees : ∀ {early : List (Spanned Token)}, early.map Spanned.value = operand →
      Agrees names world.printed (Atop names evaluation.machine.stack)
        (Evaluation.performAll names early evaluation) (expression.run world)) :
    Agrees names world.printed (Atop names evaluation.machine.stack)
      (Evaluation.performAll names tokens evaluation) (expression.print.run world) := by
  obtain ⟨early, last, rfl, earlyOrder, lastOrder⟩ := List.map_eq_append_iff.mp order
  obtain ⟨span, rfl⟩ := Spanned.exists_of_values_singleton lastOrder
  rw [Evaluation.performAll_append]
  refine (agrees earlyOrder).bind fun after result later atop spells => ?_
  obtain ⟨entry, shape, shown⟩ := atop
  rw [Evaluation.performAll_singleton]
  exact agrees_print distinct spells shape shown span

/-- Executing the postfix order of an expression on any stack runs the expression. -/
theorem Phrase.Writes.agrees (distinct : names.spellings.Nodup) {phrase : Phrase Literal}
    {expression : Expression} (writes : phrase.Writes expression)
    (known : names.Knows (phrase.written Word.literal .symbol)) {tokens : List (Spanned Token)}
    (order : tokens.map Spanned.value =
      phrase.postorder (fun literal => (literal.operand names).token) .operator)
    {evaluation : Evaluation} {world : World}
    (spells : names.Spells evaluation.machine.environment world.named) :
    Agrees names world.printed (Atop names evaluation.machine.stack)
      (Evaluation.performAll names tokens evaluation) (expression.run world) := by
  induction writes generalizing tokens evaluation world with
  | operand literal =>
    obtain ⟨span, rfl⟩ := Spanned.exists_of_values_singleton order
    rw [Evaluation.performAll_singleton]
    exact agrees_literal known spells span
  | binary op leftWrites rightWrites leftIH rightIH =>
    rw [Phrase.written, NameTable.knows_append, NameTable.knows_symbol] at known
    rw [Phrase.postorder] at order
    obtain ⟨operands, last, rfl, operandsOrder, lastOrder⟩ := List.map_eq_append_iff.mp order
    obtain ⟨leftTokens, rightTokens, rfl, leftOrder, rightOrder⟩ :=
      List.map_eq_append_iff.mp operandsOrder
    obtain ⟨span, rfl⟩ := Spanned.exists_of_values_singleton lastOrder
    rw [List.append_assoc, Evaluation.performAll_append]
    have left := leftIH known.1 leftOrder spells
    cases op
    all_goals
      refine left.bind fun afterLeft first worldLeft leftAtop leftSpells => ?_
      rw [Evaluation.performAll_append]
      have right := rightIH known.2 rightOrder leftSpells
      refine right.bind fun afterRight second worldRight rightAtop rightSpells => ?_
      rw [Evaluation.performAll_singleton]
      obtain ⟨leftEntry, leftShape, leftShown⟩ := leftAtop
      obtain ⟨rightEntry, rightShape, rightShown⟩ := rightAtop
      rw [leftShape] at rightShape
    case equals => exact agrees_assign distinct rightSpells rightShape leftShown rightShown span
    case arithmetic op =>
      exact agrees_calculate distinct rightSpells rightShape leftShown rightShown op span
  | printBefore writes ih =>
    rw [Phrase.written, NameTable.knows_symbol] at known
    exact agrees_printed distinct order fun order => ih known order spells
  | printAfter writes ih =>
    rw [Phrase.written, NameTable.knows_append] at known
    exact agrees_printed distinct order fun order => ih known.1 order spells
  | brackets writes ih =>
    rw [Phrase.written, NameTable.knows_symbol, NameTable.knows_append] at known
    exact ih known.1 order spells

/-- Nothing but nulls is on the stack, as between two statements. -/
def Settled (stack : List (Spanned Entry)) (_ : Unit) : Prop :=
  ∀ entry ∈ stack, entry.value = .null

theorem Settled.settle {stack : List (Spanned Entry)} (settled : Settled stack ()) (span : Span) :
    Settled (Machine.settle span stack) () := by
  obtain ⟨gone, rest, rfl, -, -, same⟩ := Machine.settle_eq span stack
  rw [same]
  intro entry member
  rcases List.mem_cons.mp member with rfl | inside
  · rfl
  · exact settled entry (List.mem_append_right _ inside)

def Evaluation.Ends (names : NameTable) (ending : Evaluation → Outcome Evaluation) : Prop :=
  ∀ evaluation : Evaluation, ∃ span reach events, Event.numbers events = [] ∧
    ending evaluation = ((evaluation.machine.endStatement (some names) span).following events).map
      fun machine => ⟨machine, reach⟩

theorem Evaluation.ends_semicolon (span : Span) :
    Ends names (performAll names [⟨.operator .semicolon, span⟩]) := by
  intro evaluation
  refine ⟨span, max evaluation.reach span.stop, [.executing ⟨.operator .semicolon, span⟩], rfl, ?_⟩
  rw [performAll_singleton]
  rfl

theorem Evaluation.ends_close : Ends names (close (some names)) := by
  intro evaluation
  exact ⟨⟨evaluation.reach, evaluation.reach⟩, evaluation.reach, [], rfl, rfl⟩

/-- The postfix order of a statement and an end of it run the statement. -/
theorem Statement.agrees (distinct : names.spellings.Nodup) {statement : Statement Literal}
    {run : Option Expression} (writes : Option.Rel Phrase.Writes statement run)
    (known : names.Knows (statement.written Word.literal .symbol)) {tokens : List (Spanned Token)}
    (order : tokens.map Spanned.value =
      statement.postorder (fun literal => (literal.operand names).token) .operator)
    {evaluation : Evaluation} {world : World}
    (spells : names.Spells evaluation.machine.environment world.named)
    (settled : Settled evaluation.machine.stack ()) {ending : Evaluation → Outcome Evaluation}
    (ends : Evaluation.Ends names ending) :
    Agrees names world.printed Settled ((Evaluation.performAll names tokens evaluation).andThen ending)
      (Program.runStatement run world) := by
  cases writes with
  | none =>
    obtain rfl := List.map_eq_nil_iff.mp order
    obtain ⟨span, reach, events, silent, same⟩ := ends evaluation
    have ended : ∃ place, evaluation.machine.endStatement (some names) span =
        .done ⟨Machine.settle place evaluation.machine.stack.tail,
          evaluation.machine.environment⟩ := by
      obtain ⟨⟨stack, environment⟩, reach⟩ := evaluation
      cases stack with
      | nil => exact ⟨span, rfl⟩
      | cons entry below =>
        have null := settled entry List.mem_cons_self
        refine ⟨span.hull entry.span, ?_⟩
        simp [Machine.endStatement, null]
    obtain ⟨place, ended⟩ := ended
    have below : Settled evaluation.machine.stack.tail () :=
      fun entry member => settled entry (List.mem_of_mem_tail member)
    have performed : (Evaluation.performAll names [] evaluation).andThen ending =
        ⟨⟨⟨Machine.settle place evaluation.machine.stack.tail, evaluation.machine.environment⟩,
          reach⟩, events, none⟩ := by
      simp [Evaluation.performAll, Outcome.runAll, Outcome.andThen, Outcome.done,
        Outcome.following, Outcome.map, same, ended]
    rw [performed]
    exact .ok (below.settle place) spells (by simp [silent])
  | @some phrase expression writes =>
    have expressed := writes.agrees distinct known order spells
    refine expressed.bind fun after result later atop laterSpells => ?_
    obtain ⟨entry, shape, shown⟩ := atop
    obtain ⟨span, reach, events, silent, same⟩ := ends after
    rw [Interpreter.bind_eq, same]
    rcases ends_shown distinct laterSpells shape shown span with
      ⟨value, ran, ended⟩ | ⟨cause, ran, ended⟩
    · rw [ran, ended]
      exact .ok (settled.settle _) laterSpells (by simp [Outcome.following, Outcome.done, silent])
    · rw [ran, ended]
      exact .error cause _ laterSpells (by simp [Outcome.following, Outcome.fail, silent])

/-- The postfix order of a line, with an end of its last statement, runs the program. -/
theorem Passage.Writes.agrees (distinct : names.spellings.Nodup) {passage : Passage Literal}
    {program : Program} (writes : passage.Writes program)
    (known : names.Knows (passage.written Word.literal .symbol)) {tokens : List (Spanned Token)}
    (order : tokens.map Spanned.value =
      passage.postorder (fun literal => (literal.operand names).token) .operator)
    {evaluation : Evaluation} (world : World)
    (spells : names.Spells evaluation.machine.environment world.named)
    (settled : Settled evaluation.machine.stack ()) :
    Agrees names world.printed Settled
      ((Evaluation.performAll names tokens evaluation).andThen (Evaluation.close (some names)))
      (program.run world) := by
  obtain ⟨ended, last⟩ := passage
  unfold Passage.Writes at writes
  simp only at writes
  induction ended generalizing tokens program evaluation world with
  | nil =>
    rcases writes with _ | ⟨lastWrites, none⟩
    cases none
    rw [Passage.written, List.flatMap_nil, List.nil_append] at known
    rw [Passage.postorder, List.flatMap_nil, List.nil_append] at order
    have agrees := Statement.agrees distinct lastWrites known order spells settled
      Evaluation.ends_close
    rw [Program.run_singleton]
    exact agrees
  | cons statement later ih =>
    rcases writes with _ | ⟨statementWrites, laterWrites⟩
    rw [Passage.written, List.flatMap_cons, List.append_assoc, List.append_assoc,
      NameTable.knows_append, List.singleton_append, NameTable.knows_symbol] at known
    rw [Passage.postorder, List.flatMap_cons, List.append_assoc, List.append_assoc] at order
    obtain ⟨first, rest, rfl, firstOrder, restOrder⟩ := List.map_eq_append_iff.mp order
    obtain ⟨span, others, rfl, othersOrder⟩ := Spanned.exists_of_values_cons restOrder
    have agrees := Statement.agrees distinct statementWrites known.1 firstOrder spells settled
      (Evaluation.ends_semicolon span)
    have performed : (Evaluation.performAll names
        (first ++ ⟨.operator .semicolon, span⟩ :: others) evaluation).andThen
          (Evaluation.close (some names)) =
        ((Evaluation.performAll names first evaluation).andThen
          (Evaluation.performAll names [⟨.operator .semicolon, span⟩])).andThen fun after =>
            (Evaluation.performAll names others after).andThen (Evaluation.close (some names)) := by
      rw [Evaluation.performAll_append, Outcome.andThen_assoc, Outcome.andThen_assoc]
      congr 1
      funext after
      rw [← List.singleton_append, Evaluation.performAll_append, Outcome.andThen_assoc]
    rw [performed, Program.run]
    refine agrees.bind fun after _ world nulls laterSpells => ?_
    exact ih world laterSpells nulls laterWrites known.2 othersOrder

end LineCalc
