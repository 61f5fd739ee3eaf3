import LineCalc.Proofs.Batches

/-!
From a tree to a line and back to what the tree means: a line that is written with enough brackets,
and with any further ones and any blanks, does what the interpreter does with its program.
-/

namespace LineCalc

variable {names final : NameTable}

/-- A word as a token, with handles from the table. -/
def Word.raw (names : NameTable) : Word → RawToken
  | literal value => (value.operand names).raw
  | symbol sign => .symbol sign

namespace Listing

theorem nodup_takeAll (distinct : names.spellings.Nodup) (lexemes : List (Spanned Lexeme)) :
    (takeAll none names lexemes).names.spellings.Nodup := by
  induction lexemes generalizing names with
  | nil => exact distinct
  | cons lexeme others ih => exact ih (NameTable.nodup_take distinct lexeme.value)

/-- A handle that a word gets while the line is taken in is its handle at the end. -/
theorem handle?_takeAll (distinct : names.spellings.Nodup) (text : String)
    (others : List (Spanned Lexeme)) :
    (takeAll none (names.intern text).1 others).names.handle? text =
      some (names.intern text).2 := by
  have grows := extends_takeAll (names.intern text).1 others
  have stands := (names.stands_intern text).mono grows
  exact stands.handle? (nodup_takeAll (NameTable.nodup_intern distinct text) others)

theorem tokens_words (distinct : names.spellings.Nodup) {words : List Word}
    {lexemes : List (Spanned Lexeme)} (cut : lexemes.map Spanned.value = words.map Word.lexeme)
    (whole : (takeAll none names lexemes).names = final) :
    (takeAll none names lexemes).tokens.map Spanned.value = words.map (Word.raw final) ∧
      final.Knows words := by
  induction words generalizing names lexemes with
  | nil =>
    obtain rfl := List.map_eq_nil_iff.mp cut
    exact ⟨rfl, fun identifier member => by cases member⟩
  | cons word later ih =>
    obtain ⟨span, others, rfl, cutLater⟩ := Spanned.exists_of_values_cons cut
    obtain ⟨values, known⟩ := ih (NameTable.nodup_take distinct word.lexeme) cutLater whole
    rw [tokens_cons, List.map_cons, List.map_cons, values]
    rcases word with (numeral | identifier) | sign
    case literal.identifier =>
      have held := handle?_takeAll distinct identifier.spelling others
      have same : (takeAll none (names.intern identifier.spelling).1 others).names = final := whole
      rw [same] at held
      constructor
      · simp [Word.raw, Literal.operand, Operand.raw, held, Word.lexeme, NameTable.take]
      · intro other member
        rcases List.mem_cons.mp member with first | inside
        · cases first
          exact ⟨_, held⟩
        · exact known other inside
    all_goals
      refine ⟨rfl, fun other member => ?_⟩
      rcases List.mem_cons.mp member with first | inside
      · cases first
      · exact known other inside

end Listing

theorem NameTable.Spells.namedVariables {environment : Environment}
    {named : List (String × Number)} (spells : final.Spells environment named)
    (grows : names.Extends final)
    (bound : ∀ binding ∈ environment.bindings, ∃ spelling, names.Stands binding.1 spelling) :
    Session.namedVariables ⟨names, environment⟩ = named := by
  obtain ⟨bindings⟩ := environment
  simp only [Spells] at spells
  simp only at bound
  simp only [Session.namedVariables]
  induction spells with
  | nil => rfl
  | @cons binding other later others head rest ih =>
    obtain ⟨spelling, stands⟩ := bound binding List.mem_cons_self
    have same : spelling = other.1 := (stands.mono grows).unique head.1
    have first : names.spelling? binding.1 = some other.1 := same ▸ stands.spelling?
    rw [List.filterMap_cons]
    simp only [first, Option.map_some, head.2]
    rw [ih fun binding member => bound binding (List.mem_cons_of_mem _ member)]

theorem Session.Sound.spells {session : Session} (sound : session.Sound) :
    session.names.Spells session.environment session.namedVariables := by
  obtain ⟨names, ⟨bindings⟩⟩ := session
  have bound := sound.bound
  simp only at bound
  simp only [NameTable.Spells, namedVariables]
  clear sound
  induction bindings with
  | nil => exact .nil
  | cons binding later ih =>
    obtain ⟨spelling, stands⟩ := bound binding List.mem_cons_self
    rw [List.filterMap_cons]
    simp only [stands.spelling?, Option.map_some]
    exact .cons ⟨stands, rfl⟩ (ih fun binding member =>
      bound binding (List.mem_cons_of_mem _ member))

theorem Stages.run {session : Session} {line : String} {staged : Outcome Evaluation}
    (stages : Stages final (LineRun.feedAll (Scan.ofLine line) session.begin) staged)
    {leaves : List (Spanned Entry) → Unit → Prop} {reached : Except Cause Unit × World}
    (agrees : Agrees final [] leaves staged reached) :
    (session.run line).state.namedVariables = reached.2.named ∧
      Event.output (session.run line).events =
        Event.output (reached.2.printed.map .printed) ∧
      match reached.1 with
      | .ok _ => (session.run line).fault = none
      | .error cause => ∃ span, (session.run line).fault = some (.inLine cause span) := by
  have output : Event.output (session.run line).events =
      Event.output ((Event.numbers staged.events).map .printed) := by
    rw [Event.output_eq, ← stages.numbers]
    rfl
  have named : ∀ named, final.Spells staged.state.machine.environment named →
      (session.run line).state.namedVariables = named := by
    intro named spells
    rw [← stages.evaluation] at spells
    exact spells.namedVariables stages.grows stages.sound.machine.bound
  have fault : (session.run line).fault = staged.fault := stages.fault
  rw [output, fault]
  cases agrees with
  | ok stack spells printed =>
    refine ⟨named _ spells, ?_, rfl⟩
    rw [printed, List.nil_append]
  | error cause span spells printed =>
    refine ⟨named _ spells, ?_, span, rfl⟩
    rw [printed, List.nil_append]

theorem Stages.numbers_run {session : Session} {line : String} {staged : Outcome Evaluation}
    (stages : Stages final (LineRun.feedAll (Scan.ofLine line) session.begin) staged)
    {leaves : List (Spanned Entry) → Unit → Prop} {reached : Except Cause Unit × World}
    (agrees : Agrees final [] leaves staged reached) :
    Event.numbers (session.run line).events = reached.2.printed := by
  have same : Event.numbers (session.run line).events = Event.numbers staged.events := stages.numbers
  rw [same]
  cases agrees with
  | ok stack spells printed => exact printed.symm
  | error cause span spells printed => exact printed.symm

/-- A written line executes the postfix order of its tree, which runs the program. -/
theorem Passage.Writes.exists_stages {session : Session} (reached : session.Reachable)
    {passage : Passage Literal} {program : Program} (writes : passage.Writes program)
    (bracketed : passage.bracketed PrecedenceTable.standard_total.rule = true) {line : String}
    (layout : Layout (passage.written Word.literal .symbol) line.toList) :
    ∃ final staged, Stages final (LineRun.feedAll (Scan.ofLine line) session.begin) staged ∧
      Agrees final [] Settled staged (program.meaning session.namedVariables) := by
  have sound := reached.sound
  obtain ⟨clean, cut⟩ := layout.ofChars (passage.isChain_written id) 0
  generalize whole : (Listing.takeAll none session.names (Scan.ofLine line).lexemes).names = final
  obtain ⟨values, known⟩ := Listing.tokens_words sound.distinct cut whole
  rw [passage.map_written] at values
  obtain ⟨after, ready, rest, taken, finished, order⟩ :=
    Resolver.pushAll_passage (Literal.operand final) PrecedenceTable.standard_graded bracketed values
  have stages := LineRun.feedAll_stages sound.begin clean taken finished whole
  have distinct : final.spellings.Nodup := by
    rw [← whole]
    exact Listing.nodup_takeAll sound.distinct _
  have grows : session.names.Extends final := by
    rw [← whole]
    exact Listing.extends_takeAll session.names _
  have settled : Settled session.begin.evaluation.machine.stack () := by
    intro entry member
    cases member
  exact ⟨final, _, stages, writes.agrees distinct known order ⟨session.namedVariables, []⟩
    (sound.spells.mono grows) settled⟩

/-- A written line does what its program means: it gives the same variables values, in the same order,
prints the same, and ends well or with the same mistake. -/
theorem run_written {session : Session} (reached : session.Reachable)
    {passage : Passage Literal} {program : Program} (writes : passage.Writes program)
    (bracketed : passage.bracketed PrecedenceTable.standard_total.rule = true) {line : String}
    (layout : Layout (passage.written Word.literal .symbol) line.toList) :
    (session.run line).state.namedVariables =
        (program.meaning session.namedVariables).2.named ∧
      Event.output (session.run line).events =
        Event.output ((program.meaning session.namedVariables).2.printed.map .printed) ∧
      match (program.meaning session.namedVariables).1 with
      | .ok _ => (session.run line).fault = none
      | .error cause => ∃ span, (session.run line).fault = some (.inLine cause span) := by
  obtain ⟨final, staged, stages, agrees⟩ := writes.exists_stages reached bracketed layout
  exact stages.run agrees

/-- In `x=1; %x;y` the last name has no value, and the statements before it have had their effect. -/
theorem run_written_unassigned :
    ∃ (program : Program) (value : Number),
      program.meaning [] =
        (.error (.unassignedVariable "y"), ⟨[("x", value)], [value]⟩) ∧
      (Session.empty.run "x=1; %x;y").state.namedVariables = [("x", value)] ∧
      ∃ span, (Session.empty.run "x=1; %x;y").fault =
        some (.inLine (.unassignedVariable "y") span) := by
  have letterX : Text.isLetter 'x' = true := by decide +kernel
  have letterY : Text.isLetter 'y' = true := by decide +kernel
  have blank : Text.isBlank ' ' = true := by decide +kernel
  let x : Literal := .identifier ⟨'x', [], List.forall_mem_singleton.mpr letterX⟩
  let y : Literal := .identifier ⟨'y', [], List.forall_mem_singleton.mpr letterY⟩
  let one : Numeral := ⟨['1'], ⟨1, 0⟩, by decide +kernel⟩
  let passage : Passage Literal :=
    ⟨[some (.binary .equals (.operand x) (.operand (.numeral one))),
      some (.printBefore (.operand x))], some (.operand y)⟩
  let program : Program :=
    [some (.binary .equals (.literal x) (.literal (.numeral one))), some (.print (.literal x)),
      some (.literal y)]
  have writes : passage.Writes program :=
    .cons (.some (.binary .equals (.operand x) (.operand _)))
      (.cons (.some (.printBefore (.operand x))) (.cons (.some (.operand y)) .nil))
  have none : ∀ c ∈ [], Text.isBlank c = true := List.forall_mem_nil _
  have space : ∀ c ∈ [' '], Text.isBlank c = true := List.forall_mem_singleton.mpr blank
  have layout : Layout (passage.written Word.literal .symbol) "x=1; %x;y".toList :=
    .word none (.word none (.word none (.word none (.word space (.word none (.word none
      (.word none (.ended none))))))))
  have meaning : program.meaning [] =
      (.error (.unassignedVariable "y"), ⟨[("x", one.value)], [one.value]⟩) := rfl
  have ran := run_written .empty writes rfl layout
  obtain ⟨named, -, stopped⟩ := ran
  exact ⟨program, one.value, meaning, named, stopped⟩

end LineCalc
