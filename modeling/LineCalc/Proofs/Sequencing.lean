import LineCalc.Proofs.Feeding
import LineCalc.Proofs.Trailing

/-!
A semicolon between two texts runs the one and then the other. Where no bracket is open, it does what
the end of a line does, and the text behind it does what it would do as a line of its own.
-/

namespace LineCalc

open PrecedenceTable (standard standard_total)

variable {distance : Int}

/-- One null is on top, as a finished statement leaves it. -/
def Finished (stack : List (Spanned Entry)) : Prop :=
  ∃ place rest, stack = ⟨.null, place⟩ :: rest ∧ ∀ entry ∈ rest.head?, entry.value ≠ .null

theorem Machine.settle_finished (span : Span) (stack : List (Spanned Entry)) :
    Finished (settle span stack) := by
  obtain ⟨gone, rest, -, -, ends, same⟩ := settle_eq span stack
  exact ⟨_, rest, same, ends⟩

/-- The end of a statement does not depend on where it is, but for the place of the null. -/
theorem Machine.endStatement_alike (naming : Naming) (machine : Machine) (place placeToo : Span) :
    Outcome.Alike (fun after another => Even after another ∧ Finished another.stack) Even (· = ·)
      (machine.endStatement naming place) (machine.endStatement naming placeToo) := by
  obtain ⟨stack, environment⟩ := machine
  rcases stack with _ | ⟨⟨_ | handle | _, span⟩, below⟩
  case cons.name =>
    cases found : environment.get? handle with
    | some value =>
      simp only [endStatement, found, Option.isSome_some, if_true]
      exact .done ⟨rfl, settle_finished _ _⟩ rfl
    | none =>
      simp only [endStatement, found, Option.isSome_none, Bool.false_eq_true, if_false]
      exact .fail rfl rfl rfl
  all_goals exact .done ⟨rfl, settle_finished _ _⟩ rfl

/-- The end of a line ends the last statement as a semicolon does. -/
theorem Evaluation.close_alike (naming : Naming) (evaluation : Evaluation) (span : Span) :
    Outcome.Alike
      (fun after another => Even after.machine another.machine ∧ Finished another.machine.stack)
      (fun after another => Even after.machine another.machine) (· = ·)
      (evaluation.close naming) (evaluation.perform naming ⟨.operator .semicolon, span⟩) := by
  have ended :=
    evaluation.machine.endStatement_alike naming ⟨evaluation.reach, evaluation.reach⟩ span
  have followed := ended.following [] [.executing ⟨.operator .semicolon, span⟩] rfl
  exact followed.map (fun _ _ held => held) (fun _ _ held => held)

/-- What a semicolon leaves behind outside of brackets: the names and the environment that the end of a
line would have left, and nothing that waits. -/
structure LineRun.Restarts (run after : LineRun) : Prop where
  even : LineRun.Even run after
  expect : after.resolver.expect = .value
  stack : after.resolver.stack = []
  operands : ∃ before low, after.resolver.operands = before :: low
  null : Finished after.evaluation.machine.stack

namespace LineRun

variable {run after : LineRun}

theorem Restarts.trails (restarts : run.Restarts after)
    (inside : after.Inside fun span => span.stop ≤ distance) :
    Trails distance (Session.begin ⟨run.names, run.evaluation.machine.environment⟩) after := by
  obtain ⟨before, low, operands⟩ := restarts.operands
  obtain ⟨place, rest, stack, ends⟩ := restarts.null
  have left : place.stop ≤ distance := inside.stack ⟨.null, place⟩ (by simp [stack])
  have leftToo : before.stop ≤ distance := inside.operands before (by simp [operands])
  refine ⟨restarts.even.1, restarts.expect, ?_, ?_, ?_, restarts.even.2, ?_⟩
  · rw [restarts.stack]
    rfl
  · simp [Session.begin, Resolver.start]
  · simp [Session.begin, Resolver.start]
  · rw [operands, stack]
    exact .bare left leftToo ends

theorem feed_semicolon {pending : List (Spanned Operator)}
    (shape : run.resolver.stack = waiting pending) (span : Span) :
    feed ⟨.symbol (.operator .semicolon), span⟩ run =
      ((Outcome.runAll (Evaluation.perform (some run.names))
        (standard_total.emitAll pending run.resolver.operands).1 run.evaluation).andThen
          (Evaluation.perform (some run.names) ((standard_total.rule .semicolon).token .semicolon span
            (standard_total.emitAll pending run.resolver.operands).2))).map fun evaluation =>
              ⟨run.names, ⟨.value, [], (standard_total.rule .semicolon).reduce span
                (standard_total.emitAll pending run.resolver.operands).2⟩, evaluation⟩ := by
  obtain ⟨names, ⟨expect, stack, operands⟩, evaluation⟩ := run
  simp only at shape
  subst shape
  have released := standard_total.releaseFor_waiting (standard_total.holds_nil .semicolon)
    (fun entry (_ : entry ∈ pending) => PrecedenceTable.standard_before_semicolon entry.value)
    operands
  rw [List.append_nil] at released
  have pushed : Resolver.push standard ⟨expect, waiting pending, operands⟩
      ⟨.symbol (.operator .semicolon), span⟩ =
        (⟨.value, [], (standard_total.rule .semicolon).reduce span
            (standard_total.emitAll pending operands).2⟩,
          .ok ((standard_total.emitAll pending operands).1 ++
            [(standard_total.rule .semicolon).token .semicolon span
              (standard_total.emitAll pending operands).2])) := by
    have pushed := Resolver.pushOperator_semicolon standard_total
      ⟨.value, waiting pending, operands⟩ released rfl span
    cases expect <;> exact pushed
  simp only [feed, NameTable.take, pushed, execute_append]
  rfl

/-- Where no bracket is open, a semicolon does what the end of the line does. -/
theorem finish_alike {pending : List (Spanned Operator)}
    (shape : run.resolver.stack = waiting pending) (span : Span) :
    Outcome.Alike Restarts LineRun.Even (· = ·) run.finish
      (feed ⟨.symbol (.operator .semicolon), span⟩ run) := by
  rw [finish_waiting shape, feed_semicolon shape]
  generalize Outcome.runAll (Evaluation.perform (some run.names))
    (standard_total.emitAll pending run.resolver.operands).1 run.evaluation = executed
  have emitted : Outcome.Alike (fun reached another => another = reached)
      (fun after another : Evaluation => LineCalc.Even after.machine another.machine) (· = ·)
      executed executed := by
    apply Outcome.Alike.refl
    · intro evaluation
      rfl
    · intro evaluation
      rfl
  have ended := emitted.andThen fun reached another same => by
    subst same
    exact another.close_alike (some run.names) ((standard_total.rule .semicolon).cover span
      (standard_total.emitAll pending run.resolver.operands).2)
  refine ended.map (fun after another held => ?_) fun after another even => ⟨rfl, even⟩
  exact ⟨⟨rfl, held.1⟩, rfl, rfl, ⟨_, _, rfl⟩, held.2⟩

theorem runAll_snoc (lexemes : List (Spanned Lexeme)) (last : Spanned Lexeme) (run : LineRun) :
    Outcome.runAll feed (lexemes ++ [last]) run =
      (Outcome.runAll feed lexemes run).andThen (feed last) := by
  rw [Outcome.runAll_append]
  congr 1
  funext after
  exact Outcome.andThen_done _

/-- A text and a semicolon do what the text does as a line, unless a bracket is left open. -/
theorem ends_alike {scan : Scan} (clean : scan.mistake = none) (span : Span) (run : LineRun) :
    (∃ place, (feedAll scan run).fault = some (.inLine .unclosedLeftBracket place)) ∨
      Outcome.Alike Restarts LineRun.Even (· = ·) (feedAll scan run)
        (Outcome.runAll feed (scan.lexemes ++ [⟨.symbol (.operator .semicolon), span⟩]) run) := by
  rw [runAll_snoc]
  simp only [feedAll, clean]
  generalize Outcome.runAll feed scan.lexemes run = fed
  obtain ⟨reached, events, _ | fault⟩ := fed
  case some => exact .inr (.fail ⟨rfl, rfl⟩ rfl rfl)
  simp only [Outcome.andThen]
  rcases exists_bracket reached.resolver.stack with
    ⟨pending, shape⟩ | ⟨pending, opening, base, shape⟩
  · exact .inr ((finish_alike shape span).following events events rfl)
  · refine .inl ⟨opening, ?_⟩
    simp [finish_refused shape, Outcome.fail, Outcome.following]

theorem feedAll_cut {first : List Char} (clean : (Scan.ofChars 0 first).mistake = none)
    (second : List Char) (run : LineRun) :
    ∃ span : Span, span.stop = (first.length + 1 : Nat) ∧
      feedAll (Scan.ofChars 0 (first ++ ';' :: second)) run =
        (Outcome.runAll feed ((Scan.ofChars 0 first).lexemes ++
          [⟨.symbol (.operator .semicolon), span⟩]) run).andThen
            (feedAll ((Scan.ofChars 0 second).shift (first.length + 1 : Nat))) := by
  refine ⟨⟨first.length, (first.length + 1 : Nat)⟩, rfl, ?_⟩
  have moved := Scan.ofChars_shift (first.length + 1) 0 second
  rw [Nat.zero_add] at moved
  rw [Scan.ofChars_semicolon, Scan.followedBy, clean, Scan.atSemicolon, Nat.zero_add, moved]
  simp only [feedAll, Scan.cons, Scan.shift]
  rw [← List.singleton_append, ← List.append_assoc, Outcome.runAll_append, Outcome.andThen_assoc]
  rfl

theorem inside_statement (session : Session) (text : List Char) {span : Span}
    (stop : span.stop = (text.length + 1 : Nat)) :
    (Outcome.runAll feed ((Scan.ofChars 0 text).lexemes ++
      [⟨.symbol (.operator .semicolon), span⟩]) session.begin).state.Inside
        fun span => span.stop ≤ (text.length + 1 : Nat) := by
  apply (inside_begin session).feedRow
  · intro a b left right
    simp only [Span.hull]
    omega
  · intro lexeme member
    rcases List.mem_append.mp member with before | last
    · have bounds := Scan.ofChars_within 0 text lexeme before
      omega
    · rw [List.mem_singleton.mp last]
      exact Int.le_of_eq stop

theorem feedAll_mistaken {scan : Scan} {error : CalcError} (found : scan.mistake = some error)
    (run : LineRun) : (feedAll scan run).fault ≠ none := by
  simp only [feedAll, found]
  generalize Outcome.runAll feed scan.lexemes run = fed
  obtain ⟨reached, events, _ | fault⟩ := fed <;>
    simp [Outcome.andThen, Outcome.fail, Outcome.following]

/-- What becomes of a line that goes on behind a semicolon, from what its first text does as a line
and from what the second text does behind that. -/
inductive Sequel (distance : Int) (second : Session → Outcome LineRun) (first whole : Outcome LineRun) :
    Prop where
  | unclosed (place : Span) (left : first.fault = some (.inLine .unclosedLeftBracket place))
  | stopped (fault : Fault) (failed : first.fault = some fault)
      (alike : Outcome.Alike LineRun.Even LineRun.Even (· = ·) first whole)
  | goesOn (clean : first.fault = none)
      (alike : Outcome.Trailing distance LineRun.Even
        ((second ⟨first.state.names, first.state.evaluation.machine.environment⟩).following
          first.events) whole)

theorem sequel_mistaken {session : Session} {p : String} {error : CalcError}
    (found : (Scan.ofLine p).mistake = some error) (q : String)
    (second : Session → Outcome LineRun) :
    Sequel (p.length + 1 : Nat) second (feedAll (Scan.ofLine p) session.begin)
      (feedAll (Scan.ofLine (p ++ ";" ++ q)) session.begin) := by
  have same : Scan.ofLine (p ++ ";" ++ q) = Scan.ofLine p := by
    have text : (p ++ ";" ++ q).toList = p.toList ++ ';' :: q.toList := by simp
    unfold Scan.ofLine at found ⊢
    rw [text, Scan.ofChars_semicolon, Scan.followedBy, found]
  obtain ⟨fault, failed⟩ :=
    Option.ne_none_iff_exists'.mp (feedAll_mistaken found session.begin)
  rw [same]
  apply Sequel.stopped fault failed
  apply Outcome.Alike.refl
  · intro run
    exact ⟨rfl, rfl⟩
  · intro run
    exact ⟨rfl, rfl⟩

theorem feedAll_sequel (session : Session) (p q : String) :
    Sequel (p.length + 1 : Nat) (fun after => feedAll (Scan.ofLine q) after.begin)
      (feedAll (Scan.ofLine p) session.begin)
      (feedAll (Scan.ofLine (p ++ ";" ++ q)) session.begin) := by
  cases found : (Scan.ofLine p).mistake with
  | some error => exact sequel_mistaken found q _
  | none =>
    obtain ⟨span, stop, cut⟩ := feedAll_cut found q.toList session.begin
    have inside := inside_statement session p.toList stop
    have text : p.toList ++ ';' :: q.toList = (p ++ ";" ++ q).toList := by simp
    rw [text, String.length_toList] at cut
    rw [String.length_toList] at inside
    rcases ends_alike found span session.begin with ⟨place, left⟩ | alike
    · exact .unclosed place left
    · unfold Scan.ofLine at alike ⊢
      rw [cut]
      generalize feedAll (Scan.ofChars 0 p.toList) session.begin = first at alike ⊢
      generalize Outcome.runAll feed ((Scan.ofChars 0 p.toList).lexemes ++
        [⟨.symbol (.operator .semicolon), span⟩]) session.begin = row at alike inside ⊢
      cases alike with
      | fail even same printed => exact .stopped _ rfl (.fail even same printed)
      | @done reached another events others restarts printed =>
        have follows := (restarts.trails inside).feedAll q.toList
        exact .goesOn rfl (follows.following events others printed)

end LineRun

theorem Session.output_run (session : Session) (line : String) :
    Event.output (session.run line).events =
      Event.output (LineRun.feedAll (Scan.ofLine line) session.begin).events :=
  Event.output_congr rfl

/-- A semicolon puts lines in sequence. If the first one ends well, the second one does behind it what it
does in the session that the first one leaves, and its fault is the same, further on in the line; only
where operands are missing it finds the null of the first one. If the first one ends with a fault, so
does the whole, unless the fault is a bracket that is left open. -/
theorem run_sequence (session : Session) (p q : String) :
    ((session.run p).fault = none →
      (session.run (p ++ ";" ++ q)).state = ((session.run p).state.run q).state ∧
      Event.output (session.run (p ++ ";" ++ q)).events =
        Event.output (session.run p).events ++ Event.output ((session.run p).state.run q).events ∧
      Option.Rel (Fault.Continues (p.length + 1 : Nat)) ((session.run p).state.run q).fault
        (session.run (p ++ ";" ++ q)).fault) ∧
    ∀ fault, (session.run p).fault = some fault →
      (∀ span, fault ≠ .inLine .unclosedLeftBracket span) →
      (session.run (p ++ ";" ++ q)).state = (session.run p).state ∧
        Event.output (session.run (p ++ ";" ++ q)).events = Event.output (session.run p).events ∧
        (session.run (p ++ ";" ++ q)).fault = some fault := by
  have faultOf (session : Session) (line : String) : (session.run line).fault =
      (LineRun.feedAll (Scan.ofLine line) session.begin).fault := rfl
  rw [Session.output_run, Session.output_run, Session.output_run, faultOf, faultOf, faultOf]
  cases LineRun.feedAll_sequel session p q with
  | unclosed place left =>
    rw [left]
    constructor
    · intro clean
      cases clean
    · intro fault failed closed
      exact absurd (Option.some.inj failed).symm (closed place)
  | stopped fault failed alike =>
    rw [failed]
    constructor
    · intro clean
      cases clean
    · intro other same _
      obtain ⟨names, environment⟩ := alike.state
      exact ⟨congrArg₂ Session.mk names environment, Event.output_congr alike.numbers,
        alike.fault.trans (failed.trans same)⟩
  | goesOn clean alike =>
    rw [clean]
    constructor
    · intro _
      obtain ⟨names, environment⟩ := alike.state
      refine ⟨congrArg₂ Session.mk names environment, ?_, alike.rel⟩
      rw [← Event.output_append]
      exact Event.output_congr alike.numbers
    · intro fault failed
      cases failed

/-- `%` alone lacks its operand, and a semicolon behind it changes nothing; behind an empty statement
it finds the null of that. -/
theorem run_sequence_missing :
    (Session.empty.run "").fault = none ∧
      (Session.empty.run "%").fault = some (.inLine (.missingOperand .print) ⟨0, 1⟩) ∧
      (Session.empty.run "%;").fault = some (.inLine (.missingOperand .print) ⟨0, 1⟩) ∧
      ∃ cause span, cause.concernsNull = true ∧
        (Session.empty.run ";%").fault = some (.inLine cause span) := by
  have cut : Scan.ofLine "%" = ⟨[⟨.symbol (.operator .print), ⟨0, 1⟩⟩], none⟩ := by
    have cut := Scan.ofChars_symbol 0 [] (.operator .print)
    rw [Scan.ofChars] at cut
    exact cut
  have cutNone : Scan.ofLine "" = ⟨[], none⟩ := by
    rw [Scan.ofLine, String.toList_empty, Scan.ofChars]
  have empty : (Session.empty.run "").state = Session.empty ∧
      (Session.empty.run "").fault = none := by
    rw [Session.run, cutNone]
    exact ⟨rfl, rfl⟩
  have missing : (Session.empty.run "%").fault =
      some (.inLine (.missingOperand .print) ⟨0, 1⟩) := by
    rw [Session.run, cut]
    rfl
  obtain ⟨-, -, continues⟩ := (run_sequence Session.empty "" "%").1 empty.2
  obtain ⟨-, -, same⟩ := (run_sequence Session.empty "%" "").2 _ missing (by simp [Fault.inLine])
  rw [empty.1, missing] at continues
  refine ⟨empty.2, missing, same, ?_⟩
  generalize found : (Session.empty.run ("" ++ ";" ++ "%")).fault = fault at continues
  cases continues with
  | some continues =>
    obtain ⟨cause, place, null, rfl⟩ := continues.of_missing
    exact ⟨cause, place, null, found⟩

end LineCalc
