import LineCalc.Excerpt
import LineCalc.Proofs.Feeding
import LineCalc.Proofs.Region
import Mathlib.Data.List.TakeWhile

/-!
Where faults point. Whatever stops a line is a mistake of the line, and its span reaches from the start
of one lexeme to the end of one, so it is not empty, lies inside the line and has no blank at its ends.
-/

namespace LineCalc

open PrecedenceTable (standard standard_total)

/-! A place of a text is a piece of it, not empty and without blanks. -/

/-- The span is that of a piece without blanks in a text whose first character is at `position`. -/
def Marks (text : List Char) (position : Nat) (span : Span) : Prop :=
  ∃ before piece after, text = before ++ piece ++ after ∧ piece ≠ [] ∧
    (∀ c ∈ piece, Text.isBlank c = false) ∧ span.start = (position + before.length : Nat) ∧
    span.stop = (position + before.length + piece.length : Nat)

namespace Marks

variable {text : List Char} {position : Nat} {span : Span}

theorem head {piece : List Char} (after : List Char) (position : Nat) (nonempty : piece ≠ [])
    (clear : ∀ c ∈ piece, Text.isBlank c = false) :
    Marks (piece ++ after) position ⟨position, (position + piece.length : Nat)⟩ :=
  ⟨[], piece, after, rfl, nonempty, clear, rfl, rfl⟩

theorem behind (front : List Char) (marks : Marks text (position + front.length) span) :
    Marks (front ++ text) position span := by
  obtain ⟨before, piece, after, rfl, nonempty, clear, start, stop⟩ := marks
  refine ⟨front ++ before, piece, after, by simp, nonempty, clear, ?_, ?_⟩
  · rw [start, List.length_append, Nat.add_assoc]
  · rw [stop, List.length_append, Nat.add_assoc position]

theorem start_lt_stop (marks : Marks text position span) : span.start < span.stop := by
  obtain ⟨before, piece, after, -, nonempty, -, start, stop⟩ := marks
  have length := List.length_pos_iff.mpr nonempty
  omega

theorem first_visible (marks : Marks text 0 span) :
    0 ≤ span.start ∧ ∃ c, text[span.start.toNat]? = some c ∧ Text.isBlank c = false := by
  obtain ⟨before, piece, after, rfl, nonempty, clear, start, -⟩ := marks
  obtain ⟨c, rest, rfl⟩ := List.exists_cons_of_ne_nil nonempty
  have index : span.start.toNat = before.length := by omega
  exact ⟨by omega, c, by simp [index], clear c List.mem_cons_self⟩

theorem last_visible (marks : Marks text 0 span) :
    ∃ c, text[(span.stop - 1).toNat]? = some c ∧ Text.isBlank c = false := by
  obtain ⟨before, piece, after, rfl, nonempty, clear, -, stop⟩ := marks
  have length := List.length_pos_iff.mpr nonempty
  have index : (span.stop - 1).toNat = before.length + (piece.length - 1) := by omega
  refine ⟨piece.getLast nonempty, ?_, clear _ (List.getLast_mem nonempty)⟩
  rw [index, List.append_assoc, List.getElem?_append_right (Nat.le_add_right _ _),
    Nat.add_sub_cancel_left, List.getElem?_append_left (by omega),
    ← List.getLast?_eq_getElem?, List.getLast?_eq_some_getLast nonempty]

end Marks

theorem Text.exists_lineEnd (text : List Char) :
    ∃ ending, text = withoutLineEnd text ++ ending ∧ ∀ c ∈ ending, c = '\r' ∨ c = '\n' := by
  refine ⟨(text.reverse.takeWhile fun c => c == '\r' || c == '\n').reverse, ?_, ?_⟩
  · rw [withoutLineEnd, ← List.reverse_append, List.takeWhile_append_dropWhile,
      List.reverse_reverse]
  · intro c member
    have ending := List.mem_takeWhile_imp (List.mem_reverse.mp member)
    simpa only [Bool.or_eq_true, beq_iff_eq] using ending

theorem Text.lt_length_withoutLineEnd {text : List Char} {index : Nat} {c : Char}
    (found : text[index]? = some c) (visible : isBlank c = false) :
    index < (withoutLineEnd text).length := by
  obtain ⟨ending, parts, ends⟩ := exists_lineEnd text
  by_contra beyond
  rw [parts, List.getElem?_append_right (Nat.le_of_not_lt beyond)] at found
  rcases ends c (List.mem_of_getElem? found) with rfl | rfl <;> exact absurd visible (by decide)

namespace Scan

/-- The places of the lexemes of a line, and of the mistake that ends their row. -/
def places (scan : Scan) : List Span :=
  scan.lexemes.map Spanned.span ++ (scan.mistake.map CalcError.span).toList

theorem places_cons (lexeme : Spanned Lexeme) (scan : Scan) :
    (scan.cons lexeme).places = lexeme.span :: scan.places :=
  rfl

theorem not_isBlank_of_isNumeralChar {c : Char} (numeral : isNumeralChar c = true) :
    Text.isBlank c = false := by
  simp only [isNumeralChar, Bool.or_eq_true, beq_iff_eq] at numeral
  rcases numeral with digit | rfl
  · exact Text.not_isBlank_of_isDigit digit
  · decide

theorem ofChars_places (position : Nat) (text : List Char) :
    ∀ place ∈ (ofChars position text).places, Marks text position place := by
  have letters (c : Char) (letter : Text.isLetter c = true) (rest : List Char) :
      ∀ d ∈ c :: rest.takeWhile Text.isLetter, Text.isBlank d = false :=
    List.forall_mem_cons.mpr ⟨Text.not_isBlank_of_isLetter letter, fun d member =>
      Text.not_isBlank_of_isLetter (List.mem_takeWhile_imp member)⟩
  have numerals (c : Char) (digit : Text.isDigit c = true) (rest : List Char) :
      ∀ d ∈ c :: rest.takeWhile isNumeralChar, Text.isBlank d = false :=
    List.forall_mem_cons.mpr ⟨Text.not_isBlank_of_isDigit digit, fun d member =>
      not_isBlank_of_isNumeralChar (List.mem_takeWhile_imp member)⟩
  have whole (q : Char → Bool) (c : Char) (rest : List Char) :
      c :: rest = (c :: rest.takeWhile q) ++ rest.dropWhile q := by simp
  induction position, text using ofChars.induct with
  | case1 position =>
    rw [ofChars_nil]
    simp [places]
  | case2 position c rest blank ih =>
    rw [ofChars_blank _ _ blank]
    intro place member
    exact (ih place member).behind [c]
  | case3 position c rest _ letter word stop ih =>
    rw [ofChars_letter _ _ letter, places_cons, whole Text.isLetter c rest]
    intro place member
    rcases List.mem_cons.mp member with rfl | behind
    · exact .head _ position (List.cons_ne_nil _ _) (letters c letter rest)
    · exact (ih place behind).behind word
  | case4 position c rest _ _ digit numeral stop decimal read ih =>
    rw [ofChars_numeral _ _ digit read, places_cons, whole isNumeralChar c rest]
    intro place member
    rcases List.mem_cons.mp member with rfl | behind
    · exact .head _ position (List.cons_ne_nil _ _) (numerals c digit rest)
    · exact (ih place behind).behind numeral
  | case5 position c rest _ _ digit numeral unread =>
    rw [ofChars_unread _ _ digit unread, whole isNumeralChar c rest]
    intro place member
    rw [List.mem_singleton.mp member]
    exact .head _ position (List.cons_ne_nil _ _) (numerals c digit rest)
  | case6 position c rest _ _ _ symbol found ih =>
    obtain rfl := Symbol.character_ofChar? found
    rw [ofChars_symbol, places_cons]
    intro place member
    rcases List.mem_cons.mp member with rfl | behind
    · exact .head rest position (List.cons_ne_nil _ [])
        (List.forall_mem_singleton.mpr symbol.character_apart.1)
    · exact (ih place behind).behind [symbol.character]
  | case7 position c rest noBlank noLetter noDigit noSymbol =>
    rw [ofChars_other _ _ noBlank noLetter noDigit noSymbol]
    intro place member
    rw [List.mem_singleton.mp member]
    exact .head rest position (List.cons_ne_nil c [])
      (List.forall_mem_singleton.mpr (Bool.eq_false_iff.mpr noBlank))

/-- The span reaches from the start of one place to the end of one. -/
def Covers (scan : Scan) (span : Span) : Prop :=
  span.start < span.stop ∧ (∃ first ∈ scan.places, span.start = first.start) ∧
    ∃ last ∈ scan.places, span.stop = last.stop

theorem hulled_covers (scan : Scan) : Hulled scan.Covers := by
  rintro a b ⟨orderA, firstA, lastA⟩ ⟨orderB, firstB, lastB⟩
  refine ⟨?_, ?_, ?_⟩
  · simp only [Span.hull]
    omega
  · rcases Int.le_total a.start b.start with left | left
    · rwa [Span.hull, Int.min_eq_left left]
    · rwa [Span.hull, Int.min_eq_right left]
  · rcases Int.le_total a.stop b.stop with right | right
    · rwa [Span.hull, Int.max_eq_right right]
    · rwa [Span.hull, Int.max_eq_left right]

theorem covers_place {position : Nat} {text : List Char} {place : Span}
    (member : place ∈ (ofChars position text).places) : (ofChars position text).Covers place :=
  ⟨(ofChars_places position text place member).start_lt_stop, ⟨place, member, rfl⟩,
    ⟨place, member, rfl⟩⟩

end Scan

/-- The fault is a mistake of the line at a place of the region. -/
def Fault.Points (region : Span → Prop) (fault : Fault) : Prop :=
  ∃ cause span, fault = .inLine cause span ∧ region span

variable {region : Span → Prop}

/-- Where the stack has names that stand for something and spans of the region, so has the fault. -/
theorem Machine.Stop.points {names : NameTable} {machine : Machine} {token : Spanned Token}
    {fault : Fault} (stop : Stop (some names) machine token fault) (named : machine.Named names)
    (inside : ∀ entry ∈ machine.stack, region entry.span)
    (placed : token.value ≠ .operator .semicolon → region token.span) : fault.Points region := by
  cases stop with
  | @lacking op read short =>
    refine ⟨_, _, rfl, placed fun ends => ?_⟩
    obtain rfl := Token.operator.inj (read.symm.trans ends)
    exact absurd short (Nat.not_lt_zero _)
  | unassigned near => exact ⟨_, _, rfl, inside _ (List.mem_of_mem_take near)⟩
  | usingNull read near => exact ⟨_, _, rfl, inside _ (List.mem_of_mem_take near)⟩
  | printingNull read near => exact ⟨_, _, rfl, inside _ (List.mem_of_mem_take near)⟩
  | assigningToNull read near => exact ⟨_, _, rfl, inside _ (List.mem_of_mem_take near)⟩
  | assigningToExpression near => exact ⟨_, _, rfl, inside _ (List.mem_of_mem_take near)⟩
  | unspelled near unknown =>
    obtain ⟨spelling, stands⟩ := named _ (List.mem_of_mem_take near) _ rfl
    cases stands.told.symm.trans unknown

/-- The names on the stack stand for something, and its spans belong to the region. -/
def Machine.Placed (region : Span → Prop) (names : NameTable) (machine : Machine) : Prop :=
  machine.Named names ∧ ∀ entry ∈ machine.stack, region entry.span

namespace Hulled

variable (hulled : Hulled region) {names : NameTable}
include hulled

theorem performAll {tokens : List (Spanned Token)} {evaluation : Evaluation}
    (known : ∀ token ∈ tokens, token.value.Known names)
    (placed : ∀ token ∈ tokens, region token.span)
    (holds : evaluation.machine.Placed region names) :
    (Evaluation.performAll names tokens evaluation).Ensures
      (fun after => after.machine.Placed region names) (Fault.Points region) := by
  refine Outcome.Ensures.runAll_kept holds fun token member state both => ?_
  obtain ⟨named, inside⟩ := both
  refine .of_cases (fun _ => ?_) fun fault stopped => ?_
  · exact ⟨named.execute token (known token member), hulled.execute (placed token member) inside⟩
  · exact (Machine.execute_stop stopped).points named inside fun _ => placed token member

theorem feed {run : LineRun} (inside : run.Inside region)
    (named : run.evaluation.machine.Named run.names) {lexeme : Spanned Lexeme}
    (placed : region lexeme.span) :
    (LineRun.feed lexeme run).Ensures
      (fun after => after.Inside region ∧ after.evaluation.machine.Named after.names)
      (Fault.Points region) := by
  refine .of_cases (fun _ => ?_) fun fault stopped => ?_
  · exact ⟨inside.feed hulled placed, LineRun.feed_lasting Machine.lasting_named named lexeme⟩
  cases pushed : run.resolver.push standard
    ⟨(run.names.take lexeme.value).token, lexeme.span⟩ with
  | mk after result =>
    cases result with
    | error refusal =>
      rw [LineRun.feed_refused pushed] at stopped
      obtain rfl := Option.some.inj stopped
      obtain ⟨cause, -, rfl⟩ := Resolver.push_refused standard_total pushed
      exact ⟨cause, lexeme.span, rfl, placed⟩
    | ok ready =>
      rw [LineRun.feed_ready pushed] at stopped
      obtain ⟨-, -, tokens⟩ := hulled.push standard_total inside.waiting inside.operands
        ⟨(run.names.take lexeme.value).token, lexeme.span⟩ placed
      refine (hulled.performAll (fun token member handle same => ?_)
        (tokens ready (congrArg Prod.snd pushed)) ⟨?_, inside.stack⟩).fault stopped
      · exact NameTable.stands_take (Resolver.push_named standard_total _
          (congrArg Prod.snd pushed) member same)
      · exact named.mono (run.names.extends_take lexeme.value)

theorem finish {run : LineRun} (inside : run.Inside region)
    (named : run.evaluation.machine.Named run.names) {fault : Fault}
    (stopped : run.finish.fault = some fault) : fault.Points region := by
  rcases exists_bracket run.resolver.stack with
    ⟨pending, shape⟩ | ⟨pending, opening, base, shape⟩
  · have waits : ∀ entry ∈ pending, region entry.span := by
      intro entry member
      apply inside.waiting (entry.map .operator)
      rw [shape]
      exact List.mem_map_of_mem member
    obtain ⟨tokens, -⟩ := hulled.emitAll standard_total waits inside.operands
    have executed := hulled.performAll (fun token member handle same => by
      obtain ⟨op, read⟩ := standard_total.emitAll_operator member
      rw [same] at read
      cases read) tokens ⟨named, inside.stack⟩
    rw [LineRun.finish_waiting shape] at stopped
    have closed : ((Evaluation.performAll run.names
        (standard_total.emitAll pending run.resolver.operands).1 run.evaluation).andThen
          (Evaluation.close (some run.names))).Ensures (fun _ => True) (Fault.Points region) :=
      executed.andThen fun reached both => .of_cases (fun _ => trivial) fun fault stopped =>
        (Machine.endStatement_stop stopped).points both.1 both.2 (absurd rfl)
    exact closed.fault stopped
  · rw [LineRun.finish_refused shape] at stopped
    obtain rfl := Option.some.inj stopped
    exact ⟨_, _, rfl, inside.waiting ⟨.bracket, opening⟩ (by simp [shape])⟩

end Hulled

/-- Whatever stops a line is a mistake of it, and reaches from the start of a lexeme to the end of one. -/
theorem LineRun.feedAll_points (session : Session) (line : String) :
    (feedAll (Scan.ofLine line) session.begin).Ensures (fun _ => True)
      (Fault.Points (Scan.ofLine line).Covers) := by
  have hulled := (Scan.ofLine line).hulled_covers
  have named : session.begin.evaluation.machine.Named session.begin.names := by
    intro entry member
    cases member
  have row := Outcome.Ensures.runAll_kept ⟨inside_begin session, named⟩
    fun lexeme (member : lexeme ∈ (Scan.ofLine line).lexemes) run both =>
      hulled.feed both.1 both.2 (Scan.covers_place
        (List.mem_append_left _ (List.mem_map_of_mem member)))
  refine row.andThen fun reached both => ?_
  cases found : (Scan.ofLine line).mistake with
  | some error =>
    exact ⟨error.cause, error.span, rfl, Scan.covers_place
      (List.mem_append_right _ (by simp [Scan.ofLine] at found; simp [found]))⟩
  | none => exact .of_cases (fun _ => trivial) fun fault stopped => hulled.finish both.1 both.2 stopped

/-- Whatever stops a line is a mistake of it. Its span reaches from the start of a lexeme to the end of
one, counting what could not be cut as a lexeme, and so lies in the line without its end, is not empty
and has no blank at its ends. -/
theorem run_fault_located (session : Session) (line : String) {fault : Fault}
    (stopped : (session.run line).fault = some fault) :
    ∃ cause span, fault = .inLine cause span ∧ (Scan.ofLine line).Covers span ∧
      0 ≤ span.start ∧ span.start < span.stop ∧ span.stop ≤ line.length ∧
      span.stop ≤ (Text.withoutLineEnd line.toList).length ∧
      (∃ c, line.toList[span.start.toNat]? = some c ∧ Text.isBlank c = false) ∧
      ∃ c, line.toList[(span.stop - 1).toNat]? = some c ∧ Text.isBlank c = false := by
  obtain ⟨cause, span, rfl, covers⟩ := (LineRun.feedAll_points session line).fault stopped
  refine ⟨cause, span, rfl, covers, ?_⟩
  obtain ⟨order, ⟨first, firstPlace, start⟩, last, lastPlace, stop⟩ := covers
  obtain ⟨positive, begins⟩ := (Scan.ofChars_places 0 _ first firstPlace).first_visible
  obtain ⟨c, found, visible⟩ := (Scan.ofChars_places 0 _ last lastPlace).last_visible
  have bound := Text.lt_length_withoutLineEnd found visible
  have within := (List.getElem?_eq_some_iff.mp found).1
  rw [String.length_toList] at within
  rw [start, stop] at order ⊢
  exact ⟨positive, order, by omega, by omega, begins, c, found, visible⟩

/-- In `3+(1;b)` and a line feed the name without a value is pointed at, behind a finished statement in
brackets. -/
theorem run_fault_located_unassigned :
    (Session.empty.run "3+(1;b)\n").fault = some (.inLine (.unassignedVariable "b") ⟨5, 6⟩) ∧
      (Scan.ofLine "3+(1;b)\n").Covers ⟨5, 6⟩ ∧
      (Text.withoutLineEnd "3+(1;b)\n".toList).length = 7 := by
  have stopped : (Session.empty.run "3+(1;b)\n").fault =
      some (.inLine (.unassignedVariable "b") ⟨5, 6⟩) := by decide +kernel
  obtain ⟨cause, span, same, covers, -⟩ := run_fault_located Session.empty "3+(1;b)\n" stopped
  cases same
  exact ⟨stopped, covers, by decide +kernel⟩

end LineCalc
