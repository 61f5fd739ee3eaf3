import LineCalc.Proofs.Balance
import LineCalc.Proofs.Location

/-!
Lines in which an operator is left without its operand. Nothing is wrong with the structure of such a
line, but it never ends well; and in any other line that can be reordered every operator finds its
operands, though they may be nulls where a statement has ended in brackets.
-/

namespace LineCalc

open PrecedenceTable (standard standard_total)

/-- An operator that calls for an operand is the last one of its statement. -/
def Dangling (tokens : List (Spanned RawToken)) : Prop :=
  ∃ earlier later, tokens = earlier ++ later ∧ Awaits earlier ∧
    ∀ token ∈ later.head?, token.value = .symbol (.operator .semicolon)

/-- The token is a semicolon in brackets. -/
def Enclosed (earlier : List (Spanned RawToken)) (token : Spanned RawToken) : Prop :=
  token.value = .symbol (.operator .semicolon) ∧ openBrackets earlier ≠ []

theorem Awaits.expect {earlier : List (Spanned RawToken)} (awaits : Awaits earlier) :
    Expect.behindAll earlier = .value := by
  obtain ⟨front, op, span, rfl, calls⟩ := awaits
  rw [Expect.behindAll_append]
  rcases calls with binary | ⟨rfl, mode⟩
  · cases op with
    | equals | arithmetic => rfl
    | print | semicolon => cases binary
  · exact mode

/-- An operator on top is one of those that leave, where they leave nothing or a bracket on top. -/
theorem Resolver.AtOperator.pending {resolver : Resolver} (top : resolver.AtOperator)
    {pending : List (Spanned Operator)} {base : List (Spanned Waiting)}
    (shape : resolver.stack = waiting pending ++ base)
    (bottom : base = [] ∨ ∃ opening below, base = ⟨.bracket, opening⟩ :: below) : pending ≠ [] := by
  rintro rfl
  obtain ⟨op, span, below, same⟩ := top
  rw [show resolver.stack = base from shape] at same
  rcases bottom with rfl | ⟨opening, lower, rfl⟩ <;> cases same

namespace Listing

theorem reorderAll_clean {names : NameTable} {fault : Option Fault} {resolver : Resolver}
    {items : List (Spanned RawToken × NameTable)}
    (clean : (reorderAll names fault resolver items).fault = none) :
    fault = none ∧ ∃ after ready rest,
      Resolver.pushAll standard (items.map Prod.fst) resolver = (after, .ok ready) ∧
      (after.finish standard).2 = .ok rest := by
  induction items generalizing resolver with
  | nil =>
    cases fault with
    | some fault => cases clean
    | none =>
      cases finished : (resolver.finish standard).2 with
      | error fault =>
        simp only [reorderAll, finished] at clean
        cases clean
      | ok rest => exact ⟨rfl, resolver, [], rest, rfl, finished⟩
  | cons item later ih =>
    cases pushed : resolver.push standard item.1 with
    | mk reached result =>
      cases result with
      | error fault =>
        simp only [reorderAll, pushed] at clean
        cases clean
      | ok early =>
        simp only [reorderAll, pushed] at clean
        obtain ⟨read, after, ready, rest, taken, finished⟩ := ih clean
        refine ⟨read, after, early ++ ready, rest, ?_, finished⟩
        simp [Resolver.pushAll, pushed, taken, Except.map]

end Listing

namespace LineRun

variable {run after : LineRun} {lexeme : Spanned Lexeme} {names : NameTable}
  {row : List (Spanned Lexeme)}

theorem Reads.settled (reads : run.Reads names row)
    (fulfilled : ¬ Awaits (Listing.takeAll none names row).tokens)
    {pending : List (Spanned Operator)} {base : List (Spanned Waiting)}
    (shape : run.resolver.stack = waiting pending ++ base) :
    pending = [] ∨ run.resolver.expect = .operator := by
  obtain ⟨ready, taken⟩ := reads.pushed
  cases mode : run.resolver.expect with
  | operator => exact .inr rfl
  | value =>
    left
    rcases pending with _ | ⟨⟨op, span⟩, later⟩
    · rfl
    · exact absurd ((Resolver.awaits_pushAll taken mode).mpr ⟨op, span, _, shape⟩) fulfilled

theorem Reads.atOperator (reads : run.Reads names row)
    (awaits : Awaits (Listing.takeAll none names row).tokens) :
    run.resolver.expect = .value ∧ run.resolver.AtOperator := by
  obtain ⟨ready, taken⟩ := reads.pushed
  have mode := (Resolver.tracks_pushAll standard_total taken).expect.trans awaits.expect
  exact ⟨mode, (Resolver.awaits_pushAll taken mode).mp awaits⟩

/-! A dangling operator takes what is due to another one, or nothing. -/

/-- An operator that leaves without its operand leaves another one waiting. -/
theorem Level.takes (level : run.Level) (mode : run.resolver.expect = .value)
    {pending : List (Spanned Operator)} {base : List (Spanned Waiting)}
    {middle : List (Spanned Entry)} (shape : run.resolver.stack = waiting pending ++ base)
    (paid : Paid pending run.stack middle) (some : pending ≠ []) : 0 < calls base := by
  have left := level.left shape paid
  have stocked := paid.stocked some
  rw [mode, Expect.held] at left
  omega

theorem feedAll_dangling {session : Session} {lexemes : List (Spanned Lexeme)}
    (dangling : Dangling (Listing.takeAll none session.names lexemes).tokens)
    (mistake : Option CalcError) : (feedAll ⟨lexemes, mistake⟩ session.begin).fault ≠ none := by
  obtain ⟨earlier, later, split, awaits, ends⟩ := dangling
  obtain ⟨early, late, rfl, rfl, rfl⟩ := Listing.exists_split split
  intro clean
  rw [feedAll_append] at clean
  obtain ⟨cleanEarly, cleanLate, -⟩ := Outcome.andThen_clean clean
  obtain ⟨reads, found⟩ := (Reads.level_or_short early).state cleanEarly
  generalize (Outcome.runAll feed early session.begin).state = run at reads found cleanLate
  obtain ⟨mode, top⟩ := reads.atOperator awaits
  -- Up to here all may have gone well: the operator that dangles is executed with what comes next.
  rcases found with level | short
  · rcases late with _ | ⟨lexeme, others⟩
    · obtain ⟨-, cleanEnd, -⟩ := Outcome.andThen_clean cleanLate
      cases mistake with
      | some error => cases cleanEnd
      | none =>
        obtain ⟨pending, middle, place, shape, paid, -⟩ := finish_clean reads.unended cleanEnd
        have owes := level.takes mode shape paid (top.pending shape (.inl rfl))
        exact Nat.lt_irrefl 0 owes
    · have ending : run.Ends lexeme := by
        rw [Ends, reads.known]
        exact ends _ rfl
      refine reads.interrupted ending (fun after ended => ?_) others mistake cleanLate
      obtain ⟨pending, middle, place, shape, paid, -⟩ := ended.leaves
      exact level.takes mode shape paid (top.pending shape ended.bottom)
  · exact short.feedAll reads late mistake cleanLate

/-! Where nothing dangles, an invariant that says enough about the operands carries over to the whole
line. -/

/-- The run has what is due, or a null below what it has; and behind an operand there is one. -/
structure Sustained (run : LineRun) : Prop where
  fed : run.Fed
  either : supply run.stack = run.resolver.due ∨ sunken run.stack ≠ []

theorem Level.fed (level : run.Level) : run.Fed := by
  intro mode
  rw [level.supply, Resolver.due, mode]
  exact Nat.succ_pos _

theorem Sustained.taken (sustained : run.Sustained) (taken : run.Taken lexeme after) :
    after.Sustained := by
  cases taken with
  | evenly goesOn counts sunken fed =>
    refine ⟨fed sustained.fed, ?_⟩
    rcases sustained.either with same | sunk
    · left
      omega
    · right
      rwa [sunken]
  | ended _ ended =>
    obtain ⟨pending, middle, place, -, -, settled⟩ := ended.leaves
    obtain ⟨null, below, top⟩ := settle_shape place middle.tail
    refine ⟨ended.fed, .inr ?_⟩
    rw [settled, top]
    exact List.cons_ne_nil _ _

/-- The fault is one of operators that leave the run behind an operand, or of none that leaves. -/
def Fails (run : LineRun) (fault : Fault) : Prop :=
  ∃ pending base, run.resolver.stack = waiting pending ++ base ∧
    (pending = [] ∨ run.resolver.expect = .operator) ∧ fault.Among pending run.stack

/-- With all that is due, no fault is about a lack of operands. -/
theorem Fails.usual {fault : Fault} (fails : run.Fails fault)
    (same : supply run.stack = run.resolver.due) : fault.Usual := by
  obtain ⟨pending, base, shape, settled, among⟩ := fails
  apply among.usual
  refine settled.imp id fun mode => ?_
  simp only [Resolver.due, shape, calls_append, mode, Expect.held] at same
  omega

theorem Fails.not_malformed {fault : Fault} (fails : run.Fails fault) (sustained : run.Sustained) :
    ¬ fault.Malformed := by
  rcases sustained.either with same | sunk
  · exact (fails.usual same).not_malformed
  · obtain ⟨pending, base, -, settled, among⟩ := fails
    rcases settled with none | mode
    · exact (among.usual (.inl none)).not_malformed
    · exact among.sustained (sustained.fed mode) sunk

theorem sustained_begin (session : Session) : session.begin.Sustained :=
  ⟨(level_begin session).fed, .inl (level_begin session).supply⟩

theorem Reads.level_taken (reads : run.Reads names row)
    (outside : ¬ Enclosed (Listing.takeAll none names row).tokens
      ⟨(run.names.take lexeme.value).token, lexeme.span⟩)
    (level : run.Level) (taken : run.Taken lexeme after) : after.Level := by
  apply level.taken taken
  intro ends
  have ended := taken.of_ends ends
  rcases ended.bottom with none | ⟨opening, below, opened⟩
  · rw [none, calls_nil]
  · obtain ⟨ready, pushed⟩ := reads.pushed
    obtain ⟨pending, middle, place, shape, -⟩ := ended.leaves
    have brackets := (Resolver.tracks_pushAll standard_total pushed).brackets
    rw [shape, bracketsOn_waiting, opened, bracketsOn_bracket] at brackets
    refine absurd ⟨ends, ?_⟩ outside
    rw [← brackets]
    exact List.cons_ne_nil _ _

/-- A lexeme of a row that can be taken in and in which nothing dangles. -/
theorem Reads.feed_fulfilled (reads : run.Reads names row) {later : List (Spanned RawToken)}
    {resolver : Resolver} {ready : List (Spanned Token)}
    (accepted : Resolver.pushAll standard ((Listing.takeAll none names row).tokens ++
      ⟨(run.names.take lexeme.value).token, lexeme.span⟩ :: later) .start = (resolver, .ok ready))
    (fulfilled : ¬ Dangling ((Listing.takeAll none names row).tokens ++
      ⟨(run.names.take lexeme.value).token, lexeme.span⟩ :: later)) :
    (LineRun.feed lexeme run).Ensures
      (fun after => after.Reads names (row ++ [lexeme]) ∧ run.Taken lexeme after) run.Fails := by
  obtain ⟨reached, early, pushed⟩ := reads.push_ok accepted
  refine .of_cases (fun clean => ⟨reads.feed clean, reads.taken clean⟩) fun fault stopped => ?_
  obtain ⟨pending, leaving, among⟩ := (feed_counts reads.unended pushed).fault stopped
  obtain ⟨base, shape⟩ := leaving.shape
  refine ⟨pending, base, shape, ?_, among⟩
  by_cases none : pending = []
  · exact .inl none
  · rcases leaving.mode none with mode | ends
    · exact .inr mode
    · refine reads.settled (fun awaits => fulfilled ⟨_, _, rfl, awaits, fun token first => ?_⟩) shape
      cases first
      exact ends

theorem Reads.finish_fulfilled (reads : run.Reads names row)
    {ready rest : List (Spanned Token)} {resolver : Resolver}
    (accepted : Resolver.pushAll standard (Listing.takeAll none names row).tokens .start =
      (resolver, .ok ready)) (finished : (resolver.finish standard).2 = .ok rest)
    (fulfilled : ¬ Dangling (Listing.takeAll none names row).tokens) :
    run.finish.Ensures (fun _ => True) run.Fails := by
  rcases exists_bracket run.resolver.stack with
    ⟨pending, shape⟩ | ⟨pending, opening, base, shape⟩
  · refine (finish_counts reads.unended shape).mono (fun _ _ => trivial) fun fault among => ?_
    have waits : run.resolver.stack = waiting pending ++ [] := by rw [shape, List.append_nil]
    refine ⟨pending, [], waits, ?_, among⟩
    refine reads.settled (fun awaits => fulfilled ?_) waits
    exact ⟨_, [], (List.append_nil _).symm, awaits, fun token first => by cases first⟩
  · rw [← reads.resolver_eq accepted] at finished
    rw [Resolver.finish_bracketed standard_total shape] at finished
    cases finished

/-- An invariant of the runs that take in a line holds up to its end or up to a fault that the invariant
allows, if all of its tokens can be taken in and nothing dangles. -/
theorem feedAll_fulfilled {session : Session} {lexemes : List (Spanned Lexeme)} {Q : LineRun → Prop}
    {F : Fault → Prop} {resolver : Resolver} {ready rest : List (Spanned Token)}
    (accepted : Resolver.pushAll standard (Listing.takeAll none session.names lexemes).tokens .start =
      (resolver, .ok ready)) (finished : (resolver.finish standard).2 = .ok rest)
    (fulfilled : ¬ Dangling (Listing.takeAll none session.names lexemes).tokens)
    (start : Q session.begin)
    (kept : ∀ earlier lexeme run after, earlier ++ [lexeme] <+: lexemes →
      run.Reads session.names earlier → Q run → run.Taken lexeme after → Q after)
    (told : ∀ run fault, Q run → run.Fails fault → F fault) :
    (feedAll ⟨lexemes, none⟩ session.begin).Ensures (fun _ => True) F := by
  have fed : (Outcome.runAll feed lexemes session.begin).Ensures
      (fun reached => reached.Reads session.names lexemes ∧ Q reached) F := by
    refine .runAll (P := fun earlier reached => reached.Reads session.names earlier ∧ Q reached)
      ⟨reads_begin session, start⟩ fun earlier lexeme inside run both => ?_
    obtain ⟨reads, holds⟩ := both
    obtain ⟨later, split⟩ := reads.split inside
    rw [split] at accepted fulfilled
    refine (reads.feed_fulfilled accepted fulfilled).mono ?_ fun fault fails => told run fault holds fails
    intro after both
    exact ⟨both.1, kept earlier lexeme run after inside reads holds both.2⟩
  refine fed.andThen fun run both => ?_
  exact (both.1.finish_fulfilled accepted finished fulfilled).mono (fun _ _ => trivial)
    fun fault fails => told run fault both.2 fails

end LineRun

theorem Fault.Usual.cases_of_points {region : Span → Prop} {fault : Fault} (usual : fault.Usual)
    (points : fault.Points region) : (∃ name span, fault = .inLine (.unassignedVariable name) span) ∨
      ∃ span, fault = .inLine .assigningToExpression span := by
  cases usual with
  | unassigned name span => exact .inl ⟨name, span, rfl⟩
  | expression span => exact .inr ⟨span, rfl⟩
  | unknown handle =>
    obtain ⟨cause, span, same, -⟩ := points
    cases same

/-- A line with a dangling operator does not end well. In any other line that can be reordered no
operator lacks an operand and nothing is printed where there is nothing to print; and if besides no
statement ends in brackets, all that can go wrong is a name without a value or a target that is not a
name. -/
theorem run_operands (session : Session) (line : String) :
    let raw := Listing.read session.names line
    (Dangling raw.tokens → (session.run line).fault ≠ none) ∧
    (raw.reorder.fault = none → ¬ Dangling raw.tokens →
      ∀ fault, (session.run line).fault = some fault → ¬ fault.Malformed ∧
        (Nowhere Enclosed raw.tokens →
          (∃ name span, fault = .inLine (.unassignedVariable name) span) ∨
            ∃ span, fault = .inLine .assigningToExpression span)) := by
  intro raw
  have tokens : raw.tokens = _ := Listing.read_tokens session.names line
  rw [tokens]
  constructor
  · intro dangling
    exact LineRun.feedAll_dangling dangling _
  · intro reordered fulfilled fault stopped
    obtain ⟨read, resolver, ready, rest, accepted, finished⟩ := Listing.reorderAll_clean reordered
    rw [show raw.items.map Prod.fst = _ from tokens] at accepted
    have whole : Scan.ofLine line = ⟨(Scan.ofLine line).lexemes, none⟩ := by
      have mistake := Listing.read_fault session.names line
      rw [show (Listing.read session.names line).fault = none from read] at mistake
      exact congrArg (Scan.mk _) (Option.map_eq_none_iff.mp mistake.symm)
    have failed : (LineRun.feedAll (Scan.ofLine line) session.begin).fault = some fault := stopped
    have points := (LineRun.feedAll_points session line).fault failed
    rw [whole] at failed
    constructor
    · have sustained := LineRun.feedAll_fulfilled accepted finished fulfilled
        (LineRun.sustained_begin session)
        (fun _ _ _ _ _ _ held taken => LineRun.Sustained.taken held taken)
        (fun _ _ held fails => fails.not_malformed held)
      exact sustained.fault failed
    · intro outside
      have kept (earlier : List (Spanned Lexeme)) (lexeme : Spanned Lexeme) (run after : LineRun)
          (inside : earlier ++ [lexeme] <+: (Scan.ofLine line).lexemes)
          (reads : run.Reads session.names earlier) (level : run.Level)
          (taken : run.Taken lexeme after) : after.Level := by
        obtain ⟨later, split⟩ := reads.split inside
        refine reads.level_taken (outside _ _ ?_) level taken
        rw [split]
        exact ⟨later, by simp⟩
      have level := LineRun.feedAll_fulfilled accepted finished fulfilled
        (LineRun.level_begin session) kept (fun _ _ held fails => fails.usual held.supply)
      exact (level.fault failed).cases_of_points points

/-- Where `a` is three, `a*(a+;a)` fails, though its sum finds the operand of the product. `b` alone has
no value. -/
theorem run_operands_dangling :
    ((Session.empty.run "a=3").state.run "a*(a+;a)").fault ≠ none ∧
      ∃ fault, (Session.empty.run "b").fault = some fault ∧ ¬ fault.Malformed ∧
        ((∃ name span, fault = .inLine (.unassignedVariable name) span) ∨
          ∃ span, fault = .inLine .assigningToExpression span) := by
  have dangling :
      Dangling (Listing.read (Session.empty.run "a=3").state.names "a*(a+;a)").tokens := by
    refine ⟨[⟨.name 0, ⟨0, 1⟩⟩, ⟨.symbol (.operator (.arithmetic .mul)), ⟨1, 2⟩⟩,
      ⟨.symbol .leftParen, ⟨2, 3⟩⟩, ⟨.name 0, ⟨3, 4⟩⟩] ++
        [⟨.symbol (.operator (.arithmetic .add)), ⟨4, 5⟩⟩],
      [⟨.symbol (.operator .semicolon), ⟨5, 6⟩⟩, ⟨.name 0, ⟨6, 7⟩⟩,
        ⟨.symbol .rightParen, ⟨7, 8⟩⟩], ?_, awaits_append.mpr ⟨_, rfl, .inl rfl⟩, ?_⟩
    · decide +kernel
    · intro token first
      cases first
      rfl
  have row : (Listing.read Session.empty.names "b").tokens = [] ++ [⟨.name 0, ⟨0, 1⟩⟩] := by
    decide +kernel
  have fulfilled : ¬ Dangling (Listing.read Session.empty.names "b").tokens := by
    rw [row]
    rintro ⟨-, later, split, ⟨front, op, span, rfl, -⟩, -⟩
    have member : ⟨.symbol (.operator op), span⟩ ∈ [] ++ [(⟨.name 0, ⟨0, 1⟩⟩ : Spanned RawToken)] := by
      rw [split]
      simp
    cases List.mem_singleton.mp member
  have outside : Nowhere Enclosed (Listing.read Session.empty.names "b").tokens := by
    rw [row]
    exact nowhere_append.mpr ⟨nowhere_nil _, fun enclosed => by cases enclosed.1⟩
  have stopped : (Session.empty.run "b").fault =
      some (.inLine (.unassignedVariable "b") ⟨0, 1⟩) := by decide +kernel
  obtain ⟨sound, usual⟩ :=
    (run_operands Session.empty "b").2 (by decide +kernel) fulfilled _ stopped
  exact ⟨(run_operands _ _).1 dangling, _, stopped, sound, usual outside⟩

end LineCalc
