import LineCalc.Proofs.Feeding
import LineCalc.Proofs.Supply

/-!
The supply of operands against what waiting operators call for. Every token but a semicolon keeps the
difference of the two. A semicolon that leaves an operator waiting makes it a shortage, which lasts: a
line with a shortage does not end well, and one that ends well leaves a single null.
-/

namespace LineCalc

open PrecedenceTable (standard standard_total)

/-- Where the next token continues behind an operand, this operand is there. -/
def Expect.held : Expect → Nat
  | value => 0
  | operator => 1

theorem Expect.held_le_one (expect : Expect) : expect.held ≤ 1 := by
  cases expect with
  | value => exact Nat.zero_le 1
  | operator => exact Nat.le_refl 1

/-- How many operands there are if none was missing and no statement ended in between. -/
def Resolver.due (resolver : Resolver) : Nat :=
  calls resolver.stack + resolver.expect.held

theorem Resolver.Unended.pending {resolver : Resolver} (unended : resolver.Unended)
    {pending : List (Spanned Operator)} {base : List (Spanned Waiting)}
    (shape : resolver.stack = waiting pending ++ base) :
    ∀ entry ∈ pending, entry.value ≠ .semicolon := by
  intro entry member ends
  have waits : entry.map .operator ∈ resolver.stack := by
    rw [shape]
    exact List.mem_append_left _ (List.mem_map_of_mem member)
  exact unended _ waits (congrArg Waiting.operator ends)

theorem Operator.binary_or_print {op : Operator} (waits : op ≠ .semicolon) :
    (op.opensOperand = true ∧ op.demand = 2) ∨ op = .print := by
  cases op with
  | equals | arithmetic => exact .inl ⟨rfl, rfl⟩
  | print => exact .inr rfl
  | semicolon => exact absurd rfl waits

/-- What is due stays the same when an operator waits in the place of others: one between two operands
calls for the operand that was held, and a print sign for none. -/
theorem Resolver.due_waits {resolver : Resolver} {op : Operator} (waits : op ≠ .semicolon)
    {pending : List (Spanned Operator)} {base : List (Spanned Waiting)}
    (shape : resolver.stack = waiting pending ++ base) {expect : Expect}
    (behind : expect = if op.opensOperand then .value else resolver.expect)
    (follows : op.opensOperand → resolver.expect = .operator) {span : Span} {operands : List Span} :
    resolver.due =
      calls (waiting pending) + due ⟨expect, ⟨.operator op, span⟩ :: base, operands⟩ := by
  rcases Operator.binary_or_print waits with ⟨opens, binary⟩ | rfl
  · simp only [due, shape, calls_append, calls_cons, Waiting.calls, binary, follows opens, behind,
      opens, if_true, Expect.held]
    omega
  · simp [due, shape, Waiting.calls, Operator.demand, behind, Operator.opensOperand, Nat.add_assoc]

theorem PrecedenceTable.standard_tight_print {pending : List (Spanned Operator)}
    (tight : ∀ entry ∈ pending,
      (standard_total.rule entry.value).appliesBefore (standard_total.rule .print) = true) :
    pending = [] := by
  apply List.eq_nil_iff_forall_not_mem.mpr
  intro entry member
  have early := tight entry member
  rw [standard_before_print] at early
  cases early

/-- Below what a semicolon lets go there is nothing, or a bracket. -/
theorem PrecedenceTable.standard_bottom {base : List (Spanned Waiting)}
    (holds : standard_total.Holds .semicolon base) :
    base = [] ∨ ∃ opening below, base = ⟨.bracket, opening⟩ :: below := by
  rcases base with _ | ⟨⟨op | _, span⟩, below⟩
  case nil => exact .inl rfl
  case cons.bracket => exact .inr ⟨span, below, rfl⟩
  case cons.operator =>
    have early := holds op span below rfl
    rw [standard_before_semicolon] at early
    cases early

namespace LineRun

variable {run after : LineRun} {lexeme : Spanned Lexeme}

def stack (run : LineRun) : List (Spanned Entry) :=
  run.evaluation.machine.stack

def Fed (run : LineRun) : Prop :=
  run.resolver.expect = .operator → 0 < supply run.stack

def Ends (run : LineRun) (lexeme : Spanned Lexeme) : Prop :=
  (run.names.take lexeme.value).token = .symbol (.operator .semicolon)

/-- A statement has ended: operators have left, down to the innermost bracket, and what they have left
is settled. -/
structure Ended (run after : LineRun) : Prop where
  leaves : ∃ pending middle place, run.resolver.stack = waiting pending ++ after.resolver.stack ∧
    Paid pending run.stack middle ∧ after.stack = Machine.settle place middle.tail
  bottom : after.resolver.stack = [] ∨
    ∃ opening below, after.resolver.stack = ⟨.bracket, opening⟩ :: below
  expect : after.resolver.expect = .value

/-- What a lexeme that does not stop the run does to the supply. -/
inductive Taken (run : LineRun) (lexeme : Spanned Lexeme) (after : LineRun) : Prop where
  | evenly (goesOn : ¬ run.Ends lexeme)
      (counts : supply after.stack + run.resolver.due = supply run.stack + after.resolver.due)
      (sunken : sunken after.stack = sunken run.stack) (fed : run.Fed → after.Fed)
  | ended (ends : run.Ends lexeme) (ended : run.Ended after)

theorem Taken.of_ends (taken : run.Taken lexeme after) (ends : run.Ends lexeme) :
    run.Ended after := by
  cases taken with
  | evenly goesOn => exact absurd ends goesOn
  | ended _ ended => exact ended

theorem Taken.operand (goesOn : ¬ run.Ends lexeme) (mode : run.resolver.expect = .value)
    {entry : Spanned Entry} (present : entry.value.present = true)
    (pushed : after.stack = entry :: run.stack) (expect : after.resolver.expect = .operator)
    (waits : after.resolver.stack = run.resolver.stack) : run.Taken lexeme after := by
  have more : supply after.stack = supply run.stack + 1 := by rw [pushed, supply_cons present]
  refine .evenly goesOn ?_ ?_ fun _ _ => ?_
  · simp only [more, Resolver.due, waits, expect, mode, Expect.held]
    omega
  · rw [pushed, sunken_cons present]
  · rw [more]
    exact Nat.succ_pos _

/-- Operators that leave take what they call for from what there is and from what is due. -/
theorem Taken.emitted (goesOn : ¬ run.Ends lexeme) {pending : List (Spanned Operator)}
    (paid : Paid pending run.stack after.stack)
    (due : run.resolver.due = calls (waiting pending) + after.resolver.due)
    (mode : after.resolver.expect = .operator → run.resolver.expect = .operator) :
    run.Taken lexeme after := by
  have supply := paid.supply
  exact .evenly goesOn (by omega) paid.sunken fun fed expect => paid.fed (fed (mode expect))

/-- The operators that a lexeme lets go. Where an operand is expected, only the end of a statement lets
any go. -/
structure Leaving (run : LineRun) (lexeme : Spanned Lexeme) (pending : List (Spanned Operator)) :
    Prop where
  shape : ∃ base, run.resolver.stack = waiting pending ++ base
  mode : pending ≠ [] → run.resolver.expect = .operator ∨ run.Ends lexeme

/-- A lexeme whose token is not refused keeps the difference between what there is and what is due, or
ends a statement; and it stops the run for nothing but its operators. -/
theorem feed_counts (unended : run.resolver.Unended) {resolver : Resolver}
    {ready : List (Spanned Token)}
    (pushed : run.resolver.push standard
      ⟨(run.names.take lexeme.value).token, lexeme.span⟩ = (resolver, .ok ready)) :
    (feed lexeme run).Ensures (run.Taken lexeme)
      (fun fault => ∃ pending, run.Leaving lexeme pending ∧ fault.Among pending run.stack) := by
  have cases := run.resolver.push_cases standard_total
    ⟨(run.names.take lexeme.value).token, lexeme.span⟩
  rw [pushed] at cases
  rw [feed_ready pushed]
  generalize read : (run.names.take lexeme.value).token = value at cases
  generalize (run.names.take lexeme.value).names = names
  have plain (apart : value ≠ .symbol (.operator .semicolon)) : ¬ run.Ends lexeme :=
    fun ends => apart (read.symm.trans ends)
  apply Outcome.Ensures.following
  apply Outcome.Ensures.map
  cases cases with
  | number value mode => exact Taken.operand (plain (by simp)) mode rfl rfl rfl rfl
  | name handle mode => exact Taken.operand (plain (by simp)) mode rfl rfl rfl rfl
  | opening mode =>
    exact Taken.emitted (plain (by simp)) ⟨rfl, rfl, absurd rfl⟩ (by simp [Resolver.due, Waiting.calls])
      id
  | @waits op expect pending base shape waits behind follows tight =>
    refine (Evaluation.performAll_emitted _ (unended.pending shape) _ _).mono ?_ ?_
    · intro reached paid
      refine Taken.emitted (plain (by simpa using waits)) paid ?_ ?_
      · exact Resolver.due_waits waits shape behind follows
      · intro operator
        rw [show expect = .operator from operator] at behind
        cases opens : op.opensOperand with
        | true => exact follows opens
        | false => simpa [opens] using behind.symm
    · intro fault among
      refine ⟨pending, ⟨⟨base, shape⟩, fun some => .inl ?_⟩, among⟩
      rcases Operator.binary_or_print waits with ⟨opens, -⟩ | rfl
      · exact follows opens
      · exact absurd (PrecedenceTable.standard_tight_print tight) some
  | @ends pending base shape holds =>
    rw [Evaluation.performAll_append]
    refine ((Evaluation.ends_semicolon _).settles (unended.pending shape) _ _).mono ?_ ?_
    · intro reached settles
      obtain ⟨middle, place, paid, settled⟩ := settles
      exact .ended read ⟨⟨pending, middle, place, shape, paid, settled⟩,
        PrecedenceTable.standard_bottom holds, rfl⟩
    · intro fault among
      exact ⟨pending, ⟨⟨base, shape⟩, fun _ => .inr read⟩, among⟩
  | @closing pending opening base shape mode =>
    refine (Evaluation.performAll_emitted _ (unended.pending shape) _ _).mono ?_ ?_
    · intro reached paid
      refine Taken.emitted (plain (by simp)) paid ?_ id
      simp [Resolver.due, shape, Waiting.calls, Nat.add_assoc]
    · intro fault among
      exact ⟨pending, ⟨⟨_, shape⟩, fun _ => .inl mode⟩, among⟩

/-- The end of a line executes what waits and leaves a null, or stops for nothing but its operators. -/
theorem finish_counts (unended : run.resolver.Unended) {pending : List (Spanned Operator)}
    (shape : run.resolver.stack = waiting pending) :
    run.finish.Ensures
      (fun after => ∃ middle place, Paid pending run.stack middle ∧
        after.stack = Machine.settle place middle.tail)
      (fun fault => fault.Among pending run.stack) := by
  have waits : run.resolver.stack = waiting pending ++ [] := by rw [shape, List.append_nil]
  rw [finish_waiting shape]
  apply Outcome.Ensures.map
  exact Evaluation.ends_close.settles (unended.pending waits) _ _

/-! Either nothing is missing and no statement has ended, or something is missing for good. -/

/-- There is just what is due, on top of at most one null. -/
structure Level (run : LineRun) : Prop where
  supply : LineCalc.supply run.stack = run.resolver.due
  single : (sunken run.stack).length ≤ 1

/-- There is less than what is due. -/
structure Short (run : LineRun) : Prop where
  supply : LineCalc.supply run.stack < run.resolver.due
  fed : run.Fed

theorem level_begin (session : Session) : session.begin.Level :=
  ⟨rfl, Nat.zero_le 1⟩

section Paid

variable {pending : List (Spanned Operator)} {base : List (Spanned Waiting)}
  {middle : List (Spanned Entry)} (shape : run.resolver.stack = waiting pending ++ base)
  (paid : Paid pending run.stack middle)
include shape paid

theorem Level.left (level : run.Level) :
    LineCalc.supply middle = calls base + run.resolver.expect.held := by
  have same := level.supply
  have supply := paid.supply
  simp only [Resolver.due, shape, calls_append] at same
  omega

/-- In a run with a shortage some operator waits below any that can leave. -/
theorem Short.owes (short : run.Short) : 0 < calls base := by
  have less := short.supply
  have supply := paid.supply
  simp only [Resolver.due, shape, calls_append] at less
  cases mode : run.resolver.expect with
  | value =>
    simp only [mode, Expect.held] at less
    omega
  | operator =>
    have left := paid.fed (short.fed mode)
    simp only [mode, Expect.held] at less
    omega

end Paid

theorem Ended.fed (ended : run.Ended after) : after.Fed := by
  intro mode
  rw [ended.expect] at mode
  cases mode

/-- A semicolon that leaves an operator waiting makes a shortage. -/
theorem Ended.short (ended : run.Ended after) (interrupts : 0 < calls after.resolver.stack) :
    after.Short := by
  obtain ⟨pending, middle, place, -, -, settled⟩ := ended.leaves
  obtain ⟨null, below, top⟩ := settle_shape place middle.tail
  refine ⟨?_, ended.fed⟩
  rw [settled, top, supply_null, Resolver.due]
  exact Nat.add_pos_left interrupts _

theorem Short.taken (short : run.Short) (taken : run.Taken lexeme after) : after.Short := by
  cases taken with
  | evenly goesOn counts sunken fed =>
    have less := short.supply
    exact ⟨by omega, fed short.fed⟩
  | ended ends ended =>
    obtain ⟨pending, middle, place, shape, paid, -⟩ := ended.leaves
    exact ended.short (short.owes shape paid)

/-- A run that is level stays so, unless a semicolon leaves an operator waiting. -/
theorem Level.taken (level : run.Level) (taken : run.Taken lexeme after)
    (clear : run.Ends lexeme → calls after.resolver.stack = 0) : after.Level := by
  cases taken with
  | evenly goesOn counts sunken fed =>
    have same := level.supply
    exact ⟨by omega, sunken ▸ level.single⟩
  | ended ends ended =>
    have none := clear ends
    obtain ⟨pending, middle, place, shape, paid, settled⟩ := ended.leaves
    have left := level.left shape paid
    have held := run.resolver.expect.held_le_one
    obtain ⟨null, alone⟩ := settle_alone place (by omega) (paid.sunken ▸ level.single)
    constructor
    · rw [settled, alone, Resolver.due, ended.expect, none]
      rfl
    · rw [settled, alone]
      exact Nat.le_refl 1

theorem Level.taken_or_short (level : run.Level) (taken : run.Taken lexeme after) :
    after.Level ∨ after.Short := by
  by_cases interrupts : run.Ends lexeme ∧ 0 < calls after.resolver.stack
  · obtain ⟨ends, some⟩ := interrupts
    exact .inr ((taken.of_ends ends).short some)
  · left
    apply level.taken taken
    intro ends
    exact Nat.eq_zero_of_not_pos fun some => interrupts ⟨ends, some⟩

theorem finish_clean (unended : run.resolver.Unended) (clean : run.finish.fault = none) :
    ∃ pending middle place, run.resolver.stack = waiting pending ++ [] ∧
      Paid pending run.stack middle ∧ run.finish.state.stack = Machine.settle place middle.tail := by
  rcases exists_bracket run.resolver.stack with
    ⟨pending, shape⟩ | ⟨pending, opening, base, shape⟩
  · obtain ⟨middle, place, paid, settled⟩ := (finish_counts unended shape).state clean
    exact ⟨pending, middle, place, by rw [shape, List.append_nil], paid, settled⟩
  · rw [finish_refused shape] at clean
    cases clean

theorem Level.finish (level : run.Level) (unended : run.resolver.Unended)
    (clean : run.finish.fault = none) : ∃ place, run.finish.state.stack = [⟨.null, place⟩] := by
  obtain ⟨pending, middle, place, shape, paid, settled⟩ := finish_clean unended clean
  have left := level.left shape paid
  have held := run.resolver.expect.held_le_one
  rw [calls_nil] at left
  rw [settled]
  exact settle_alone place (by omega) (paid.sunken ▸ level.single)

theorem Short.finish (short : run.Short) (unended : run.resolver.Unended) :
    run.finish.fault ≠ none := by
  intro clean
  obtain ⟨pending, middle, place, shape, paid, -⟩ := finish_clean unended clean
  exact absurd (short.owes shape paid) (Nat.lt_irrefl 0)

/-! What holds of a run holds behind further lexemes of the line. -/

variable {names : NameTable} {row : List (Spanned Lexeme)}

theorem Reads.unended (reads : run.Reads names row) : run.resolver.Unended := by
  obtain ⟨ready, taken⟩ := reads.pushed
  exact Resolver.unended_pushAll standard_total taken

theorem Reads.taken (reads : run.Reads names row) (clean : (LineRun.feed lexeme run).fault = none) :
    run.Taken lexeme (LineRun.feed lexeme run).state := by
  cases pushed : run.resolver.push standard
    ⟨(run.names.take lexeme.value).token, lexeme.span⟩ with
  | mk resolver result =>
    cases result with
    | error fault =>
      rw [feed_refused pushed] at clean
      cases clean
    | ok ready => exact (feed_counts reads.unended pushed).state clean

theorem Reads.feedRow {P : LineRun → Prop}
    (kept : ∀ run after lexeme, P run → run.Taken lexeme after → P after)
    (reads : run.Reads names row) (holds : P run) (later : List (Spanned Lexeme)) :
    (Outcome.runAll LineRun.feed later run).Ensures
      (fun reached => reached.Reads names (row ++ later) ∧ P reached) (fun _ => True) := by
  refine .runAll (P := fun earlier reached => reached.Reads names (row ++ earlier) ∧ P reached)
    ⟨by rwa [List.append_nil], holds⟩ fun earlier lexeme _ reached both => ?_
  obtain ⟨readsSo, held⟩ := both
  refine .of_cases (fun clean => ?_) fun _ _ => trivial
  rw [← List.append_assoc]
  exact ⟨readsSo.feed clean, kept _ _ lexeme held (readsSo.taken clean)⟩

theorem Reads.level_or_short {session : Session} (row : List (Spanned Lexeme)) :
    (Outcome.runAll LineRun.feed row session.begin).Ensures
      (fun reached => reached.Reads session.names row ∧ (reached.Level ∨ reached.Short))
      (fun _ => True) := by
  refine (reads_begin session).feedRow (fun run after lexeme held taken => ?_)
    (.inl (level_begin session)) row
  rcases held with level | short
  · exact level.taken_or_short taken
  · exact .inr (short.taken taken)

theorem Short.feedAll (short : run.Short) (reads : run.Reads names row)
    (later : List (Spanned Lexeme)) (mistake : Option CalcError) :
    (LineRun.feedAll ⟨later, mistake⟩ run).fault ≠ none := by
  intro clean
  obtain ⟨cleanRow, cleanEnd, -⟩ := Outcome.andThen_clean clean
  have reached := reads.feedRow (fun run after lexeme short taken => Short.taken short taken) short later
  obtain ⟨readsAll, shortStill⟩ := reached.state cleanRow
  cases mistake with
  | some error => cases cleanEnd
  | none => exact shortStill.finish readsAll.unended cleanEnd

/-- A semicolon that leaves an operator waiting keeps the whole line from ending well. -/
theorem Reads.interrupted (reads : run.Reads names row) (ends : run.Ends lexeme)
    (interrupts : ∀ after, run.Ended after → 0 < calls after.resolver.stack)
    (later : List (Spanned Lexeme)) (mistake : Option CalcError) :
    (LineRun.feedAll ⟨lexeme :: later, mistake⟩ run).fault ≠ none := by
  intro clean
  rw [feedAll_cons] at clean
  obtain ⟨cleanFeed, cleanRest, -⟩ := Outcome.andThen_clean clean
  have ended := (reads.taken cleanFeed).of_ends ends
  have short := ended.short (interrupts _ ended)
  exact short.feedAll (reads.feed cleanFeed) later mistake cleanRest

end LineRun

/-- A semicolon ends a statement in a bracket that is open to the right of an operator that still waits
for its right operand. -/
def Interrupted (tokens : List (Spanned RawToken)) : Prop :=
  ∃ earlier span later resolver ready inner opening outer op place,
    tokens = earlier ++ ⟨.symbol (.operator .semicolon), span⟩ :: later ∧
    Resolver.pushAll standard earlier .start = (resolver, .ok ready) ∧
    resolver.stack = inner ++ ⟨.bracket, opening⟩ :: outer ∧
    ⟨.operator op, place⟩ ∈ outer ∧ op.demand = 2

/-- What leaves a stack does not reach below a bracket. -/
theorem calls_outer_le {pending : List (Spanned Operator)} {base inner outer : List (Spanned Waiting)}
    {opening : Span} (shape : waiting pending ++ base = inner ++ ⟨.bracket, opening⟩ :: outer) :
    calls outer ≤ calls base := by
  induction pending generalizing inner with
  | nil =>
    obtain rfl : base = _ := shape
    simp only [calls_append, calls_cons]
    omega
  | cons entry later ih =>
    rcases inner with _ | ⟨first, others⟩
    · cases (List.cons.inj shape).1
    · exact ih (List.cons.inj shape).2

theorem calls_pos {stack : List (Spanned Waiting)} {op : Operator} {place : Span}
    (member : ⟨.operator op, place⟩ ∈ stack) (binary : op.demand = 2) : 0 < calls stack := by
  obtain ⟨above, below, rfl⟩ := List.append_of_mem member
  simp only [calls_append, calls_cons, Waiting.calls, binary]
  omega

theorem LineRun.Reads.resolver_eq {run : LineRun} {names : NameTable} {row : List (Spanned Lexeme)}
    (reads : run.Reads names row) {resolver : Resolver} {ready : List (Spanned Token)}
    (taken : Resolver.pushAll standard (Listing.takeAll none names row).tokens .start =
      (resolver, .ok ready)) : run.resolver = resolver := by
  obtain ⟨others, same⟩ := reads.pushed
  rw [same] at taken
  exact congrArg Prod.fst taken

theorem LineRun.feedAll_interrupted {session : Session} {lexemes : List (Spanned Lexeme)}
    (interrupted : Interrupted (Listing.takeAll none session.names lexemes).tokens)
    (mistake : Option CalcError) : (feedAll ⟨lexemes, mistake⟩ session.begin).fault ≠ none := by
  obtain ⟨earlier, span, later, resolver, ready, inner, opening, outer, op, place, split, taken,
    shape, member, binary⟩ := interrupted
  obtain ⟨early, late, rfl, rfl, rest⟩ := Listing.exists_split split
  rcases late with _ | ⟨lexeme, others⟩
  · cases rest
  rw [Listing.tokens_cons] at rest
  intro clean
  rw [feedAll_append] at clean
  obtain ⟨cleanEarly, cleanLate, -⟩ := Outcome.andThen_clean clean
  obtain ⟨reads, -⟩ := (Reads.level_or_short early).state cleanEarly
  generalize (Outcome.runAll feed early session.begin).state = run at reads cleanLate
  have ends : run.Ends lexeme := by
    rw [Ends, reads.known]
    exact congrArg Spanned.value (List.cons.inj rest).1
  refine reads.interrupted ends (fun after ended => ?_) others mistake cleanLate
  obtain ⟨pending, middle, place, left, -⟩ := ended.leaves
  rw [reads.resolver_eq taken, shape] at left
  exact Nat.lt_of_lt_of_le (calls_pos member binary) (calls_outer_le left.symm)

/-- A line that ends well leaves a single null on the stack and nothing else. One that ends a statement in
a bracket to the right of a waiting operator does not end well. -/
theorem run_balanced (session : Session) (line : String) :
    ((session.run line).fault = none → ∃ place,
      (LineRun.feedAll (Scan.ofLine line) session.begin).state.evaluation.machine.stack =
        [⟨.null, place⟩]) ∧
    (Interrupted (Listing.read session.names line).tokens → (session.run line).fault ≠ none) := by
  constructor
  · intro clean
    obtain ⟨cleanRow, cleanEnd, last⟩ := Outcome.andThen_clean
      (show (LineRun.feedAll (Scan.ofLine line) session.begin).fault = none from clean)
    rw [LineRun.feedAll, last]
    obtain ⟨reads, found⟩ := (LineRun.Reads.level_or_short (Scan.ofLine line).lexemes).state cleanRow
    cases mistaken : (Scan.ofLine line).mistake with
    | some error =>
      rw [mistaken] at cleanEnd
      cases cleanEnd
    | none =>
      rw [mistaken] at cleanEnd
      rcases found with level | short
      · exact level.finish reads.unended cleanEnd
      · exact absurd cleanEnd (short.finish reads.unended)
  · intro interrupted
    rw [Listing.read_tokens] at interrupted
    exact LineRun.feedAll_interrupted interrupted _

/-- Where `a` is three, `(a;a)` ends well, but `a+(a;a)` ends a statement while the sum waits. -/
theorem run_balanced_interrupted :
    ((Session.empty.run "a=3").state.run "(a;a)").fault = none ∧
      (∃ place, (LineRun.feedAll (Scan.ofLine "(a;a)")
        (Session.empty.run "a=3").state.begin).state.evaluation.machine.stack = [⟨.null, place⟩]) ∧
      ((Session.empty.run "a=3").state.run "a+(a;a)").fault ≠ none := by
  have clean : ((Session.empty.run "a=3").state.run "(a;a)").fault = none := by decide +kernel
  have interrupted :
      Interrupted (Listing.read (Session.empty.run "a=3").state.names "a+(a;a)").tokens := by
    refine ⟨[⟨.name 0, ⟨0, 1⟩⟩, ⟨.symbol (.operator (.arithmetic .add)), ⟨1, 2⟩⟩,
      ⟨.symbol .leftParen, ⟨2, 3⟩⟩, ⟨.name 0, ⟨3, 4⟩⟩], ⟨4, 5⟩,
      [⟨.name 0, ⟨5, 6⟩⟩, ⟨.symbol .rightParen, ⟨6, 7⟩⟩], _, _, [], ⟨2, 3⟩,
      [⟨.operator (.arithmetic .add), ⟨1, 2⟩⟩], .arithmetic .add, ⟨1, 2⟩, ?_, rfl, rfl,
      List.mem_singleton_self _, rfl⟩
    decide +kernel
  exact ⟨clean, (run_balanced _ _).1 clean, (run_balanced _ _).2 interrupted⟩

end LineCalc
