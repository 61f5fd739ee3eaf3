import LineCalc.Proofs.Dangling
import LineCalc.Proofs.Departure
import LineCalc.Proofs.Effects

/-!
Lines in which an operator is left without its operand. Nobody looks whether operands are there before
operators leave, so one of them may take what is due to another one before the line stops. But there are
never enough for all: each operator that finds too few in reach stops the line without an effect, and
what waits outside of the brackets finds nothing more, because the end of a statement puts all that was
there out of reach.
-/

namespace LineCalc

open PrecedenceTable (standard standard_total)

theorem Stages.effect {final : NameTable} {session : Session} {line : String}
    {staged : Outcome Evaluation}
    (stages : Stages final (LineRun.feedAll (Scan.ofLine line) session.begin) staged) :
    Session.effect (session.run line) = Evaluation.effect staged := by
  have environment : (session.run line).state.environment = staged.state.machine.environment :=
    congrArg (·.machine.environment) stages.evaluation
  have output : Event.output (session.run line).events = Event.output staged.events :=
    Event.output_congr stages.numbers
  rw [Session.effect, Evaluation.effect, environment, output]

theorem Session.effect_run {session : Session} (reached : session.Reachable) {line : String}
    (cut : (Scan.ofLine line).mistake = none) {final : NameTable}
    (whole : (Listing.takeAll none session.names (Scan.ofLine line).lexemes).names = final)
    {after : Resolver} {ready rest : List (Spanned Token)}
    (taken : Resolver.pushAll standard
      (Listing.takeAll none session.names (Scan.ofLine line).lexemes).tokens .start =
        (after, .ok ready))
    (finished : (after.finish standard).2 = .ok rest) :
    Session.effect (session.run line) = Evaluation.effect
      (Evaluation.performAll final (ready ++ rest) (.start session.environment)) := by
  have stages := LineRun.feedAll_stages reached.sound.begin cut taken finished whole
  rw [stages.effect]
  exact Evaluation.Quiet.effect_andThen fun _ => Evaluation.quiet_close

namespace LineRun

variable {session : Session} {run after : LineRun} {lexeme : Spanned Lexeme}
  {names final : NameTable} {row early : List (Spanned Lexeme)} {resolver : Resolver}
  {ready : List (Spanned Token)}

/-- Where all that lexemes make ready goes well, they are taken in and leave it done. -/
theorem runAll_performed (grows : (Listing.takeAll none session.names early).names.Extends final)
    (taken : Resolver.pushAll standard (Listing.takeAll none session.names early).tokens .start =
      (resolver, .ok ready))
    (clean : (Evaluation.performAll final ready (.start session.environment)).fault = none) :
    (Outcome.runAll feed early session.begin).fault = none ∧
      (Outcome.runAll feed early session.begin).state.evaluation =
        (Evaluation.performAll final ready (.start session.environment)).state := by
  obtain ⟨flat, ending⟩ := Resolver.batches_taken taken
  rw [Listing.names_takeAll] at grows
  have named : session.begin.evaluation.machine.Named session.begin.names := List.forall_mem_nil _
  have course : Course final session.begin early (Resolver.batches standard
      (Listing.takeAll none session.names early).tokens .start) := runAll_course named early grows
  cases course with
  | @stopped before batch later shape cleanEarly stops does =>
    have parts : ready = (before ++ [batch]).flatten ++ later.flatten := by
      rw [← flat, shape, ← List.flatten_append, List.append_assoc, List.singleton_append]
    rw [parts, Evaluation.performAll_append] at clean
    exact absurd (Outcome.andThen_clean clean).1 stops
  | refused refused => cases ending.symm.trans refused
  | taken same count cleanRow does reached =>
    rw [flat] at does
    exact ⟨does.fault.trans clean, does.evaluation⟩

/-- Where an operand is expected, no more operands are in reach than waiting operators call for. -/
theorem supply_le_calls (grows : (Listing.takeAll none session.names early).names.Extends final)
    (taken : Resolver.pushAll standard (Listing.takeAll none session.names early).tokens .start =
      (resolver, .ok ready)) (mode : resolver.expect = .value)
    (clean : (Evaluation.performAll final ready (.start session.environment)).fault = none) :
    supply (Evaluation.performAll final ready (.start session.environment)).state.machine.stack ≤
      calls resolver.stack := by
  obtain ⟨fed, reached⟩ := runAll_performed grows taken clean
  obtain ⟨reads, found⟩ := (Reads.level_or_short early).state fed
  have same := reads.resolver_eq taken
  have bound : supply (Outcome.runAll feed early session.begin).state.stack ≤ resolver.due := by
    rw [← same]
    rcases found with level | short
    · exact level.supply.le
    · exact short.supply.le
  rw [stack, reached, Resolver.due, mode] at bound
  exact bound

/-! Behind the end of a statement, operators that wait outside of it find nothing to take. -/

/-- No more operands are in reach than operators above the bottom call for and the next token goes on
with. -/
def Starves (bottom : List (Spanned Waiting)) (run : LineRun) : Prop :=
  ∃ above, run.resolver.stack = above ++ bottom ∧
    supply run.stack ≤ calls above + run.resolver.expect.held

variable {bottom above : List (Spanned Waiting)}

theorem Ended.starves (ended : run.Ended after) (shape : after.resolver.stack = above ++ bottom) :
    after.Starves bottom := by
  obtain ⟨pending, middle, place, -, -, settled⟩ := ended.leaves
  obtain ⟨null, below, top⟩ := settle_shape place middle.tail
  refine ⟨above, shape, ?_⟩
  rw [settled, top, supply_null]
  exact Nat.zero_le _

theorem Starves.taken (starves : run.Starves bottom) (taken : run.Taken lexeme after)
    (shape : after.resolver.stack = above ++ bottom) : after.Starves bottom := by
  cases taken with
  | evenly goesOn counts =>
    obtain ⟨upper, shapeBefore, few⟩ := starves
    refine ⟨above, shape, ?_⟩
    simp only [Resolver.due, shape, shapeBefore, calls_append] at counts
    omega
  | ended ends ended => exact ended.starves shape

/-- While tokens are taken in that leave the bottom of the stack alone, every run with them keeps it. -/
theorem Reads.keeps (reads : run.Reads names row) {inside first : List (Spanned Lexeme)}
    (keeps : run.resolver.Keeps bottom (Listing.takeAll none run.names inside).tokens)
    (among : first <+: inside) (readsToo : after.Reads names (row ++ first)) :
    ∃ above, after.resolver.stack = above ++ bottom := by
  obtain ⟨others, rfl⟩ := among
  rw [(Listing.takeAll_append _ first others).2] at keeps
  obtain ⟨above, reached, late, taken, shape⟩ := keeps _ (List.prefix_append _ _)
  obtain ⟨early, takenRow⟩ := reads.pushed
  have whole : Resolver.pushAll standard (Listing.takeAll none names (row ++ first)).tokens .start =
      (reached, .ok (early ++ late)) := by
    rw [(Listing.takeAll_append _ row first).2, ← reads.known, Resolver.pushAll_append takenRow, taken]
    rfl
  rw [readsToo.resolver_eq whole]
  exact ⟨above, shape⟩

/-- The bottom of a stack goes on to starve while tokens are taken in that leave it alone. -/
theorem Starves.feedRow (starves : run.Starves bottom) (reads : run.Reads names row)
    {inside : List (Spanned Lexeme)}
    (keeps : run.resolver.Keeps bottom (Listing.takeAll none run.names inside).tokens) :
    (Outcome.runAll feed inside run).Ensures
      (fun reached => reached.Reads names (row ++ inside) ∧ reached.Starves bottom)
      (fun _ => True) := by
  refine .runAll (P := fun earlier (reached : LineRun) => reached.Reads names (row ++ earlier) ∧
    reached.Starves bottom) ⟨by rwa [List.append_nil], starves⟩ ?_
  intro earlier lexeme among reached both
  obtain ⟨readsSo, held⟩ := both
  refine .of_cases (fun clean => ?_) fun _ _ => trivial
  have readsAfter := readsSo.feed clean
  rw [List.append_assoc] at readsAfter
  obtain ⟨above, shape⟩ := reads.keeps keeps among readsAfter
  exact ⟨readsAfter, held.taken (readsSo.taken clean) shape⟩

/-- Behind a semicolon and tokens that leave the bottom of the stack alone, no more operands are in
reach than what waits above it calls for and the next token goes on with. -/
theorem supply_le_above {known : NameTable}
    (names : (Listing.takeAll none session.names early).names = known)
    (taken : Resolver.pushAll standard (Listing.takeAll none session.names early).tokens .start =
      (resolver, .ok ready))
    (ends : (known.take lexeme.value).token = .symbol (.operator .semicolon))
    {point middle : Resolver} {ended between : List (Spanned Token)}
    (pushed : resolver.push standard ⟨(known.take lexeme.value).token, lexeme.span⟩ =
      (point, .ok ended))
    (shape : point.stack = above ++ bottom) {inside : List (Spanned Lexeme)}
    (keeps : point.Keeps bottom
      (Listing.takeAll none (known.take lexeme.value).names inside).tokens)
    (takenInside : Resolver.pushAll standard
      (Listing.takeAll none (known.take lexeme.value).names inside).tokens point =
        (middle, .ok between))
    (grows : (Listing.takeAll none session.names (early ++ lexeme :: inside)).names.Extends final)
    (clean : (Evaluation.performAll final (ready ++ (ended ++ between))
      (.start session.environment)).fault = none) :
    ∃ above, middle.stack = above ++ bottom ∧
      supply (Evaluation.performAll final (ready ++ (ended ++ between))
        (.start session.environment)).state.machine.stack ≤ calls above + middle.expect.held := by
  subst names
  have whole : Resolver.pushAll standard
      (Listing.takeAll none session.names (early ++ lexeme :: inside)).tokens .start =
        (middle, .ok (ready ++ (ended ++ between))) := by
    rw [(Listing.takeAll_append _ early _).2, Listing.tokens_cons]
    exact Resolver.pushAll_trans taken (Resolver.pushAll_cons pushed takenInside)
  obtain ⟨fed, reached⟩ := runAll_performed grows whole clean
  rw [Outcome.runAll_append] at fed reached
  obtain ⟨cleanEarly, cleanLate, last⟩ := Outcome.andThen_clean fed
  rw [last] at reached
  obtain ⟨reads, -⟩ := (Reads.level_or_short early).state cleanEarly
  generalize (Outcome.runAll feed early session.begin).state = run at reads cleanLate reached
  rw [← reads.known] at ends pushed keeps
  rw [← reads.resolver_eq taken] at pushed
  -- The semicolon leaves nothing in reach, and what follows keeps it so.
  obtain ⟨cleanEnd, cleanInside, lastInside⟩ := Outcome.andThen_clean
    (show ((feed lexeme run).andThen (Outcome.runAll feed inside)).fault = none from cleanLate)
  have fedPoint : (feed lexeme run).state.resolver = point := by
    rw [feed_ready pushed]
    rfl
  have starves := ((reads.taken cleanEnd).of_ends ends).starves (fedPoint ▸ shape)
  rw [← fedPoint, ← feed_names] at keeps
  obtain ⟨readsAll, above, shapeAll, few⟩ :=
    (starves.feedRow (reads.feed cleanEnd) keeps).state cleanInside
  rw [List.append_assoc] at readsAll
  have same := readsAll.resolver_eq whole
  rw [show (Outcome.runAll feed (lexeme :: inside) run).state = _ from lastInside] at reached
  refine ⟨above, same ▸ shapeAll, ?_⟩
  rw [← reached, ← same]
  exact few

/-- An operator of two operands that waits outside of a statement that ends has no effect, nor has what
follows. -/
theorem effect_outer {late : List (Spanned Lexeme)}
    (whole : (Listing.takeAll none session.names (early ++ late)).names = final)
    (taken : Resolver.pushAll standard (Listing.takeAll none session.names early).tokens .start =
      (resolver, .ok ready))
    {pending : List (Spanned Operator)} {base : List (Spanned Waiting)}
    (shape : resolver.stack = waiting pending ++ base)
    (lowest : base = [] ∨ ∃ opening below, base = ⟨.bracket, opening⟩ :: below)
    {later : List (Spanned RawToken)} (row : (Listing.takeAll none
      (Listing.takeAll none session.names early).names late).tokens = later)
    (ends : ∀ token ∈ later.head?, token.value = .symbol (.operator .semicolon))
    {rest : List (Spanned Token)} (completes : resolver.Completes later rest)
    {below : List (Spanned Waiting)} {entry : Spanned Operator}
    (waits : base = above ++ entry.map .operator :: below) (binary : entry.value.demand = 2) :
    ∃ inside others middle readyInside upper, later = inside ++ others ∧
      Resolver.pushAll standard ((Listing.takeAll none session.names early).tokens ++ inside) .start =
        (middle, .ok readyInside) ∧
      middle.stack = waiting upper ++ entry.map .operator :: below ∧
      Evaluation.effect (Evaluation.performAll final (ready ++ rest) (.start session.environment)) =
        Evaluation.effect (Evaluation.performAll final
          (readyInside ++ (standard_total.emitAll upper middle.operands).1)
          (.start session.environment)) := by
  rcases late with _ | ⟨lexeme, others⟩
  · subst row
    cases completes with
    | finish finished =>
      rcases lowest with rfl | ⟨opening, lower, rfl⟩
      · exact absurd waits (by simp)
      · exact absurd finished (Resolver.finish_opened shape)
  · rw [Listing.tokens_cons] at row
    subst row
    have read := ends _ rfl
    cases completes with
    | @push _ point _ _ ended _ pushed completesOthers =>
      obtain ⟨operands, last, pushedToo⟩ := Resolver.push_ending shape lowest lexeme.span
      have same : point.stack = base := by
        rw [← read, pushed] at pushedToo
        rw [(Prod.mk.inj pushedToo).1]
      obtain ⟨inside, outside, middle, between, upper, lower, more, split, takenInside, still, keeps,
        rfl⟩ := completesOthers.leaving (same.trans waits)
      obtain ⟨insideRow, outsideRow, rfl, rfl, -⟩ := Listing.exists_split split
      have unended := Resolver.unended_pushAll standard_total
        (Resolver.pushAll_trans taken (Resolver.pushAll_cons pushed takenInside))
      refine ⟨_, _, middle, ready ++ (ended ++ between), upper, congrArg (List.cons _) split,
        Resolver.pushAll_trans taken (Resolver.pushAll_cons pushed takenInside), still, ?_⟩
      rw [← List.append_assoc ended, ← List.append_assoc ready]
      apply Evaluation.effect_append
      intro clean
      have grows : (Listing.takeAll none session.names (early ++ lexeme :: insideRow)).names.Extends
          final := by
        rw [← whole, ← List.cons_append, ← List.append_assoc, (Listing.takeAll_append _ _ outsideRow).1]
        exact Listing.extends_takeAll _ outsideRow
      obtain ⟨upperToo, shapeToo, few⟩ :=
        supply_le_above rfl taken read pushed (same.trans waits) keeps takenInside grows clean
      rw [still] at shapeToo
      obtain rfl := List.append_cancel_right shapeToo
      have held := middle.expect.held_le_one
      have acts : entry.value ≠ .semicolon := by
        intro ends
        rw [ends] at binary
        cases binary
      exact Evaluation.performAll_lacking (unended.pending still) acts (by omega) _ _

end LineRun

/-! What waits where an operand is missing. -/

/-- No operator of a stack can take what is due to another one and show it: none of two operands waits
outside of the innermost bracket, one at most assigns inside, and none prints there where others are of
two operands. -/
structure Separate (stack : List (Spanned Waiting)) : Prop where
  outside : calls (Waiting.outside stack) = 0
  assigns : (Waiting.inside stack).countP (·.value = .equals) ≤ 1
  prints : ∀ entry ∈ Waiting.inside stack, entry.value = .print →
    calls (waiting (Waiting.inside stack)) = 0

section Separate

variable {resolver : Resolver} (separate : Separate resolver.stack)
  (layered : resolver.Layered standard_total) (unended : resolver.Unended)
  (some : Waiting.inside resolver.stack ≠ [])
include separate layered unended some

/-- Then the first operator that lacks an operand has only arithmetic above it. -/
theorem Separate.exists_lacking {reach : Nat} (few : reach ≤ calls resolver.stack) :
    ∃ upper entry lower, Waiting.inside resolver.stack = upper ++ entry :: lower ∧
      reach < calls (waiting upper) + entry.value.demand ∧
      ∀ other ∈ upper, (Token.operator other.value).silent = true := by
  obtain ⟨outside, assigns, prints⟩ := separate
  have shape := Waiting.inside_outside resolver.stack
  have waits := unended.pending shape
  rw [shape, calls_append, outside, Nat.add_zero] at few
  generalize Waiting.inside resolver.stack = pending at *
  by_cases printing : ∃ entry ∈ pending, entry.value = .print
  · obtain ⟨entry, member, acts⟩ := printing
    have none := prints entry member acts
    obtain ⟨first, later, rfl⟩ := List.exists_cons_of_ne_nil some
    have positive := first.value.demand_pos (waits first List.mem_cons_self)
    exact ⟨[], first, later, rfl, by omega, List.forall_mem_nil _⟩
  · obtain none | ⟨upper, last, rfl⟩ := List.eq_nil_or_concat' pending
    · exact absurd none some
    have binary : last.value.demand = 2 := by
      have member : last ∈ upper ++ [last] := by simp
      rcases Operator.binary_or_print (waits last member) with ⟨-, binary⟩ | acts
      · exact binary
      · exact absurd ⟨last, member, acts⟩ printing
    refine ⟨upper, last, [], rfl, ?_, ?_⟩
    · rw [waiting_append, calls_append, calls_waiting_cons, binary, calls_waiting_nil] at few
      omega
    · intro other member
      have inside : other ∈ upper ++ [last] := List.mem_append_left _ member
      cases acts : other.value with
      | arithmetic op => rfl
      | print => exact absurd ⟨other, inside, acts⟩ printing
      | semicolon => exact absurd acts (waits other inside)
      | equals =>
        -- The last one would assign as well.
        obtain ⟨above, below, rfl⟩ := List.append_of_mem member
        rw [List.append_assoc, List.cons_append] at shape
        have lastActs := layered.equals unended shape acts last (by simp)
        simp only [List.countP_append, List.countP_cons, List.countP_nil, acts, lastActs,
          decide_true, if_true] at assigns
        omega

/-- Then nothing that waits has an effect. -/
theorem Separate.effect {names : NameTable} {evaluation : Evaluation} {ready : List (Spanned Token)}
    (few : (Evaluation.performAll names ready evaluation).fault = none →
      supply (Evaluation.performAll names ready evaluation).state.machine.stack ≤
        calls resolver.stack) (operands : List Span) (later : List (Spanned Token)) :
    Evaluation.effect (Evaluation.performAll names
        (ready ++ ((standard_total.emitAll (Waiting.inside resolver.stack) operands).1 ++ later))
        evaluation) =
      Evaluation.effect (Evaluation.performAll names ready evaluation) := by
  rw [Evaluation.performAll_append]
  by_cases clean : (Evaluation.performAll names ready evaluation).fault = none
  · obtain ⟨upper, entry, lower, inside, short, silent⟩ :=
      separate.exists_lacking layered unended some (few clean)
    have waits := unended.pending (Waiting.inside_outside resolver.stack)
    rw [inside] at waits ⊢
    obtain ⟨above, rest⟩ := List.forall_mem_append.mp waits
    apply Evaluation.Quiet.effect_andThen
    intro _
    rw [Evaluation.Quiet, Evaluation.performAll_lacking above (rest entry List.mem_cons_self) short]
    apply Evaluation.quiet_performAll
    intro token member
    obtain ⟨other, inside, same⟩ := List.mem_map.mp
      (standard_total.emitAll_values upper operands ▸ List.mem_map_of_mem member)
    rw [← same]
    exact silent other inside
  · rw [Outcome.andThen_stopped clean]

end Separate

/-- The line can be reordered, and an operand is missing in it behind these tokens. -/
structure MissingOperand (session : Session) (line : String)
    (earlier later : List (Spanned RawToken)) : Prop where
  accepted : (Listing.read session.names line).reorder.fault = none
  split : (Listing.read session.names line).tokens = earlier ++ later
  awaits : Awaits earlier
  ends : ∀ token ∈ later.head?, token.value = .symbol (.operator .semicolon)

/-- What a line leaves in which an operand is missing between these tokens, where `ready` has come out
and is executed by `perform`. -/
structure Aftermath (left : Environment × String)
    (perform : List (Spanned Token) → Outcome Evaluation) (earlier later : List (Spanned RawToken))
    (resolver : Resolver) (ready : List (Spanned Token)) : Prop where
  /-- No more operands are in reach than all that waits calls for. -/
  reach : (perform ready).fault = none →
    supply (perform ready).state.machine.stack ≤ calls resolver.stack
  /-- An operator that waits inside and finds too few of them has no effect, nor has what follows. -/
  inside : ∀ upper (entry : Spanned Operator) lower,
    Waiting.inside resolver.stack = upper ++ entry :: lower →
    supply (perform ready).state.machine.stack < calls (waiting upper) + entry.value.demand →
    left = Evaluation.effect (perform (ready ++ (standard_total.emitAll upper resolver.operands).1))
  /-- An operator of two operands that waits outside has no effect, nor has what follows. -/
  outside : ∀ above (entry : Spanned Operator) below,
    Waiting.outside resolver.stack = above ++ entry.map .operator :: below → entry.value.demand = 2 →
    ∃ inside others middle early upper, later = inside ++ others ∧
      Resolver.pushAll standard (earlier ++ inside) .start = (middle, .ok early) ∧
      middle.stack = waiting upper ++ entry.map .operator :: below ∧
      left = Evaluation.effect (perform (early ++ (standard_total.emitAll upper middle.operands).1))
  /-- Where nothing can be taken from others, nothing that waits has an effect, nor has what follows. -/
  separate : Separate resolver.stack → left = Evaluation.effect (perform ready)

/-- A line in which an operand is missing does not end well. Whatever waits there has no effect where it
finds too few operands in reach or waits outside of the innermost bracket for its second one; and where
nothing can be taken from others, the line leaves what came out before. -/
theorem run_unfilled {session : Session} (reached : session.Reachable) {line : String}
    {earlier later : List (Spanned RawToken)}
    (missing : MissingOperand session line earlier later) :
    (session.run line).fault ≠ none ∧ ∃ resolver ready,
      Resolver.pushAll standard earlier .start = (resolver, .ok ready) ∧
      Aftermath (Session.effect (session.run line))
        (fun tokens => Evaluation.performAll (Listing.read session.names line).names tokens
          (.start session.environment)) earlier later resolver ready := by
  obtain ⟨accepted, split, awaits, ends⟩ := missing
  obtain ⟨read, last, whole, rest, taken, finished⟩ := Listing.reorderAll_clean accepted
  have cut : (Scan.ofLine line).mistake = none := by
    have mistake := Listing.read_fault session.names line
    rw [show (Listing.read session.names line).fault = none from read] at mistake
    exact Option.map_eq_none_iff.mp mistake.symm
  have known : (Listing.takeAll none session.names (Scan.ofLine line).lexemes).names =
      (Listing.read session.names line).names := (Listing.takeAll_mistake _ _ _).2.1.symm
  generalize (Listing.read session.names line).names = final at known
  have tokens := Listing.read_tokens session.names line
  rw [split] at tokens
  rw [show (Listing.read session.names line).items.map Prod.fst = _ from split] at taken
  constructor
  · exact LineRun.feedAll_dangling ⟨earlier, later, tokens.symm, awaits, ends⟩ _
  have left := Session.effect_run reached cut known (tokens ▸ taken) finished
  obtain ⟨early, late, lexemes, rfl, row⟩ := Listing.exists_split tokens.symm
  rw [lexemes] at known
  obtain ⟨resolver, ready, tail, takenEarly, completes, order⟩ :=
    (Resolver.completes_of_pushAll taken finished).behind
  have mode := (Resolver.tracks_pushAll standard_total takenEarly).expect.trans awaits.expect
  have top := (Resolver.awaits_pushAll takenEarly mode).mp awaits
  have unended := Resolver.unended_pushAll standard_total takenEarly
  have grows : (Listing.takeAll none session.names early).names.Extends final := by
    rw [← known, (Listing.takeAll_append _ early late).1]
    exact Listing.extends_takeAll _ late
  have shape := Waiting.inside_outside resolver.stack
  have lowest := Waiting.outside_cases resolver.stack
  obtain ⟨more, rfl⟩ := completes.ending shape lowest ends
  have reach := LineRun.supply_le_calls grows takenEarly mode
  refine ⟨resolver, ready, takenEarly, ⟨reach, ?_, ?_, ?_⟩⟩
  · intro upper entry lower inside few
    have waits := unended.pending shape
    rw [inside] at waits
    obtain ⟨above, others⟩ := List.forall_mem_append.mp waits
    rw [left, order, inside]
    apply Evaluation.effect_append
    intro _
    exact Evaluation.performAll_lacking above (others entry List.mem_cons_self) few _ _
  · intro above entry below waits binary
    rw [left, order]
    exact LineRun.effect_outer known takenEarly shape lowest row ends completes waits binary
  · intro separate
    rw [left, order]
    have layered := Resolver.layered_pushAll standard_total takenEarly
    exact separate.effect layered unended (top.pending shape lowest) reach _ _

/-- Where `a` is three, `(a=a*;a)` leaves it so and prints nothing: neither the product nor the
assignment behind it has an effect. -/
theorem run_unfilled_product :
    let session := (Session.empty.run "a=3").state
    (session.run "(a=a*;a)").fault ≠ none ∧
      Session.effect (session.run "(a=a*;a)") = (session.environment, "") := by
  intro session
  have missing : MissingOperand session "(a=a*;a)"
      ([⟨.symbol .leftParen, ⟨0, 1⟩⟩, ⟨.name 0, ⟨1, 2⟩⟩, ⟨.symbol (.operator .equals), ⟨2, 3⟩⟩,
        ⟨.name 0, ⟨3, 4⟩⟩] ++ [⟨.symbol (.operator (.arithmetic .mul)), ⟨4, 5⟩⟩])
      [⟨.symbol (.operator .semicolon), ⟨5, 6⟩⟩, ⟨.name 0, ⟨6, 7⟩⟩,
        ⟨.symbol .rightParen, ⟨7, 8⟩⟩] := by
    refine ⟨by decide +kernel, by decide +kernel, awaits_append.mpr ⟨_, rfl, .inl rfl⟩, ?_⟩
    intro token first
    cases first
    rfl
  obtain ⟨fails, resolver, ready, taken, aftermath⟩ := run_unfilled (.run .empty "a=3") missing
  cases taken
  exact ⟨fails, (aftermath.separate ⟨rfl, by decide, by decide⟩).trans (by decide +kernel)⟩

/-- Nothing that waits behind these tokens has an effect. -/
def Effectless (session : Session) (line : String) (earlier : List (Spanned RawToken)) : Prop :=
  ∀ resolver ready, Resolver.pushAll standard earlier .start = (resolver, .ok ready) →
    Session.effect (session.run line) = Evaluation.effect (Evaluation.performAll
      (Listing.read session.names line).names ready (.start session.environment))

/-- Where something can be taken from others, it shows. In `a=b=` the second assignment takes the target
and the value of the first one, in `b+%` the operand of the sum is printed, and in `a=(b=;b)` the inner
assignment takes the target of the outer one. -/
theorem run_unfilled_taken :
    let session := (Session.empty.run "b=5").state
    (∃ earlier later, MissingOperand session "a=b=" earlier later ∧
        ¬ Effectless session "a=b=" earlier) ∧
      (∃ earlier later, MissingOperand session "b+%" earlier later ∧
        ¬ Effectless session "b+%" earlier) ∧
      ∃ earlier later, MissingOperand session "a=(b=;b)" earlier later ∧
        ¬ Effectless session "a=(b=;b)" earlier := by
  intro session
  have assigned : MissingOperand session "a=b="
      ([⟨.name 1, ⟨0, 1⟩⟩, ⟨.symbol (.operator .equals), ⟨1, 2⟩⟩, ⟨.name 0, ⟨2, 3⟩⟩] ++
        [⟨.symbol (.operator .equals), ⟨3, 4⟩⟩]) [] := by
    refine ⟨by decide +kernel, by decide +kernel, awaits_append.mpr ⟨_, rfl, .inl rfl⟩, ?_⟩
    intro token first
    cases first
  have printed : MissingOperand session "b+%"
      ([⟨.name 0, ⟨0, 1⟩⟩, ⟨.symbol (.operator (.arithmetic .add)), ⟨1, 2⟩⟩] ++
        [⟨.symbol (.operator .print), ⟨2, 3⟩⟩]) [] := by
    refine ⟨by decide +kernel, by decide +kernel, awaits_append.mpr ⟨_, rfl, .inr ⟨rfl, rfl⟩⟩, ?_⟩
    intro token first
    cases first
  have enclosed : MissingOperand session "a=(b=;b)"
      ([⟨.name 1, ⟨0, 1⟩⟩, ⟨.symbol (.operator .equals), ⟨1, 2⟩⟩, ⟨.symbol .leftParen, ⟨2, 3⟩⟩,
        ⟨.name 0, ⟨3, 4⟩⟩] ++ [⟨.symbol (.operator .equals), ⟨4, 5⟩⟩])
      [⟨.symbol (.operator .semicolon), ⟨5, 6⟩⟩, ⟨.name 0, ⟨6, 7⟩⟩,
        ⟨.symbol .rightParen, ⟨7, 8⟩⟩] := by
    refine ⟨by decide +kernel, by decide +kernel, awaits_append.mpr ⟨_, rfl, .inl rfl⟩, ?_⟩
    intro token first
    cases first
    rfl
  refine ⟨⟨_, _, assigned, ?_⟩, ⟨_, _, printed, ?_⟩, _, _, enclosed, ?_⟩
  all_goals exact fun effectless => absurd (effectless _ _ rfl) (by decide +kernel)

end LineCalc
