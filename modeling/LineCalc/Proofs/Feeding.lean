import LineCalc.Proofs.Acceptance
import LineCalc.Proofs.Naming
import LineCalc.Proofs.Stopping

/-!
What a run that has taken in a part of a line knows of it. Its names and its resolver are those of the
tokens so far, nothing that waits ends a statement, and whether an operator is on top of what waits
shows in the last token.
-/

namespace LineCalc

open PrecedenceTable (standard standard_total)

/-- The last token calls for an operand: an operator between two operands, or a print sign in front of
its operand. -/
def Awaits (earlier : List (Spanned RawToken)) : Prop :=
  ∃ front op span, earlier = front ++ [⟨.symbol (.operator op), span⟩] ∧
    (op.demand = 2 ∨ op = .print ∧ Expect.behindAll front = .value)

theorem not_awaits_nil : ¬ Awaits [] := by
  rintro ⟨front, op, span, row, -⟩
  simp at row

theorem awaits_append {earlier : List (Spanned RawToken)} {token : Spanned RawToken} :
    Awaits (earlier ++ [token]) ↔ ∃ op, token.value = .symbol (.operator op) ∧
      (op.demand = 2 ∨ op = .print ∧ Expect.behindAll earlier = .value) := by
  constructor
  · rintro ⟨front, op, span, row, calls⟩
    obtain ⟨rfl, same⟩ := List.append_inj' row rfl
    obtain rfl := List.singleton_inj.mp same
    exact ⟨op, rfl, calls⟩
  · rintro ⟨op, read, calls⟩
    exact ⟨earlier, op, token.span, by rw [← read], calls⟩

namespace Resolver

def Unended (resolver : Resolver) : Prop :=
  ∀ entry ∈ resolver.stack, entry.value ≠ .operator .semicolon

def AtOperator (resolver : Resolver) : Prop :=
  ∃ op span below, resolver.stack = ⟨.operator op, span⟩ :: below

variable {table : PrecedenceTable} {resolver before after : Resolver}

theorem Unended.push (total : table.Total) (unended : resolver.Unended)
    (token : Spanned RawToken) : (resolver.push table token).1.Unended := by
  have pushed := resolver.push_cases total token
  generalize resolver.push table token = result at pushed
  generalize token.value = value at pushed
  have lower {pending : List (Spanned Operator)} {base : List (Spanned Waiting)}
      (shape : resolver.stack = waiting pending ++ base) :
      ∀ entry ∈ base, entry.value ≠ .operator .semicolon := by
    intro entry member
    apply unended entry
    rw [shape]
    exact List.mem_append_right _ member
  cases pushed with
  | refuse | number | name => exact unended
  | opening => exact List.forall_mem_cons.mpr ⟨by simp, unended⟩
  | waits expect shape waits => exact List.forall_mem_cons.mpr ⟨by simpa using waits, lower shape⟩
  | ends shape => exact lower shape
  | closing shape =>
    intro entry member
    exact lower shape entry (List.mem_cons_of_mem _ member)
  | unopened => exact List.forall_mem_nil _

theorem pushAll_append_ok {first second : List (Spanned RawToken)} {ready : List (Spanned Token)}
    (taken : pushAll table (first ++ second) before = (after, .ok ready)) :
    ∃ middle early late, pushAll table first before = (middle, .ok early) ∧
      pushAll table second middle = (after, .ok late) ∧ ready = early ++ late := by
  induction first generalizing before ready with
  | nil => exact ⟨before, [], ready, rfl, taken, rfl⟩
  | cons token others ih =>
    obtain ⟨reached, early, late, pushed, rest, rfl⟩ := pushAll_cons_ok taken
    obtain ⟨middle, between, last, takenOthers, takenSecond, rfl⟩ := ih rest
    refine ⟨middle, early ++ between, last, ?_, takenSecond, by rw [List.append_assoc]⟩
    simp [pushAll, pushed, takenOthers, Except.map]

theorem pushAll_snoc_ok {tokens : List (Spanned RawToken)} {token : Spanned RawToken}
    {ready : List (Spanned Token)}
    (taken : pushAll table (tokens ++ [token]) before = (after, .ok ready)) :
    ∃ middle early late, pushAll table tokens before = (middle, .ok early) ∧
      middle.push table token = (after, .ok late) ∧ ready = early ++ late := by
  obtain ⟨middle, early, late, first, second, rfl⟩ := pushAll_append_ok taken
  obtain ⟨last, only, none, pushed, rest, rfl⟩ := pushAll_cons_ok second
  cases rest
  exact ⟨middle, early, only, first, pushed, by rw [List.append_nil]⟩

variable {tokens : List (Spanned RawToken)} {ready : List (Spanned Token)}

/-- What holds at the start and is kept by every token holds in every state that tokens lead to. -/
theorem pushAll_invariant (holds : List (Spanned RawToken) → Resolver → Prop)
    (begins : holds [] .start)
    (keeps : ∀ tokens resolver token, holds tokens resolver →
      holds (tokens ++ [token]) (resolver.push table token).1)
    (taken : pushAll table tokens .start = (resolver, .ok ready)) : holds tokens resolver := by
  induction tokens using List.reverseRecOn generalizing resolver ready with
  | nil =>
    cases taken
    exact begins
  | append_singleton tokens token ih =>
    obtain ⟨middle, early, late, before, pushed, -⟩ := pushAll_snoc_ok taken
    have kept := keeps tokens middle token (ih before)
    rwa [pushed] at kept

theorem unended_pushAll (total : table.Total)
    (taken : pushAll table tokens .start = (resolver, .ok ready)) : resolver.Unended :=
  pushAll_invariant (fun _ => Unended) (List.forall_mem_nil _)
    (fun _ _ token unended => unended.push total token) taken

/-- Every operator on the stack has let the one right below it wait. -/
def Layered (total : table.Total) (resolver : Resolver) : Prop :=
  ∀ op span below, ⟨.operator op, span⟩ :: below <:+ resolver.stack → total.Holds op below

theorem Layered.push {total : table.Total} (layered : resolver.Layered total)
    (token : Spanned RawToken) : (resolver.push table token).1.Layered total := by
  have pushed := resolver.push_cases total token
  generalize resolver.push table token = result at pushed
  generalize token.value = value at pushed
  have lower {above base : List (Spanned Waiting)} (shape : resolver.stack = above ++ base) :
      ∀ op span below, ⟨.operator op, span⟩ :: below <:+ base → total.Holds op below := by
    intro op span below inside
    exact layered op span below (inside.trans ⟨above, shape.symm⟩)
  cases pushed with
  | refuse | number | name => exact layered
  | opening =>
    intro op span below inside
    rcases List.suffix_cons_iff.mp inside with same | lies
    · cases same
    · exact layered op span below lies
  | @waits op expect pending base shape waits behind follows tight holds =>
    intro other span below inside
    rcases List.suffix_cons_iff.mp inside with same | lies
    · cases same
      exact holds
    · exact lower shape other span below lies
  | ends shape => exact lower shape
  | closing shape =>
    intro op span below inside
    exact lower shape op span below (inside.trans (List.suffix_cons _ _))
  | unopened =>
    intro op span below inside
    cases List.suffix_nil.mp inside

theorem layered_pushAll (total : table.Total)
    (taken : pushAll table tokens .start = (resolver, .ok ready)) : resolver.Layered total := by
  refine pushAll_invariant (fun _ => Layered total) ?_
    (fun _ _ token layered => layered.push token) taken
  intro op span below inside
  cases List.suffix_nil.mp inside

theorem tracks_pushAll (total : table.Total)
    (taken : pushAll table tokens .start = (resolver, .ok ready)) : Tracks tokens resolver := by
  rcases unoffending_or_firstOffence tokens with
    clear | ⟨token, cause, ⟨earlier, later, rfl, clear, offends⟩⟩
  · obtain ⟨reached, others, takenToo, tracks⟩ := pushAll_unoffending total clear
    rw [taken] at takenToo
    cases takenToo
    exact tracks
  · have refused := pushAll_offending total clear offends later
    rw [taken] at refused
    cases refused

/-- Where an operand is expected, an operator is on top exactly if the last token calls for one. -/
theorem awaits_pushAll (taken : pushAll standard tokens .start = (resolver, .ok ready))
    (mode : resolver.expect = .value) : Awaits tokens ↔ resolver.AtOperator := by
  induction tokens using List.reverseRecOn with
  | nil =>
    cases taken
    refine iff_of_false not_awaits_nil ?_
    rintro ⟨op, span, below, shape⟩
    cases shape
  | append_singleton tokens token =>
    obtain ⟨middle, early, late, before, pushed, -⟩ := pushAll_snoc_ok taken
    have tracks := tracks_pushAll standard_total before
    have cases := middle.push_cases standard_total token
    rw [pushed] at cases
    rw [awaits_append, ← tracks.expect]
    generalize token.value = value at cases
    cases cases with
    | number | name => cases mode
    | opening =>
      refine iff_of_false (by simp) ?_
      rintro ⟨op, span, below, shape⟩
      cases shape
    | @waits op expect pending base shape waits behind =>
      refine iff_of_true ⟨op, rfl, ?_⟩ ⟨op, token.span, base, rfl⟩
      cases op with
      | equals | arithmetic => exact .inl rfl
      | print => exact .inr ⟨rfl, behind.symm.trans mode⟩
      | semicolon => exact absurd rfl waits
    | ends shape holds =>
      refine iff_of_false (by simp [Operator.demand]) ?_
      rintro ⟨op, span, below, top⟩
      have early := holds op span below top
      rw [PrecedenceTable.standard_before_semicolon] at early
      cases early
    | closing shape opened =>
      rw [opened] at mode
      cases mode

end Resolver

namespace Listing

theorem takeAll_append (names : NameTable) (first second : List (Spanned Lexeme)) :
    (takeAll none names (first ++ second)).names =
        (takeAll none (takeAll none names first).names second).names ∧
      (takeAll none names (first ++ second)).tokens = (takeAll none names first).tokens ++
        (takeAll none (takeAll none names first).names second).tokens := by
  induction first generalizing names with
  | nil => exact ⟨rfl, rfl⟩
  | cons lexeme others ih =>
    obtain ⟨known, row⟩ := ih (names.take lexeme.value).names
    refine ⟨known, ?_⟩
    rw [List.cons_append, tokens_cons, tokens_cons, row]
    rfl

theorem tokens_singleton (names : NameTable) (lexeme : Spanned Lexeme) :
    (takeAll none names [lexeme]).tokens = [⟨(names.take lexeme.value).token, lexeme.span⟩] :=
  rfl

theorem takeAll_mistake (mistake : Option CalcError) (names : NameTable)
    (lexemes : List (Spanned Lexeme)) :
    (takeAll mistake names lexemes).tokens = (takeAll none names lexemes).tokens ∧
      (takeAll mistake names lexemes).names = (takeAll none names lexemes).names ∧
      (takeAll mistake names lexemes).fault = mistake.map Fault.line := by
  induction lexemes generalizing names with
  | nil => exact ⟨rfl, rfl, rfl⟩
  | cons lexeme later ih =>
    obtain ⟨tokens, known, fault⟩ := ih (names.take lexeme.value).names
    refine ⟨?_, known, fault⟩
    rw [tokens_cons, ← tokens]
    simp [takeAll, following, Listing.tokens]

theorem read_tokens (names : NameTable) (line : String) :
    (read names line).tokens = (takeAll none names (Scan.ofLine line).lexemes).tokens :=
  (takeAll_mistake _ names _).1

theorem read_fault (names : NameTable) (line : String) :
    (read names line).fault = (Scan.ofLine line).mistake.map Fault.line :=
  (takeAll_mistake _ names _).2.2

theorem length_tokens (names : NameTable) (lexemes : List (Spanned Lexeme)) :
    (takeAll none names lexemes).tokens.length = lexemes.length := by
  induction lexemes generalizing names with
  | nil => rfl
  | cons lexeme others ih => rw [tokens_cons, List.length_cons, ih, List.length_cons]

/-- Where the tokens of a row are cut in two, so are its lexemes. -/
theorem exists_split {names : NameTable} {lexemes : List (Spanned Lexeme)}
    {first second : List (Spanned RawToken)}
    (split : (takeAll none names lexemes).tokens = first ++ second) :
    ∃ early late, lexemes = early ++ late ∧ (takeAll none names early).tokens = first ∧
      (takeAll none (takeAll none names early).names late).tokens = second := by
  have parts := List.take_append_drop first.length lexemes
  refine ⟨lexemes.take first.length, lexemes.drop first.length, parts.symm, ?_⟩
  have whole := (takeAll_append names (lexemes.take first.length) (lexemes.drop first.length)).2
  rw [parts, split] at whole
  refine List.append_inj whole.symm ?_
  have length := congrArg List.length split
  rw [length_tokens, List.length_append] at length
  rw [length_tokens, List.length_take]
  omega

end Listing

namespace LineRun

variable {run : LineRun} {lexeme : Spanned Lexeme}

theorem feed_refused {after : Resolver} {fault : Fault}
    (pushed : run.resolver.push standard
      ⟨(run.names.take lexeme.value).token, lexeme.span⟩ = (after, .error fault)) :
    feed lexeme run = (Outcome.fail ⟨(run.names.take lexeme.value).names, after, run.evaluation⟩
      fault).following (run.names.take lexeme.value).events := by
  simp [feed, pushed, execute]

theorem feed_ready {after : Resolver} {ready : List (Spanned Token)}
    (pushed : run.resolver.push standard
      ⟨(run.names.take lexeme.value).token, lexeme.span⟩ = (after, .ok ready)) :
    feed lexeme run =
      ((Evaluation.performAll (run.names.take lexeme.value).names ready run.evaluation).map
        fun evaluation => ⟨(run.names.take lexeme.value).names, after, evaluation⟩).following
          (run.names.take lexeme.value).events := by
  simp [feed, pushed, execute, Evaluation.performAll]

theorem finish_waiting {pending : List (Spanned Operator)}
    (shape : run.resolver.stack = waiting pending) :
    run.finish =
      ((Outcome.runAll (Evaluation.perform (some run.names))
        (standard_total.emitAll pending run.resolver.operands).1 run.evaluation).andThen
          (Evaluation.close (some run.names))).map fun evaluation =>
            ⟨run.names, ⟨run.resolver.expect, [],
              (standard_total.emitAll pending run.resolver.operands).2⟩, evaluation⟩ := by
  simp only [finish, Resolver.finish_waiting standard_total shape, execute]
  generalize Outcome.runAll (Evaluation.perform (some run.names))
    (standard_total.emitAll pending run.resolver.operands).1 run.evaluation = executed
  obtain ⟨reached, events, _ | fault⟩ := executed <;> rfl

theorem finish_refused {pending : List (Spanned Operator)} {opening : Span}
    {base : List (Spanned Waiting)}
    (shape : run.resolver.stack = waiting pending ++ ⟨.bracket, opening⟩ :: base) :
    run.finish = .fail ⟨run.names, ⟨run.resolver.expect, base,
      (standard_total.emitAll pending run.resolver.operands).2⟩, run.evaluation⟩
        (.inLine .unclosedLeftBracket opening) := by
  simp [finish, Resolver.finish_bracketed standard_total shape, execute, Outcome.fail,
    Outcome.andThen]

/-- The run has taken in just these lexemes from the start of a line. -/
structure Reads (names : NameTable) (lexemes : List (Spanned Lexeme)) (run : LineRun) : Prop where
  known : run.names = (Listing.takeAll none names lexemes).names
  pushed : ∃ ready, Resolver.pushAll standard (Listing.takeAll none names lexemes).tokens .start =
    (run.resolver, .ok ready)

theorem reads_begin (session : Session) : session.begin.Reads session.names [] :=
  ⟨rfl, [], rfl⟩

variable {names : NameTable} {lexemes : List (Spanned Lexeme)}

theorem Reads.feed (reads : run.Reads names lexemes) (clean : (feed lexeme run).fault = none) :
    (feed lexeme run).state.Reads names (lexemes ++ [lexeme]) := by
  obtain ⟨known, ready, taken⟩ := reads
  obtain ⟨knownAfter, row⟩ := Listing.takeAll_append names lexemes [lexeme]
  rw [← known] at knownAfter row
  refine ⟨(feed_names lexeme run).trans knownAfter.symm, ?_⟩
  cases pushed : run.resolver.push standard
    ⟨(run.names.take lexeme.value).token, lexeme.span⟩ with
  | mk after result =>
    cases result with
    | error fault =>
      rw [feed_refused pushed] at clean
      cases clean
    | ok late =>
      rw [row, Listing.tokens_singleton, Resolver.pushAll_append taken, feed_ready pushed]
      exact ⟨ready ++ late, by simp [Resolver.pushAll, pushed, Except.map, Outcome.following,
        Outcome.map]⟩

theorem Reads.split (reads : run.Reads names lexemes) {whole : List (Spanned Lexeme)}
    (inside : lexemes ++ [lexeme] <+: whole) :
    ∃ later, (Listing.takeAll none names whole).tokens = (Listing.takeAll none names lexemes).tokens ++
      ⟨(run.names.take lexeme.value).token, lexeme.span⟩ :: later := by
  obtain ⟨others, rfl⟩ := inside
  rw [List.append_assoc, (Listing.takeAll_append names lexemes _).2, ← reads.known,
    List.singleton_append, Listing.tokens_cons]
  exact ⟨_, rfl⟩

theorem Reads.push_ok (reads : run.Reads names lexemes) {after : Resolver}
    {later : List (Spanned RawToken)} {ready : List (Spanned Token)}
    (taken : Resolver.pushAll standard ((Listing.takeAll none names lexemes).tokens ++
      ⟨(run.names.take lexeme.value).token, lexeme.span⟩ :: later) .start = (after, .ok ready)) :
    ∃ reached early, run.resolver.push standard
      ⟨(run.names.take lexeme.value).token, lexeme.span⟩ = (reached, .ok early) := by
  obtain ⟨others, before⟩ := reads.pushed
  obtain ⟨middle, first, second, takenFirst, takenSecond, -⟩ := Resolver.pushAll_append_ok taken
  rw [before] at takenFirst
  cases takenFirst
  obtain ⟨reached, early, late, pushed, -⟩ := Resolver.pushAll_cons_ok takenSecond
  exact ⟨reached, early, pushed⟩

theorem feedAll_cons (lexeme : Spanned Lexeme) (late : List (Spanned Lexeme))
    (mistake : Option CalcError) (run : LineRun) :
    feedAll ⟨lexeme :: late, mistake⟩ run = (feed lexeme run).andThen (feedAll ⟨late, mistake⟩) := by
  rw [feedAll, Outcome.runAll, Outcome.andThen_assoc]
  rfl

theorem feedAll_append (early late : List (Spanned Lexeme)) (mistake : Option CalcError)
    (run : LineRun) : feedAll ⟨early ++ late, mistake⟩ run =
      (Outcome.runAll feed early run).andThen (feedAll ⟨late, mistake⟩) := by
  rw [feedAll, Outcome.runAll_append, Outcome.andThen_assoc]
  rfl

end LineRun

end LineCalc
