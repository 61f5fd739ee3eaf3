import LineCalc.Proofs.Feeding

/-!
A line executes what becomes ready while the line is still being read. It does what it would do if it
were read and reordered first, token by token up to the first mistake, and executed afterwards: the
first fault in this order of stages stops it, and of the words of the line those are known then that
stand up to the token that was taken in last.
-/

namespace LineCalc

open PrecedenceTable (standard standard_total)

/-! Acts are the events that come from executing tokens. -/

/-- The event comes from executing tokens, and not from the start of a line or from a new name. -/
def Event.isAct : Event → Bool
  | running _ | interned _ _ => false
  | executing _ | assigned _ _ | printed _ => true

def Event.acts (events : List Event) : List Event :=
  events.filter isAct

namespace Event

theorem acts_append (first second : List Event) :
    acts (first ++ second) = acts first ++ acts second :=
  List.filter_append _ _

theorem filterMap_acts {α : Type} {view : Event → Option α}
    (blind : ∀ event : Event, event.isAct = false → view event = none) (events : List Event) :
    (acts events).filterMap view = events.filterMap view := by
  rw [acts, List.filterMap_filter]
  congr 1
  funext event
  cases act : event.isAct with
  | true => rfl
  | false => exact (blind event act).symm

theorem numbers_acts (events : List Event) : numbers (acts events) = numbers events := by
  refine filterMap_acts (fun event passive => ?_) events
  cases event with
  | printed value => cases passive
  | running | interned | executing | assigned => rfl

theorem output_acts (events : List Event) : output (acts events) = output events := by
  rw [output_eq, numbers_acts, ← output_eq]

end Event

theorem NameTable.acts_take (names : NameTable) (lexeme : Lexeme) :
    Event.acts (names.take lexeme).events = [] := by
  cases lexeme with
  | word text =>
    simp only [take]
    split <;> rfl
  | number | symbol => rfl

def Outcome.Acts {σ : Type} (outcome : Outcome σ) : Prop :=
  ∀ event ∈ outcome.events, event.isAct = true

namespace Outcome

variable {σ : Type} {outcome first : Outcome σ}

theorem Acts.eq (acts : outcome.Acts) : Event.acts outcome.events = outcome.events :=
  List.filter_eq_self.mpr acts

theorem Acts.andThen {second : σ → Outcome σ} (acts : first.Acts)
    (next : ∀ state, (second state).Acts) : (first.andThen second).Acts := by
  obtain ⟨state, events, _ | fault⟩ := first
  · intro event member
    rcases List.mem_append.mp member with early | late
    · exact acts event early
    · exact next state event late
  · exact acts

end Outcome

theorem Machine.acts_execute (naming : Naming) (machine : Machine) (token : Spanned Token) :
    (machine.execute naming token).Acts := by
  unfold Outcome.Acts
  cases machine.execute_act naming token with
  | nothing _ silent | untold _ _ _ _ _ silent =>
    rw [silent]
    exact List.forall_mem_nil _
  | assigned _ _ _ _ _ shown | printed _ _ _ shown =>
    rw [shown]
    exact List.forall_mem_singleton.mpr rfl

namespace Evaluation

variable {names : NameTable}

theorem acts_performAll (tokens : List (Spanned Token)) (evaluation : Evaluation) :
    (performAll names tokens evaluation).Acts := by
  induction tokens generalizing evaluation with
  | nil => exact List.forall_mem_nil _
  | cons token later ih =>
    have first : (evaluation.perform (some names) token).Acts :=
      List.forall_mem_cons.mpr ⟨rfl, evaluation.machine.acts_execute (some names) token⟩
    exact first.andThen ih

theorem acts_close (evaluation : Evaluation) : (evaluation.close (some names)).Acts :=
  evaluation.machine.acts_execute (some names)
    ⟨.operator .semicolon, ⟨evaluation.reach, evaluation.reach⟩⟩

theorem performAll_after {first : List (Spanned Token)} {evaluation : Evaluation}
    (clean : (performAll names first evaluation).fault = none) (second : List (Spanned Token)) :
    performAll names (first ++ second) evaluation =
      (performAll names second (performAll names first evaluation).state).following
        (performAll names first evaluation).events := by
  rw [performAll_append, Outcome.andThen, clean]

end Evaluation

/-! The words of a line get their handles in turn. -/

def Lexeme.words (lexemes : List (Spanned Lexeme)) : List String :=
  lexemes.filterMap fun lexeme => match lexeme.value with
    | .word text => some text
    | _ => none

/-- The names known once the words of a list have got their handles. -/
def NameTable.learn (names : NameTable) (words : List String) : NameTable :=
  words.foldl (fun names word => (names.intern word).1) names

theorem NameTable.learn_cons (names : NameTable) (lexeme : Spanned Lexeme)
    (later : List (Spanned Lexeme)) :
    names.learn (Lexeme.words (lexeme :: later)) =
      (names.take lexeme.value).names.learn (Lexeme.words later) := by
  obtain ⟨_ | _ | _, span⟩ := lexeme <;> rfl

theorem Listing.names_takeAll (names : NameTable) (lexemes : List (Spanned Lexeme)) :
    (takeAll none names lexemes).names = names.learn (Lexeme.words lexemes) := by
  induction lexemes generalizing names with
  | nil => rfl
  | cons lexeme later ih => exact (ih _).trans (names.learn_cons lexeme later).symm

/-! The stages of a line, one after the other. -/

/-- What tokens make ready, a batch for each token, up to the first token that is refused; and the
state behind them, or the fault of the refusal. -/
def Resolver.batches (table : PrecedenceTable) : List (Spanned RawToken) → Resolver →
    List (List (Spanned Token)) × Except Fault Resolver
  | [], resolver => ([], .ok resolver)
  | token :: later, resolver =>
    match resolver.push table token with
    | (_, .error fault) => ([], .error fault)
    | (after, .ok ready) =>
      let rest := batches table later after
      (ready :: rest.1, rest.2)

/-- What there is to execute of a line: a batch for each token that is taken in, and behind them the
batch of its end, or the mistake that takes the place of its end. -/
structure Plan where
  batches : List (List (Spanned Token))
  ending : Except Fault (List (Spanned Token))

/-- The plan of a line whose tokens have been read up to its end or up to a mistake. -/
def Listing.plan (listing : Listing RawToken) : Plan :=
  let pushed := Resolver.batches standard listing.tokens .start
  ⟨pushed.1, match pushed.2, listing.fault with
    | .error fault, _ => .error fault
    | .ok _, some fault => .error fault
    | .ok resolver, none => (resolver.finish standard).2⟩

theorem Listing.plan_taken {listing : Listing RawToken} {resolver : Resolver}
    (taken : (Resolver.batches standard listing.tokens .start).2 = .ok resolver) :
    listing.plan.ending = match listing.fault with
      | some fault => .error fault
      | none => (resolver.finish standard).2 := by
  simp only [plan, taken]
  cases listing.fault <;> rfl

theorem Listing.plan_refused {listing : Listing RawToken} {fault : Fault}
    (refused : (Resolver.batches standard listing.tokens .start).2 = .error fault) :
    listing.plan.ending = .error fault := by
  simp only [plan, refused]

/-- What is ready of a row has been made ready by a part of it that was taken in. -/
theorem Resolver.exists_taken {table : PrecedenceTable} (tokens : List (Spanned RawToken))
    (before : Resolver) : ∃ front after, front <+: tokens ∧
      pushAll table front before = (after, .ok (batches table tokens before).1.flatten) := by
  induction tokens generalizing before with
  | nil => exact ⟨[], before, List.nil_prefix, rfl⟩
  | cons token later ih =>
    cases pushed : before.push table token with
    | mk middle result =>
      cases result with
      | error fault => exact ⟨[], before, List.nil_prefix, by simp [batches, pushed, pushAll]⟩
      | ok ready =>
        obtain ⟨front, after, inside, taken⟩ := ih middle
        refine ⟨token :: front, after, (List.prefix_cons_inj token).mpr inside, ?_⟩
        simp only [batches, pushed, List.flatten_cons]
        exact pushAll_cons pushed taken

theorem Resolver.batches_ok {table : PrecedenceTable} {before after : Resolver}
    {tokens : List (Spanned RawToken)} (reached : (batches table tokens before).2 = .ok after) :
    pushAll table tokens before = (after, .ok (batches table tokens before).1.flatten) := by
  induction tokens generalizing before with
  | nil =>
    cases reached
    rfl
  | cons token later ih =>
    cases pushed : before.push table token with
    | mk middle result =>
      cases result with
      | error fault => simp [batches, pushed] at reached
      | ok ready =>
        simp only [batches, pushed] at reached ⊢
        exact pushAll_cons pushed (ih reached)

/-- A plan that comes to its end has no mistake behind its tokens and has taken all of them in. -/
theorem Listing.plan_ok {listing : Listing RawToken} {rest : List (Spanned Token)}
    (ended : listing.plan.ending = .ok rest) : listing.fault = none ∧
      ∃ resolver, Resolver.pushAll standard listing.tokens .start =
          (resolver, .ok listing.plan.batches.flatten) ∧
        (resolver.finish standard).2 = .ok rest := by
  cases taken : (Resolver.batches standard listing.tokens .start).2 with
  | error fault =>
    rw [plan_refused taken] at ended
    cases ended
  | ok resolver =>
    rw [plan_taken taken] at ended
    cases mistake : listing.fault with
    | some fault =>
      rw [mistake] at ended
      cases ended
    | none =>
      rw [mistake] at ended
      exact ⟨rfl, resolver, Resolver.batches_ok taken, ended⟩

/-- Executes what the end of a line makes ready and ends the last statement, or stops. -/
def Evaluation.conclude (names : NameTable) (ending : Except Fault (List (Spanned Token)))
    (evaluation : Evaluation) : Outcome Evaluation :=
  match ending with
  | .error fault => .fail evaluation fault
  | .ok rest => (performAll names rest evaluation).andThen (close (some names))

/-- The run has done what was performed, and knows these names. -/
structure LineRun.Does (names : NameTable) (fed : Outcome LineRun)
    (performed : Outcome Evaluation) : Prop where
  names : fed.state.names = names
  evaluation : fed.state.evaluation = performed.state
  fault : fed.fault = performed.fault
  acts : Event.acts fed.events = performed.events

namespace LineRun

variable {run : LineRun} {names middle final : NameTable}

namespace Does

variable {fed : Outcome LineRun} {performed : Outcome Evaluation}

theorem andThen (does : Does middle fed performed) (clean : performed.fault = none)
    {next : LineRun → Outcome LineRun} {nextPerformed : Evaluation → Outcome Evaluation}
    (rest : Does names (next fed.state) (nextPerformed performed.state)) :
    Does names (fed.andThen next) (performed.andThen nextPerformed) := by
  obtain ⟨-, -, fault, acts⟩ := does
  obtain ⟨known, evaluation, faultLater, actsLater⟩ := rest
  have fedClean := fault.trans clean
  simp only [Outcome.andThen, fedClean, clean]
  refine ⟨known, evaluation, faultLater, ?_⟩
  simp [Outcome.following, Event.acts_append, acts, actsLater]

theorem stop (does : Does names fed performed) (stops : performed.fault ≠ none)
    (next : LineRun → Outcome LineRun) : Does names (fed.andThen next) performed := by
  rw [← does.fault] at stops
  rwa [Outcome.andThen_stopped stops]

end Does

variable {lexeme : Spanned Lexeme} {after : Resolver}

/-- Taking in a lexeme does what executing its batch does, whatever names come later. -/
theorem feed_does (named : run.evaluation.machine.Named run.names) {ready : List (Spanned Token)}
    (pushed : run.resolver.push standard
      ⟨(run.names.take lexeme.value).token, lexeme.span⟩ = (after, .ok ready))
    (grows : (run.names.take lexeme.value).names.Extends final) :
    Does (run.names.take lexeme.value).names (feed lexeme run)
      (Evaluation.performAll final ready run.evaluation) := by
  have known : ∀ token ∈ ready, token.value.Known (run.names.take lexeme.value).names :=
    fun token member handle same => NameTable.stands_take
      (Resolver.push_named standard_total _ (congrArg Prod.snd pushed) member same)
  rw [feed_ready pushed, Evaluation.performAll_naming grows known
    (named.mono (run.names.extends_take lexeme.value))]
  refine ⟨rfl, rfl, rfl, ?_⟩
  simp [Outcome.following, Outcome.map, Event.acts_append, NameTable.acts_take,
    (Evaluation.acts_performAll _ _).eq]

theorem refused_does {fault : Fault}
    (pushed : run.resolver.push standard
      ⟨(run.names.take lexeme.value).token, lexeme.span⟩ = (after, .error fault)) :
    Does (run.names.take lexeme.value).names (feed lexeme run) (.fail run.evaluation fault) := by
  rw [feed_refused pushed]
  refine ⟨rfl, rfl, rfl, ?_⟩
  simp [Outcome.following, Outcome.fail, NameTable.acts_take]

/-- How far a run gets with lexemes whose tokens make these batches ready: a batch stops it, or a token
is refused behind all batches, or all tokens are taken in. -/
inductive Course (final : NameTable) (run : LineRun) (lexemes : List (Spanned Lexeme))
    (batches : List (List (Spanned Token)) × Except Fault Resolver) : Prop where
  | stopped {early : List (List (Spanned Token))} {batch : List (Spanned Token)}
      {later : List (List (Spanned Token))} (row : batches.1 = early ++ batch :: later)
      (clean : (Evaluation.performAll final early.flatten run.evaluation).fault = none)
      (stops : (Evaluation.performAll final (early ++ [batch]).flatten run.evaluation).fault ≠ none)
      (does : Does (run.names.learn (Lexeme.words (lexemes.take (early.length + 1))))
        (Outcome.runAll feed lexemes run)
        (Evaluation.performAll final (early ++ [batch]).flatten run.evaluation))
  | refused {fault : Fault} (ending : batches.2 = .error fault)
      (clean : (Evaluation.performAll final batches.1.flatten run.evaluation).fault = none)
      (does : Does (run.names.learn (Lexeme.words (lexemes.take (batches.1.length + 1))))
        (Outcome.runAll feed lexemes run)
        ((Evaluation.performAll final batches.1.flatten run.evaluation).andThen (.fail · fault)))
  | taken {resolver : Resolver} (ending : batches.2 = .ok resolver)
      (count : batches.1.length = lexemes.length)
      (clean : (Evaluation.performAll final batches.1.flatten run.evaluation).fault = none)
      (does : Does (run.names.learn (Lexeme.words lexemes)) (Outcome.runAll feed lexemes run)
        (Evaluation.performAll final batches.1.flatten run.evaluation))
      (reached : (Outcome.runAll feed lexemes run).state.resolver = resolver)

theorem Course.cons {ready : List (Spanned Token)} {later : List (Spanned Lexeme)}
    {batches : List (List (Spanned Token)) × Except Fault Resolver}
    (clean : (Evaluation.performAll final ready run.evaluation).fault = none)
    (first : Does (run.names.take lexeme.value).names (feed lexeme run)
      (Evaluation.performAll final ready run.evaluation))
    (rest : Course final (feed lexeme run).state later batches) :
    Course final run (lexeme :: later) (ready :: batches.1, batches.2) := by
  have faultAfter (tokens : List (Spanned Token)) :
      (Evaluation.performAll final (ready ++ tokens) run.evaluation).fault =
        (Evaluation.performAll final tokens (feed lexeme run).state.evaluation).fault := by
    rw [Evaluation.performAll_after clean, first.evaluation]
    rfl
  have learned (lexemes : List (Spanned Lexeme)) :
      run.names.learn (Lexeme.words (lexeme :: lexemes)) =
        (feed lexeme run).state.names.learn (Lexeme.words lexemes) := by
    rw [NameTable.learn_cons, feed_names]
  cases rest with
  | @stopped early batch others row cleanLater stops does =>
    have shape : ready :: batches.1 = (ready :: early) ++ batch :: others :=
      congrArg (List.cons ready) row
    refine .stopped shape ?_ ?_ ?_
    · exact (faultAfter _).trans cleanLater
    · rw [List.cons_append, List.flatten_cons, faultAfter]
      exact stops
    · rw [List.cons_append, List.flatten_cons, Evaluation.performAll_append, List.length_cons,
        List.take_succ_cons, learned]
      rw [first.evaluation] at does
      exact first.andThen clean does
  | refused ending cleanLater does =>
    refine .refused ending ((faultAfter _).trans cleanLater) ?_
    rw [List.flatten_cons, Evaluation.performAll_append, Outcome.andThen_assoc, List.length_cons,
      List.take_succ_cons, learned]
    rw [first.evaluation] at does
    exact first.andThen clean does
  | taken ending count cleanLater does reached =>
    refine .taken ending (congrArg (· + 1) count) ((faultAfter _).trans cleanLater) ?_ ?_
    · rw [List.flatten_cons, Evaluation.performAll_append, learned]
      rw [first.evaluation] at does
      exact first.andThen clean does
    · have fedClean := first.fault.trans clean
      rw [← reached, Outcome.runAll, Outcome.andThen, fedClean]
      rfl

/-- Lexemes that are taken in one by one do what their batches do, one after the other. -/
theorem runAll_course (named : run.evaluation.machine.Named run.names)
    (lexemes : List (Spanned Lexeme))
    (grows : (run.names.learn (Lexeme.words lexemes)).Extends final) :
    Course final run lexemes (Resolver.batches standard
      (Listing.takeAll none run.names lexemes).tokens run.resolver) := by
  -- The names at the end stay fixed, while the run and its names go on with every lexeme.
  induction lexemes generalizing run with
  | nil => exact .taken rfl rfl rfl ⟨rfl, rfl, rfl, rfl⟩ rfl
  | cons lexeme later ih =>
    rw [NameTable.learn_cons] at grows
    have growsFirst : (run.names.take lexeme.value).names.Extends final := by
      refine NameTable.Extends.trans ?_ grows
      rw [← Listing.names_takeAll]
      exact Listing.extends_takeAll _ later
    have learned : run.names.learn (Lexeme.words [lexeme]) = (run.names.take lexeme.value).names :=
      run.names.learn_cons lexeme []
    rw [Listing.tokens_cons, Resolver.batches]
    cases pushed : run.resolver.push standard
      ⟨(run.names.take lexeme.value).token, lexeme.span⟩ with
    | mk after result =>
      cases result with
      | error fault =>
        refine .refused rfl rfl ?_
        have refused := refused_does pushed
        rw [← learned] at refused
        exact refused.stop (Option.some_ne_none fault) _
      | ok ready =>
        have first := feed_does named pushed growsFirst
        by_cases clean : (Evaluation.performAll final ready run.evaluation).fault = none
        · have fed : (feed lexeme run).state.resolver = after := by
            rw [feed_ready pushed]
            rfl
          refine .cons clean first ?_
          have rest := ih (feed_lasting Machine.lasting_named named lexeme)
            (by rwa [feed_names])
          rwa [feed_names, fed] at rest
        · have row : ([] ++ [ready]).flatten = ready := List.append_nil ready
          rw [← learned] at first
          have shape : ready :: (Resolver.batches standard
              (Listing.takeAll none (run.names.take lexeme.value).names later).tokens after).1 =
              [] ++ ready :: (Resolver.batches standard
                (Listing.takeAll none (run.names.take lexeme.value).names later).tokens after).1 := rfl
          refine .stopped shape rfl ?_ ?_
          · rwa [row]
          · rw [row]
            exact first.stop clean _

theorem finish_does (run : LineRun) :
    Does run.names run.finish
      (run.evaluation.conclude run.names (run.resolver.finish standard).2) := by
  rcases exists_bracket run.resolver.stack with
    ⟨pending, shape⟩ | ⟨pending, opening, base, shape⟩
  · rw [finish_waiting shape, Resolver.finish_waiting standard_total shape]
    exact ⟨rfl, rfl, rfl, ((Evaluation.acts_performAll _ _).andThen Evaluation.acts_close).eq⟩
  · rw [finish_refused shape, Resolver.finish_bracketed standard_total shape]
    exact ⟨rfl, rfl, rfl, rfl⟩

/-- Behind its last lexeme a line does what its end does, or stops with the mistake in its place. -/
theorem Does.whole {scan : Scan} {performed : Outcome Evaluation}
    (does : Does names (Outcome.runAll feed scan.lexemes run) performed)
    (clean : performed.fault = none) :
    Does names (feedAll scan run) (performed.andThen (Evaluation.conclude names
      (match scan.mistake.map Fault.line with
        | some fault => .error fault
        | none =>
          ((Outcome.runAll feed scan.lexemes run).state.resolver.finish standard).2))) := by
  refine does.andThen clean ?_
  cases scan.mistake with
  | some error => exact ⟨does.names, does.evaluation, rfl, rfl⟩
  | none =>
    have finished := finish_does (Outcome.runAll feed scan.lexemes run).state
    rwa [does.names, does.evaluation] at finished

end LineRun

theorem Listing.read_names (names : NameTable) (line : String) :
    (read names line).names = names.learn (Lexeme.words (Scan.ofLine line).lexemes) :=
  (takeAll_mistake _ names _).2.1.trans (names_takeAll names _)

/-- The line has left these names and the variables of what was performed, and has done just that. -/
structure Session.Does (ran : Outcome Session) (names : NameTable)
    (performed : Outcome Evaluation) : Prop where
  names : ran.state.names = names
  environment : ran.state.environment = performed.state.machine.environment
  fault : ran.fault = performed.fault
  acts : Event.acts ran.events = performed.events
  output : Event.output ran.events = Event.output performed.events

theorem LineRun.Does.session {names : NameTable} {session : Session} {line : String}
    {performed : Outcome Evaluation}
    (does : Does names (feedAll (Scan.ofLine line) session.begin) performed) :
    Session.Does (session.run line) names performed := by
  obtain ⟨known, evaluation, fault, acts⟩ := does
  have acted : Event.acts (session.run line).events = performed.events := acts
  refine ⟨known, congrArg (·.machine.environment) evaluation, fault, acted, ?_⟩
  rw [← acted, Event.output_acts]

/-! A line that can be reordered does what its postfix order does. -/

theorem Resolver.batches_taken {table : PrecedenceTable} {tokens : List (Spanned RawToken)}
    {before after : Resolver} {ready : List (Spanned Token)}
    (taken : pushAll table tokens before = (after, .ok ready)) :
    (batches table tokens before).1.flatten = ready ∧ (batches table tokens before).2 = .ok after := by
  induction tokens generalizing before ready with
  | nil =>
    cases taken
    exact ⟨rfl, rfl⟩
  | cons token later ih =>
    obtain ⟨middle, early, late, pushed, rest, rfl⟩ := pushAll_cons_ok taken
    obtain ⟨flat, ending⟩ := ih rest
    simp only [batches, pushed]
    exact ⟨congrArg (early ++ ·) flat, ending⟩

theorem NameTable.learn_grows (names : NameTable) (lexemes : List (Spanned Lexeme)) (count : Nat) :
    (names.learn (Lexeme.words (lexemes.take count))).Extends (names.learn (Lexeme.words lexemes)) := by
  have parts := (Listing.takeAll_append names (lexemes.take count) (lexemes.drop count)).1
  rw [List.take_append_drop] at parts
  rw [← Listing.names_takeAll, ← Listing.names_takeAll, parts]
  exact Listing.extends_takeAll _ _

/-- The line did what the tokens do. -/
structure Stages (final : NameTable) (fed : Outcome LineRun) (staged : Outcome Evaluation) :
    Prop where
  evaluation : fed.state.evaluation = staged.state
  fault : fed.fault = staged.fault
  numbers : Event.numbers fed.events = Event.numbers staged.events
  sound : fed.state.Sound
  grows : fed.state.names.Extends final

namespace LineRun

variable {run : LineRun} {names final : NameTable}

theorem Does.stages {fed : Outcome LineRun} {staged : Outcome Evaluation}
    (does : Does names fed staged) (sound : fed.state.Sound) (grows : names.Extends final) :
    Stages final fed staged := by
  refine ⟨does.evaluation, does.fault, ?_, sound, does.names ▸ grows⟩
  rw [← Event.numbers_acts, does.acts]

/-- A line without a mistake in its cutting executes the postfix order of its tokens and then ends
its last statement. -/
theorem feedAll_stages (sound : run.Sound) {scan : Scan} (clean : scan.mistake = none)
    {after : Resolver} {ready rest : List (Spanned Token)}
    (taken : Resolver.pushAll .standard (Listing.takeAll none run.names scan.lexemes).tokens
      run.resolver = (after, .ok ready))
    (finished : (after.finish .standard).2 = .ok rest)
    (whole : (Listing.takeAll none run.names scan.lexemes).names = final) :
    Stages final (feedAll scan run)
      ((Evaluation.performAll final (ready ++ rest) run.evaluation).andThen
        (Evaluation.close (some final))) := by
  have learned := (Listing.names_takeAll run.names scan.lexemes).symm.trans whole
  obtain ⟨flat, ending⟩ := Resolver.batches_taken taken
  have course := runAll_course sound.machine.named scan.lexemes (learned ▸ .refl _ :
    (run.names.learn (Lexeme.words scan.lexemes)).Extends final)
  rw [Evaluation.performAll_append, Outcome.andThen_assoc]
  cases course with
  | @stopped early batch later row cleanEarly stops does =>
    have parts : ready = (early ++ [batch]).flatten ++ later.flatten := by
      rw [← flat, row, ← List.flatten_append, List.append_assoc, List.singleton_append]
    rw [parts, Evaluation.performAll_append, Outcome.andThen_stopped stops,
      Outcome.andThen_stopped stops]
    exact (does.stop stops _).stages (sound.feedAll scan)
      (learned ▸ run.names.learn_grows scan.lexemes _)
  | refused refused => cases ending.symm.trans refused
  | taken same count cleanRow does reached =>
    cases ending.symm.trans same
    rw [flat] at cleanRow does
    rw [learned] at does
    have ran := does.whole cleanRow
    rw [clean, reached] at ran
    simp only [Option.map_none, finished] at ran
    exact ran.stages (sound.feedAll scan) (.refl _)

end LineRun

theorem Session.course (session : Session) (line : String) :
    LineRun.Course (Listing.read session.names line).names session.begin
      (Scan.ofLine line).lexemes
      (Resolver.batches standard (Listing.read session.names line).tokens .start) := by
  have learned := Listing.read_names session.names line
  rw [Listing.read_tokens]
  have named : session.begin.evaluation.machine.Named session.begin.names := List.forall_mem_nil _
  exact LineRun.runAll_course named _ (learned ▸ .refl _)

/-- A line does what its batches do. The first batch that stops is the last one that is executed, and
then the names are known that stand up to its token, whatever mistake is further on in the line. If no
batch stops, the end of the line is executed, or the mistake that takes its place stops the line; what
a refused token or a refused end has let go is in no batch. -/
theorem run_staged (session : Session) (line : String) :
    let raw := Listing.read session.names line
    let known := fun count =>
      session.names.learn (Lexeme.words ((Scan.ofLine line).lexemes.take count))
    let perform := fun batches =>
      Evaluation.performAll raw.names (List.flatten batches) (.start session.environment)
    (∃ early batch later, raw.plan.batches = early ++ batch :: later ∧
        (perform early).fault = none ∧ (perform (early ++ [batch])).fault ≠ none ∧
        Session.Does (session.run line) (known (early.length + 1)) (perform (early ++ [batch]))) ∨
      ((perform raw.plan.batches).fault = none ∧
        Session.Does (session.run line) (known (raw.plan.batches.length + 1))
          ((perform raw.plan.batches).andThen
            (Evaluation.conclude raw.names raw.plan.ending))) := by
  intro raw known perform
  have learned : raw.names = session.names.learn (Lexeme.words (Scan.ofLine line).lexemes) :=
    Listing.read_names session.names line
  cases session.course line with
  | stopped row clean stops does =>
    exact .inl ⟨_, _, _, row, clean, stops, (does.stop stops _).session⟩
  | refused refused clean does =>
    refine .inr ⟨clean, ?_⟩
    rw [Listing.plan_refused refused]
    refine (does.stop (fun unstopped => ?_) _).session
    cases (Outcome.andThen_clean unstopped).2.1
  | taken taken count clean does reached =>
    refine .inr ⟨clean, ?_⟩
    have whole : known (raw.plan.batches.length + 1) = raw.names := by
      have enough : (Scan.ofLine line).lexemes.length ≤ raw.plan.batches.length + 1 :=
        count ▸ Nat.le_succ _
      rw [learned]
      exact congrArg (fun row => session.names.learn (Lexeme.words row)) (List.take_of_length_le enough)
    rw [show session.begin.names.learn _ = raw.names from learned.symm] at does
    rw [whole, Listing.plan_taken taken, Listing.read_fault, ← reached]
    exact (does.whole clean).session

end LineCalc
