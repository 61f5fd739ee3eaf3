import LineCalc.Proofs.Effects
import LineCalc.Proofs.Handles

/-!
The journal of a session. The events of lines, one line after the other and whether a line fails or
not, tell which names were given handles and which values were given to names, each once and in the
order of effect. So the names and the variables of a session can be told from its events alone.
-/

namespace LineCalc

open PrecedenceTable (standard standard_total)

theorem Outcome.map_runAll {σ τ α : Type} {f : σ → τ} {step : α → σ → Outcome σ}
    {stepToo : α → τ → Outcome τ} (same : ∀ x state, (step x state).map f = stepToo x (f state))
    (row : List α) (state : σ) : (runAll step row state).map f = runAll stepToo row (f state) := by
  induction row generalizing state with
  | nil => rfl
  | cons x later ih =>
    rw [runAll, runAll, ← same]
    obtain ⟨reached, events, _ | fault⟩ := step x state
    · exact congrArg (Outcome.following events) (ih reached)
    · rfl

/-! What events tell. -/

namespace Event

def assignments (events : List Event) : List (String × Number) :=
  events.filterMap fun event => match event with
    | .assigned name value => some (name, value)
    | _ => none

def namings (events : List Event) : List (String × Handle) :=
  events.filterMap fun event => match event with
    | .interned name handle => some (name, handle)
    | _ => none

theorem assignments_append (first second : List Event) :
    assignments (first ++ second) = assignments first ++ assignments second :=
  List.filterMap_append

theorem namings_append (first second : List Event) :
    namings (first ++ second) = namings first ++ namings second :=
  List.filterMap_append

theorem namings_acts {events : List Event} (acts : ∀ event ∈ events, event.isAct = true) :
    namings events = [] := by
  apply List.filterMap_eq_nil_iff.mpr
  intro event member
  have act := acts event member
  cases event with
  | running | interned => cases act
  | executing | assigned | printed => rfl

end Event

/-- The variables behind a row of assignments. -/
def replay (named assignments : List (String × Number)) : List (String × Number) :=
  assignments.foldl (fun named binding => assignName binding.1 binding.2 named) named

theorem replay_append (named first second : List (String × Number)) :
    replay named (first ++ second) = replay (replay named first) second :=
  List.foldl_append

def NameTable.numbered (names : NameTable) : List (String × Handle) :=
  names.spellings.mapIdx fun position spelling => (spelling, position)

theorem NameTable.map_numbered (names : NameTable) :
    names.numbered.map Prod.fst = names.spellings := by
  apply List.ext_getElem?
  intro position
  cases found : names.spellings[position]? <;> simp [numbered, found]

theorem NameTable.numbered_take (names : NameTable) (lexeme : Lexeme) :
    (names.take lexeme).names.numbered =
      names.numbered ++ Event.namings (names.take lexeme).events := by
  cases lexeme with
  | number | symbol => exact (List.append_nil _).symm
  | word text =>
    cases known : names.handle? text with
    | some handle =>
      simp [take, contains, intern_known known, known, Event.namings]
    | none =>
      simp [take, contains, intern_new known, known, Event.namings, numbered, size]

theorem NameTable.assignments_take (names : NameTable) (lexeme : Lexeme) :
    Event.assignments (names.take lexeme).events = [] := by
  cases lexeme with
  | word text =>
    simp only [take]
    split <;> rfl
  | number | symbol => rfl

theorem NameTable.namings_take {names : NameTable} {lexeme : Lexeme} {naming : String × Handle}
    (member : naming ∈ Event.namings (names.take lexeme).events) : lexeme = .word naming.1 := by
  cases lexeme with
  | word text =>
    simp only [take] at member
    split at member
    · cases member
    · rw [List.mem_singleton.mp member]
  | number | symbol => cases member

/-- What a line has become of its session so far. -/
def LineRun.session (run : LineRun) : Session :=
  ⟨run.names, run.evaluation.machine.environment⟩

/-- The events tell how the second session comes from the first one. -/
structure Session.Records (before : Session) (events : List Event) (after : Session) : Prop where
  numbered : after.names.numbered = before.names.numbered ++ Event.namings events
  replayed : ∀ named, before.names.Spells before.environment named →
    after.names.Spells after.environment (replay named (Event.assignments events))

namespace Session.Records

variable {before middle after : Session} {first second : List Event}

theorem refl (session : Session) : session.Records [] session :=
  ⟨(List.append_nil _).symm, fun _ spells => spells⟩

theorem trans (earlier : before.Records first middle) (later : middle.Records second after) :
    before.Records (first ++ second) after where
  numbered := by
    rw [later.numbered, earlier.numbered, Event.namings_append, List.append_assoc]
  replayed named spells := by
    rw [Event.assignments_append, replay_append]
    exact later.replayed _ (earlier.replayed named spells)

theorem spellings (records : before.Records first after) :
    after.names.spellings = before.names.spellings ++ (Event.namings first).map Prod.fst := by
  rw [← NameTable.map_numbered, records.numbered, List.map_append, NameTable.map_numbered]

end Session.Records

/-- The events tell all that becomes of the session, and speak of these words only. -/
structure Session.Tells (words : List String) (before : Session) (events : List Event)
    (after : Session) : Prop where
  records : before.Records events after
  assigned : ∀ binding ∈ Event.assignments events, binding.1 ∈ words
  named : ∀ naming ∈ Event.namings events, naming.1 ∈ words

namespace Session.Tells

variable {before middle after : Session} {words : List String} {first second : List Event}

theorem refl (session : Session) : session.Tells words [] session :=
  ⟨.refl _, List.forall_mem_nil _, List.forall_mem_nil _⟩

theorem trans (earlier : before.Tells words first middle)
    (later : middle.Tells words second after) : before.Tells words (first ++ second) after where
  records := earlier.records.trans later.records
  assigned := by
    rw [Event.assignments_append]
    exact List.forall_mem_append.mpr ⟨earlier.assigned, later.assigned⟩
  named := by
    rw [Event.namings_append]
    exact List.forall_mem_append.mpr ⟨earlier.named, later.named⟩

end Session.Tells

/-! A token tells what it assigns. -/

namespace Machine

variable {names : NameTable} {machine : Machine} {words : List String}

/-- Every name on the stack stands for one of the words. -/
def Within (words : List String) (names : NameTable) (machine : Machine) : Prop :=
  ∀ entry ∈ machine.stack, ∀ handle, entry.value = .name handle →
    ∃ spelling ∈ words, names.Stands handle spelling

/-- What a token does to the variables, and what it tells of it. -/
inductive Assigns (names : NameTable) (machine : Machine) (executed : Outcome Machine) : Prop where
  | nothing (same : executed.state.environment = machine.environment)
      (silent : Event.assignments executed.events = [])
  | binding {handle : Handle} {place : Span} {spelling : String} {value : Number}
      (member : ⟨.name handle, place⟩ ∈ machine.stack) (stands : names.Stands handle spelling)
      (bound : executed.state.environment = machine.environment.assign handle value)
      (told : Event.assignments executed.events = [(spelling, value)])

/-- A token leaves the variables alone and tells nothing, or assigns to a name on the stack and tells
just that. -/
theorem execute_assigns (named : machine.Named names) (token : Spanned Token) :
    Assigns names machine (machine.execute (some names) token) := by
  cases machine.execute_act (some names) token with
  | nothing same silent => exact .nothing same (by rw [silent]; rfl)
  | assigned value equals member spelled bound shown =>
    obtain ⟨spelling, stands⟩ := named _ member _ rfl
    obtain rfl := Except.ok.inj (stands.told.symm.trans spelled)
    exact .binding member stands bound (by rw [shown]; rfl)
  | untold value equals member unspelled =>
    obtain ⟨spelling, stands⟩ := named _ member _ rfl
    cases stands.told.symm.trans unspelled
  | printed value prints same shown => exact .nothing same (by rw [shown]; rfl)

theorem Within.mono {later : NameTable} (grows : names.Extends later)
    (within : machine.Within words names) : machine.Within words later := by
  intro entry member handle same
  obtain ⟨spelling, inside, stands⟩ := within entry member handle same
  exact ⟨spelling, inside, stands.mono grows⟩

theorem Within.execute {naming : Naming} (within : machine.Within words names)
    (token : Spanned Token)
    (stands : ∀ handle, token.value = .name handle →
      ∃ spelling ∈ words, names.Stands handle spelling) :
    (machine.execute naming token).state.Within words names := by
  intro entry member handle same
  cases execute_made member with
  | kept inside => exact within entry inside handle same
  | name read =>
    cases same
    exact stands handle read
  | target leftMember =>
    cases same
    exact within _ leftMember handle rfl
  | number | result | null => cases same

end Machine

/-! A line tells what it does. -/

namespace LineRun

variable {run : LineRun} {words : List String}

/-- The run is sound, and its machine uses names of these words only. -/
structure Tidy (words : List String) (run : LineRun) : Prop where
  sound : run.Sound
  within : run.evaluation.machine.Within words run.names

/-- The step tells what it does, and keeps what it relies on. -/
def Telling (words : List String) (holds : LineRun → Prop) (step : LineRun → Outcome LineRun) :
    Prop :=
  ∀ run, holds run → holds (step run).state ∧
    run.session.Tells words (step run).events (step run).state.session

namespace Telling

variable {holds : LineRun → Prop} {step next : LineRun → Outcome LineRun}

theorem behind (rest : Telling words holds next) {fed : Outcome LineRun} (after : holds fed.state)
    (told : run.session.Tells words fed.events fed.state.session) :
    holds (fed.andThen next).state ∧
      run.session.Tells words (fed.andThen next).events (fed.andThen next).state.session := by
  obtain ⟨reached, events, _ | fault⟩ := fed
  · obtain ⟨final, toldLater⟩ := rest reached after
    exact ⟨final, told.trans toldLater⟩
  · exact ⟨after, told⟩

theorem andThen (telling : Telling words holds step) (rest : Telling words holds next) :
    Telling words holds fun run => (step run).andThen next := by
  intro run held
  obtain ⟨after, told⟩ := telling run held
  exact rest.behind after told

theorem runAll {α : Type} {step : α → LineRun → Outcome LineRun} (row : List α)
    (telling : ∀ x ∈ row, Telling words holds (step x)) :
    Telling words holds (Outcome.runAll step row) := by
  induction row with
  | nil => exact fun run held => ⟨held, .refl _⟩
  | cons x later ih =>
    obtain ⟨first, others⟩ := List.forall_mem_cons.mp telling
    exact first.andThen (ih others)

end Telling

def perform (token : Spanned Token) (run : LineRun) : Outcome LineRun :=
  (run.evaluation.perform (some run.names) token).map fun evaluation =>
    { run with evaluation := evaluation }

theorem execute_ok (tokens : List (Spanned Token)) (run : LineRun) :
    execute (.ok tokens) run = Outcome.runAll perform tokens run := by
  have view (token : Spanned Token) (evaluation : Evaluation) :
      ((evaluation.perform (some run.names) token).map fun evaluation =>
        { run with evaluation := evaluation }) =
      perform token { run with evaluation := evaluation } := rfl
  exact Outcome.map_runAll view tokens run.evaluation

theorem telling_perform {names : NameTable} {token : Spanned Token}
    (stands : ∀ handle, token.value = .name handle →
      ∃ spelling ∈ words, names.Stands handle spelling) :
    Telling words (fun run => run.Tidy words ∧ run.names = names) (perform token) := by
  rintro run ⟨⟨⟨distinct, sound⟩, within⟩, rfl⟩
  have known : ∀ handle, token.value = .name handle →
      ∃ spelling, run.names.Stands handle spelling := by
    intro handle same
    obtain ⟨spelling, -, known⟩ := stands handle same
    exact ⟨spelling, known⟩
  refine ⟨⟨⟨⟨distinct, sound.execute token known⟩, within.execute token stands⟩, rfl⟩, ?_⟩
  have acts : (perform token run).Acts :=
    List.forall_mem_cons.mpr ⟨rfl, run.evaluation.machine.acts_execute (some run.names) token⟩
  have silent : Event.namings (perform token run).events = [] := Event.namings_acts acts
  have numbered : (perform token run).state.session.names.numbered =
      run.session.names.numbered ++ Event.namings (perform token run).events := by
    rw [silent]
    exact (List.append_nil _).symm
  have named : ∀ naming ∈ Event.namings (perform token run).events, naming.1 ∈ words := by
    rw [silent]
    exact List.forall_mem_nil _
  cases Machine.execute_assigns sound.named token with
  | nothing same silent =>
    have none : Event.assignments (perform token run).events = [] := silent
    refine ⟨⟨numbered, fun named spells => ?_⟩, ?_, named⟩
    · rw [none]
      exact (congrArg (run.names.Spells · named) same).mpr spells
    · rw [none]
      exact List.forall_mem_nil _
  | @binding handle place spelling value member stands bound told =>
    have one : Event.assignments (perform token run).events = [(spelling, value)] := told
    refine ⟨⟨numbered, fun named spells => ?_⟩, ?_, named⟩
    · rw [one]
      exact (congrArg (run.names.Spells · _) bound).mpr (spells.assign distinct stands value)
    · rw [one]
      obtain ⟨word, inside, standsToo⟩ := within _ member handle rfl
      rw [stands.unique standsToo]
      exact List.forall_mem_singleton.mpr inside

theorem Tidy.tells_execute (tidy : run.Tidy words) (ready : Except Fault (List (Spanned Token)))
    (stands : ∀ tokens, ready = .ok tokens → ∀ token ∈ tokens, ∀ handle,
      token.value = .name handle → ∃ spelling ∈ words, run.names.Stands handle spelling) :
    (execute ready run).state.Tidy words ∧
      run.session.Tells words (execute ready run).events (execute ready run).state.session := by
  cases ready with
  | error fault => exact ⟨tidy, .refl _⟩
  | ok tokens =>
    rw [execute_ok]
    have row := Telling.runAll tokens fun token member =>
      telling_perform (stands tokens rfl token member)
    obtain ⟨⟨after, -⟩, told⟩ := row run ⟨tidy, rfl⟩
    exact ⟨after, told⟩

theorem telling_feed {lexeme : Spanned Lexeme}
    (inside : ∀ text, lexeme.value = .word text → text ∈ words) :
    Telling words (Tidy words) (feed lexeme) := by
  intro run tidy
  have grows := run.names.extends_take lexeme.value
  have taken : Tidy words ⟨(run.names.take lexeme.value).names,
      (run.resolver.push standard ⟨(run.names.take lexeme.value).token, lexeme.span⟩).1,
      run.evaluation⟩ :=
    ⟨⟨NameTable.nodup_take tidy.sound.distinct _, tidy.sound.machine.mono grows⟩,
      tidy.within.mono grows⟩
  have stands : ∀ handle, (run.names.take lexeme.value).token = .name handle →
      ∃ spelling ∈ words, (run.names.take lexeme.value).names.Stands handle spelling := by
    intro handle same
    obtain ⟨_ | text | _, span⟩ := lexeme
    case word =>
      cases same
      exact ⟨text, inside text rfl, run.names.stands_intern text⟩
    all_goals cases same
  obtain ⟨after, told⟩ := taken.tells_execute
    (run.resolver.push standard ⟨(run.names.take lexeme.value).token, lexeme.span⟩).2
    fun tokens pushed token member handle named =>
      stands handle (Resolver.push_named standard_total _ pushed member named)
  have first : run.session.Tells words (run.names.take lexeme.value).events
      ⟨(run.names.take lexeme.value).names, run.evaluation.machine.environment⟩ := by
    have none := run.names.assignments_take lexeme.value
    refine ⟨⟨run.names.numbered_take lexeme.value, fun named spells => ?_⟩, ?_,
      fun naming member => ?_⟩
    · rw [none]
      exact spells.mono grows
    · rw [none]
      exact List.forall_mem_nil _
    · exact inside naming.1 (NameTable.namings_take member)
  exact ⟨after, first.trans told⟩

theorem telling_close : Telling words (Tidy words) fun run =>
    (run.evaluation.close (some run.names)).map fun evaluation =>
      { run with evaluation := evaluation } := by
  rintro run ⟨⟨distinct, sound⟩, within⟩
  let ending : Spanned Token :=
    ⟨.operator .semicolon, ⟨run.evaluation.reach, run.evaluation.reach⟩⟩
  have nameless (handle : Handle) : ending.value ≠ .name handle := nofun
  obtain ⟨same, silent⟩ :=
    run.evaluation.machine.execute_silent (some run.names) ending rfl
  refine ⟨⟨⟨distinct, sound.endStatement _⟩, within.execute ending fun handle named =>
    absurd named (nameless handle)⟩, ?_⟩
  change run.session.Tells words (run.evaluation.machine.execute (some run.names) ending).events
    ⟨run.names, (run.evaluation.machine.execute (some run.names) ending).state.environment⟩
  rw [silent]
  refine ⟨⟨(List.append_nil _).symm, fun named spells => ?_⟩, List.forall_mem_nil _,
    List.forall_mem_nil _⟩
  exact (congrArg (run.names.Spells · named) same).mpr spells

theorem telling_finish : Telling words (Tidy words) finish := by
  intro run tidy
  have before : Tidy words { run with resolver := (run.resolver.finish standard).1 } :=
    ⟨⟨tidy.sound.distinct, tidy.sound.machine⟩, tidy.within⟩
  obtain ⟨after, told⟩ := before.tells_execute (run.resolver.finish standard).2
    fun tokens finished token member handle named => by
      obtain ⟨op, same⟩ := Resolver.finish_operator standard_total finished member
      rw [named] at same
      cases same
  exact telling_close.behind after told

theorem telling_feedAll (scan : Scan) :
    Telling (Lexeme.words scan.lexemes) (Tidy (Lexeme.words scan.lexemes)) (feedAll scan) := by
  refine Telling.andThen (Telling.runAll _ fun lexeme member => telling_feed fun text same => ?_) ?_
  · exact List.mem_filterMap.mpr ⟨lexeme, member, by rw [same]⟩
  · intro run tidy
    cases scan.mistake with
    | some error => exact ⟨tidy, .refl _⟩
    | none => exact telling_finish run tidy

end LineRun

/-! So do lines, one after the other. -/

namespace Session

variable {session : Session}

/-- The events of lines that are run one after the other, each of which may fail. -/
def history (session : Session) : List String → List Event
  | [] => []
  | line :: later => (session.run line).events ++ (session.run line).state.history later

theorem history_append (session : Session) (first second : List String) :
    session.history (first ++ second) =
      session.history first ++ (session.afterAll first).history second := by
  induction first generalizing session with
  | nil => rfl
  | cons line later ih =>
    rw [List.cons_append, history, ih, history, List.append_assoc]
    rfl

/-- A line tells what it does, and that with no words but its own. -/
theorem Sound.run_tells (sound : session.Sound) (line : String) :
    session.Tells (Lexeme.words (Scan.ofLine line).lexemes) (session.run line).events
      (session.run line).state := by
  have tidy : session.begin.Tidy (Lexeme.words (Scan.ofLine line).lexemes) :=
    ⟨sound.begin, List.forall_mem_nil _⟩
  have start : session.Tells (Lexeme.words (Scan.ofLine line).lexemes) [.running line] session :=
    ⟨⟨(List.append_nil _).symm, fun _ spells => spells⟩, List.forall_mem_nil _, List.forall_mem_nil _⟩
  obtain ⟨-, told⟩ := LineRun.telling_feedAll (Scan.ofLine line) _ tidy
  exact start.trans told

theorem Sound.afterAll (sound : session.Sound) (lines : List String) :
    (session.afterAll lines).Sound := by
  induction lines generalizing session with
  | nil => exact sound
  | cons line later ih => exact ih (sound.run line)

theorem Sound.history_tells (sound : session.Sound) (lines : List String) :
    session.Records (session.history lines) (session.afterAll lines) := by
  induction lines generalizing session with
  | nil => exact .refl session
  | cons line later ih => exact (sound.run_tells line).records.trans (ih (sound.run line))

theorem sound_empty : empty.Sound :=
  ⟨List.nodup_nil, List.forall_mem_nil _⟩

/-- The names with their handles are those that the history has told. -/
theorem numbered_history (lines : List String) :
    (empty.afterAll lines).names.numbered = Event.namings (empty.history lines) :=
  (sound_empty.history_tells lines).numbered

/-- The variables are those that the assignments of the history give, replayed in their order. -/
theorem namedVariables_history (lines : List String) :
    (empty.afterAll lines).namedVariables = replay [] (Event.assignments (empty.history lines)) := by
  have spells := (sound_empty.history_tells lines).replayed [] .nil
  exact spells.namedVariables (.refl _) (sound_empty.afterAll lines).bound

end Session

end LineCalc
