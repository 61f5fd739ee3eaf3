import LineCalc.Proofs.Readback
import LineCalc.Proofs.Store

/-!
The log of a session as text. From its records alone the names, the variables and the executed tokens
can be told, for lines that fail as for lines that end well.
-/

namespace LineCalc

open PrecedenceTable (standard standard_total)

/-! Every token that is executed leaves an event, also the one that stops the line. -/

namespace Event

def executions (events : List Event) : List (Spanned Token) :=
  events.filterMap fun event => match event with
    | .executing token => some token
    | _ => none

theorem executions_append (first second : List Event) :
    executions (first ++ second) = executions first ++ executions second :=
  List.filterMap_append

theorem executions_acts (events : List Event) : executions (acts events) = executions events := by
  refine filterMap_acts (fun event passive => ?_) events
  cases event with
  | executing token => cases passive
  | running | interned | assigned | printed => rfl

end Event

/-- The token itself shows no execution; that is the event in front of it. -/
theorem Machine.executions_execute (naming : Naming) (machine : Machine) (token : Spanned Token) :
    Event.executions (machine.execute naming token).events = [] := by
  cases machine.execute_act naming token with
  | nothing _ silent | untold _ _ _ _ _ silent =>
    rw [silent]
    rfl
  | assigned _ _ _ _ _ shown | printed _ _ _ shown =>
    rw [shown]
    rfl

namespace Evaluation

variable {names : NameTable}

/-- Those of the tokens that come to be executed: all of them, or those up to the first one that
stops. -/
def executed (names : NameTable) : List (Spanned Token) → Evaluation → List (Spanned Token)
  | [], _ => []
  | token :: later, evaluation =>
    let performed := evaluation.perform (some names) token
    token :: if performed.fault = none then executed names later performed.state else []

theorem executions_performAll (tokens : List (Spanned Token)) (evaluation : Evaluation) :
    Event.executions (performAll names tokens evaluation).events =
      executed names tokens evaluation := by
  induction tokens generalizing evaluation with
  | nil => rfl
  | cons token later ih =>
    have first : Event.executions (evaluation.perform (some names) token).events = [token] :=
      congrArg (List.cons token) (evaluation.machine.executions_execute (some names) token)
    rw [performAll, Outcome.runAll, executed]
    cases stopped : (evaluation.perform (some names) token).fault with
    | some fault =>
      simp only [Outcome.andThen, stopped]
      exact first
    | none =>
      simp only [Outcome.andThen, stopped, Outcome.following, Event.executions_append, first]
      exact congrArg (List.cons token) (ih _)

end Evaluation

/-- What is ready; a fault loses everything. -/
def remaining : Except Fault (List (Spanned Token)) → List (Spanned Token)
  | .ok tokens => tokens
  | .error _ => []

theorem Outcome.executions_andThen {σ : Type} {second : σ → Outcome σ}
    (silent : ∀ state, Event.executions (second state).events = []) (first : Outcome σ) :
    Event.executions (first.andThen second).events = Event.executions first.events := by
  obtain ⟨state, events, _ | fault⟩ := first
  · simp only [andThen, following, Event.executions_append, silent, List.append_nil]
  · rfl

theorem Evaluation.executions_conclude {names : NameTable} (tokens : List (Spanned Token))
    (ending : Except Fault (List (Spanned Token))) (evaluation : Evaluation) :
    Event.executions ((performAll names tokens evaluation).andThen (conclude names ending)).events =
      executed names (tokens ++ remaining ending) evaluation := by
  cases ending with
  | error fault =>
    rw [remaining, List.append_nil, ← executions_performAll]
    exact Outcome.executions_andThen (fun _ => rfl) _
  | ok rest =>
    rw [remaining, ← executions_performAll, performAll_append]
    have silent (state : Evaluation) : Event.executions (state.close (some names)).events = [] :=
      state.machine.executions_execute (some names)
        ⟨.operator .semicolon, ⟨state.reach, state.reach⟩⟩
    refine Eq.trans ?_ (Outcome.executions_andThen silent _)
    rw [Outcome.andThen_assoc]
    rfl

namespace Listing

theorem tokens_following {α : Type} (tokens : List (Spanned α)) (known : NameTable)
    (listing : Listing α) :
    (listing.following tokens known).tokens = tokens ++ listing.tokens := by
  simp [following, Listing.tokens, Function.comp_def]

/-- Reordering gives the batches of the tokens, and behind them what the end of the line makes ready. -/
theorem tokens_reorderAll (names : NameTable) (fault : Option Fault) (resolver : Resolver)
    (items : List (Spanned RawToken × NameTable)) :
    (reorderAll names fault resolver items).tokens =
      (Resolver.batches standard (items.map Prod.fst) resolver).1.flatten ++
        match (Resolver.batches standard (items.map Prod.fst) resolver).2, fault with
        | .ok after, none => remaining (after.finish standard).2
        | _, _ => [] := by
  induction items generalizing resolver with
  | nil =>
    cases fault with
    | some fault => rfl
    | none =>
      simp only [reorderAll, List.map_nil, Resolver.batches]
      cases (resolver.finish standard).2 with
      | error fault => rfl
      | ok ready => exact (tokens_following ready names _).trans (List.append_nil ready)
  | cons item later ih =>
    obtain ⟨token, known⟩ := item
    rw [List.map_cons, Resolver.batches, reorderAll]
    cases pushed : resolver.push standard token with
    | mk after ready =>
      cases ready with
      | error fault => rfl
      | ok ready =>
        simp only [tokens_following, ih, List.flatten_cons, List.append_assoc]

theorem tokens_reorder (raw : Listing RawToken) :
    (reorder raw).tokens = raw.plan.batches.flatten ++ remaining raw.plan.ending := by
  rw [reorder, tokens_reorderAll]
  simp only [plan, tokens]
  cases (Resolver.batches standard (raw.items.map Prod.fst) .start).2 with
  | error fault => rfl
  | ok resolver => cases raw.fault <;> rfl

end Listing

theorem LineRun.Does.executions {names : NameTable} {fed : Outcome LineRun}
    {performed : Outcome Evaluation} (does : Does names fed performed) :
    Event.executions fed.events = Event.executions performed.events := by
  rw [← Event.executions_acts, does.acts]

theorem Session.exists_does (session : Session) (line : String) :
    let raw := Listing.read session.names line
    ∃ names, names.Extends raw.names ∧ LineRun.Does names (LineRun.feedAll (Scan.ofLine line) session.begin)
      ((Evaluation.performAll raw.names raw.plan.batches.flatten (.start session.environment)).andThen
        (Evaluation.conclude raw.names raw.plan.ending)) := by
  intro raw
  have grows (count : Nat) :
      (session.names.learn (Lexeme.words ((Scan.ofLine line).lexemes.take count))).Extends raw.names := by
    rw [show raw.names = _ from Listing.read_names session.names line]
    exact session.names.learn_grows _ count
  cases session.course line with
  | @stopped early batch later row clean stops does =>
    have parts : raw.plan.batches.flatten = (early ++ [batch]).flatten ++ later.flatten := by
      rw [Listing.plan, row, ← List.flatten_append, List.append_assoc, List.singleton_append]
    change (Evaluation.performAll raw.names (early ++ [batch]).flatten
      (.start session.environment)).fault ≠ none at stops
    refine ⟨_, grows (early.length + 1), ?_⟩
    rw [parts, Evaluation.performAll_append, Outcome.andThen_stopped stops,
      Outcome.andThen_stopped stops]
    exact does.stop stops _
  | refused refused clean does =>
    refine ⟨_, grows (raw.plan.batches.length + 1), ?_⟩
    rw [Listing.plan_refused refused]
    exact does.stop (fun unstopped => by cases (Outcome.andThen_clean unstopped).2.1) _
  | taken taken count clean does reached =>
    have learned : session.begin.names.learn (Lexeme.words (Scan.ofLine line).lexemes) = raw.names :=
      (Listing.read_names session.names line).symm
    rw [learned] at does
    refine ⟨raw.names, .refl _, ?_⟩
    rw [Listing.plan_taken taken, Listing.read_fault, ← reached]
    exact does.whole clean

/-- A line executes the postfix order of its tokens, up to and including the first token that stops
it. -/
theorem Session.executions_run (session : Session) (line : String) :
    Event.executions (session.run line).events =
      Evaluation.executed (Listing.read session.names line).names
        (Listing.reorder (Listing.read session.names line)).tokens (.start session.environment) := by
  obtain ⟨names, -, does⟩ := session.exists_does line
  rw [Listing.tokens_reorder, ← Evaluation.executions_conclude, ← does.executions]
  rfl

/-! Reading the log. -/

/-- What a record says behind a verb, if it starts with it. -/
def LogRecord.behind? (verb : String) (record : LogRecord) : Option String :=
  (verb.toList.isPrefixOf? record.message.toList).map String.ofList

/-- Reads a name and, behind an equals sign between blanks, the value that it has got. -/
def readAssignment? (text : String) : Option (String × Number) :=
  match text.toList.dropWhile (· != ' ') with
  | ' ' :: '=' :: ' ' :: number =>
    (Number.readLogged? number).map (String.ofList (text.toList.takeWhile (· != ' ')), ·)
  | _ => none

def LogRecord.allBehind (verb : String) (log : List LogRecord) : List String :=
  log.filterMap (behind? verb)

namespace LogRecord

variable {logger : String} {level : LogLevel}

theorem behind?_own (verb text : String) : behind? verb ⟨logger, level, verb ++ text⟩ = some text := by
  have found : verb.toList.isPrefixOf? (verb ++ text).toList = some text.toList :=
    List.isPrefixOf?_eq_some_iff_append_eq.mpr String.toList_append.symm
  rw [behind?, found, Option.map_some, String.ofList_toList]

end LogRecord

namespace Event

/-- What stands behind a verb is told by the events whose records start with it. -/
theorem allBehind_log {α : Type} {verb : String} {view : Event → Option α} {text : α → String}
    (each : ∀ event : Event, event.record?.bind (LogRecord.behind? verb) = (view event).map text)
    (events : List Event) :
    LogRecord.allBehind verb (log events) = (events.filterMap view).map text := by
  rw [LogRecord.allBehind, log, List.filterMap_filterMap, List.map_filterMap, funext each]

theorem behind_interned (events : List Event) :
    LogRecord.allBehind "Interned " (log events) = (namings events).map fun naming =>
      Text.quote naming.1 ++ " as " ++ handleText naming.2 := by
  apply allBehind_log
  intro event
  cases event with
  | interned name handle =>
    rw [record?, Option.bind_some, String.append_assoc, String.append_assoc,
      LogRecord.behind?_own, Option.map_some, String.append_assoc]
  | printed value => rfl
  | running | executing | assigned => simp [record?, LogRecord.behind?, List.isPrefixOf?]

theorem behind_executing (events : List Event) :
    LogRecord.allBehind "Executing " (log events) =
      (executions events).map (Spanned.text Token.text) := by
  apply allBehind_log
  intro event
  cases event with
  | executing token => rw [record?, Option.bind_some, LogRecord.behind?_own, Option.map_some]
  | printed value => rfl
  | running | interned | assigned => simp [record?, LogRecord.behind?, List.isPrefixOf?]

theorem behind_assigned (events : List Event) :
    LogRecord.allBehind "Assigned " (log events) = (assignments events).map fun binding =>
      binding.1 ++ " = " ++ binding.2.logged := by
  apply allBehind_log
  intro event
  cases event with
  | assigned name value =>
    rw [record?, Option.bind_some, String.append_assoc, String.append_assoc,
      LogRecord.behind?_own, Option.map_some, String.append_assoc]
  | printed value => rfl
  | running | interned | executing => simp [record?, LogRecord.behind?, List.isPrefixOf?]

end Event

theorem readAssignment?_text (identifier : Identifier) (value : Number) :
    readAssignment? (identifier.spelling ++ " = " ++ value.logged) =
      some (identifier.spelling, value) := by
  have letters : ∀ c ∈ identifier.first :: identifier.others, (c != ' ') = true := by
    intro c member
    have letter := identifier.letters c member
    rw [bne_iff_ne]
    rintro rfl
    exact absurd letter (by decide +kernel)
  have text : (identifier.spelling ++ " = " ++ value.logged).toList =
      (identifier.first :: identifier.others) ++ ' ' :: '=' :: ' ' :: value.loggedChars := by
    simp [Identifier.spelling, Number.logged]
  have stops : Stops (· != ' ') (' ' :: '=' :: ' ' :: value.loggedChars) := by
    intro c rest same
    cases same
    rfl
  obtain ⟨taken, dropped⟩ := takeWhile_run letters stops
  simp only [readAssignment?, text, taken, dropped, Number.readLogged?_loggedChars, Option.map_some]
  rfl

namespace Session

theorem assignments_log (lines : List String) :
    (LogRecord.allBehind "Assigned " (Event.log (empty.history lines))).map readAssignment? =
      (Event.assignments (empty.history lines)).map some := by
  rw [Event.behind_assigned, List.map_map]
  apply List.map_congr_left
  intro binding member
  obtain ⟨identifier, same⟩ := sound_empty.assigned_history lines binding member
  have reads := readAssignment?_text identifier binding.2
  rwa [same] at reads

/-- The log of a new session tells all of its state and all that its lines have executed, whatever the
lines are and however each of them has ended. Its assignments, read as text and replayed in their order,
give the variables; its new names are the spellings with their handles; and for each line the tokens
executed are those of its postfix order, up to and including the first one that stops it. -/
theorem log_replays (lines : List String) :
    let session := empty.afterAll lines
    let log := Event.log (empty.history lines)
    (∃ assignments,
      (LogRecord.allBehind "Assigned " log).map readAssignment? = assignments.map some ∧
        session.namedVariables = replay [] assignments) ∧
    LogRecord.allBehind "Interned " log = session.names.spellings.mapIdx (fun position spelling =>
      Text.quote spelling ++ " as " ++ handleText position) ∧
    ∀ line,
      let raw := Listing.read session.names line
      Event.log (empty.history (lines ++ [line])) = log ++ Event.log (session.run line).events ∧
      LogRecord.allBehind "Executing " (Event.log (session.run line).events) =
        (Evaluation.executed raw.names (Listing.reorder raw).tokens
          (.start session.environment)).map (Spanned.text Token.text) := by
  intro session log
  refine ⟨⟨_, assignments_log lines, namedVariables_history lines⟩, ?_, fun line => ⟨?_, ?_⟩⟩
  · rw [Event.behind_interned, ← numbered_history, NameTable.numbered]
    apply List.ext_getElem?
    intro position
    simp only [List.getElem?_map, List.getElem?_mapIdx, Option.map_map]
    rfl
  · rw [history_append, Event.log, List.filterMap_append, history, history, List.append_nil]
    rfl
  · rw [Event.behind_executing, executions_run]

end Session

end LineCalc
