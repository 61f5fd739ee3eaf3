import LineCalc.Excerpt
import LineCalc.Proofs.Alignment
import LineCalc.Proofs.Atomicity
import LineCalc.Proofs.Retention
import LineCalc.Proofs.Segmentation

/-!
Names without a value. A name that lies on the stack may get a value or not before it is asked for, and
only one that has got its value is put back with a wider span. So a name that still has none when it stops
the line has the place of its own word, and among the names without a value those written first lie
deepest.
-/

namespace LineCalc

open PrecedenceTable (standard standard_total)
open Spanned (collect)

/-! The names among tokens. -/

def RawToken.name? : RawToken → Option Handle
  | name handle => some handle
  | _ => none

def Token.name? : Token → Option Handle
  | name handle => some handle
  | _ => none

theorem Retained.names {tokens : List (Spanned RawToken)} {ready : List (Spanned Token)}
    {stack : List (Spanned Waiting)} (retained : Retained tokens ready stack) :
    collect Token.name? ready = collect RawToken.name? tokens := by
  have early : Token.name? = fun token => token.operand?.bind Token.name? := by
    funext token
    cases token <;> rfl
  have late : RawToken.name? = fun token => token.operand?.bind Token.name? := by
    funext token
    cases token <;> rfl
  rw [early, late, ← Spanned.collect_collect, ← Spanned.collect_collect, retained.operands]

namespace Listing

theorem names_ending (raw : Listing RawToken) :
    collect Token.name? (remaining raw.plan.ending) = [] := by
  have operators : ∀ token ∈ remaining raw.plan.ending, token.value.name? = none := by
    intro token member
    cases ending : raw.plan.ending with
    | error fault =>
      rw [ending] at member
      cases member
    | ok rest =>
      rw [ending] at member
      obtain ⟨-, resolver, -, finished⟩ := plan_ok ending
      obtain ⟨op, read⟩ := Resolver.finish_operator standard_total finished member
      rw [read]
      rfl
  refine List.filterMap_eq_nil_iff.mpr fun token member => ?_
  rw [operators token member]
  rfl

/-- The names of a line are executed in their order and with their places, as far as it is taken in. -/
theorem names_reorder (raw : Listing RawToken) :
    collect Token.name? raw.reorder.tokens <+: collect RawToken.name? raw.tokens := by
  obtain ⟨front, after, ⟨later, parts⟩, taken⟩ :=
    @Resolver.exists_taken standard raw.tokens .start
  rw [tokens_reorder, Spanned.collect_append, names_ending, List.append_nil, ← parts,
    Spanned.collect_append]
  exact ⟨_, congrArg (· ++ _) (Retained.pushAll standard_total taken).names⟩

end Listing

/-! The names on a stack that have no value. -/

/-- The handle of an entry that is a name without a value. -/
def Entry.unbound? (environment : Environment) : Entry → Option Handle
  | name handle => if environment.get? handle = none then some handle else none
  | _ => none

theorem Entry.unbound?_eq_some {environment : Environment} {entry : Entry} {handle : Handle} :
    entry.unbound? environment = some handle ↔
      entry = .name handle ∧ environment.get? handle = none := by
  cases entry with
  | name other =>
    simp only [unbound?, Option.ite_none_right_eq_some, Option.some.injEq, name.injEq]
    constructor
    · rintro ⟨unbound, rfl⟩
      exact ⟨rfl, unbound⟩
    · rintro ⟨rfl, unbound⟩
      exact ⟨unbound, rfl⟩
  | number | null => simp [unbound?]

namespace Machine

/-- The names on the stack that have no value, latest first, each with its span. -/
def unbound (machine : Machine) : List (Spanned Handle) :=
  collect (Entry.unbound? machine.environment) machine.stack

variable {naming : Naming} {machine : Machine} {token : Spanned Token}

theorem unbound_sublist {later : Machine} (inside : later.stack.Sublist machine.stack)
    (bound : ∀ handle, later.environment.get? handle = none →
      machine.environment.get? handle = none) : later.unbound.Sublist machine.unbound := by
  refine Spanned.collect_sublist (fun entry handle shown => ?_) inside
  obtain ⟨same, unbound⟩ := Entry.unbound?_eq_some.mp shown
  exact Entry.unbound?_eq_some.mpr ⟨same, bound handle unbound⟩

theorem unbound_cons {entry : Entry} {span : Span} {below : List (Spanned Entry)}
    {environment : Environment} {row : List (Spanned Handle)}
    (bound : entry.unbound? environment = none)
    (rest : (unbound ⟨below, environment⟩).Sublist row) :
    (unbound ⟨⟨entry, span⟩ :: below, environment⟩).Sublist row := by
  rwa [unbound, Spanned.collect_cons_none bound]

/-- A name without a value is there since before, or it is the token itself. -/
theorem unbound_execute (naming : Naming) (machine : Machine) (token : Spanned Token) :
    (machine.execute naming token).state.unbound.Sublist
      ((collect Token.name? [token]).reverse ++ machine.unbound) := by
  have step := machine.execute_step naming token
  generalize machine.execute naming token = executed at step
  have kept {stack : List (Spanned Entry)} (inside : stack.Sublist machine.stack) :
      (unbound ⟨stack, machine.environment⟩).Sublist
        ((collect Token.name? [token]).reverse ++ machine.unbound) :=
    List.sublist_append_of_sublist_right (unbound_sublist inside fun _ unbound => unbound)
  have assigned (handle : Handle) (value : Number) {first second : Spanned Entry}
      {below : List (Spanned Entry)} (shape : machine.stack = first :: second :: below) :
      (unbound ⟨below, machine.environment.assign handle value⟩).Sublist
        ((collect Token.name? [token]).reverse ++ machine.unbound) := by
    refine List.sublist_append_of_sublist_right (unbound_sublist ?_ fun other unbound => ?_)
    · exact shape ▸ List.drop_sublist 2 (first :: second :: below)
    · rw [Environment.get?_assign] at unbound
      split at unbound
      · cases unbound
      · exact unbound
  cases step with
  | stops _ count => exact kept (List.drop_sublist count _)
  | untold value shape => exact assigned _ value shape
  | number => exact unbound_cons rfl (kept (List.Sublist.refl machine.stack))
  | @name handle read =>
    have own : collect Token.name? [token] = [⟨handle, token.span⟩] :=
      Spanned.collect_cons_some (by rw [read]; rfl) []
    rw [own]
    by_cases held : machine.environment.get? handle = none
    · have shown : Entry.unbound? machine.environment (.name handle) = some handle := if_pos held
      have top : (machine.push ⟨.name handle, token.span⟩).unbound =
          ⟨handle, token.span⟩ :: machine.unbound := Spanned.collect_cons_some shown machine.stack
      exact top ▸ List.Sublist.refl _
    · exact unbound_cons (if_neg held) (List.sublist_cons_self _ _)
  | @calculated op right left below first second read shape =>
    exact unbound_cons rfl (kept (shape ▸ List.drop_sublist 2 (right :: left :: below)))
  | @assigned right handle place below value spelling read shape =>
    -- The target comes back with a wider span, but it has its value by then.
    have bound : Entry.unbound? (machine.environment.assign handle value) (.name handle) = none := by
      simp [Entry.unbound?, Environment.get?_assign]
    exact unbound_cons bound (assigned handle value shape)
  | printed => exact kept (List.Sublist.refl _)
  | @ended gone rest read shape =>
    exact unbound_cons rfl (kept (shape ▸ List.sublist_append_right gone rest))

/-- A name without a value that stops a machine lies on its stack and does not get a value by that. -/
theorem execute_unassigned {name : String} {span : Span} (stopped :
    (machine.execute naming token).fault = some (.inLine (.unassignedVariable name) span)) :
    ∃ handle, ⟨handle, span⟩ ∈ machine.unbound ∧ naming.spelling handle = .ok name ∧
      (machine.execute naming token).state.environment.get? handle = none := by
  have step := machine.execute_step naming token
  generalize machine.execute naming token = executed at step stopped
  cases step with
  | stops stop =>
    cases stopped
    cases stop with
    | @unassigned handle place spelling near unbound spelled =>
      refine ⟨handle, ?_, spelled, unbound⟩
      refine List.mem_filterMap.mpr ⟨_, List.mem_of_mem_take near, ?_⟩
      simp [Entry.unbound?, unbound]
  | untold | number | name | calculated | assigned | printed | ended => cases stopped

/-- An operator with two operands asks the right one for its value first. -/
theorem execute_right_unbound {op : Operator} (binary : op.demand = 2) {right : Handle}
    {place : Span} {below : List (Spanned Entry)} (shape : machine.stack = ⟨.name right, place⟩ :: below)
    (unbound : machine.environment.get? right = none) (sign : Span) :
    (machine.execute naming ⟨.operator op, sign⟩).fault = some (naming.unassigned right place) := by
  have found : valueOf naming machine.environment ⟨.name right, place⟩ =
      .error (naming.unassigned right place) := by simp only [valueOf, unbound]
  cases op with
  | equals => simp only [execute, assign, takeOperands, shape, found, Outcome.fail]
  | arithmetic op => simp only [execute, calculate, takeOperands, shape, found, Outcome.fail]
  | print | semicolon => cases binary

end Machine

namespace Evaluation

variable {names : NameTable}

/-- Behind any row of tokens, the names without a value are among those of the row and those from
before, the ones that came first lying deepest. -/
theorem unbound_performAll (tokens : List (Spanned Token)) (evaluation : Evaluation) :
    (performAll names tokens evaluation).state.machine.unbound.Sublist
      ((collect Token.name? tokens).reverse ++ evaluation.machine.unbound) := by
  induction tokens generalizing evaluation with
  | nil => exact List.Sublist.refl _
  | cons token later ih =>
    have first : (evaluation.perform (some names) token).state.machine.unbound.Sublist
        ((collect Token.name? [token]).reverse ++ evaluation.machine.unbound) :=
      evaluation.machine.unbound_execute (some names) token
    rw [← List.singleton_append, Spanned.collect_append, List.reverse_append, List.append_assoc,
      performAll_append, performAll_singleton]
    by_cases clean : (evaluation.perform (some names) token).fault = none
    · rw [Outcome.andThen, clean]
      exact (ih _).trans (List.Sublist.append_left first _)
    · rw [Outcome.andThen_stopped clean]
      exact List.sublist_append_of_sublist_right first

theorem performAll_conclude (tokens : List (Spanned Token))
    (ending : Except Fault (List (Spanned Token))) (evaluation : Evaluation) :
    (performAll names tokens evaluation).andThen (conclude names ending) =
      (performAll names (tokens ++ remaining ending) evaluation).andThen
        (conclude names (ending.map fun _ => [])) := by
  cases ending with
  | error fault =>
    rw [remaining, List.append_nil]
    rfl
  | ok rest =>
    rw [remaining, performAll_append, Outcome.andThen_assoc]
    rfl

theorem performAll_stopped {early : List (Spanned Token)} {token : Spanned Token}
    {evaluation : Evaluation} {fault : Fault} (clean : (performAll names early evaluation).fault = none)
    (stops : ((performAll names early evaluation).state.perform (some names) token).fault = some fault)
    (later : List (Spanned Token)) :
    (performAll names (early ++ token :: later) evaluation).fault = some fault := by
  have here : (performAll names (early ++ [token]) evaluation).fault = some fault := by
    rw [performAll_after clean, performAll_singleton]
    exact stops
  rw [List.append_cons, performAll_append, Outcome.andThen_stopped (by simp [here])]
  exact here

theorem executed_stopped {tokens early later : List (Spanned Token)} {token : Spanned Token}
    {evaluation : Evaluation} (row : executed names tokens evaluation = early ++ token :: later)
    (stops : ((performAll names early evaluation).state.perform (some names) token).fault ≠ none) :
    later = [] := by
  induction tokens generalizing early evaluation with
  | nil => simp [executed] at row
  | cons first others ih =>
    rw [executed] at row
    cases early with
    | nil =>
      obtain ⟨rfl, rest⟩ := List.cons.inj row
      have atOnce : (evaluation.perform (some names) first).fault ≠ none := stops
      rw [if_neg atOnce] at rest
      exact rest.symm
    | cons head early =>
      obtain ⟨rfl, rest⟩ := List.cons.inj row
      by_cases clean : (evaluation.perform (some names) first).fault = none
      · rw [if_pos clean] at rest
        refine ih rest ?_
        rwa [performAll, Outcome.runAll, Outcome.andThen, clean] at stops
      · rw [if_neg clean] at rest
        simp at rest

end Evaluation

namespace Resolver

variable {table : PrecedenceTable}

theorem batches_refused (total : table.Total) {tokens : List (Spanned RawToken)} {before : Resolver}
    {fault : Fault} (refused : (batches table tokens before).2 = .error fault) :
    ∃ cause span, fault = .inLine cause span ∧ cause.family = .structural := by
  induction tokens generalizing before with
  | nil => cases refused
  | cons token later ih =>
    cases pushed : before.push table token with
    | mk after result =>
      cases result with
      | error other =>
        simp only [batches, pushed, Except.error.injEq] at refused
        obtain ⟨cause, structural, rfl⟩ := push_refused total pushed
        exact ⟨cause, token.span, refused.symm, structural⟩
      | ok ready =>
        simp only [batches, pushed] at refused
        exact ih refused

theorem finish_refused (total : table.Total) {resolver : Resolver} {fault : Fault}
    (refused : (resolver.finish table).2 = .error fault) :
    ∃ cause span, fault = .inLine cause span ∧ cause.family = .structural := by
  rcases exists_bracket resolver.stack with ⟨pending, shape⟩ | ⟨pending, opening, base, shape⟩
  · rw [finish_waiting total shape] at refused
    cases refused
  · rw [finish_bracketed total shape] at refused
    cases refused
    exact ⟨_, _, rfl, rfl⟩

end Resolver

theorem Listing.plan_mistake {names : NameTable} {line : String} {fault : Fault}
    (refused : (read names line).plan.ending = .error fault) :
    ∃ cause span, fault = .inLine cause span ∧ cause.family ≠ .runtime := by
  have structural (found : ∃ cause span, fault = .inLine cause span ∧ cause.family = .structural) :
      ∃ cause span, fault = .inLine cause span ∧ cause.family ≠ .runtime := by
    obtain ⟨cause, span, rfl, family⟩ := found
    exact ⟨cause, span, rfl, by simp [family]⟩
  cases reached : (Resolver.batches standard (read names line).tokens .start).2 with
  | error other =>
    rw [plan_refused reached] at refused
    cases refused
    exact structural (Resolver.batches_refused standard_total reached)
  | ok resolver =>
    rw [plan_taken reached, read_fault] at refused
    cases mistake : (Scan.ofLine line).mistake with
    | some error =>
      rw [mistake] at refused
      cases refused
      exact ⟨error.cause, error.span, rfl, by simp [Scan.ofChars_mistake mistake]⟩
    | none =>
      rw [mistake] at refused
      exact structural (Resolver.finish_refused standard_total refused)

namespace Session

open Evaluation (performAll conclude)

theorem exists_performed (session : Session) (line : String) :
    let raw := Listing.read session.names line
    ∃ names, names.Extends raw.names ∧ Session.Does (session.run line) names
      ((performAll raw.names raw.reorder.tokens (.start session.environment)).andThen
        (conclude raw.names (raw.plan.ending.map fun _ => []))) := by
  intro raw
  obtain ⟨names, grows, does⟩ := session.exists_does line
  refine ⟨names, grows, ?_⟩
  rw [Listing.tokens_reorder, ← Evaluation.performAll_conclude]
  exact does.session

/-- A mistake that shows while a line is run comes from one token, or from the end of the last statement,
behind others that were executed. -/
theorem exists_stop {session : Session} {line : String} {cause : Cause} {span : Span}
    (runtime : cause.family = .runtime)
    (stopped : (session.run line).fault = some (.inLine cause span)) :
    let raw := Listing.read session.names line
    ∃ early token, early <+: raw.reorder.tokens ∧
      let executed := (performAll raw.names early (.start session.environment)).state.machine.execute
        (some raw.names) token
      executed.fault = some (.inLine cause span) ∧
        (session.run line).state.environment = executed.state.environment := by
  intro raw
  obtain ⟨names, grows, does⟩ := session.exists_performed line
  rw [does.fault] at stopped
  rw [does.environment]
  cases clean : (performAll raw.names raw.reorder.tokens (.start session.environment)).fault with
  | some fault =>
    rw [Outcome.andThen_stopped (by simp [raw, clean])] at stopped ⊢
    obtain ⟨early, token, inside, -, stops, same⟩ := Outcome.runAll_stopped stopped
    refine ⟨early, token, (List.prefix_append early [token]).trans inside, stops, ?_⟩
    exact congrArg (·.machine.environment) same
  | none =>
    simp only [Outcome.andThen, raw, clean] at stopped ⊢
    cases ending : (Listing.read session.names line).plan.ending with
    | error fault =>
      rw [ending] at stopped
      cases stopped
      obtain ⟨other, place, same, family⟩ := Listing.plan_mistake ending
      cases same
      exact absurd runtime family
    | ok rest =>
      -- A line ends its last statement as a semicolon would.
      rw [ending] at stopped
      let reached := (performAll raw.names raw.reorder.tokens (.start session.environment)).state
      exact ⟨raw.reorder.tokens, ⟨.operator .semicolon, ⟨reached.reach, reached.reach⟩⟩,
        List.prefix_rfl, stopped, rfl⟩

end Session

/-! The words of a line. -/

/-- In the line there is one whole word just at the place. -/
structure WordAt (line : String) (word : String) (place : Span) : Prop where
  lexeme : ⟨.word word, place⟩ ∈ (Scan.ofLine line).lexemes
  code : String.ofList (Excerpt.slice place.start.toNat place.stop line.toList) = word
  whole : ∃ before after, line.toList = before ++ word.toList ++ after ∧
    place = .behind before word.toList ∧ MaximalRun Text.isLetter before after word.toList

namespace Listing

variable {names : NameTable} {line : String}

theorem exists_wordAt {handle : Handle} {place : Span}
    (member : ⟨handle, place⟩ ∈ collect RawToken.name? (read names line).tokens) :
    ∃ word, (read names line).names.Stands handle word ∧ WordAt line word place := by
  obtain ⟨⟨value, span⟩, inside, same⟩ := List.mem_filterMap.mp member
  obtain ⟨other, named, shape⟩ := Option.map_eq_some_iff.mp same
  cases shape
  obtain rfl : value = .name handle := by
    cases value <;> cases named
    rfl
  obtain ⟨before, piece, after, parts, rfl, whole⟩ :=
    (segmentation_read names line).exists_piece inside
  obtain ⟨lexeme, found, denotes⟩ := (denoteAll_read names line).exists_of_mem inside
  cases whole with
  | name run stands =>
    cases denotes with
    | @word text _ standsToo =>
      obtain rfl := standsToo.unique stands
      refine ⟨_, stands, found, ?_, before, after, ?_, ?_, ?_⟩
      · rw [List.nil_append] at parts
        rw [parts]
        exact congrArg String.ofList (Excerpt.slice_middle before piece after)
      · rw [String.toList_ofList]
        exact parts
      · rw [String.toList_ofList]
      · rw [String.toList_ofList]
        exact run

theorem names_ordered (names : NameTable) (line : String) :
    (collect RawToken.name? (read names line).tokens).Pairwise
      fun first second => first.span.stop ≤ second.span.start := by
  refine (segmentation_read names line).ordered.1.filterMap _ ?_
  intro first second ahead left shownLeft right shownRight
  obtain ⟨handle, -, rfl⟩ := Option.map_eq_some_iff.mp shownLeft
  obtain ⟨other, -, rfl⟩ := Option.map_eq_some_iff.mp shownRight
  exact ahead

end Listing

namespace Session

open Evaluation (performAll)

/-- Wherever a line is stopped or goes on, the names without a value on the stack are names of the line,
each with the place where it is read, and those read first lie deepest. -/
theorem unbound_sublist (session : Session) (line : String) {early : List (Spanned Token)}
    (inside : early <+: (Listing.read session.names line).reorder.tokens) :
    (performAll (Listing.read session.names line).names early
        (.start session.environment)).state.machine.unbound.reverse.Sublist
      (collect RawToken.name? (Listing.read session.names line).tokens) := by
  have executed := @Evaluation.unbound_performAll (Listing.read session.names line).names
    early (.start session.environment)
  have start : (Evaluation.start session.environment).machine.unbound = [] := rfl
  rw [start, List.append_nil] at executed
  refine (List.reverse_reverse (collect Token.name? early) ▸ executed.reverse).trans ?_
  have ahead := (Listing.read session.names line).names_reorder
  obtain ⟨later, parts⟩ := inside
  rw [← parts, Spanned.collect_append] at ahead
  exact ((List.prefix_append _ _).trans ahead).sublist

/-- Where a handle stands for a word and has no value behind a line, the word has none. -/
theorem get?_of_unbound {session : Session} (reached : session.Reachable) {line : String}
    {handle : Handle} {word : String}
    (stands : (Listing.read session.names line).names.Stands handle word)
    (unbound : (session.run line).state.environment.get? handle = none) :
    (session.run line).state.get? word = none := by
  obtain ⟨names, grows, does⟩ := session.exists_performed line
  have distinct : (Listing.read session.names line).names.spellings.Nodup := by
    rw [Listing.names_read]
    exact Listing.nodup_takeAll reached.sound.distinct _
  rw [get?, does.names]
  cases known : names.handle? word with
  | none => rfl
  | some other =>
    have same := ((NameTable.stands_of_handle? known).mono grows).injective distinct stands
    rw [same]
    exact unbound

/-- A name without a value that stops a line is a word of it, at just the place that the fault points at;
the message quotes it, and behind the line the variable has no value. Where both operands of an operator
are names without a value, it stops the line, and the right one of the two words is the one that is
pointed at. -/
theorem run_unassigned {session : Session} (reached : session.Reachable) (line : String) :
    let raw := Listing.read session.names line
    let ran := session.run line
    let code := fun place : Span =>
      String.ofList (Excerpt.slice place.start.toNat place.stop line.toList)
    (∀ name place, ran.fault = some (.inLine (.unassignedVariable name) place) →
      WordAt line (code place) place ∧
      (Fault.inLine (.unassignedVariable name) place).message =
        "Variable " ++ Text.quote (code place) ++ " is not assigned" ∧
      ran.state.get? (code place) = none) ∧
    ∀ early op sign later right rightPlace left leftPlace below,
      Event.executions ran.events = early ++ ⟨.operator op, sign⟩ :: later → op.demand = 2 →
      let machine := (performAll raw.names early (.start session.environment)).state.machine
      machine.stack = ⟨.name right, rightPlace⟩ :: ⟨.name left, leftPlace⟩ :: below →
      machine.environment.get? right = none → machine.environment.get? left = none →
        later = [] ∧ WordAt line (code leftPlace) leftPlace ∧
        WordAt line (code rightPlace) rightPlace ∧ leftPlace.stop ≤ rightPlace.start ∧
        ran.fault = some (.inLine (.unassignedVariable (code rightPlace)) rightPlace) := by
  intro raw ran code
  constructor
  · intro name place stopped
    obtain ⟨early, token, inside, stops, environment⟩ := exists_stop rfl stopped
    obtain ⟨handle, unbound, spelled, none⟩ := Machine.execute_unassigned stops
    have read := (session.unbound_sublist line inside).subset (List.mem_reverse.mpr unbound)
    obtain ⟨word, stands, whole⟩ := Listing.exists_wordAt read
    obtain rfl : word = name := Except.ok.inj (stands.told.symm.trans spelled)
    have same : code place = word := whole.code
    rw [same]
    exact ⟨whole, rfl, get?_of_unbound reached stands (environment ▸ none)⟩
  · intro early op sign later right rightPlace left leftPlace below row binary machine shape
      rightUnbound leftUnbound
    rw [show Event.executions ran.events = _ from session.executions_run line] at row
    obtain ⟨⟨rest, parts⟩, clean⟩ := Evaluation.exists_split row
    have unbound : machine.unbound = ⟨right, rightPlace⟩ :: ⟨left, leftPlace⟩ ::
        Machine.unbound ⟨below, machine.environment⟩ := by
      rw [Machine.unbound, shape,
        Spanned.collect_cons_some (Entry.unbound?_eq_some.mpr ⟨rfl, rightUnbound⟩),
        Spanned.collect_cons_some (Entry.unbound?_eq_some.mpr ⟨rfl, leftUnbound⟩)]
      rfl
    have read : machine.unbound.reverse.Sublist (collect RawToken.name? raw.tokens) :=
      session.unbound_sublist line ⟨_, parts.symm⟩
    rw [unbound, List.reverse_cons, List.reverse_cons, List.append_assoc] at read
    have both := (List.sublist_append_right _ _).trans read
    -- The left operand lies deeper, so it was read first.
    obtain ⟨first, -, leftWord⟩ := Listing.exists_wordAt (both.subset List.mem_cons_self)
    obtain ⟨second, stands, rightWord⟩ :=
      Listing.exists_wordAt (both.subset (List.mem_cons_of_mem _ List.mem_cons_self))
    have apart := List.pairwise_pair.mp ((Listing.names_ordered session.names line).sublist both)
    have stops : (machine.execute (some raw.names) ⟨.operator op, sign⟩).fault =
        some (.inLine (.unassignedVariable second) rightPlace) := by
      rw [Machine.execute_right_unbound binary shape rightUnbound, Naming.unassigned, stands.told]
    have leftCode : code leftPlace = first := leftWord.code
    have rightCode : code rightPlace = second := rightWord.code
    rw [leftCode, rightCode]
    refine ⟨Evaluation.executed_stopped row ?_, leftWord, rightWord, apart, ?_⟩
    · exact Option.ne_none_iff_exists'.mpr ⟨_, stops⟩
    · obtain ⟨names, -, does⟩ := session.exists_performed line
      have stopped := Evaluation.performAll_stopped clean stops rest
      rw [← parts] at stopped
      rw [does.fault, Outcome.andThen_stopped (by simp [stopped])]
      exact stopped

/-- In `b=2;%(x*y)` neither `x` nor `y` has a value, and `y` is the one that is pointed at. -/
theorem run_unassigned_product :
    let ran := Session.empty.run "b=2;%(x*y)"
    ran.fault = some (.inLine (.unassignedVariable "y") ⟨8, 9⟩) ∧
      WordAt "b=2;%(x*y)" "x" ⟨6, 7⟩ ∧ WordAt "b=2;%(x*y)" "y" ⟨8, 9⟩ ∧
      ran.state.get? "y" = none := by
  intro ran
  have stopped : ran.fault = some (.inLine (.unassignedVariable "y") ⟨8, 9⟩) := by decide +kernel
  obtain ⟨points, operands⟩ := run_unassigned .empty "b=2;%(x*y)"
  obtain ⟨-, -, unbound⟩ := points "y" ⟨8, 9⟩ stopped
  let early : List (Spanned Token) := [⟨.name 0, ⟨0, 1⟩⟩, ⟨.number (.ofDecimal ⟨2, 0⟩), ⟨2, 3⟩⟩,
    ⟨.operator .equals, ⟨0, 3⟩⟩, ⟨.operator .semicolon, ⟨0, 4⟩⟩, ⟨.name 1, ⟨6, 7⟩⟩,
    ⟨.name 2, ⟨8, 9⟩⟩]
  obtain ⟨-, left, right, -, -⟩ := operands early (.arithmetic .mul) ⟨6, 9⟩ [] 2 ⟨8, 9⟩ 1 ⟨6, 7⟩
    [⟨.null, ⟨0, 4⟩⟩] (by decide +kernel) rfl (by decide +kernel) (by decide +kernel) (by decide +kernel)
  exact ⟨stopped, left, right, unbound⟩

end Session

end LineCalc
