import LineCalc.Proofs.Execution
import LineCalc.Proofs.Release
import LineCalc.Session
import Mathlib.Data.List.Nodup

/-!
Handles and the names that they stand for. In every state that lines can lead to, names are distinct
and each handle in use, on the stack or in the environment, stands for one of them. What a handle
stands for never changes.
-/

namespace LineCalc

/-- The handle was given out for the spelling. -/
def NameTable.Stands (table : NameTable) (handle : Handle) (spelling : String) : Prop :=
  ∃ position : Nat, handle = position ∧ table.spellings[position]? = some spelling

/-- The second table knows all that the first one knows, under the same handles. -/
def NameTable.Extends (table later : NameTable) : Prop :=
  table.spellings <+: later.spellings

namespace NameTable

variable {table later : NameTable} {handle other : Handle} {spelling : String}

theorem Stands.spelling? (stands : table.Stands handle spelling) :
    table.spelling? handle = some spelling := by
  obtain ⟨position, rfl, found⟩ := stands
  exact found

theorem Stands.told (stands : table.Stands handle spelling) :
    Naming.spelling (some table) handle = .ok spelling := by
  simp only [Naming.spelling, stands.spelling?]

theorem Stands.unique {another : String} (stands : table.Stands handle spelling)
    (standsToo : table.Stands handle another) : spelling = another :=
  Option.some.inj (stands.spelling?.symm.trans standsToo.spelling?)

theorem Stands.mono (grows : table.Extends later) (stands : table.Stands handle spelling) :
    later.Stands handle spelling := by
  obtain ⟨position, rfl, found⟩ := stands
  obtain ⟨added, whole⟩ := grows
  refine ⟨position, rfl, ?_⟩
  rw [← whole, List.getElem?_append_left (List.getElem?_eq_some_iff.mp found).1, found]

theorem Stands.injective (distinct : table.spellings.Nodup)
    (stands : table.Stands handle spelling) (standsToo : table.Stands other spelling) :
    handle = other := by
  obtain ⟨position, rfl, found⟩ := stands
  obtain ⟨another, rfl, foundToo⟩ := standsToo
  obtain ⟨inside, same⟩ := List.getElem?_eq_some_iff.mp found
  obtain ⟨insideToo, sameToo⟩ := List.getElem?_eq_some_iff.mp foundToo
  rw [(List.Nodup.getElem_inj_iff distinct).mp (same.trans sameToo.symm)]

theorem stands_of_handle? (known : table.handle? spelling = some handle) :
    table.Stands handle spelling := by
  obtain ⟨position, found, rfl⟩ := Option.map_eq_some_iff.mp known
  simp only [List.idxOf?, List.findIdx?_eq_some_iff_getElem] at found
  obtain ⟨inside, same, -⟩ := found
  exact ⟨position, rfl, List.getElem?_eq_some_iff.mpr ⟨inside, beq_iff_eq.mp same⟩⟩

theorem Stands.handle? (distinct : table.spellings.Nodup) (stands : table.Stands handle spelling) :
    table.handle? spelling = some handle := by
  cases known : table.handle? spelling with
  | some other => rw [(stands_of_handle? known).injective distinct stands]
  | none =>
    have new : spelling ∉ table.spellings := by
      simpa [NameTable.handle?] using known
    obtain ⟨position, rfl, found⟩ := stands
    exact absurd (List.mem_of_getElem? found) new

theorem Extends.refl (table : NameTable) : table.Extends table :=
  List.prefix_rfl

theorem Extends.trans {last : NameTable} (first : table.Extends later)
    (second : later.Extends last) : table.Extends last :=
  List.IsPrefix.trans first second

theorem extends_intern (table : NameTable) (spelling : String) :
    table.Extends (table.intern spelling).1 :=
  spellings_prefix_intern table spelling

theorem stands_intern (table : NameTable) (spelling : String) :
    (table.intern spelling).1.Stands (table.intern spelling).2 spelling := by
  cases known : table.handle? spelling with
  | some handle =>
    rw [intern_known known]
    exact stands_of_handle? known
  | none =>
    rw [intern_new known]
    exact ⟨table.size, rfl, by simp [size]⟩

theorem nodup_intern (distinct : table.spellings.Nodup) (spelling : String) :
    (table.intern spelling).1.spellings.Nodup := by
  cases known : table.handle? spelling with
  | some handle => rwa [intern_known known]
  | none =>
    rw [intern_new known]
    have new : spelling ∉ table.spellings := by
      simpa [handle?] using known
    refine List.nodup_append.mpr ⟨distinct, List.nodup_singleton _, fun a inside b last => ?_⟩
    rw [List.mem_singleton.mp last]
    rintro rfl
    exact new inside

theorem extends_take (table : NameTable) (lexeme : Lexeme) :
    table.Extends (table.take lexeme).names := by
  cases lexeme with
  | word text => exact table.extends_intern text
  | number | symbol => exact .refl table

theorem nodup_take (distinct : table.spellings.Nodup) (lexeme : Lexeme) :
    (table.take lexeme).names.spellings.Nodup := by
  cases lexeme with
  | word text => exact nodup_intern distinct text
  | number | symbol => exact distinct

theorem stands_take {lexeme : Lexeme} (named : (table.take lexeme).token = .name handle) :
    ∃ spelling, (table.take lexeme).names.Stands handle spelling := by
  cases lexeme with
  | word text =>
    cases named
    exact ⟨text, table.stands_intern text⟩
  | number | symbol => cases named

end NameTable

/-- Every name on the stack of a machine stands for a spelling. -/
def Machine.Named (names : NameTable) (machine : Machine) : Prop :=
  ∀ entry ∈ machine.stack, ∀ handle, entry.value = .name handle →
    ∃ spelling, names.Stands handle spelling

/-- Every handle of a machine stands for a name. -/
structure Machine.Sound (names : NameTable) (machine : Machine) : Prop where
  stack : ∀ entry ∈ machine.stack, ∀ handle, entry.value = .name handle →
    ∃ spelling, names.Stands handle spelling
  bound : ∀ binding ∈ machine.environment.bindings, ∃ spelling, names.Stands binding.1 spelling

/-- What holds of a machine goes on to hold while names become known and tokens are executed whose
names are known. -/
structure Machine.Lasting (P : NameTable → Machine → Prop) : Prop where
  mono {names later : NameTable} {machine : Machine} (grows : names.Extends later)
    (holds : P names machine) : P later machine
  execute {names : NameTable} {machine : Machine} {naming : Naming} (token : Spanned Token)
    (stands : ∀ handle, token.value = .name handle → ∃ spelling, names.Stands handle spelling)
    (holds : P names machine) : P names (machine.execute naming token).state

namespace Machine

variable {names later : NameTable} {machine : Machine} {naming : Naming}

theorem Sound.named (sound : machine.Sound names) : machine.Named names :=
  sound.stack

theorem Named.mono (grows : names.Extends later) (named : machine.Named names) :
    machine.Named later := by
  intro entry member handle same
  obtain ⟨spelling, stands⟩ := named entry member handle same
  exact ⟨spelling, stands.mono grows⟩

theorem Sound.mono (grows : names.Extends later) (sound : machine.Sound names) :
    machine.Sound later where
  stack := sound.named.mono grows
  bound binding member :=
    let ⟨spelling, stands⟩ := sound.bound binding member
    ⟨spelling, stands.mono grows⟩

theorem Sound.assigned (sound : machine.Sound names) {handle : Handle} {spelling : String}
    (stands : names.Stands handle spelling) (value : Number) {binding : Handle × Number}
    (member : binding ∈ (machine.environment.assign handle value).bindings) :
    ∃ spelling, names.Stands binding.1 spelling := by
  have place := List.mem_map_of_mem (f := Prod.fst) member
  rw [Environment.handles_assign] at place
  have held : binding.1 ∈ machine.environment.bindings.map Prod.fst ∨ binding.1 = handle := by
    split at place
    · exact .inl place
    · simpa using place
  rcases held with old | same
  · obtain ⟨other, inside, same⟩ := List.mem_map.mp old
    rw [← same]
    exact sound.bound other inside
  · rw [same]
    exact ⟨spelling, stands⟩

theorem Named.execute (named : machine.Named names) (token : Spanned Token)
    (stands : ∀ handle, token.value = .name handle → ∃ spelling, names.Stands handle spelling) :
    (machine.execute naming token).state.Named names := by
  intro entry member handle same
  cases execute_made member with
  | kept inside => exact named entry inside handle same
  | name read =>
    cases same
    exact stands handle read
  | target leftMember =>
    cases same
    exact named _ leftMember handle rfl
  | number | result | null => cases same

/-- A token whose name stands for something keeps it so for all handles. -/
theorem Sound.execute (sound : machine.Sound names) (token : Spanned Token)
    (stands : ∀ handle, token.value = .name handle → ∃ spelling, names.Stands handle spelling) :
    (machine.execute naming token).state.Sound names where
  stack := sound.named.execute token stands
  bound binding member := by
    rcases machine.execute_environment naming token with
      same | ⟨handle, place, value, inside, same⟩
    · rw [same] at member
      exact sound.bound binding member
    · rw [same] at member
      obtain ⟨spelling, known⟩ := sound.stack _ inside handle rfl
      exact sound.assigned known value member

theorem Sound.endStatement (sound : machine.Sound names) (span : Span) :
    (machine.endStatement naming span).state.Sound names :=
  sound.execute ⟨.operator .semicolon, span⟩ fun handle named => by cases named

theorem lasting_named : Lasting Named where
  mono := Named.mono
  execute token stands named := named.execute token stands

theorem lasting_sound : Lasting Sound where
  mono := Sound.mono
  execute token stands sound := sound.execute token stands

end Machine

/-- Only operators leave the stack of a resolver, so a name among the tokens that are ready is the one
just taken in. -/
theorem Resolver.push_named {table : PrecedenceTable} {resolver : Resolver}
    {ready : List (Spanned Token)} (total : table.Total) (token : Spanned RawToken)
    (taken : (resolver.push table token).2 = .ok ready) {out : Spanned Token}
    (member : out ∈ ready) {handle : Handle} (named : out.value = .name handle) :
    token.value = .name handle := by
  have pushed := resolver.push_cases total token
  generalize resolver.push table token = result at pushed taken
  generalize token.value = value at pushed
  have operator {pending : List (Spanned Operator)}
      (inside : out ∈ (total.emitAll pending resolver.operands).1) : value = .name handle := by
    obtain ⟨op, same⟩ := total.emitAll_operator inside
    rw [named] at same
    cases same
  cases pushed with
  | refuse | unopened => cases taken
  | number =>
    cases taken
    rw [List.mem_singleton.mp member] at named
    cases named
  | name handle =>
    cases taken
    rw [List.mem_singleton.mp member] at named
    cases named
    rfl
  | opening =>
    cases taken
    cases member
  | waits | closing =>
    cases taken
    exact operator member
  | ends =>
    cases taken
    rcases List.mem_append.mp member with inside | last
    · exact operator inside
    · rw [List.mem_singleton.mp last] at named
      cases named

/-! Lines keep handles standing for names, whatever they hold. -/

/-- Every handle of a running line stands for a name, and no name was given out twice. -/
structure LineRun.Sound (run : LineRun) : Prop where
  distinct : run.names.spellings.Nodup
  machine : run.evaluation.machine.Sound run.names

namespace LineRun

variable {run : LineRun}

theorem execute_names (ready : Except Fault (List (Spanned Token))) (run : LineRun) :
    (execute ready run).state.names = run.names := by
  cases ready <;> rfl

theorem feed_names (lexeme : Spanned Lexeme) (run : LineRun) :
    (feed lexeme run).state.names = (run.names.take lexeme.value).names := by
  simp only [feed, Outcome.following, execute_names]

section Lasting

variable {P : NameTable → Machine → Prop} (lasting : Machine.Lasting P)
include lasting

theorem execute_lasting {names : NameTable} {evaluation : Evaluation}
    (holds : P names evaluation.machine) (resolver : Resolver)
    (ready : Except Fault (List (Spanned Token)))
    (stands : ∀ tokens, ready = .ok tokens → ∀ token ∈ tokens, ∀ handle,
      token.value = .name handle → ∃ spelling, names.Stands handle spelling) :
    P names (execute ready ⟨names, resolver, evaluation⟩).state.evaluation.machine := by
  cases ready with
  | error fault => exact holds
  | ok tokens =>
    exact Outcome.runAll_state (P := fun other : Evaluation => P names other.machine)
      (fun token member _ before => lasting.execute token (stands tokens rfl token member) before)
      holds

theorem feed_lasting (holds : P run.names run.evaluation.machine) (lexeme : Spanned Lexeme) :
    P (feed lexeme run).state.names (feed lexeme run).state.evaluation.machine := by
  have before := lasting.mono (run.names.extends_take lexeme.value) holds
  rw [feed_names]
  apply execute_lasting lasting before
  intro tokens taken token member handle named
  exact NameTable.stands_take (Resolver.push_named PrecedenceTable.standard_total
    ⟨(run.names.take lexeme.value).token, lexeme.span⟩ taken member named)

end Lasting

theorem Sound.execute (sound : run.Sound) (ready : Except Fault (List (Spanned Token)))
    (stands : ∀ tokens, ready = .ok tokens → ∀ token ∈ tokens, ∀ handle,
      token.value = .name handle → ∃ spelling, run.names.Stands handle spelling) :
    (execute ready run).state.Sound ∧ (execute ready run).state.names = run.names := by
  have same := execute_names ready run
  exact ⟨⟨same ▸ sound.distinct,
    same ▸ execute_lasting Machine.lasting_sound sound.machine run.resolver ready stands⟩, same⟩

theorem Sound.feed (sound : run.Sound) (lexeme : Spanned Lexeme) :
    (feed lexeme run).state.Sound ∧
      run.names.Extends (feed lexeme run).state.names := by
  have same := feed_names lexeme run
  exact ⟨⟨same ▸ NameTable.nodup_take sound.distinct _,
    feed_lasting Machine.lasting_sound sound.machine lexeme⟩,
    same ▸ run.names.extends_take lexeme.value⟩

theorem Sound.finish (sound : run.Sound) :
    run.finish.state.Sound ∧ run.finish.state.names = run.names := by
  have before : Sound { run with resolver := (run.resolver.finish .standard).1 } :=
    ⟨sound.distinct, sound.machine⟩
  have emptied := before.execute (run.resolver.finish .standard).2
      fun tokens taken token member handle named => by
    obtain ⟨op, same⟩ := Resolver.finish_operator PrecedenceTable.standard_total taken member
    rw [named] at same
    cases same
  exact Outcome.andThen_state (P := fun later : LineRun => later.Sound ∧ later.names = run.names)
    emptied
    fun later ⟨held, same⟩ => ⟨⟨held.distinct, held.machine.endStatement _⟩, same⟩

theorem Sound.feedRow (sound : run.Sound) (lexemes : List (Spanned Lexeme)) :
    (Outcome.runAll LineRun.feed lexemes run).state.Sound :=
  Outcome.runAll_state (P := Sound) (fun lexeme _ _ held => (held.feed lexeme).1) sound

theorem Sound.feedAll (sound : run.Sound) (scan : Scan) : (feedAll scan run).state.Sound := by
  refine Outcome.andThen_state (P := Sound) (sound.feedRow scan.lexemes) fun later held => ?_
  cases scan.mistake with
  | some error => exact held
  | none => exact held.finish.1

end LineRun

/-- Names are distinct, and every variable has one. -/
structure Session.Sound (session : Session) : Prop where
  distinct : session.names.spellings.Nodup
  bound : ∀ binding ∈ session.environment.bindings,
    ∃ spelling, session.names.Stands binding.1 spelling

/-- The sessions that lines lead to. -/
inductive Session.Reachable : Session → Prop where
  | empty : Reachable .empty
  | run {session : Session} (reached : session.Reachable) (line : String) :
      Reachable (session.run line).state

namespace Session

variable {session : Session}

theorem Sound.begin (sound : session.Sound) : session.begin.Sound where
  distinct := sound.distinct
  machine := ⟨by simp [Session.begin, Evaluation.start], sound.bound⟩

theorem Sound.run (sound : session.Sound) (line : String) : (session.run line).state.Sound :=
  let after := sound.begin.feedAll (Scan.ofLine line)
  ⟨after.distinct, after.machine.bound⟩

theorem Reachable.sound (reached : session.Reachable) : session.Sound := by
  induction reached with
  | empty => exact ⟨List.nodup_nil, by simp [Session.empty, Environment.empty]⟩
  | run reached line ih => exact ih.run line

end Session

end LineCalc
