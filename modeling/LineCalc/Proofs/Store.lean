import LineCalc.Proofs.Journal

/-!
The names and variables that a session keeps, in every state that lines can lead to. Handles and
spellings tell each other, variables stand in the order of their first assignment, and both ways to
look a variable up agree. A line only adds names and variables, and it leaves alone what it does not
name.
-/

namespace LineCalc

theorem NameTable.spellings_intern (names : NameTable) (spelling : String) :
    (names.intern spelling).1.spellings =
      if spelling ∈ names.spellings then names.spellings else names.spellings ++ [spelling] := by
  cases known : names.handle? spelling with
  | some handle =>
    obtain ⟨position, -, found⟩ := stands_of_handle? known
    rw [intern_known known, if_pos (List.mem_of_getElem? found)]
  | none =>
    have new : spelling ∉ names.spellings := by simpa [handle?] using known
    rw [intern_new known, if_neg new]

/-! Assignments by name: each one gives the name a place unless it has one. -/

section Replay

variable (named assignments : List (String × Number))

theorem names_assignName (name : String) (value : Number) :
    (assignName name value named).map Prod.fst =
      ((NameTable.mk (named.map Prod.fst)).intern name).1.spellings := by
  rw [NameTable.spellings_intern]
  induction named with
  | nil => rfl
  | cons binding later ih =>
    rw [assignName, List.map_cons]
    by_cases same : binding.1 = name
    · rw [if_pos same, List.map_cons, same, if_pos List.mem_cons_self]
    · rw [if_neg same, List.map_cons, ih]
      by_cases inside : name ∈ later.map Prod.fst
      · rw [if_pos inside, if_pos (List.mem_cons_of_mem _ inside)]
      · rw [if_neg inside, if_neg (by simpa [Ne.symm same] using inside), List.cons_append]

/-- The names of the variables are those there were, and behind them those assigned to, each where it
comes first. -/
theorem names_replay : (replay named assignments).map Prod.fst =
    ((NameTable.mk (named.map Prod.fst)).learn (assignments.map Prod.fst)).spellings := by
  induction assignments generalizing named with
  | nil => rfl
  | cons binding later ih =>
    rw [replay, List.foldl_cons, ← replay, ih, names_assignName]
    rfl

theorem lookup_binding (binding : String × Number) (name : String) :
    (binding :: named).lookup name =
      if name = binding.1 then some binding.2 else named.lookup name := by
  by_cases same : name = binding.1
  · rw [if_pos same, List.lookup_cons, same, beq_self_eq_true]
  · rw [if_neg same, List.lookup_cons, beq_false_of_ne same]

theorem lookup_assignName (name other : String) (value : Number) :
    (assignName name value named).lookup other =
      if other = name then some value else named.lookup other := by
  induction named with
  | nil => exact lookup_binding [] (name, value) other
  | cons binding later ih =>
    rw [assignName, lookup_binding]
    by_cases held : binding.1 = name
    · rw [if_pos held, lookup_binding, held]
      by_cases same : other = name
      · rw [if_pos same, if_pos same]
      · rw [if_neg same, if_neg same, if_neg same]
    · rw [if_neg held, lookup_binding, ih]
      by_cases same : other = binding.1
      · rw [if_pos same, if_pos same, if_neg fun equal => held (same.symm.trans equal)]
      · rw [if_neg same, if_neg same]

theorem lookup_replay {name : String} (absent : name ∉ assignments.map Prod.fst) :
    (replay named assignments).lookup name = named.lookup name := by
  induction assignments generalizing named with
  | nil => rfl
  | cons binding later ih =>
    rw [List.map_cons, List.mem_cons, not_or] at absent
    rw [replay, List.foldl_cons, ← replay, ih _ absent.2, lookup_assignName, if_neg absent.1]

end Replay

theorem isSome_lookup {named : List (String × Number)} {name : String} :
    (named.lookup name).isSome = true ↔ name ∈ named.map Prod.fst := by
  induction named with
  | nil => simp
  | cons binding later ih =>
    rw [lookup_binding, List.map_cons, List.mem_cons, ← ih]
    by_cases same : name = binding.1
    · simp [same]
    · simp [same]

/-! Words of a line are identifiers. -/

theorem Scan.words_ofChars (position : Nat) (text : List Char) :
    ∀ word ∈ Lexeme.words (ofChars position text).lexemes,
      ∃ identifier : Identifier, identifier.spelling = word := by
  induction position, text using ofChars.induct with
  | case1 position =>
    rw [ofChars_nil]
    exact List.forall_mem_nil _
  | case2 position c rest blank ih =>
    rw [ofChars_blank _ _ blank]
    exact ih
  | case3 position c rest _ letter word stop ih =>
    rw [ofChars_letter _ _ letter]
    have letters : ∀ d ∈ c :: rest.takeWhile Text.isLetter, Text.isLetter d = true :=
      List.forall_mem_cons.mpr ⟨letter, fun d member => List.mem_takeWhile_imp member⟩
    exact List.forall_mem_cons.mpr ⟨⟨⟨c, _, letters⟩, rfl⟩, ih⟩
  | case4 position c rest _ _ digit numeral stop decimal read ih =>
    rw [ofChars_numeral _ _ digit read]
    exact ih
  | case5 position c rest _ _ digit numeral unread =>
    rw [ofChars_unread _ _ digit unread]
    exact List.forall_mem_nil _
  | case6 position c rest _ _ _ symbol found ih =>
    obtain rfl := Symbol.character_ofChar? found
    rw [ofChars_symbol]
    exact ih
  | case7 position c rest noBlank noLetter noDigit noSymbol =>
    rw [ofChars_other _ _ noBlank noLetter noDigit noSymbol]
    exact List.forall_mem_nil _

namespace NameTable.Spells

variable {names : NameTable} {environment : Environment} {named : List (String × Number)}

theorem names_eq (spells : names.Spells environment named) :
    named.map Prod.fst = (environment.bindings.map Prod.fst).map fun handle =>
      (names.spelling? handle).getD "" := by
  obtain ⟨bindings⟩ := environment
  simp only [Spells] at spells
  simp only
  induction spells with
  | nil => rfl
  | cons head rest ih => rw [List.map_cons, List.map_cons, List.map_cons, head.1.spelling?, ih]; rfl

theorem known (spells : names.Spells environment named) {name : String}
    (member : name ∈ named.map Prod.fst) : name ∈ names.spellings := by
  obtain ⟨bindings⟩ := environment
  simp only [Spells] at spells
  induction spells with
  | nil => cases member
  | cons head rest ih =>
    rcases List.mem_cons.mp member with rfl | inside
    · obtain ⟨position, -, found⟩ := head.1
      exact List.mem_of_getElem? found
    · exact ih inside

end NameTable.Spells

namespace Session

variable {session : Session}

theorem Sound.get? (sound : session.Sound) (spelling : String) :
    session.get? spelling = session.namedVariables.lookup spelling := by
  have spells := sound.spells
  unfold Session.get?
  cases known : session.names.handle? spelling with
  | some handle =>
    exact spells.get? sound.distinct (NameTable.stands_of_handle? known)
  | none =>
    have new : spelling ∉ session.names.spellings := by simpa [NameTable.handle?] using known
    have absent : spelling ∉ session.namedVariables.map Prod.fst :=
      fun member => new (spells.known member)
    rw [← isSome_lookup, Option.not_isSome_iff_eq_none] at absent
    exact absent.symm

/-- Names and variables are in order. -/
structure Consistent (session : Session) : Prop where
  distinct : session.names.spellings.Nodup
  identifiers : ∀ spelling ∈ session.names.spellings,
    spelling ≠ "" ∧ ∀ c ∈ spelling.toList, Text.isLetter c = true
  /-- A spelling leads to its handle and back. -/
  handles : ∀ spelling ∈ session.names.spellings, ∃ handle,
    session.names.handle? spelling = some handle ∧ session.names.spelling? handle = some spelling
  /-- A handle leads to its spelling and back. -/
  spellings : ∀ handle : Handle, 0 ≤ handle → handle < session.names.size → ∃ spelling,
    session.names.spelling? handle = some spelling ∧ session.names.handle? spelling = some handle
  inUse : ∀ binding ∈ session.environment.bindings,
    0 ≤ binding.1 ∧ binding.1 < session.names.size
  once : (session.environment.bindings.map Prod.fst).Nodup
  /-- Each variable is listed in its place, under its spelling and with its value. -/
  named : List.Forall₂ (fun binding entry =>
    session.names.spelling? binding.1 = some entry.1 ∧ binding.2 = entry.2)
    session.environment.bindings session.namedVariables
  namedOnce : (session.namedVariables.map Prod.fst).Nodup
  lookup : ∀ spelling, session.get? spelling = session.namedVariables.lookup spelling

/-- What a line with these words may have done to the session before it. -/
structure Advances (words : List String) (before after : Session) : Prop where
  names : before.names.spellings <+: after.names.spellings
  bound : ∀ spelling, (before.get? spelling).isSome = true → (after.get? spelling).isSome = true
  order : before.namedVariables.map Prod.fst <+: after.namedVariables.map Prod.fst
  others : ∀ spelling, spelling ∉ words → after.get? spelling = before.get? spelling

theorem Sound.namedVariables_run (sound : session.Sound) (line : String) :
    (session.run line).state.namedVariables =
      replay session.namedVariables (Event.assignments (session.run line).events) := by
  have spells := (sound.run_tells line).records.replayed _ sound.spells
  exact spells.namedVariables (.refl _) (sound.run line).bound

theorem Sound.advances (sound : session.Sound) (line : String) :
    session.Advances (Lexeme.words (Scan.ofLine line).lexemes) (session.run line).state := by
  have tells := sound.run_tells line
  have order : session.namedVariables.map Prod.fst <+:
      (session.run line).state.namedVariables.map Prod.fst := by
    rw [sound.namedVariables_run, names_replay, NameTable.spellings_learn]
    exact List.prefix_append _ _
  refine ⟨?_, ?_, order, ?_⟩
  · rw [tells.records.spellings]
    exact List.prefix_append _ _
  · intro spelling held
    rw [sound.get?, isSome_lookup] at held
    rw [(sound.run line).get?, isSome_lookup]
    exact order.subset held
  · intro spelling unnamed
    rw [sound.get?, (sound.run line).get?, sound.namedVariables_run]
    apply lookup_replay
    intro assigned
    obtain ⟨binding, member, rfl⟩ := List.mem_map.mp assigned
    exact unnamed (tells.assigned binding member)

/-- In a sound session whose names are identifiers, and whose variables have been named once, all is in
order. -/
theorem Sound.consistent (sound : session.Sound)
    (identifiers : ∀ spelling ∈ session.names.spellings,
      ∃ identifier : Identifier, identifier.spelling = spelling)
    (namedOnce : (session.namedVariables.map Prod.fst).Nodup) : session.Consistent where
  distinct := sound.distinct
  identifiers spelling member := by
    obtain ⟨identifier, rfl⟩ := identifiers spelling member
    rw [Identifier.spelling, String.toList_ofList]
    refine ⟨?_, identifier.letters⟩
    simp
  handles spelling member := by
    obtain ⟨position, found⟩ := List.mem_iff_getElem?.mp member
    have stands : session.names.Stands position spelling := ⟨position, rfl, found⟩
    exact ⟨position, stands.handle? sound.distinct, stands.spelling?⟩
  spellings handle start stop := by
    obtain ⟨position, rfl⟩ := Int.eq_ofNat_of_zero_le start
    have inside : position < session.names.spellings.length := Int.ofNat_lt.mp stop
    have stands : session.names.Stands position session.names.spellings[position] :=
      ⟨position, rfl, List.getElem?_eq_getElem inside⟩
    exact ⟨_, stands.spelling?, stands.handle? sound.distinct⟩
  inUse binding member := by
    obtain ⟨spelling, position, same, found⟩ := sound.bound binding member
    obtain ⟨inside, -⟩ := List.getElem?_eq_some_iff.mp found
    rw [same]
    exact ⟨Int.natCast_nonneg position, Int.ofNat_lt.mpr inside⟩
  once := by
    rw [sound.spells.names_eq] at namedOnce
    exact namedOnce.of_map _
  named := List.Forall₂.imp (fun _ _ both => ⟨both.1.spelling?, both.2⟩) sound.spells
  namedOnce := namedOnce
  lookup := sound.get?

theorem Sound.identifiers_run (sound : session.Sound) (line : String)
    (identifiers : ∀ spelling ∈ session.names.spellings,
      ∃ identifier : Identifier, identifier.spelling = spelling) :
    ∀ spelling ∈ (session.run line).state.names.spellings,
      ∃ identifier : Identifier, identifier.spelling = spelling := by
  have tells := sound.run_tells line
  rw [tells.records.spellings]
  intro spelling member
  rcases List.mem_append.mp member with old | new
  · exact identifiers spelling old
  · obtain ⟨naming, inside, rfl⟩ := List.mem_map.mp new
    exact Scan.words_ofChars 0 line.toList _ (tells.named naming inside)

theorem Sound.identifiers_afterAll (sound : session.Sound) (lines : List String)
    (identifiers : ∀ spelling ∈ session.names.spellings,
      ∃ identifier : Identifier, identifier.spelling = spelling) :
    ∀ spelling ∈ (session.afterAll lines).names.spellings,
      ∃ identifier : Identifier, identifier.spelling = spelling := by
  induction lines generalizing session with
  | nil => exact identifiers
  | cons line later ih => exact ih (sound.run line) (sound.identifiers_run line identifiers)

theorem Sound.assigned_history (sound : session.Sound) (lines : List String) :
    ∀ binding ∈ Event.assignments (session.history lines),
      ∃ identifier : Identifier, identifier.spelling = binding.1 := by
  induction lines generalizing session with
  | nil => exact List.forall_mem_nil _
  | cons line later ih =>
    rw [history, Event.assignments_append]
    intro binding member
    rcases List.mem_append.mp member with here | further
    · exact Scan.words_ofChars 0 line.toList _ ((sound.run_tells line).assigned binding here)
    · exact ih (sound.run line) binding further

/-- The names of the variables are those that were assigned to, in order of first assignment. -/
theorem names_history (lines : List String) :
    (empty.afterAll lines).namedVariables.map Prod.fst =
      ((Event.assignments (empty.history lines)).map Prod.fst).eraseDups := by
  rw [namedVariables_history, names_replay, NameTable.spellings_learn]
  simp [NameTable.fresh]

theorem namedOnce_history (lines : List String) :
    ((empty.afterAll lines).namedVariables.map Prod.fst).Nodup := by
  rw [namedVariables_history, names_replay]
  exact NameTable.nodup_ofList _

/-- Whatever lines a new session has run, and however each of them has ended, names and variables are
in order, the variables are those assigned to in order of first assignment, and any further line only
adds to them and leaves alone what it does not name. -/
theorem afterAll_consistent (lines : List String) :
    (empty.afterAll lines).Consistent ∧
      (empty.afterAll lines).namedVariables.map Prod.fst =
        ((Event.assignments (empty.history lines)).map Prod.fst).eraseDups ∧
      ∀ line, (empty.afterAll lines).Advances (Lexeme.words (Scan.ofLine line).lexemes)
        ((empty.afterAll lines).run line).state := by
  have sound := sound_empty.afterAll lines
  have identifiers := sound_empty.identifiers_afterAll lines (List.forall_mem_nil _)
  exact ⟨sound.consistent identifiers (namedOnce_history lines), names_history lines, sound.advances⟩

end Session

end LineCalc
