import LineCalc.Proofs.Alongside
import LineCalc.Proofs.Segmentation

/-!
Handles do not show. Two sessions whose variables have the same names and values, in the same order,
go on alike, whichever handles their names have got and whatever other names either of them knows.
-/

namespace LineCalc

/-- Items of two rows in the same place whose values go together. -/
def Spanned.Like {α β : Type} (like : α → β → Prop) (item : Spanned α) (other : Spanned β) : Prop :=
  item.span = other.span ∧ like item.value other.value

/-- Both handles stand for the same name, each one in its own table. -/
def Handle.Like (names others : NameTable) (handle other : Handle) : Prop :=
  ∃ spelling, names.Stands handle spelling ∧ others.Stands other spelling

/-- The entries hold the same. -/
inductive Entry.Like (names others : NameTable) : Entry → Entry → Prop where
  | number (value : Number) : Like names others (.number value) (.number value)
  | name {handle other : Handle} (like : handle.Like names others other) :
      Like names others (.name handle) (.name other)
  | null : Like names others .null .null

/-- The tokens do the same. -/
inductive Token.Like (names others : NameTable) : Token → Token → Prop where
  | number (value : Number) : Like names others (.number value) (.number value)
  | name {handle other : Handle} (like : handle.Like names others other) :
      Like names others (.name handle) (.name other)
  | operator (op : Operator) : Like names others (.operator op) (.operator op)

/-- The variables have the same names and values, in the same order. -/
def Environment.Like (names others : NameTable) (environment other : Environment) : Prop :=
  ∃ named, names.Spells environment named ∧ others.Spells other named

structure Machine.Like (names others : NameTable) (machine other : Machine) : Prop where
  stack : List.Forall₂ (Spanned.Like (Entry.Like names others)) machine.stack other.stack
  environment : machine.environment.Like names others other.environment

/-- Both steps print the same, stop with the same fault or not at all, and leave what goes together. -/
abbrev Outcome.Matches {σ τ : Type} (like : σ → τ → Prop) : Outcome σ → Outcome τ → Prop :=
  Outcome.Alike like like (· = ·)

theorem Outcome.Matches.runAll {σ τ α β : Type} {like : σ → τ → Prop} {pair : α → β → Prop}
    {step : α → σ → Outcome σ} {stepToo : β → τ → Outcome τ}
    (steps : ∀ x y state other, pair x y → like state other →
      Matches like (step x state) (stepToo y other))
    {row : List α} {rowToo : List β} (both : List.Forall₂ pair row rowToo) {state : σ} {other : τ}
    (start : like state other) :
    Matches like (Outcome.runAll step row state) (Outcome.runAll stepToo rowToo other) := by
  induction both generalizing state other with
  | nil => exact .done start rfl
  | cons first rest ih => exact (steps _ _ _ _ first start).andThen fun _ _ => ih

variable {names others : NameTable}

/-! What goes together goes on to do so when more names become known. -/

section Growth

variable {more moreToo : NameTable} (grows : names.Extends more) (growsToo : others.Extends moreToo)
include grows growsToo

theorem Handle.Like.mono {handle other : Handle} (like : handle.Like names others other) :
    handle.Like more moreToo other := by
  obtain ⟨spelling, stands, standsToo⟩ := like
  exact ⟨spelling, stands.mono grows, standsToo.mono growsToo⟩

theorem Entry.Like.mono {entry other : Entry} (like : entry.Like names others other) :
    entry.Like more moreToo other := by
  cases like with
  | number value => exact .number value
  | name like => exact .name (like.mono grows growsToo)
  | null => exact .null

theorem Machine.Like.mono {machine other : Machine} (like : machine.Like names others other) :
    machine.Like more moreToo other where
  stack := List.Forall₂.imp (fun _ _ both => ⟨both.1, both.2.mono grows growsToo⟩) like.stack
  environment :=
    let ⟨named, spells, spellsToo⟩ := like.environment
    ⟨named, spells.mono grows, spellsToo.mono growsToo⟩

end Growth

/-! Machines that hold the same do the same. -/

section Machines

variable (distinct : names.spellings.Nodup) (distinctToo : others.spellings.Nodup)
include distinct distinctToo

theorem Environment.Like.get? {environment environmentToo : Environment}
    (like : environment.Like names others environmentToo) {handle other : Handle}
    (same : handle.Like names others other) :
    environment.get? handle = environmentToo.get? other := by
  obtain ⟨named, spells, spellsToo⟩ := like
  obtain ⟨spelling, stands, standsToo⟩ := same
  rw [spells.get? distinct stands, spellsToo.get? distinctToo standsToo]

theorem Environment.Like.assign {environment environmentToo : Environment}
    (like : environment.Like names others environmentToo) {handle other : Handle}
    (same : handle.Like names others other) (value : Number) :
    (environment.assign handle value).Like names others (environmentToo.assign other value) := by
  obtain ⟨named, spells, spellsToo⟩ := like
  obtain ⟨spelling, stands, standsToo⟩ := same
  exact ⟨_, spells.assign distinct stands value, spellsToo.assign distinctToo standsToo value⟩

omit distinct distinctToo in
theorem Handle.Like.spelling {handle other : Handle} (like : handle.Like names others other) :
    ∃ spelling, Naming.spelling (some names) handle = .ok spelling ∧
      Naming.spelling (some others) other = .ok spelling := by
  obtain ⟨spelling, stands, standsToo⟩ := like
  exact ⟨spelling, stands.told, standsToo.told⟩

omit distinct distinctToo in
theorem Handle.Like.unassigned {handle other : Handle} (like : handle.Like names others other)
    (span : Span) :
    Naming.unassigned (some names) handle span = Naming.unassigned (some others) other span := by
  obtain ⟨spelling, spelled, spelledToo⟩ := like.spelling
  simp only [Naming.unassigned, spelled, spelledToo]

theorem Machine.valueOf_like {environment environmentToo : Environment}
    (like : environment.Like names others environmentToo) {entry other : Spanned Entry}
    (same : Spanned.Like (Entry.Like names others) entry other) :
    valueOf (some names) environment entry = valueOf (some others) environmentToo other := by
  obtain ⟨value, span⟩ := entry
  obtain ⟨valueToo, spanToo⟩ := other
  obtain ⟨rfl, held⟩ := same
  cases held with
  | number | null => rfl
  | name both => simp only [valueOf, like.get? distinct distinctToo both, both.unassigned]

namespace Machine

variable {machine other : Machine} (like : machine.Like names others other)
include like

omit distinct distinctToo in
theorem Like.push {entry entryToo : Spanned Entry}
    (both : Spanned.Like (Entry.Like names others) entry entryToo) :
    (machine.push entry).Like names others (other.push entryToo) :=
  ⟨.cons both like.stack, like.environment⟩

theorem Like.takeOperands (op : Operator) (span : Span)
    {use useToo : Machine → Spanned Entry → Spanned Entry → Number → Outcome Machine}
    (alike : ∀ below belowToo left leftToo right rightToo value,
      Machine.Like names others below belowToo →
      Spanned.Like (Entry.Like names others) left leftToo →
      Spanned.Like (Entry.Like names others) right rightToo →
      Outcome.Matches (Like names others) (use below left right value)
        (useToo belowToo leftToo rightToo value)) :
    Outcome.Matches (Like names others) (machine.takeOperands (some names) op span use)
      (other.takeOperands (some others) op span useToo) := by
  obtain ⟨stack, environment⟩ := machine
  obtain ⟨stackToo, environmentToo⟩ := other
  obtain ⟨pairs, environments⟩ := like
  cases pairs with
  | nil => exact .fail ⟨.nil, environments⟩ rfl rfl
  | @cons right rightToo below belowToo top rest =>
    simp only [Machine.takeOperands, valueOf_like distinct distinctToo environments top]
    cases valueOf (some others) environmentToo rightToo with
    | error fault => exact .fail ⟨rest, environments⟩ rfl rfl
    | ok value =>
      cases rest with
      | nil => exact .fail ⟨.nil, environments⟩ rfl rfl
      | cons next rest => exact alike _ _ _ _ _ _ value ⟨rest, environments⟩ next top

theorem Like.calculate (op : Arithmetic) (span : Span) :
    Outcome.Matches (Like names others) (machine.calculate (some names) op span)
      (other.calculate (some others) op span) := by
  apply like.takeOperands distinct distinctToo
  intro below belowToo left leftToo right rightToo value after leftLike rightLike
  simp only [valueOf_like distinct distinctToo after.environment leftLike]
  cases valueOf (some others) belowToo.environment leftToo with
  | error fault => exact .fail after rfl rfl
  | ok first => exact .done (after.push ⟨by rw [leftLike.1, rightLike.1], .number _⟩) rfl

theorem Like.assign (span : Span) :
    Outcome.Matches (Like names others) (machine.assign (some names) span)
      (other.assign (some others) span) := by
  apply like.takeOperands distinct distinctToo
  intro below belowToo left leftToo right rightToo value after leftLike rightLike
  obtain ⟨left, place⟩ := left
  obtain ⟨leftToo, placeToo⟩ := leftToo
  obtain ⟨rfl, held⟩ := leftLike
  cases held with
  | number | null => exact .fail after rfl rfl
  | name both =>
    have assigned : Machine.Like names others
        { below with environment := below.environment.assign _ value }
        { belowToo with environment := belowToo.environment.assign _ value } :=
      ⟨after.stack, after.environment.assign distinct distinctToo both value⟩
    obtain ⟨spelling, spelled, spelledToo⟩ := both.spelling
    simp only [spelled, spelledToo, rightLike.1]
    exact .done (assigned.push ⟨rfl, .name both⟩) rfl

theorem Like.print (span : Span) :
    Outcome.Matches (Like names others) (machine.print (some names) span)
      (other.print (some others) span) := by
  obtain ⟨stack, environment⟩ := machine
  obtain ⟨stackToo, environmentToo⟩ := other
  obtain ⟨pairs, environments⟩ := like
  cases pairs with
  | nil => exact .fail ⟨.nil, environments⟩ rfl rfl
  | @cons top topToo below belowToo both rest =>
    have looked := valueOf_like distinct distinctToo environments both
    have kept := List.Forall₂.cons both rest
    obtain ⟨top, place⟩ := top
    obtain ⟨topToo, placeToo⟩ := topToo
    obtain ⟨rfl, held⟩ := both
    cases held with
    | null => exact .fail ⟨kept, environments⟩ rfl rfl
    | number value => exact .done ⟨kept, environments⟩ rfl
    | name same =>
      simp only [Machine.print, looked]
      split
      · exact .fail ⟨kept, environments⟩ rfl rfl
      · exact .done ⟨kept, environments⟩ rfl

omit distinct distinctToo like in
theorem settle_like {stack stackToo : List (Spanned Entry)}
    (both : List.Forall₂ (Spanned.Like (Entry.Like names others)) stack stackToo) (span : Span) :
    List.Forall₂ (Spanned.Like (Entry.Like names others)) (settle span stack)
      (settle span stackToo) := by
  induction both generalizing span with
  | nil => exact .cons ⟨rfl, .null⟩ .nil
  | @cons top topToo below belowToo first rest ih =>
    have kept := List.Forall₂.cons first rest
    obtain ⟨top, place⟩ := top
    obtain ⟨topToo, placeToo⟩ := topToo
    obtain ⟨rfl, held⟩ := first
    cases held with
    | null => exact ih (span.hull place)
    | number | name => exact .cons ⟨rfl, .null⟩ kept

theorem Like.endStatement (span : Span) :
    Outcome.Matches (Like names others) (machine.endStatement (some names) span)
      (other.endStatement (some others) span) := by
  obtain ⟨stack, environment⟩ := machine
  obtain ⟨stackToo, environmentToo⟩ := other
  obtain ⟨pairs, environments⟩ := like
  cases pairs with
  | nil => exact .done ⟨settle_like .nil span, environments⟩ rfl
  | @cons top topToo below belowToo both rest =>
    obtain ⟨top, place⟩ := top
    obtain ⟨topToo, placeToo⟩ := topToo
    obtain ⟨rfl, held⟩ := both
    have settled := settle_like rest (span.hull place)
    cases held with
    | number | null => exact .done ⟨settled, environments⟩ rfl
    | name same =>
      simp only [Machine.endStatement, environments.get? distinct distinctToo same, same.unassigned]
      split
      · exact .done ⟨settled, environments⟩ rfl
      · exact .fail ⟨rest, environments⟩ rfl rfl

theorem Like.execute {token tokenToo : Spanned Token}
    (both : Spanned.Like (Token.Like names others) token tokenToo) :
    Outcome.Matches (Like names others) (machine.execute (some names) token)
      (other.execute (some others) tokenToo) := by
  obtain ⟨value, span⟩ := token
  obtain ⟨valueToo, spanToo⟩ := tokenToo
  obtain ⟨rfl, held⟩ := both
  cases held with
  | number value => exact .done (like.push ⟨rfl, .number value⟩) rfl
  | name same => exact .done (like.push ⟨rfl, .name same⟩) rfl
  | operator op =>
    cases op with
    | equals => exact like.assign distinct distinctToo span
    | arithmetic op => exact like.calculate distinct distinctToo op span
    | print => exact like.print distinct distinctToo span
    | semicolon => exact like.endStatement distinct distinctToo span

end Machine

end Machines

/-! Lines that are taken in alike. -/

structure Evaluation.Like (names others : NameTable) (evaluation other : Evaluation) : Prop where
  machine : evaluation.machine.Like names others other.machine
  reach : evaluation.reach = other.reach

/-- The lines are as far, with the same operators and brackets waiting, and hold the same. -/
structure LineRun.Like (run other : LineRun) : Prop where
  distinct : run.names.spellings.Nodup
  distinctToo : other.names.spellings.Nodup
  resolver : run.resolver = other.resolver
  evaluation : run.evaluation.Like run.names other.names other.evaluation

/-- What became ready does the same, or was lost by the same fault. -/
inductive Resolver.ReadyAlike (names others : NameTable) :
    Except Fault (List (Spanned Token)) → Except Fault (List (Spanned Token)) → Prop where
  | lost (fault : Fault) : ReadyAlike names others (.error fault) (.error fault)
  | ready {tokens tokensToo : List (Spanned Token)}
      (both : List.Forall₂ (Spanned.Like (Token.Like names others)) tokens tokensToo) :
      ReadyAlike names others (.ok tokens) (.ok tokensToo)

namespace Resolver

theorem readyAlike_refl {result : Except Fault (List (Spanned Token))}
    (nameless : ∀ tokens, result = .ok tokens → ∀ token ∈ tokens, ∀ handle,
      token.value ≠ .name handle) : ReadyAlike names others result result := by
  cases result with
  | error fault => exact .lost fault
  | ok tokens =>
    refine .ready (List.forall₂_same.mpr fun token member => ⟨rfl, ?_⟩)
    obtain ⟨value, span⟩ := token
    cases value with
    | number value => exact .number value
    | operator op => exact .operator op
    | name handle => exact absurd rfl (nameless tokens rfl _ member handle)

/-- The handle of a name has no part in what the name makes ready. -/
theorem push_denotes {table : PrecedenceTable} (total : table.Total) {lexeme : Lexeme}
    {token other : RawToken} (denotes : lexeme.Denotes names token)
    (denotesToo : lexeme.Denotes others other) (span : Span) (resolver : Resolver) :
    (resolver.push table ⟨token, span⟩).1 = (resolver.push table ⟨other, span⟩).1 ∧
      ReadyAlike names others (resolver.push table ⟨token, span⟩).2
        (resolver.push table ⟨other, span⟩).2 := by
  cases denotes with
  | number | symbol =>
    cases denotesToo
    refine ⟨rfl, readyAlike_refl fun tokens taken out member handle named => ?_⟩
    have same := push_named total _ taken member named
    cases same
  | word stands =>
    cases denotesToo with
    | word standsToo =>
      obtain ⟨expect, stack, operands⟩ := resolver
      cases expect with
      | value => exact ⟨rfl, .ready (.cons ⟨rfl, .name ⟨_, stands, standsToo⟩⟩ .nil)⟩
      | operator => exact ⟨rfl, .lost _⟩

theorem finish_alike {table : PrecedenceTable} (total : table.Total) (resolver : Resolver) :
    ReadyAlike names others (resolver.finish table).2 (resolver.finish table).2 := by
  apply readyAlike_refl
  intro tokens taken token member handle named
  obtain ⟨op, same⟩ := finish_operator total taken member
  rw [named] at same
  cases same

end Resolver

namespace Evaluation

variable {evaluation other : Evaluation} (distinct : names.spellings.Nodup)
  (distinctToo : others.spellings.Nodup) (like : evaluation.Like names others other)
include distinct distinctToo like

theorem Like.perform {token tokenToo : Spanned Token}
    (both : Spanned.Like (Token.Like names others) token tokenToo) :
    Outcome.Matches (Like names others) (evaluation.perform (some names) token)
      (other.perform (some others) tokenToo) := by
  have executed := like.machine.execute distinct distinctToo both
  have reach : max evaluation.reach token.span.stop = max other.reach tokenToo.span.stop := by
    rw [like.reach, both.1]
  have after (machine machineToo : Machine) (machines : machine.Like names others machineToo) :
      Like names others ⟨machine, max evaluation.reach token.span.stop⟩
        ⟨machineToo, max other.reach tokenToo.span.stop⟩ := ⟨machines, reach⟩
  exact (executed.following [.executing token] [.executing tokenToo] rfl).map after after

omit like in
theorem Like.performAll (like : evaluation.Like names others other)
    {tokens tokensToo : List (Spanned Token)}
    (both : List.Forall₂ (Spanned.Like (Token.Like names others)) tokens tokensToo) :
    Outcome.Matches (Like names others) (performAll names tokens evaluation)
      (performAll others tokensToo other) :=
  Outcome.Matches.runAll (fun _ _ _ _ same held => held.perform distinct distinctToo same) both like

theorem Like.close : Outcome.Matches (Like names others) (Evaluation.close (some names) evaluation)
    (Evaluation.close (some others) other) := by
  have ended := like.machine.endStatement distinct distinctToo ⟨evaluation.reach, evaluation.reach⟩
  have after (machine machineToo : Machine) (machines : machine.Like names others machineToo) :
      Like names others ⟨machine, evaluation.reach⟩ ⟨machineToo, other.reach⟩ :=
    ⟨machines, like.reach⟩
  simp only [Evaluation.close, ← like.reach] at after ⊢
  exact ended.map after after

end Evaluation

namespace LineRun

variable {run other : LineRun}

theorem Like.execute (like : run.Like other) {ready readyToo : Except Fault (List (Spanned Token))}
    (both : Resolver.ReadyAlike run.names other.names ready readyToo) :
    Outcome.Matches Like (execute ready run) (execute readyToo other) := by
  cases both with
  | lost fault => exact .fail like rfl rfl
  | ready tokens =>
    have performed := like.evaluation.performAll like.distinct like.distinctToo tokens
    have after (evaluation evaluationToo : Evaluation)
        (held : evaluation.Like run.names other.names evaluationToo) :
        Like { run with evaluation := evaluation } { other with evaluation := evaluationToo } :=
      ⟨like.distinct, like.distinctToo, like.resolver, held⟩
    exact performed.map after after

theorem Like.feed (like : run.Like other) (lexeme : Spanned Lexeme) :
    Outcome.Matches Like (feed lexeme run) (feed lexeme other) := by
  obtain ⟨names, resolver, evaluation⟩ := run
  obtain ⟨others, resolverToo, evaluationToo⟩ := other
  obtain ⟨distinct, distinctToo, same, held⟩ := like
  simp only at same distinct distinctToo held
  subst same
  obtain ⟨pushed, ready⟩ := Resolver.push_denotes PrecedenceTable.standard_total
    (names.denotes_take lexeme.value) (others.denotes_take lexeme.value) lexeme.span resolver
  have machine := held.machine.mono (names.extends_take lexeme.value)
    (others.extends_take lexeme.value)
  have taken : Like
      ⟨(names.take lexeme.value).names, (resolver.push .standard ⟨(names.take lexeme.value).token,
        lexeme.span⟩).1, evaluation⟩
      ⟨(others.take lexeme.value).names, (resolver.push .standard ⟨(others.take lexeme.value).token,
        lexeme.span⟩).1, evaluationToo⟩ :=
    ⟨NameTable.nodup_take distinct _, NameTable.nodup_take distinctToo _, pushed,
      ⟨machine, held.reach⟩⟩
  have silent (table : NameTable) : Event.numbers (table.take lexeme.value).events = [] := by
    rw [← Event.numbers_acts, NameTable.acts_take]
    rfl
  exact (taken.execute ready).following _ _ ((silent others).trans (silent names).symm)

theorem Like.finish (like : run.Like other) : Outcome.Matches Like run.finish other.finish := by
  have ready : Resolver.ReadyAlike run.names other.names (run.resolver.finish .standard).2
      (other.resolver.finish .standard).2 :=
    like.resolver ▸ Resolver.finish_alike PrecedenceTable.standard_total run.resolver
  have before : Like { run with resolver := (run.resolver.finish .standard).1 }
      { other with resolver := (other.resolver.finish .standard).1 } :=
    ⟨like.distinct, like.distinctToo, like.resolver ▸ rfl, like.evaluation⟩
  unfold LineRun.finish
  refine Outcome.Alike.andThen (before.execute ready) fun reached reachedToo held => ?_
  have closed := held.evaluation.close held.distinct held.distinctToo
  have after (evaluation evaluationToo : Evaluation)
      (same : evaluation.Like reached.names reachedToo.names evaluationToo) :
      Like { reached with evaluation := evaluation } { reachedToo with evaluation := evaluationToo } :=
    ⟨held.distinct, held.distinctToo, held.resolver, same⟩
  exact closed.map after after

theorem Like.feedAll (like : run.Like other) (scan : Scan) :
    Outcome.Matches Like (feedAll scan run) (feedAll scan other) := by
  have both : List.Forall₂ (· = ·) scan.lexemes scan.lexemes :=
    List.forall₂_same.mpr fun _ _ => rfl
  have row : Outcome.Matches Like (Outcome.runAll LineRun.feed scan.lexemes run)
      (Outcome.runAll LineRun.feed scan.lexemes other) :=
    Outcome.Matches.runAll (fun lexeme _ _ _ same held => same ▸ held.feed lexeme) both like
  unfold LineRun.feedAll
  refine Outcome.Alike.andThen row fun reached reachedToo held => ?_
  cases scan.mistake with
  | some error => exact .fail held rfl rfl
  | none => exact held.finish

end LineRun

theorem NameTable.Spells.bound {environment : Environment} {named : List (String × Number)}
    (spells : names.Spells environment named) :
    ∀ binding ∈ environment.bindings, ∃ spelling, names.Stands binding.1 spelling := by
  obtain ⟨bindings⟩ := environment
  simp only [Spells] at spells
  simp only
  induction spells with
  | nil => exact List.forall_mem_nil _
  | cons first rest ih => exact List.forall_mem_cons.mpr ⟨⟨_, first.1⟩, ih⟩

theorem Environment.Like.namedVariables {environment other : Environment}
    (like : environment.Like names others other) :
    Session.namedVariables ⟨names, environment⟩ = Session.namedVariables ⟨others, other⟩ := by
  obtain ⟨named, spells, spellsToo⟩ := like
  rw [spells.namedVariables (.refl names) spells.bound,
    spellsToo.namedVariables (.refl others) spellsToo.bound]

namespace Session

/-- In both sessions the names are distinct, and the variables have the same names and values, in the
same order. -/
structure Like (session other : Session) : Prop where
  distinct : session.names.spellings.Nodup
  distinctToo : other.names.spellings.Nodup
  environment : session.environment.Like session.names other.names other.environment

variable {session other : Session}

theorem Sound.like (sound : session.Sound) (soundToo : other.Sound)
    (same : session.namedVariables = other.namedVariables) : session.Like other :=
  ⟨sound.distinct, soundToo.distinct, session.namedVariables, sound.spells, same ▸ soundToo.spells⟩

/-- A line does the same in both sessions and leaves them alike. -/
theorem Like.run (like : session.Like other) (line : String) :
    Outcome.Matches Like (session.run line) (other.run line) := by
  have start : session.begin.Like other.begin :=
    ⟨like.distinct, like.distinctToo, rfl, ⟨⟨.nil, like.environment⟩, rfl⟩⟩
  have fed := (start.feedAll (Scan.ofLine line)).following [.running line] [.running line] rfl
  have after (run other : LineRun) (held : run.Like other) :
      Like ⟨run.names, run.evaluation.machine.environment⟩
        ⟨other.names, other.evaluation.machine.environment⟩ :=
    ⟨held.distinct, held.distinctToo, held.evaluation.machine.environment⟩
  exact fed.map after after

/-- The session after lines, each of which may have failed. -/
def afterAll (session : Session) (lines : List String) : Session :=
  lines.foldl (fun session line => (session.run line).state) session

theorem Like.afterAll (like : session.Like other) (lines : List String) :
    (session.afterAll lines).Like (other.afterAll lines) := by
  induction lines generalizing session other with
  | nil => exact like
  | cons line later ih => exact ih (like.run line).state

end Session

/-- Sessions with the same variables cannot be told apart by lines, whatever they have run before:
each line of any row of lines prints the same in both, stops with the same fault or not at all, and
leaves the same variables. -/
theorem run_indistinct {session other : Session} (reached : session.Reachable)
    (reachedToo : other.Reachable) (same : session.namedVariables = other.namedVariables)
    (lines : List String) (line : String) :
    let ran := (session.afterAll lines).run line
    let ranToo := (other.afterAll lines).run line
    Event.output ran.events = Event.output ranToo.events ∧ ran.fault = ranToo.fault ∧
      ran.state.namedVariables = ranToo.state.namedVariables := by
  intro ran ranToo
  have alike := ((reached.sound.like reachedToo.sound same).afterAll lines).run line
  refine ⟨?_, alike.fault.symm, alike.state.environment.namedVariables⟩
  rw [Event.output_eq, Event.output_eq ranToo.events, alike.numbers]

/-- A line that fails before the first assignment makes the handles differ, and nothing else. -/
theorem run_indistinct_failed :
    let session := (Session.empty.run "a=3").state
    let other := ((Session.empty.run "b").state.run "a=3").state
    session.names ≠ other.names ∧
      Event.output ((session.afterAll ["c"]).run "%a;a=b").events =
        Event.output ((other.afterAll ["c"]).run "%a;a=b").events ∧
      ((session.afterAll ["c"]).run "%a;a=b").fault = ((other.afterAll ["c"]).run "%a;a=b").fault := by
  intro session other
  have reached : session.Reachable := .run .empty "a=3"
  have reachedToo : other.Reachable := .run (.run .empty "b") "a=3"
  have same : session.namedVariables = other.namedVariables := by decide +kernel
  obtain ⟨printed, fault, -⟩ := run_indistinct reached reachedToo same ["c"] "%a;a=b"
  exact ⟨by decide +kernel, printed, fault⟩

end LineCalc
