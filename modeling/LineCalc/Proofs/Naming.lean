import LineCalc.Listing
import LineCalc.Proofs.Agreement

/-!
Executing tokens while names are still being given out. It does not show in what the tokens do, because
every name on the stack has been given out before.
-/

namespace LineCalc

variable {names later : NameTable}

theorem NameTable.Stands.naming {handle : Handle} {spelling : String}
    (stands : names.Stands handle spelling) (grows : names.Extends later) :
    Naming.spelling (some names) handle = Naming.spelling (some later) handle := by
  rw [stands.told, (stands.mono grows).told]

namespace Machine

variable {machine : Machine}

theorem valueOf_naming (grows : names.Extends later) {entry : Spanned Entry}
    (stands : ∀ handle, entry.value = .name handle → ∃ spelling, names.Stands handle spelling)
    (environment : Environment) :
    valueOf (some names) environment entry = valueOf (some later) environment entry := by
  obtain ⟨_ | handle | _, span⟩ := entry
  case name =>
    obtain ⟨spelling, known⟩ := stands handle rfl
    simp only [valueOf, Naming.unassigned, known.naming grows]
  all_goals rfl

theorem takeOperands_naming (grows : names.Extends later) (named : machine.Named names)
    {op : Operator} {span : Span}
    {use useLater : Machine → Spanned Entry → Spanned Entry → Number → Outcome Machine}
    (same : ∀ right left below value, machine.stack = right :: left :: below →
      use { machine with stack := below } left right value =
        useLater { machine with stack := below } left right value) :
    machine.takeOperands (some names) op span use =
      machine.takeOperands (some later) op span useLater := by
  obtain ⟨stack, environment⟩ := machine
  cases stack with
  | nil => rfl
  | cons right below =>
    have looked := valueOf_naming grows (named right List.mem_cons_self) environment
    simp only [Machine.takeOperands, ← looked]
    cases valueOf (some names) environment right with
    | error fault => rfl
    | ok value =>
      cases below with
      | nil => rfl
      | cons left below => exact same right left below value rfl

section Naming

variable (named : machine.Named names) (grows : names.Extends later)
include named grows

theorem Named.assign_naming (span : Span) :
    machine.assign (some names) span = machine.assign (some later) span := by
  unfold Machine.assign
  apply takeOperands_naming grows named
  intro right left below value shape
  obtain ⟨_ | handle | _, place⟩ := left
  case name =>
    have member : ⟨.name handle, place⟩ ∈ machine.stack := by simp [shape]
    obtain ⟨spelling, known⟩ := named _ member handle rfl
    simp only [known.naming grows]
  all_goals rfl

theorem Named.calculate_naming (op : Arithmetic) (span : Span) :
    machine.calculate (some names) op span = machine.calculate (some later) op span := by
  unfold Machine.calculate
  apply takeOperands_naming grows named
  intro right left below value shape
  have member : left ∈ machine.stack := by simp [shape]
  simp only [valueOf_naming grows (named left member)]

theorem Named.print_naming (span : Span) :
    machine.print (some names) span = machine.print (some later) span := by
  obtain ⟨stack, environment⟩ := machine
  rcases stack with _ | ⟨⟨_ | handle | _, place⟩, below⟩
  case cons.name =>
    have looked := valueOf_naming grows (named _ List.mem_cons_self) environment
    simp only [Machine.print, looked]
  all_goals rfl

theorem Named.endStatement_naming (span : Span) :
    machine.endStatement (some names) span = machine.endStatement (some later) span := by
  obtain ⟨stack, environment⟩ := machine
  rcases stack with _ | ⟨⟨_ | handle | _, place⟩, below⟩
  case cons.name =>
    obtain ⟨spelling, known⟩ := named _ List.mem_cons_self handle rfl
    simp only [Machine.endStatement, Naming.unassigned, known.naming grows]
  all_goals rfl

/-- A table that knows the names on the stack tells as much of them as any later one. -/
theorem Named.execute_naming (token : Spanned Token) :
    machine.execute (some names) token = machine.execute (some later) token := by
  obtain ⟨_ | handle | (_ | op | _ | _), span⟩ := token
  case operator.equals => exact named.assign_naming grows span
  case operator.arithmetic => exact named.calculate_naming grows op span
  case operator.print => exact named.print_naming grows span
  case operator.semicolon => exact named.endStatement_naming grows span
  all_goals rfl

end Naming

end Machine

def Token.Known (names : NameTable) (token : Token) : Prop :=
  ∀ handle, token = .name handle → ∃ spelling, names.Stands handle spelling

namespace Evaluation

variable {evaluation : Evaluation}

theorem performAll_naming (grows : names.Extends later) {tokens : List (Spanned Token)}
    (known : ∀ token ∈ tokens, token.value.Known names)
    (named : evaluation.machine.Named names) :
    performAll names tokens evaluation = performAll later tokens evaluation := by
  induction tokens generalizing evaluation with
  | nil => rfl
  | cons token others ih =>
    have first : evaluation.perform (some names) token = evaluation.perform (some later) token := by
      simp only [perform, named.execute_naming grows token]
    have after : (evaluation.perform (some names) token).state.machine.Named names :=
      named.execute token (known token List.mem_cons_self)
    have rest := ih (fun other member => known other (List.mem_cons_of_mem _ member)) after
    simp only [performAll, Outcome.runAll] at rest ⊢
    rw [← first]
    cases stopped : (evaluation.perform (some names) token).fault with
    | some fault => simp [Outcome.andThen, stopped]
    | none => simp [Outcome.andThen, stopped, rest]

end Evaluation

def Listing.tokens {α : Type} (listing : Listing α) : List (Spanned α) :=
  listing.items.map Prod.fst

theorem Listing.tokens_cons (names : NameTable) (lexeme : Spanned Lexeme)
    (others : List (Spanned Lexeme)) :
    (takeAll none names (lexeme :: others)).tokens =
      ⟨(names.take lexeme.value).token, lexeme.span⟩ ::
        (takeAll none (names.take lexeme.value).names others).tokens := by
  simp [takeAll, following, tokens]

theorem Listing.extends_takeAll (names : NameTable) (lexemes : List (Spanned Lexeme)) :
    names.Extends (takeAll none names lexemes).names := by
  induction lexemes generalizing names with
  | nil => exact .refl names
  | cons lexeme others ih =>
    have first := names.extends_take lexeme.value
    exact first.trans (ih (names.take lexeme.value).names)

end LineCalc
