import LineCalc.Proofs.Atomicity
import LineCalc.Proofs.Supply

/-!
What the null of a finished statement seals off. Any tokens in any order may follow, as long as none of
them stops the machine: what lies below a null has no part in what they do, and the null itself is only
ever replaced by a wider one. So no operator finds an operand that was there before the last semicolon.
-/

namespace LineCalc

/-- Of two entries, one on top of the other, at most one is a null. -/
def Entry.Apart (upper lower : Spanned Entry) : Prop :=
  upper.value ≠ .null ∨ lower.value ≠ .null

namespace Machine

def executeAll (naming : Naming) (tokens : List (Spanned Token)) (machine : Machine) :
    Outcome Machine :=
  Outcome.runAll (execute naming) tokens machine

/-- The machine with its stack on top of other entries. -/
def onto (machine : Machine) (bottom : List (Spanned Entry)) : Machine :=
  { machine with stack := machine.stack ++ bottom }

/-- At the bottom of the stack lies a null, and its span is around the place. -/
def Rests (place : Span) (machine : Machine) : Prop :=
  ∃ ended, [⟨.null, ended⟩] <:+ machine.stack ∧ place.Within ended

variable {naming : Naming} {machine : Machine} {token : Spanned Token}
  {bottom : List (Spanned Entry)} {place : Span}

/-! What lies below a null stays out of every step. -/

theorem settle_append (place : Span) (stack : List (Spanned Entry))
    (apart : ∀ entry ∈ bottom.head?, entry.value ≠ .null) :
    settle place (stack ++ bottom) = settle place stack ++ bottom := by
  induction stack generalizing place with
  | nil =>
    obtain ⟨gone, rest, rfl, nulls, -, settled⟩ := settle_eq place bottom
    cases gone with
    | nil => exact settled
    | cons top gone => exact absurd (nulls top List.mem_cons_self) (apart top rfl)
  | cons top below ih =>
    obtain ⟨_ | _ | _, span⟩ := top
    case null => exact ih (place.hull span)
    all_goals rfl

theorem takeOperands_onto (rests : machine.Rests place) {op : Operator} {span : Span}
    {use : Machine → Spanned Entry → Spanned Entry → Number → Outcome Machine}
    (same : ∀ rest left right value,
      use (rest.onto bottom) left right value = (use rest left right value).map (·.onto bottom)) :
    (machine.onto bottom).takeOperands naming op span use =
      (machine.takeOperands naming op span use).map (·.onto bottom) := by
  obtain ⟨stack, environment⟩ := machine
  obtain ⟨ended, ⟨upper, rfl⟩, -⟩ := rests
  rcases upper with _ | ⟨right, upper⟩
  -- The null itself is no operand.
  · rfl
  · simp only [takeOperands, onto, List.cons_append]
    cases valueOf naming environment right with
    | error fault => rfl
    | ok value =>
      cases upper with
      | nil => exact same ⟨[], environment⟩ ⟨.null, ended⟩ right value
      | cons left upper =>
        exact same ⟨upper ++ [⟨.null, ended⟩], environment⟩ left right value

theorem execute_onto (naming : Naming) (token : Spanned Token) (rests : machine.Rests place)
    (apart : ∀ entry ∈ bottom.head?, entry.value ≠ .null) :
    (machine.onto bottom).execute naming token =
      (machine.execute naming token).map (·.onto bottom) := by
  obtain ⟨_ | handle | (_ | op | _ | _), span⟩ := token
  case operator.equals =>
    simp only [execute, assign]
    refine takeOperands_onto rests fun rest left right value => ?_
    obtain ⟨_ | handle | _, place⟩ := left
    case name => cases spelled : naming.spelling handle <;> simp only [spelled] <;> rfl
    all_goals rfl
  case operator.arithmetic =>
    simp only [execute, calculate]
    refine takeOperands_onto rests fun rest left right value => ?_
    simp only [onto]
    cases valueOf naming rest.environment left <;> rfl
  case operator.print =>
    obtain ⟨stack, environment⟩ := machine
    obtain ⟨ended, ⟨upper, rfl⟩, -⟩ := rests
    rcases upper with _ | ⟨⟨_ | handle | _, span⟩, upper⟩
    case cons.name =>
      simp only [execute, print, onto, List.cons_append]
      cases valueOf naming environment ⟨.name handle, span⟩ <;> rfl
    all_goals rfl
  case operator.semicolon =>
    obtain ⟨stack, environment⟩ := machine
    obtain ⟨ended, ⟨upper, rfl⟩, -⟩ := rests
    have settled (place : Span) (stack : List (Spanned Entry)) :
        Outcome.done (Machine.mk (settle place (stack ++ bottom)) environment) =
          (Outcome.done (Machine.mk (settle place stack) environment)).map (·.onto bottom) := by
      rw [settle_append place stack apart]
      rfl
    rcases upper with _ | ⟨⟨_ | handle | _, span⟩, upper⟩
    case cons.name =>
      simp only [execute, endStatement, onto, List.cons_append, settled]
      split <;> rfl
    case nil => exact settled _ []
    all_goals exact settled _ _
  all_goals rfl

end Machine

/-! Spans that are taken together. -/

theorem Span.within_around (span : Span) (gone : List (Spanned Entry)) :
    span.Within (span.around gone) := by
  induction gone generalizing span with
  | nil => exact .refl span
  | cons entry gone ih => exact (within_hull_left span entry.span).trans (ih _)

theorem Span.within_around_of_mem (span : Span) {gone : List (Spanned Entry)} {entry : Spanned Entry}
    (member : entry ∈ gone) : entry.span.Within (span.around gone) := by
  induction gone generalizing span with
  | nil => cases member
  | cons first gone ih =>
    rcases List.mem_cons.mp member with rfl | inside
    · exact (within_hull_right span entry.span).trans (within_around _ gone)
    · exact ih _ inside

namespace Machine

variable {naming : Naming} {machine : Machine} {token : Spanned Token}
  {bottom : List (Spanned Entry)} {place : Span}

theorem Rests.execute (rests : machine.Rests place)
    (clean : (machine.execute naming token).fault = none) :
    (machine.execute naming token).state.Rests place := by
  have step := machine.execute_step naming token
  generalize machine.execute naming token = executed at step clean
  obtain ⟨ended, lowest, inside⟩ := rests
  -- An entry with a value is not the null, so the null is below it.
  have below_of_present {entry : Spanned Entry} {below : List (Spanned Entry)}
      (present : entry.value.present = true) (bottom : [⟨.null, ended⟩] <:+ entry :: below) :
      [⟨.null, ended⟩] <:+ below := by
    rcases List.suffix_cons_iff.mp bottom with same | rest
    · cases same
      cases present
    · exact rest
  cases step with
  | stops | untold => cases clean
  | number | name => exact ⟨ended, lowest.trans (List.suffix_cons _ _), inside⟩
  | calculated read shape first second =>
    rw [shape] at lowest
    have rest := below_of_present (present_of_valueOf first)
      (below_of_present (present_of_valueOf second) lowest)
    exact ⟨ended, rest.trans (List.suffix_cons _ _), inside⟩
  | assigned read shape found =>
    rw [shape] at lowest
    have rest := below_of_present rfl (below_of_present (present_of_valueOf found) lowest)
    exact ⟨ended, rest.trans (List.suffix_cons _ _), inside⟩
  | printed => exact ⟨ended, lowest, inside⟩
  | @ended gone rest read shape =>
    rw [shape] at lowest
    rcases List.eq_nil_or_concat' rest with rfl | ⟨others, last, rfl⟩
    · rw [List.append_nil] at lowest
      have member := lowest.subset (List.mem_singleton_self _)
      exact ⟨_, List.suffix_rfl, inside.trans (Span.within_around_of_mem _ member)⟩
    · obtain ⟨front, same⟩ := lowest
      rw [← List.append_assoc] at same
      obtain rfl := List.singleton_inj.mp (List.append_inj' same rfl).2
      exact ⟨ended, (List.suffix_append others _).trans (List.suffix_cons _ _), inside⟩

variable {tokens : List (Spanned Token)}

theorem executeAll_cons (naming : Naming) (token : Spanned Token) (later : List (Spanned Token))
    (machine : Machine) : executeAll naming (token :: later) machine =
      (machine.execute naming token).andThen (executeAll naming later) :=
  rfl

theorem executeAll_singleton (naming : Naming) (token : Spanned Token) (machine : Machine) :
    executeAll naming [token] machine = machine.execute naming token :=
  Outcome.andThen_done _

theorem executeAll_append (naming : Naming) (earlier later : List (Spanned Token))
    (machine : Machine) : executeAll naming (earlier ++ later) machine =
      (executeAll naming earlier machine).andThen (executeAll naming later) :=
  Outcome.runAll_append _ earlier later machine

theorem Rests.executeAll (rests : machine.Rests place)
    (clean : (executeAll naming tokens machine).fault = none) :
    (executeAll naming tokens machine).state.Rests place := by
  induction tokens generalizing machine with
  | nil => exact rests
  | cons token later ih =>
    rw [executeAll_cons] at clean ⊢
    obtain ⟨first, rest, same⟩ := Outcome.andThen_clean clean
    rw [same]
    exact ih (rests.execute first) rest

/-- Whatever lies below a null, tokens do the same on top of it. -/
theorem executeAll_onto (naming : Naming) (tokens : List (Spanned Token)) (rests : machine.Rests place)
    (apart : ∀ entry ∈ bottom.head?, entry.value ≠ .null) :
    executeAll naming tokens (machine.onto bottom) =
      (executeAll naming tokens machine).map (·.onto bottom) := by
  induction tokens generalizing machine with
  | nil => rfl
  | cons token later ih =>
    rw [executeAll_cons, executeAll_cons, execute_onto naming token rests apart]
    by_cases clean : (machine.execute naming token).fault = none
    · have rest := ih (rests.execute clean)
      simp only [Outcome.andThen, Outcome.map, clean] at rest ⊢
      rw [rest]
      rfl
    · rw [Outcome.andThen_stopped clean, Outcome.andThen_stopped (by exact clean)]

/-- As long as nothing stops the machine, what lies below a null stays, and so does the null or a wider
one. -/
theorem executeAll_above {upper : List (Spanned Entry)}
    (shape : machine.stack = upper ++ ⟨.null, place⟩ :: bottom)
    (apart : ∀ entry ∈ bottom.head?, entry.value ≠ .null)
    (clean : (executeAll naming tokens machine).fault = none) :
    ∃ upperAfter placeAfter, (executeAll naming tokens machine).state.stack =
      upperAfter ++ ⟨.null, placeAfter⟩ :: bottom ∧ place.Within placeAfter := by
  have rests : Rests place ⟨upper ++ [⟨.null, place⟩], machine.environment⟩ :=
    ⟨place, List.suffix_append _ _, .refl place⟩
  have cut : machine = onto ⟨upper ++ [⟨.null, place⟩], machine.environment⟩ bottom := by
    simp only [onto, List.append_assoc, List.singleton_append, ← shape]
  rw [cut, executeAll_onto naming tokens rests apart] at clean ⊢
  obtain ⟨ended, ⟨front, lowest⟩, inside⟩ := rests.executeAll clean
  refine ⟨front, ended, ?_, inside⟩
  rw [Outcome.map, onto, ← lowest, List.append_assoc, List.singleton_append]

theorem executeAll_clean {earlier later : List (Spanned Token)}
    (clean : (executeAll naming (earlier ++ later) machine).fault = none) :
    (executeAll naming earlier machine).fault = none ∧
      (executeAll naming later (executeAll naming earlier machine).state).fault = none ∧
      (executeAll naming (earlier ++ later) machine).state =
        (executeAll naming later (executeAll naming earlier machine).state).state := by
  rw [executeAll_append] at clean ⊢
  exact Outcome.andThen_clean clean

/-! Nulls never lie on each other. -/

theorem execute_apart (naming : Naming) (token : Spanned Token)
    (apart : machine.stack.IsChain Entry.Apart) :
    (machine.execute naming token).state.stack.IsChain Entry.Apart := by
  have step := machine.execute_step naming token
  generalize machine.execute naming token = executed at step
  have pushed {entry : Spanned Entry} {below : List (Spanned Entry)}
      (present : entry.value ≠ .null) (rest : below.IsChain Entry.Apart) :
      (entry :: below).IsChain Entry.Apart :=
    List.isChain_cons.mpr ⟨fun _ _ => .inl present, rest⟩
  cases step with
  | stops _ count => exact apart.drop count
  | untold value shape => exact (shape ▸ apart).tail.tail
  | calculated read shape | assigned read shape => exact pushed (by simp) (shape ▸ apart).tail.tail
  | number | name => exact pushed (by simp) apart
  | printed => exact apart
  | ended read shape takes nulls ends =>
    refine List.isChain_cons.mpr ⟨fun entry top => .inr (ends entry top), ?_⟩
    exact (shape ▸ apart).suffix (List.suffix_append _ _)

theorem executeAll_apart (naming : Naming) (tokens : List (Spanned Token))
    (apart : machine.stack.IsChain Entry.Apart) :
    (executeAll naming tokens machine).state.stack.IsChain Entry.Apart :=
  Outcome.runAll_state (P := fun machine : Machine => machine.stack.IsChain Entry.Apart)
    (fun token _ _ held => execute_apart naming token held) apart

/-! What the end of a statement leaves, and what is on top of it until the next one. -/

theorem execute_ended {span : Span}
    (clean : (machine.execute naming ⟨.operator .semicolon, span⟩).fault = none) :
    ∃ ended below, (machine.execute naming ⟨.operator .semicolon, span⟩).state.stack =
      ⟨.null, ended⟩ :: below ∧ span.Within ended := by
  have step := machine.execute_step naming ⟨.operator .semicolon, span⟩
  generalize machine.execute naming ⟨.operator .semicolon, span⟩ = executed at step clean
  cases step with
  | stops | untold => cases clean
  | number read | name read | calculated read | assigned read | printed read => cases read
  | @ended gone rest => exact ⟨_, _, rfl, Span.within_around span gone⟩

theorem execute_sunken (waits : token.value ≠ .operator .semicolon)
    (clean : (machine.execute naming token).fault = none) :
    sunken (machine.execute naming token).state.stack = sunken machine.stack := by
  obtain ⟨_ | handle | op, span⟩ := token
  case operator => exact (execute_uses (fun same => waits (congrArg _ same)) clean).sunken
  all_goals exact sunken_cons rfl

theorem executeAll_sunken (unended : ∀ token ∈ tokens, token.value ≠ .operator .semicolon)
    (clean : (executeAll naming tokens machine).fault = none) :
    sunken (executeAll naming tokens machine).state.stack = sunken machine.stack := by
  induction tokens generalizing machine with
  | nil => rfl
  | cons token later ih =>
    obtain ⟨first, others⟩ := List.forall_mem_cons.mp unended
    rw [executeAll_cons] at clean ⊢
    obtain ⟨cleanFirst, cleanRest, same⟩ := Outcome.andThen_clean clean
    rw [same, ih others cleanRest, execute_sunken first cleanFirst]

/-- On top of a null, the stack under it stays as it is until the next semicolon, and an operator finds
both of its operands above it. -/
theorem executeAll_operands {below : List (Spanned Entry)} {op : Operator} {span : Span}
    (top : machine.stack = ⟨.null, place⟩ :: below)
    (unended : ∀ token ∈ tokens, token.value ≠ .operator .semicolon) (binary : op.demand = 2)
    (clean : (executeAll naming (tokens ++ [⟨.operator op, span⟩]) machine).fault = none) :
    (∀ front, front <+: tokens →
      machine.stack <:+ (executeAll naming front machine).state.stack) ∧
    ∃ right left others,
      (executeAll naming tokens machine).state.stack = right :: left :: (others ++ machine.stack) := by
  obtain ⟨cleanTokens, cleanLast, -⟩ := executeAll_clean clean
  rw [executeAll_singleton] at cleanLast
  have rest : sunken machine.stack = machine.stack := by rw [top, sunken_null]
  constructor
  · rintro front ⟨later, rfl⟩
    have kept := executeAll_sunken (fun token member => unended token (List.mem_append_left _ member))
      (executeAll_clean cleanTokens).1
    rw [rest] at kept
    exact kept ▸ List.dropWhile_suffix _
  · have kept := (executeAll_sunken unended cleanTokens).trans rest
    have waits : op ≠ .semicolon := by
      rintro rfl
      cases binary
    have enough := (execute_uses waits cleanLast).enough
    rw [binary] at enough
    generalize (executeAll naming tokens machine).state.stack = stack at kept enough ⊢
    have parts : stack.takeWhile (·.value.present) ++ machine.stack = stack := by
      rw [← kept, sunken, List.takeWhile_append_dropWhile]
    rcases found : stack.takeWhile (·.value.present) with _ | ⟨right, _ | ⟨left, others⟩⟩
    case cons.cons =>
      rw [found] at parts
      exact ⟨right, left, others, parts.symm⟩
    all_goals simp [supply, found] at enough

theorem executeAll_semicolons (naming : Naming) (environment : Environment) (place : Span)
    (later : List Span) :
    executeAll naming (later.map fun span => ⟨.operator .semicolon, span⟩)
        ⟨[⟨.null, place⟩], environment⟩ =
      .done ⟨[⟨.null, later.foldl Span.hull place⟩], environment⟩ := by
  induction later generalizing place with
  | nil => rfl
  | cons span later ih =>
    have first : Machine.execute naming ⟨.operator .semicolon, span⟩ ⟨[⟨.null, place⟩], environment⟩ =
        .done ⟨[⟨.null, place.hull span⟩], environment⟩ := by
      rw [Span.hull_comm]
      rfl
    rw [List.map_cons, executeAll_cons, first, List.foldl_cons, ← ih]
    rfl

/-- Any tokens in any order are executed, from an empty stack. No two nulls ever lie on each other, and
right behind a semicolon there is a null on top. Whatever null lies on the stack, what is below it has no
part in what comes: as long as nothing stops the machine it stays, under the same null or one with a wider
span, and everything goes as it would on top of any other entries, or of none. So an operator that finds
its two operands finds both on top of all that the last semicolon has left. Any number of semicolons at the
start leave one null with a span around all of theirs. -/
theorem executeAll_sealed (naming : Naming) (environment : Environment) :
    let ran := fun tokens => executeAll naming tokens ⟨[], environment⟩
    let stackAfter := fun tokens => (ran tokens).state.stack
    (∀ tokens, (stackAfter tokens).IsChain Entry.Apart) ∧
    (∀ tokens span, (ran (tokens ++ [⟨.operator .semicolon, span⟩])).fault = none →
      ∃ ended below, stackAfter (tokens ++ [⟨.operator .semicolon, span⟩]) =
        ⟨.null, ended⟩ :: below ∧ span.Within ended) ∧
    (∀ earlier upper place below, (ran earlier).fault = none →
      stackAfter earlier = upper ++ ⟨.null, place⟩ :: below →
      (∀ entry ∈ below.head?, entry.value ≠ .null) ∧ ∀ later,
        ((ran (earlier ++ later)).fault = none → ∃ upperAfter placeAfter,
          stackAfter (earlier ++ later) = upperAfter ++ ⟨.null, placeAfter⟩ :: below ∧
            place.Within placeAfter) ∧
        ∀ other, (∀ entry ∈ other.head?, entry.value ≠ .null) →
          let top : Machine := ⟨upper ++ [⟨.null, place⟩], (ran earlier).state.environment⟩
          executeAll naming later (top.onto other) =
            (executeAll naming later top).map (·.onto other)) ∧
    (∀ earlier span middle op sign, (∀ token ∈ middle, token.value ≠ .operator .semicolon) →
      op.demand = 2 →
      let ended := earlier ++ [⟨.operator .semicolon, span⟩]
      (ran (ended ++ (middle ++ [⟨.operator op, sign⟩]))).fault = none →
        (∀ front, front <+: middle → stackAfter ended <:+ stackAfter (ended ++ front)) ∧
        ∃ right left others,
          stackAfter (ended ++ middle) = right :: left :: (others ++ stackAfter ended)) ∧
    ∀ first later, ran ((first :: later).map fun span => ⟨.operator .semicolon, span⟩) =
      .done ⟨[⟨.null, later.foldl Span.hull first⟩], environment⟩ := by
  intro ran stackAfter
  have apart (tokens : List (Spanned Token)) : (stackAfter tokens).IsChain Entry.Apart :=
    executeAll_apart naming tokens .nil
  have ends (tokens : List (Spanned Token)) (span : Span)
      (clean : (ran (tokens ++ [⟨.operator .semicolon, span⟩])).fault = none) :
      ∃ ended below, stackAfter (tokens ++ [⟨.operator .semicolon, span⟩]) =
        ⟨.null, ended⟩ :: below ∧ span.Within ended := by
    obtain ⟨-, last, same⟩ := executeAll_clean clean
    simp only [stackAfter, ran, same]
    rw [executeAll_singleton] at last ⊢
    exact execute_ended last
  refine ⟨apart, ends, ?_, ?_, ?_⟩
  · intro earlier upper place below clean shape
    have lower : ∀ entry ∈ below.head?, entry.value ≠ .null := by
      have chain := (shape ▸ apart earlier).suffix (List.suffix_append _ _)
      intro entry top
      exact ((List.isChain_cons.mp chain).1 entry top).resolve_left (absurd rfl)
    have rests : Rests place ⟨upper ++ [⟨.null, place⟩], (ran earlier).state.environment⟩ :=
      ⟨place, List.suffix_append _ _, .refl place⟩
    refine ⟨lower, fun later => ⟨fun cleanAll => ?_, fun other free => ?_⟩⟩
    · obtain ⟨-, cleanLater, same⟩ := executeAll_clean cleanAll
      simp only [stackAfter, ran, same]
      exact executeAll_above shape lower cleanLater
    · exact executeAll_onto naming later rests free
  · intro earlier span middle op sign unended binary ended clean
    obtain ⟨cleanEnded, rest, -⟩ := executeAll_clean clean
    obtain ⟨place, below, top, -⟩ := ends earlier span cleanEnded
    obtain ⟨stays, right, left, others, shape⟩ := executeAll_operands top unended binary rest
    have after {front : List (Spanned Token)} (inside : front <+: middle) :
        stackAfter (ended ++ front) = (executeAll naming front (ran ended).state).state.stack := by
      obtain ⟨later, rfl⟩ := inside
      have parts : ended ++ (front ++ later ++ [⟨.operator op, sign⟩]) =
          ended ++ front ++ (later ++ [⟨.operator op, sign⟩]) := by simp only [List.append_assoc]
      rw [parts] at clean
      exact congrArg stack (executeAll_clean (executeAll_clean clean).1).2.2
    refine ⟨fun front inside => ?_, right, left, others, ?_⟩
    · rw [after inside]
      exact stays front inside
    · rw [after List.prefix_rfl]
      exact shape
  · intro first later
    exact executeAll_semicolons naming environment first later

/-- In `1;2+3` the sum finds both of its operands on top of the null that `1;` has left, which stays
where it is. -/
theorem executeAll_sealed_sum :
    let number := fun digit : Nat => Token.number (Number.ofDecimal ⟨digit, 0⟩)
    let earlier : List (Spanned Token) := [⟨number 1, ⟨0, 1⟩⟩]
    let ended := earlier ++ [⟨.operator .semicolon, ⟨1, 2⟩⟩]
    let middle : List (Spanned Token) := [⟨number 2, ⟨2, 3⟩⟩, ⟨number 3, ⟨4, 5⟩⟩]
    let sum : Spanned Token := ⟨.operator (.arithmetic .add), ⟨2, 5⟩⟩
    let stackAfter := fun tokens => (executeAll none tokens ⟨[], .empty⟩).state.stack
    (executeAll none (ended ++ (middle ++ [sum])) ⟨[], .empty⟩).fault = none ∧
      (∃ place below, stackAfter ended = ⟨.null, place⟩ :: below ∧ (⟨1, 2⟩ : Span).Within place) ∧
      ∃ right left others,
        stackAfter (ended ++ middle) = right :: left :: (others ++ stackAfter ended) := by
  intro number earlier ended middle sum stackAfter
  have clean : (executeAll none (ended ++ (middle ++ [sum])) ⟨[], .empty⟩).fault = none := by
    decide +kernel
  have unended : ∀ token ∈ middle, token.value ≠ .operator .semicolon := by decide
  obtain ⟨-, ends, -, operands, -⟩ := executeAll_sealed none .empty
  have first : (executeAll none ended ⟨[], .empty⟩).fault = none := (executeAll_clean clean).1
  exact ⟨clean, ends earlier ⟨1, 2⟩ first, (operands earlier _ middle _ _ unended rfl clean).2⟩

end Machine

end LineCalc
