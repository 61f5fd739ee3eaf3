import LineCalc.Proofs.Logging
import LineCalc.Proofs.Retention

/-!
No operator is lost on its way through a line that ends well. As often as a sign stands in the text, it
is cut off as a lexeme, read as a token and executed as an operator; only brackets are gone by then. So
such a line prints once for each print sign in it.
-/

namespace LineCalc

open PrecedenceTable (standard standard_total)

/-- How often a value occurs in a row, wherever it stands. -/
def Spanned.occurrences {α : Type} [DecidableEq α] (value : α) (row : List (Spanned α)) : Nat :=
  (row.map Spanned.value).count value

namespace Spanned

variable {α : Type} [DecidableEq α] (value : α)

theorem occurrences_cons (item : Spanned α) (later : List (Spanned α)) :
    occurrences value (item :: later) =
      occurrences value later + if item.value = value then 1 else 0 := by
  simp [occurrences, List.count_cons]

theorem occurrences_collect {β : Type} [DecidableEq β] {view : α → Option β} {seen : β}
    (only : ∀ other, view other = some seen ↔ other = value) (row : List (Spanned α)) :
    occurrences seen (collect view row) = occurrences value row := by
  induction row with
  | nil => rfl
  | cons item later ih =>
    rw [occurrences_cons, ← ih]
    cases shown : view item.value with
    | none =>
      have other : item.value ≠ value := fun same => by simp [(only _).mpr same] at shown
      rw [collect_cons_none shown, if_neg other, Nat.add_zero]
    | some found =>
      have same : found = seen ↔ item.value = value := by rw [← only, shown, Option.some.injEq]
      rw [collect_cons_some shown, occurrences_cons]
      simp only [same]

end Spanned

/-- Where nothing waits any more, an operator is ready as often as its sign was taken in. -/
theorem Retained.occurrences {tokens : List (Spanned RawToken)} {ready : List (Spanned Token)}
    (retained : Retained tokens ready []) (op : Operator) :
    Spanned.occurrences (.operator op) ready = Spanned.occurrences (.symbol (.operator op)) tokens := by
  obtain ⟨-, signs, widened, all⟩ := retained
  rw [Spanned.collect_nil, List.append_nil] at all
  have values {signs wide : List (Spanned Operator)}
      (widened : List.Forall₂ Operator.Widens signs wide) :
      wide.map Spanned.value = signs.map Spanned.value := by
    induction widened with
    | nil => rfl
    | cons widens later ih => rw [List.map_cons, List.map_cons, widens.1, ih]
  have early (token : Token) : token.operator? = some op ↔ token = .operator op := by
    cases token <;> simp [Token.operator?]
  have late (token : RawToken) : token.operator? = some op ↔ token = .symbol (.operator op) := by
    rcases token with _ | _ | (_ | _ | _) <;> simp [RawToken.operator?]
  rw [← Spanned.occurrences_collect _ early, ← Spanned.occurrences_collect _ late,
    Spanned.occurrences, Spanned.occurrences, values widened]
  exact (all.map Spanned.value).count_eq op

namespace Listing

theorem occurrences_takeAll (sign : Symbol) (names : NameTable) (lexemes : List (Spanned Lexeme)) :
    Spanned.occurrences (.symbol sign) (takeAll none names lexemes).tokens =
      Spanned.occurrences (.symbol sign) lexemes := by
  induction lexemes generalizing names with
  | nil => rfl
  | cons lexeme later ih =>
    have same : (names.take lexeme.value).token = .symbol sign ↔ lexeme.value = .symbol sign := by
      cases lexeme.value <;> simp [NameTable.take]
    rw [tokens_cons, Spanned.occurrences_cons, Spanned.occurrences_cons, ih]
    simp only [same]

theorem plan_ended {raw : Listing RawToken} {rest : List (Spanned Token)}
    (ended : raw.plan.ending = .ok rest) (op : Operator) :
    raw.fault = none ∧ Spanned.occurrences (.operator op) (raw.plan.batches.flatten ++ rest) =
      Spanned.occurrences (.symbol (.operator op)) raw.tokens := by
  obtain ⟨clean, resolver, taken, finished⟩ := plan_ok ended
  have retained := Retained.pushAll standard_total taken
  exact ⟨clean, (retained.finish standard_total finished).1.occurrences op⟩

end Listing

/-! Cutting keeps every sign. -/

theorem Symbol.character_inj {first second : Symbol} (same : first.character = second.character) :
    first = second := by
  have found := first.ofChar?_character
  rw [same, second.ofChar?_character] at found
  exact (Option.some.inj found).symm

namespace Scan

variable (sign : Symbol)

theorem count_dropWhile {p : Char → Bool} (apart : p sign.character = false) (text : List Char) :
    (text.dropWhile p).count sign.character = text.count sign.character := by
  have none : (text.takeWhile p).count sign.character = 0 := by
    rw [List.count_eq_zero]
    intro member
    have inside := List.all_eq_true.mp (List.all_takeWhile (p := p) (l := text)) _ member
    rw [apart] at inside
    cases inside
  conv_rhs => rw [← List.takeWhile_append_dropWhile (p := p) (l := text), List.count_append, none,
    Nat.zero_add]

/-- A text that is cut to its end has each of its signs among the lexemes. -/
theorem occurrences_ofChars {position : Nat} {text : List Char}
    (clean : (ofChars position text).mistake = none) :
    Spanned.occurrences (.symbol sign) (ofChars position text).lexemes =
      text.count sign.character := by
  obtain ⟨noBlank, noLetter, noNumeral⟩ := sign.character_apart
  have head {p : Char → Bool} {c : Char} (apart : p sign.character = false) (rest : List Char)
      (inside : p c = true) : (c :: rest).count sign.character = rest.count sign.character := by
    rw [List.count_cons_of_ne]
    rintro rfl
    rw [apart] at inside
    cases inside
  induction position, text using ofChars.induct with
  | case1 position =>
    rw [ofChars_nil]
    rfl
  | case2 position c rest blank ih =>
    rw [ofChars_blank _ _ blank] at clean ⊢
    rw [ih clean, head noBlank rest blank]
  | case3 position c rest _ letter word stop ih =>
    rw [ofChars_letter _ _ letter] at clean ⊢
    rw [cons, Spanned.occurrences_cons, ih clean, count_dropWhile sign noLetter,
      head noLetter rest letter]
    simp
  | case4 position c rest _ _ digit numeral stop decimal read ih =>
    rw [ofChars_numeral _ _ digit read] at clean ⊢
    rw [cons, Spanned.occurrences_cons, ih clean, count_dropWhile sign noNumeral,
      head noNumeral rest (isNumeralChar_of_isDigit digit)]
    simp
  | case5 position c rest _ _ digit numeral unread =>
    rw [ofChars_unread _ _ digit unread] at clean
    cases clean
  | case6 position c rest _ _ _ symbol found ih =>
    obtain rfl := Symbol.character_ofChar? found
    rw [ofChars_symbol] at clean ⊢
    rw [cons, Spanned.occurrences_cons, ih clean, List.count_cons]
    have same : symbol.character = sign.character ↔ symbol = sign :=
      ⟨Symbol.character_inj, congrArg Symbol.character⟩
    simp [same]
  | case7 position c rest noBlank noLetter noDigit noSymbol =>
    rw [ofChars_other _ _ noBlank noLetter noDigit noSymbol] at clean
    cases clean

end Scan

/-! Executing prints once for each print sign. -/

/-- A token that does not stop the machine prints a number if it is a print sign, and nothing
otherwise. -/
theorem Machine.numbers_execute {naming : Naming} {machine : Machine} {token : Spanned Token}
    (clean : (machine.execute naming token).fault = none) :
    (Event.numbers (machine.execute naming token).events).length =
      if token.value = .operator .print then 1 else 0 := by
  obtain ⟨value, span⟩ := token
  by_cases prints : value = .operator .print
  · subst prints
    rw [execute] at clean ⊢
    obtain ⟨top, below, shape, present⟩ := print_goes clean
    cases found : valueOf naming machine.environment top with
    | ok number =>
      rw [print_value shape found]
      rfl
    | error fault =>
      rw [print_fault shape (fun null => by rw [null] at present; cases present) found] at clean
      cases clean
  · rw [if_neg prints]
    cases machine.execute_act naming ⟨value, span⟩ with
    | nothing _ silent | untold _ _ _ _ _ silent =>
      rw [silent]
      rfl
    | assigned _ _ _ _ _ shown =>
      rw [shown]
      rfl
    | printed _ sign => exact absurd sign prints

namespace Evaluation

variable {names : NameTable}

/-- Tokens that are all executed print as often as there are print signs among them. -/
theorem numbers_performAll {tokens : List (Spanned Token)} {evaluation : Evaluation}
    (clean : (performAll names tokens evaluation).fault = none) :
    (Event.numbers (performAll names tokens evaluation).events).length =
      Spanned.occurrences (.operator .print) tokens := by
  induction tokens generalizing evaluation with
  | nil => rfl
  | cons token later ih =>
    have parts : performAll names (token :: later) evaluation =
        (evaluation.perform (some names) token).andThen (performAll names later) := rfl
    obtain ⟨first, rest, -⟩ := Outcome.andThen_clean (parts ▸ clean)
    have printed : Event.numbers (evaluation.perform (some names) token).events =
        Event.numbers (evaluation.machine.execute (some names) token).events := rfl
    have executed : (evaluation.machine.execute (some names) token).fault = none := first
    simp only [parts, Outcome.andThen, first, Outcome.following]
    rw [Event.numbers_append, List.length_append, ih rest, printed, Machine.numbers_execute executed,
      Spanned.occurrences_cons]
    exact Nat.add_comm _ _

theorem numbers_close (evaluation : Evaluation) :
    Event.numbers (evaluation.close (some names)).events = [] := by
  obtain ⟨-, silent⟩ := Machine.execute_silent (some names) evaluation.machine
    ⟨.operator .semicolon, ⟨evaluation.reach, evaluation.reach⟩⟩ rfl
  exact congrArg Event.numbers silent

end Evaluation

/-- A line that ends well prints as many numbers as there are print signs in it, wherever they stand. -/
theorem Session.numbers_run {session : Session} {line : String}
    (clean : (session.run line).fault = none) :
    (Event.numbers (session.run line).events).length =
      line.toList.count (Symbol.operator .print).character := by
  obtain ⟨names, -, does⟩ := session.exists_does line
  have tokens := Listing.read_tokens session.names line
  have mistake := Listing.read_fault session.names line
  have printed : Event.numbers (session.run line).events =
      Event.numbers (LineRun.feedAll (Scan.ofLine line) session.begin).events := rfl
  have ran : (LineRun.feedAll (Scan.ofLine line) session.begin).fault = none := clean
  rw [printed, ← Event.numbers_acts, does.acts]
  rw [does.fault] at ran
  generalize Listing.read session.names line = raw at ran tokens mistake ⊢
  cases ended : raw.plan.ending with
  | error fault =>
    rw [ended] at ran
    cases (Outcome.andThen_clean ran).2.1
  | ok rest =>
    rw [ended] at ran
    obtain ⟨whole, kept⟩ := Listing.plan_ended ended .print
    have uncut : (Scan.ofLine line).mistake = none :=
      Option.map_eq_none_iff.mp (mistake.symm.trans whole)
    have parts (evaluation : Evaluation) :
        (Evaluation.performAll raw.names raw.plan.batches.flatten evaluation).andThen
            (Evaluation.conclude raw.names (.ok rest)) =
          (Evaluation.performAll raw.names (raw.plan.batches.flatten ++ rest) evaluation).andThen
            (Evaluation.close (some raw.names)) := by
      rw [Evaluation.performAll_append, Outcome.andThen_assoc]
      rfl
    rw [parts] at ran ⊢
    have performed := (Outcome.andThen_clean ran).1
    simp only [Outcome.andThen, performed, Outcome.following]
    rw [Event.numbers_append, Evaluation.numbers_close, List.append_nil,
      Evaluation.numbers_performAll performed, kept, tokens, Listing.occurrences_takeAll]
    exact Scan.occurrences_ofChars _ uncut

end LineCalc
