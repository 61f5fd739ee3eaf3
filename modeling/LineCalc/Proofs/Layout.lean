import LineCalc.Proofs.Cutting
import LineCalc.Proofs.Phrase
import Mathlib.Data.List.Chain

/-!
Lines as texts. A row of words is laid out with any blanks around and between its words; cutting the
text gives the words back, provided that no two of them that could run together meet.
-/

namespace LineCalc

/-- The text of a number, which can be read. -/
structure Numeral where
  text : List Char
  decimal : Decimal
  read : Decimal.read? text = some decimal

def Numeral.value (numeral : Numeral) : Number :=
  Number.ofDecimal numeral.decimal

/-- The text of a name, made of one or more letters. -/
structure Identifier where
  first : Char
  others : List Char
  letters : ∀ c ∈ first :: others, Text.isLetter c = true

def Identifier.spelling (identifier : Identifier) : String :=
  String.ofList (identifier.first :: identifier.others)

/-- What stands for an operand in a line. -/
inductive Literal where
  | numeral (numeral : Numeral)
  | identifier (identifier : Identifier)

/-- A lexeme before it is cut off. -/
inductive Word where
  | literal (literal : Literal)
  | symbol (symbol : Symbol)

namespace Word

def text : Word → List Char
  | literal (.numeral numeral) => numeral.text
  | literal (.identifier identifier) => identifier.first :: identifier.others
  | symbol s => [s.character]

def lexeme : Word → Lexeme
  | literal (.numeral numeral) => .number numeral.value
  | literal (.identifier identifier) => .word identifier.spelling
  | symbol s => .symbol s

/-- The word stands by itself, next to whatever word. -/
def isSymbol : Word → Bool
  | literal _ => false
  | symbol _ => true

end Word

/-- The text is made of the words, in order, and blanks. -/
inductive Layout : List Word → List Char → Prop where
  | ended {gap : List Char} (blank : ∀ c ∈ gap, Text.isBlank c = true) : Layout [] gap
  | word {gap text : List Char} {word : Word} {later : List Word}
      (blank : ∀ c ∈ gap, Text.isBlank c = true) (rest : Layout later text) :
      Layout (word :: later) (gap ++ (word.text ++ text))

/-- Two words that may stand next to each other without a blank. -/
def Word.MayMeet (first second : Word) : Prop :=
  first.isSymbol = true ∨ second.isSymbol = true

/-! A phrase has a symbol between any two operands. -/

theorem Word.isChain_cons {words : List Word} (symbol : Symbol)
    (chain : words.IsChain MayMeet) : (.symbol symbol :: words).IsChain MayMeet :=
  List.isChain_cons.mpr ⟨fun _ _ => .inl rfl, chain⟩

theorem Word.isChain_join {first second : List Word} (symbol : Symbol)
    (chain : first.IsChain MayMeet) (chainToo : second.IsChain MayMeet) :
    (first ++ .symbol symbol :: second).IsChain MayMeet := by
  refine List.isChain_append.mpr ⟨chain, Word.isChain_cons symbol chainToo, ?_⟩
  intro last _ next found
  cases found
  exact .inr rfl

section Chain

variable {α : Type} (literal : α → Literal)

mutual

theorem Phrase.isChain_written : ∀ phrase : Phrase α,
    (phrase.written (fun value => Word.literal (literal value)) Word.symbol).IsChain Word.MayMeet
  | .operand _ => List.isChain_singleton _
  | .binary op left right =>
    Word.isChain_join (.operator op.operator) left.isChain_written right.isChain_written
  | .printBefore phrase => Word.isChain_cons (.operator .print) phrase.isChain_written
  | .printAfter phrase =>
    Word.isChain_join (.operator .print) phrase.isChain_written List.isChain_nil
  | .brackets inside =>
    Word.isChain_cons .leftParen
      (Word.isChain_join .rightParen inside.isChain_written List.isChain_nil)

theorem Series.isChain_written : ∀ series : Series α,
    (series.written (fun value => Word.literal (literal value)) Word.symbol).IsChain Word.MayMeet
  | .last phrase => phrase.isChain_written
  | .empty later => Word.isChain_cons (.operator .semicolon) later.isChain_written
  | .statement phrase later =>
    Word.isChain_join (.operator .semicolon) phrase.isChain_written later.isChain_written

end

theorem Statement.isChain_written (statement : Statement α) :
    (statement.written (fun value => Word.literal (literal value)) Word.symbol).IsChain
      Word.MayMeet := by
  cases statement with
  | none => exact List.isChain_nil
  | some phrase => exact phrase.isChain_written literal

theorem Passage.isChain_written (passage : Passage α) :
    (passage.written (fun value => Word.literal (literal value)) Word.symbol).IsChain
      Word.MayMeet := by
  obtain ⟨ended, last⟩ := passage
  unfold written
  induction ended with
  | nil => exact last.isChain_written literal
  | cons statement later ih =>
    rw [List.flatMap_cons, List.append_assoc, List.append_assoc]
    exact Word.isChain_join (.operator .semicolon) (statement.isChain_written literal) ih

end Chain

/-! Cutting a text that is laid out. -/

theorem Numeral.text_eq (numeral : Numeral) :
    ∃ first others, numeral.text = first :: others ∧ Text.isDigit first = true ∧
      ∀ c ∈ others, Scan.isNumeralChar c = true := by
  obtain ⟨text, decimal, read⟩ := numeral
  have parts := List.takeWhile_append_dropWhile (p := Text.isDigit) (l := text)
  have whole := List.all_eq_true.mp (List.all_takeWhile (p := Text.isDigit) (l := text))
  unfold Decimal.read? at read
  cases digits : text.takeWhile Text.isDigit with
  | nil => simp [digits] at read
  | cons first others =>
    rw [digits] at parts whole
    refine ⟨first, others ++ text.dropWhile Text.isDigit, parts.symm,
      whole first List.mem_cons_self, fun c member => ?_⟩
    rcases List.mem_append.mp member with inside | behind
    · exact Scan.isNumeralChar_of_isDigit (whole c (List.mem_cons_of_mem _ inside))
    · cases rest : text.dropWhile Text.isDigit with
      | nil => simp [rest] at behind
      | cons point fraction =>
        simp only [digits, rest, List.isEmpty_cons, Bool.false_eq_true, if_false,
          Option.ite_none_right_eq_some, List.all_eq_true] at read
        rw [rest] at behind
        rcases List.mem_cons.mp behind with rfl | inFraction
        · simp [Scan.isNumeralChar, read.1.1]
        · exact Scan.isNumeralChar_of_isDigit (read.1.2 c inFraction)

/-- No character of the class stands at the head of the text. -/
def Stops (p : Char → Bool) (text : List Char) : Prop :=
  ∀ c rest, text = c :: rest → p c = false

theorem stops_nil (p : Char → Bool) : Stops p [] := by
  intro c rest same
  cases same

theorem takeWhile_run {p : Char → Bool} {run text : List Char} (all : ∀ c ∈ run, p c = true)
    (stops : Stops p text) :
    (run ++ text).takeWhile p = run ∧ (run ++ text).dropWhile p = text := by
  rw [List.takeWhile_append_of_pos all, List.dropWhile_append_of_pos all]
  cases text with
  | nil => simp
  | cons c rest => simp [stops c rest rfl]

theorem Scan.ofChars_gap {gap : List Char} (blank : ∀ c ∈ gap, Text.isBlank c = true)
    (position : Nat) (text : List Char) :
    ofChars position (gap ++ text) = ofChars (position + gap.length) text := by
  induction gap generalizing position with
  | nil => rfl
  | cons c rest ih =>
    rw [List.cons_append, ofChars_blank _ _ (blank c List.mem_cons_self),
      ih (fun d member => blank d (List.mem_cons_of_mem _ member)), List.length_cons,
      Nat.add_assoc, Nat.add_comm 1]

/-- Blanks end every run of another class; only where there are none does it matter what follows. -/
theorem stops_blank {p : Char → Bool} (apart : ∀ c, Text.isBlank c = true → p c = false)
    {gap text : List Char} (blank : ∀ c ∈ gap, Text.isBlank c = true)
    (stops : gap = [] → Stops p text) : Stops p (gap ++ text) := by
  cases gap with
  | nil => exact stops rfl
  | cons c rest =>
    intro d others same
    obtain ⟨rfl, -⟩ := List.cons.inj same
    exact apart c (blank c List.mem_cons_self)

theorem Scan.not_isNumeralChar_of_isBlank {c : Char} (blank : Text.isBlank c = true) :
    Scan.isNumeralChar c = false := by
  simp only [Scan.isNumeralChar, Text.not_isDigit_of_isBlank blank, Bool.false_or]
  rw [← Bool.not_eq_true, beq_iff_eq]
  rintro rfl
  exact absurd blank (by decide)

theorem Layout.stops {words : List Word} {text : List Char} (layout : Layout words text)
    (first : ∀ word later, words = word :: later → word.isSymbol = true) :
    Stops Text.isLetter text ∧ Stops Scan.isNumeralChar text := by
  cases layout with
  | @ended gap blank =>
    have letters := stops_blank (fun _ => Text.not_isLetter_of_isBlank) blank fun _ => stops_nil _
    have numerals :=
      stops_blank (fun _ => Scan.not_isNumeralChar_of_isBlank) blank fun _ => stops_nil _
    exact ⟨by simpa using letters, by simpa using numerals⟩
  | @word gap text word later blank rest =>
    rcases word with literal | symbol
    · exact absurd (first _ _ rfl) (by simp [Word.isSymbol])
    · obtain ⟨-, noLetter, noNumeral⟩ := symbol.character_apart
      refine ⟨stops_blank (fun _ => Text.not_isLetter_of_isBlank) blank ?_,
        stops_blank (fun _ => Scan.not_isNumeralChar_of_isBlank) blank ?_⟩
      · intro _ c others same
        obtain ⟨rfl, -⟩ := List.cons.inj same
        exact noLetter
      · intro _ c others same
        obtain ⟨rfl, -⟩ := List.cons.inj same
        exact noNumeral

theorem Word.ofChars (word : Word) {text : List Char}
    (stops : word.isSymbol = false → Stops Text.isLetter text ∧ Stops Scan.isNumeralChar text)
    (position : Nat) :
    Scan.ofChars position (word.text ++ text) =
      (Scan.ofChars (position + word.text.length) text).cons
        ⟨word.lexeme, ⟨position, (position + word.text.length : Nat)⟩⟩ := by
  rcases word with (numeral | identifier) | symbol
  case symbol => exact Scan.ofChars_symbol position text symbol
  case literal.numeral =>
    obtain ⟨first, others, chars, digit, run⟩ := numeral.text_eq
    obtain ⟨taken, dropped⟩ := takeWhile_run run (stops rfl).2
    have read : Decimal.read? (first :: (others ++ text).takeWhile Scan.isNumeralChar) =
        some numeral.decimal := by
      rw [taken, ← chars]
      exact numeral.read
    rw [Word.text, chars, List.cons_append, Scan.ofChars_numeral _ _ digit read, taken, dropped]
    rfl
  case literal.identifier =>
    obtain ⟨first, others, letters⟩ := identifier
    obtain ⟨taken, dropped⟩ := takeWhile_run
      (fun c member => letters c (List.mem_cons_of_mem _ member)) (stops rfl).1
    rw [Word.text, List.cons_append, Scan.ofChars_letter _ _ (letters first List.mem_cons_self),
      taken, dropped]
    rfl

/-- Cutting a text that is laid out gives its words and nothing else. -/
theorem Layout.ofChars {words : List Word} {text : List Char} (layout : Layout words text)
    (chain : words.IsChain Word.MayMeet) (position : Nat) :
    (Scan.ofChars position text).mistake = none ∧
      (Scan.ofChars position text).lexemes.map Spanned.value = words.map Word.lexeme := by
  induction layout generalizing position with
  | @ended gap blank =>
    have skipped := Scan.ofChars_gap blank position []
    rw [List.append_nil] at skipped
    rw [skipped, Scan.ofChars_nil]
    exact ⟨rfl, rfl⟩
  | @word gap text word later blank rest ih =>
    obtain ⟨meets, chainLater⟩ := List.isChain_cons.mp chain
    have stops (literal : word.isSymbol = false) :
        Stops Text.isLetter text ∧ Stops Scan.isNumeralChar text := by
      apply rest.stops
      intro next others same
      subst same
      simpa [Word.MayMeet, literal] using meets next rfl
    obtain ⟨noMistake, same⟩ := ih chainLater (position + gap.length + word.text.length)
    rw [Scan.ofChars_gap blank, word.ofChars stops]
    exact ⟨noMistake, congrArg (List.cons _) same⟩

end LineCalc
