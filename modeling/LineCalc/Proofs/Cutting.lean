import LineCalc.Lexeme

/-!
How a line falls apart into lexemes. The classes of characters do not overlap, each kind of lexeme
is cut off where its class ends, and a semicolon is a place where every line can be cut in two.
-/

namespace LineCalc

namespace Text

/-- The ranges that do not end below a code point. -/
def CodeRanges.reaching (ranges : CodeRanges) (low : Nat) : CodeRanges :=
  ranges.dropWhile fun range => decide (range.2 < low)

/-- No range of the first set meets a range of the second one. Both are gone through once. -/
def CodeRanges.apart : CodeRanges → CodeRanges → Bool
  | [], _ => true
  | (first, last) :: later, second =>
    match second.reaching first with
    | [] => true
    | range :: rest => decide (last < range.1) && CodeRanges.apart later (range :: rest)

theorem CodeRanges.contains_reaching {ranges : CodeRanges} {floor low code : Nat}
    (ascending : ranges.ascendingFrom floor = true) (above : low ≤ code) :
    (ranges.reaching low).contains code = ranges.contains code ∧
      ∃ bound, (ranges.reaching low).ascendingFrom bound = true := by
  induction ranges generalizing floor with
  | nil => exact ⟨rfl, 0, rfl⟩
  | cons range later ih =>
    have parts := ascending
    simp only [ascendingFrom, Bool.and_eq_true, decide_eq_true_eq] at parts
    rw [reaching, List.dropWhile_cons]
    split
    next below =>
      have passed : range.2 < low := of_decide_eq_true below
      obtain ⟨same, bound⟩ := ih parts.2
      refine ⟨same.trans ?_, bound⟩
      simp [contains, show range.1 ≤ code by omega, show ¬ code ≤ range.2 by omega]
    next => exact ⟨rfl, floor, ascending⟩

theorem CodeRanges.not_contains_of_apart {first second : CodeRanges} {floor bound code : Nat}
    (apart : first.apart second = true) (ascending : first.ascendingFrom floor = true)
    (ascendingToo : second.ascendingFrom bound = true) (found : first.contains code = true) :
    second.contains code = false := by
  induction first generalizing second floor bound with
  | nil => simp [contains] at found
  | cons range later ih =>
    simp only [ascendingFrom, Bool.and_eq_true, decide_eq_true_eq] at ascending
    simp only [contains, Bool.and_eq_true, Bool.or_eq_true, decide_eq_true_eq] at found
    obtain ⟨same, low, rises⟩ := contains_reaching ascendingToo found.1
    rw [← same]
    rw [CodeRanges.apart] at apart
    cases rest : second.reaching range.1 with
    | nil => rfl
    | cons next others =>
      rw [rest] at rises
      simp only [rest, Bool.and_eq_true, decide_eq_true_eq] at apart
      rcases found.2 with inside | beyond
      · simp [contains, show ¬ next.1 ≤ code by omega]
      · exact ih apart.2 ascending.2 rises beyond

theorem classes_ascending : blankRanges.ascendingFrom 0 = true ∧
    letterRanges.ascendingFrom 0 = true ∧ digitRanges.ascendingFrom 0 = true := by
  decide +kernel

theorem classes_apart : blankRanges.apart letterRanges = true ∧
    blankRanges.apart digitRanges = true ∧ digitRanges.apart letterRanges = true := by
  decide +kernel

variable {c : Char}

theorem not_isLetter_of_isBlank (blank : isBlank c = true) : isLetter c = false :=
  CodeRanges.not_contains_of_apart classes_apart.1 classes_ascending.1 classes_ascending.2.1 blank

theorem not_isDigit_of_isBlank (blank : isBlank c = true) : isDigit c = false :=
  CodeRanges.not_contains_of_apart classes_apart.2.1 classes_ascending.1 classes_ascending.2.2 blank

theorem not_isBlank_of_isLetter (letter : isLetter c = true) : isBlank c = false := by
  cases blank : isBlank c with
  | false => rfl
  | true => rw [not_isLetter_of_isBlank blank] at letter; cases letter

theorem not_isBlank_of_isDigit (digit : isDigit c = true) : isBlank c = false := by
  cases blank : isBlank c with
  | false => rfl
  | true => rw [not_isDigit_of_isBlank blank] at digit; cases digit

theorem not_isLetter_of_isDigit (digit : isDigit c = true) : isLetter c = false :=
  CodeRanges.not_contains_of_apart classes_apart.2.2 classes_ascending.2.2 classes_ascending.2.1
    digit

end Text

theorem Symbol.character_apart (symbol : Symbol) :
    Text.isBlank symbol.character = false ∧ Text.isLetter symbol.character = false ∧
      Scan.isNumeralChar symbol.character = false := by
  rcases symbol with (_ | op | _ | _) | _ | _
  case operator.arithmetic => cases op <;> decide +kernel
  all_goals decide +kernel

theorem Symbol.character_ofChar? {c : Char} {symbol : Symbol}
    (found : Symbol.ofChar? c = some symbol) : c = symbol.character := by
  unfold Symbol.ofChar? at found
  split at found <;> cases found <;> rfl

theorem Scan.isNumeralChar_of_isDigit {c : Char} (digit : Text.isDigit c = true) :
    Scan.isNumeralChar c = true := by
  simp [Scan.isNumeralChar, digit]

theorem Scan.not_isDigit_of_not_isNumeralChar {c : Char} (other : Scan.isNumeralChar c = false) :
    Text.isDigit c = false := by
  simp only [Scan.isNumeralChar, Bool.or_eq_false_iff] at other
  exact other.1

namespace Scan

variable (position : Nat) {c : Char} (rest : List Char)

theorem ofChars_blank (blank : Text.isBlank c = true) :
    ofChars position (c :: rest) = ofChars (position + 1) rest := by
  rw [ofChars, if_pos blank]

theorem ofChars_letter (letter : Text.isLetter c = true) :
    ofChars position (c :: rest) =
      (ofChars (position + (c :: rest.takeWhile Text.isLetter).length)
        (rest.dropWhile Text.isLetter)).cons
        ⟨.word (String.ofList (c :: rest.takeWhile Text.isLetter)),
          ⟨position, (position + (c :: rest.takeWhile Text.isLetter).length : Nat)⟩⟩ := by
  rw [ofChars, if_neg (by simp [Text.not_isBlank_of_isLetter letter]), if_pos letter]

theorem ofChars_numeral (digit : Text.isDigit c = true) {decimal : Decimal}
    (read : Decimal.read? (c :: rest.takeWhile isNumeralChar) = some decimal) :
    ofChars position (c :: rest) =
      (ofChars (position + (c :: rest.takeWhile isNumeralChar).length)
        (rest.dropWhile isNumeralChar)).cons
        ⟨.number (Number.ofDecimal decimal),
          ⟨position, (position + (c :: rest.takeWhile isNumeralChar).length : Nat)⟩⟩ := by
  rw [ofChars, if_neg (by simp [Text.not_isBlank_of_isDigit digit]),
    if_neg (by simp [Text.not_isLetter_of_isDigit digit]), if_pos digit]
  simp only [read]

theorem ofChars_unread (digit : Text.isDigit c = true)
    (unread : Decimal.read? (c :: rest.takeWhile isNumeralChar) = none) :
    ofChars position (c :: rest) =
      ⟨[], some ⟨.invalidNumberLiteral (String.ofList (c :: rest.takeWhile isNumeralChar)),
        ⟨position, (position + (c :: rest.takeWhile isNumeralChar).length : Nat)⟩⟩⟩ := by
  rw [ofChars, if_neg (by simp [Text.not_isBlank_of_isDigit digit]),
    if_neg (by simp [Text.not_isLetter_of_isDigit digit]), if_pos digit]
  simp only [unread]

theorem ofChars_symbol (symbol : Symbol) :
    ofChars position (symbol.character :: rest) =
      (ofChars (position + 1) rest).cons
        ⟨.symbol symbol, ⟨position, (position + 1 : Nat)⟩⟩ := by
  obtain ⟨noBlank, noLetter, noNumeral⟩ := symbol.character_apart
  rw [ofChars, if_neg (by simp [noBlank]), if_neg (by simp [noLetter]),
    if_neg (by simp [not_isDigit_of_not_isNumeralChar noNumeral]), Symbol.ofChar?_character]
  rfl

theorem ofChars_other (noBlank : ¬ Text.isBlank c = true) (noLetter : ¬ Text.isLetter c = true)
    (noDigit : ¬ Text.isDigit c = true) (noSymbol : Symbol.ofChar? c = none) :
    ofChars position (c :: rest) =
      ⟨[], some ⟨.unexpectedCharacter c, ⟨position, (position + 1 : Nat)⟩⟩⟩ := by
  rw [ofChars, if_neg noBlank, if_neg noLetter, if_neg noDigit, noSymbol]
  rfl

/-! A run of characters of one class ends at the first character outside of the class, whatever comes
behind that. -/

variable {p : Char → Bool}

theorem takeWhile_stop (stop : p c = false) (first second : List Char) :
    (first ++ c :: second).takeWhile p = first.takeWhile p := by
  induction first with
  | nil => simp [stop]
  | cons head later ih =>
    rw [List.cons_append, List.takeWhile_cons, List.takeWhile_cons, ih]

theorem dropWhile_stop (stop : p c = false) (first second : List Char) :
    (first ++ c :: second).dropWhile p = first.dropWhile p ++ c :: second := by
  induction first with
  | nil => simp [stop]
  | cons head later ih =>
    rw [List.cons_append, List.dropWhile_cons, List.dropWhile_cons, ih]
    split <;> rfl

/-- The lexemes of a second text behind those of a first one; a mistake of the first text hides the
second one. -/
def followedBy (first second : Scan) : Scan :=
  match first.mistake with
  | some _ => first
  | none => ⟨first.lexemes ++ second.lexemes, second.mistake⟩

theorem cons_followedBy (lexeme : Spanned Lexeme) (first second : Scan) :
    (first.cons lexeme).followedBy second = (first.followedBy second).cons lexeme := by
  obtain ⟨lexemes, _ | mistake⟩ := first <;> rfl

def atSemicolon (position : Nat) (text : List Char) : Scan :=
  (ofChars (position + 1) text).cons
    ⟨.symbol (.operator .semicolon), ⟨position, (position + 1 : Nat)⟩⟩

/-- A text with a semicolon is cut as what is before and what is behind the semicolon. -/
theorem ofChars_semicolon (position : Nat) (first second : List Char) :
    ofChars position (first ++ ';' :: second) =
      (ofChars position first).followedBy (atSemicolon (position + first.length) second) := by
  have noLetter : Text.isLetter ';' = false := (Symbol.character_apart (.operator .semicolon)).2.1
  have noNumeral : isNumeralChar ';' = false := (Symbol.character_apart (.operator .semicolon)).2.2
  -- A lexeme and what is behind it have the length of the whole.
  have place (q : Char → Bool) (text : List Char) (c : Char) (start : Nat) :
      start + (c :: text.takeWhile q).length + (text.dropWhile q).length =
        start + (c :: text).length := by
    rw [List.length_cons, List.length_cons]
    conv => rhs; rw [← List.takeWhile_append_dropWhile (p := q) (l := text), List.length_append]
    omega
  induction position, first using ofChars.induct with
  | case1 position =>
    rw [List.nil_append, ofChars_nil]
    exact ofChars_symbol position second (.operator .semicolon)
  | case2 position c rest blank ih =>
    rw [List.cons_append, ofChars_blank _ _ blank, ofChars_blank _ _ blank, ih]
    simp only [List.length_cons, Nat.add_assoc, Nat.add_comm 1]
  | case3 position c rest _ letter word stop ih =>
    rw [List.cons_append, ofChars_letter _ _ letter, ofChars_letter _ _ letter,
      takeWhile_stop noLetter, dropWhile_stop noLetter, cons_followedBy, ih,
      ← place Text.isLetter rest c position]
  | case4 position c rest _ _ digit numeral stop decimal read ih =>
    have readToo : Decimal.read? (c :: (rest ++ ';' :: second).takeWhile isNumeralChar) =
        some decimal := by
      rw [takeWhile_stop noNumeral]
      exact read
    rw [List.cons_append, ofChars_numeral _ _ digit read, ofChars_numeral _ _ digit readToo,
      takeWhile_stop noNumeral, dropWhile_stop noNumeral, cons_followedBy, ih,
      ← place isNumeralChar rest c position]
  | case5 position c rest _ _ digit numeral unread =>
    have unreadToo : Decimal.read? (c :: (rest ++ ';' :: second).takeWhile isNumeralChar) =
        none := by
      rw [takeWhile_stop noNumeral]
      exact unread
    rw [List.cons_append, ofChars_unread _ _ digit unread, ofChars_unread _ _ digit unreadToo,
      takeWhile_stop noNumeral]
    rfl
  | case6 position c rest _ _ _ symbol found ih =>
    obtain rfl := Symbol.character_ofChar? found
    rw [List.cons_append, ofChars_symbol, ofChars_symbol, cons_followedBy, ih]
    simp only [List.length_cons, Nat.add_assoc, Nat.add_comm 1]
  | case7 position c rest noBlank noLetter noDigit noSymbol =>
    rw [List.cons_append, ofChars_other _ _ noBlank noLetter noDigit noSymbol,
      ofChars_other _ _ noBlank noLetter noDigit noSymbol]
    rfl

end Scan

/-- The same place in a text that stands `distance` further on in its line. -/
def Span.shift (distance : Int) (span : Span) : Span :=
  ⟨span.start + distance, span.stop + distance⟩

def Spanned.shift {α : Type} (distance : Int) (item : Spanned α) : Spanned α :=
  ⟨item.value, item.span.shift distance⟩

def CalcError.shift (distance : Int) (error : CalcError) : CalcError :=
  ⟨error.cause, error.span.shift distance⟩

namespace Scan

def shift (distance : Int) (scan : Scan) : Scan :=
  ⟨scan.lexemes.map (Spanned.shift distance), scan.mistake.map (CalcError.shift distance)⟩

theorem cons_shift (distance : Int) (lexeme : Spanned Lexeme) (scan : Scan) :
    (scan.cons lexeme).shift distance = (scan.shift distance).cons (lexeme.shift distance) :=
  rfl

/-- Where a text stands in its line has no part in how it is cut. -/
theorem ofChars_shift (distance position : Nat) (text : List Char) :
    ofChars (position + distance) text = (ofChars position text).shift distance := by
  have span (start stop : Nat) : Span.shift distance ⟨start, stop⟩ =
      ⟨(start + distance : Nat), (stop + distance : Nat)⟩ := by
    simp [Span.shift]
  induction position, text using ofChars.induct with
  | case1 position =>
    rw [ofChars_nil, ofChars_nil]
    rfl
  | case2 position c rest blank ih =>
    rw [ofChars_blank _ _ blank, ofChars_blank _ _ blank, ← ih, Nat.add_right_comm]
  | case3 position c rest _ letter word stop ih =>
    rw [ofChars_letter _ _ letter, ofChars_letter _ _ letter, cons_shift, ← ih, Spanned.shift,
      span, Nat.add_right_comm]
  | case4 position c rest _ _ digit numeral stop decimal read ih =>
    rw [ofChars_numeral _ _ digit read, ofChars_numeral _ _ digit read, cons_shift, ← ih,
      Spanned.shift, span, Nat.add_right_comm]
  | case5 position c rest _ _ digit numeral unread =>
    rw [ofChars_unread _ _ digit unread, ofChars_unread _ _ digit unread, shift, Option.map_some,
      CalcError.shift, span, Nat.add_right_comm]
    rfl
  | case6 position c rest _ _ _ symbol found ih =>
    obtain rfl := Symbol.character_ofChar? found
    rw [ofChars_symbol, ofChars_symbol, cons_shift, ← ih, Spanned.shift, span, Nat.add_right_comm]
  | case7 position c rest noBlank noLetter noDigit noSymbol =>
    rw [ofChars_other _ _ noBlank noLetter noDigit noSymbol,
      ofChars_other _ _ noBlank noLetter noDigit noSymbol, shift, Option.map_some,
      CalcError.shift, span, Nat.add_right_comm]
    rfl

/-- Lexemes are not empty and stay inside the text. -/
theorem ofChars_within (position : Nat) (text : List Char) :
    ∀ lexeme ∈ (ofChars position text).lexemes, (position : Int) ≤ lexeme.span.start ∧
      lexeme.span.start < lexeme.span.stop ∧ lexeme.span.stop ≤ (position + text.length : Nat) := by
  have run (q : Char → Bool) (rest : List Char) :
      (rest.takeWhile q).length + (rest.dropWhile q).length = rest.length := by
    rw [← List.length_append, List.takeWhile_append_dropWhile]
  induction position, text using ofChars.induct with
  | case1 position =>
    rw [ofChars_nil]
    simp
  | case2 position c rest blank ih =>
    rw [ofChars_blank _ _ blank]
    intro lexeme member
    have bounds := ih lexeme member
    simp only [List.length_cons]
    omega
  | case3 position c rest _ letter word stop ih =>
    rw [ofChars_letter _ _ letter]
    intro lexeme member
    have length := run Text.isLetter rest
    rcases List.mem_cons.mp member with rfl | behind
    · simp only [List.length_cons]
      omega
    · have bounds := ih lexeme behind
      simp only [stop, word, List.length_cons] at bounds ⊢
      omega
  | case4 position c rest _ _ digit numeral stop decimal read ih =>
    rw [ofChars_numeral _ _ digit read]
    intro lexeme member
    have length := run isNumeralChar rest
    rcases List.mem_cons.mp member with rfl | behind
    · simp only [List.length_cons]
      omega
    · have bounds := ih lexeme behind
      simp only [stop, numeral, List.length_cons] at bounds ⊢
      omega
  | case5 position c rest _ _ digit numeral unread =>
    rw [ofChars_unread _ _ digit unread]
    simp
  | case6 position c rest _ _ _ symbol found ih =>
    obtain rfl := Symbol.character_ofChar? found
    rw [ofChars_symbol]
    intro lexeme member
    rcases List.mem_cons.mp member with rfl | behind
    · simp only [List.length_cons]
      omega
    · have bounds := ih lexeme behind
      simp only [List.length_cons]
      omega
  | case7 position c rest noBlank noLetter noDigit noSymbol =>
    rw [ofChars_other _ _ noBlank noLetter noDigit noSymbol]
    simp

/-- What cutting finds wrong is neither about structure nor about a value. -/
theorem ofChars_mistake {position : Nat} {text : List Char} {error : CalcError}
    (found : (ofChars position text).mistake = some error) : error.cause.family = .lexical := by
  induction position, text using ofChars.induct with
  | case1 position =>
    rw [ofChars_nil] at found
    cases found
  | case2 position c rest blank ih =>
    rw [ofChars_blank _ _ blank] at found
    exact ih found
  | case3 position c rest _ letter word stop ih =>
    rw [ofChars_letter _ _ letter] at found
    exact ih found
  | case4 position c rest _ _ digit numeral stop decimal read ih =>
    rw [ofChars_numeral _ _ digit read] at found
    exact ih found
  | case5 position c rest _ _ digit numeral unread =>
    rw [ofChars_unread _ _ digit unread] at found
    cases found
    rfl
  | case6 position c rest _ _ _ symbol matched ih =>
    obtain rfl := Symbol.character_ofChar? matched
    rw [ofChars_symbol] at found
    exact ih found
  | case7 position c rest noBlank noLetter noDigit noSymbol =>
    rw [ofChars_other _ _ noBlank noLetter noDigit noSymbol] at found
    cases found
    rfl

end Scan

end LineCalc
