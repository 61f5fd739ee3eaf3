import LineCalc.Proofs.Interpretation
import Mathlib.Data.List.Forall2
import Mathlib.Data.List.TakeWhile

/-!
What a line is cut into, told without a scanner: pieces of the text, each as long as it can be, with
nothing but blanks around them. The scanner finds these pieces, there are no others, and the names
that are known behind each of them are the old ones and then the new spellings among the pieces.
-/

namespace LineCalc

/-! The pieces of a text. -/

/-- A piece of a text with characters of one class only that goes on neither to the left nor to the
right. -/
structure MaximalRun (p : Char → Bool) (before after piece : List Char) : Prop where
  inhabited : piece ≠ []
  inside : ∀ c ∈ piece, p c = true
  left : Stops p before.reverse
  right : Stops p after

/-- A maximal run of digits and points that starts with a digit. -/
structure NumeralRun (before after piece : List Char) : Prop
    extends MaximalRun Scan.isNumeralChar before after piece where
  starts : piece.head?.any Text.isDigit = true

/-- The decimal that a piece of digits with at most one point among them is the written form of. -/
def Decimal.written (piece : List Char) : Decimal :=
  ⟨valueOf (piece.filter Text.isDigit), -((piece.dropWhile Text.isDigit).tail.length : Int)⟩

def Span.behind (before piece : List Char) : Span :=
  ⟨before.length, (before ++ piece).length⟩

/-- The token that a piece of a text stands for. -/
inductive Piece (names : NameTable) (before after : List Char) : List Char → RawToken → Prop where
  | name {piece : List Char} {handle : Handle}
      (run : MaximalRun Text.isLetter before after piece)
      (stands : names.Stands handle (String.ofList piece)) :
      Piece names before after piece (.name handle)
  | number {piece : List Char} (run : NumeralRun before after piece)
      (points : piece.count '.' ≤ 1) :
      Piece names before after piece (.number (Number.ofDecimal (Decimal.written piece)))
  | symbol (symbol : Symbol) : Piece names before after [symbol.character] (.symbol symbol)

/-- The tokens and the mistake that a text falls apart into behind what stands before it. -/
inductive Segmentation (names : NameTable) :
    List Char → List Char → List (Spanned RawToken) → Option CalcError → Prop where
  | ended {before : List Char} : Segmentation names before [] [] none
  | blank {before after : List Char} {c : Char} {tokens : List (Spanned RawToken)}
      {mistake : Option CalcError} (blank : Text.isBlank c = true)
      (rest : Segmentation names (before ++ [c]) after tokens mistake) :
      Segmentation names before (c :: after) tokens mistake
  | token {before after piece : List Char} {value : RawToken} {tokens : List (Spanned RawToken)}
      {mistake : Option CalcError} (whole : Piece names before after piece value)
      (rest : Segmentation names (before ++ piece) after tokens mistake) :
      Segmentation names before (piece ++ after) (⟨value, .behind before piece⟩ :: tokens) mistake
  | unexpected {before after : List Char} {c : Char} (noBlank : Text.isBlank c = false)
      (noLetter : Text.isLetter c = false) (noDigit : Text.isDigit c = false)
      (noSymbol : ∀ symbol : Symbol, c ≠ symbol.character) :
      Segmentation names before (c :: after) []
        (some ⟨.unexpectedCharacter c, .behind before [c]⟩)
  | invalid {before after piece : List Char} (run : NumeralRun before after piece)
      (points : 2 ≤ piece.count '.') :
      Segmentation names before (piece ++ after) []
        (some ⟨.invalidNumberLiteral (String.ofList piece), .behind before piece⟩)

/-! Numerals can be read if they have at most one point. -/

namespace Decimal

variable {front fraction : List Char}

theorem count_point_digits (digits : ∀ c ∈ front, Text.isDigit c = true) :
    front.count '.' = 0 := by
  rw [List.count_eq_zero]
  intro member
  exact absurd (digits _ member) (by decide)

theorem stops_point (fraction : List Char) : Stops Text.isDigit ('.' :: fraction) := by
  intro c rest same
  cases same
  decide

theorem read?_digits (inhabited : front ≠ []) (digits : ∀ c ∈ front, Text.isDigit c = true) :
    read? front = some (ofDigits front []) := by
  obtain ⟨taken, dropped⟩ := takeWhile_run digits (stops_nil Text.isDigit)
  rw [List.append_nil] at taken dropped
  simp only [read?, taken, dropped]
  simp [inhabited]

theorem read?_point (inhabited : front ≠ []) (digits : ∀ c ∈ front, Text.isDigit c = true) :
    read? (front ++ '.' :: fraction) =
      if fraction.all Text.isDigit then some (ofDigits front fraction) else none := by
  obtain ⟨taken, dropped⟩ := takeWhile_run digits (stops_point fraction)
  simp only [read?, taken, dropped]
  simp [inhabited]

theorem written_digits (digits : ∀ c ∈ front, Text.isDigit c = true) :
    written front = ofDigits front [] := by
  have none : front.dropWhile Text.isDigit = [] := List.dropWhile_eq_nil_iff.mpr digits
  simp [written, ofDigits, none, List.filter_eq_self.mpr digits]

theorem written_point (digits : ∀ c ∈ front, Text.isDigit c = true)
    (more : ∀ c ∈ fraction, Text.isDigit c = true) :
    written (front ++ '.' :: fraction) = ofDigits front fraction := by
  have point : Text.isDigit '.' = false := by decide
  simp [written, ofDigits, (takeWhile_run digits (stops_point fraction)).2, point,
    List.filter_eq_self.mpr digits, List.filter_eq_self.mpr more]

theorem digits_or_point {piece : List Char} (starts : piece.head?.any Text.isDigit = true)
    (run : ∀ c ∈ piece, Scan.isNumeralChar c = true) :
    (∀ c ∈ piece, Text.isDigit c = true) ∨
      ∃ front fraction, piece = front ++ '.' :: fraction ∧ front ≠ [] ∧
        ∀ c ∈ front, Text.isDigit c = true := by
  have parts := List.takeWhile_append_dropWhile (p := Text.isDigit) (l := piece)
  have front := List.all_eq_true.mp (List.all_takeWhile (p := Text.isDigit) (l := piece))
  have head := List.head?_dropWhile_not Text.isDigit piece
  cases back : piece.dropWhile Text.isDigit with
  | nil => exact .inl (List.dropWhile_eq_nil_iff.mp back)
  | cons point fraction =>
    rw [back] at parts head
    obtain rfl : point = '.' := by
      have inside := run point (by rw [← parts]; simp)
      have noDigit : Text.isDigit point = false := head
      simpa [Scan.isNumeralChar, noDigit] using inside
    refine .inr ⟨piece.takeWhile Text.isDigit, fraction, parts.symm, fun none => ?_, front⟩
    cases piece with
    | nil => cases starts
    | cons first others =>
      have digit : Text.isDigit first = true := starts
      simp [digit] at none

theorem read?_run {piece : List Char} (starts : piece.head?.any Text.isDigit = true)
    (run : ∀ c ∈ piece, Scan.isNumeralChar c = true) :
    read? piece = if piece.count '.' ≤ 1 then some (written piece) else none := by
  have inhabited : piece ≠ [] := by
    rintro rfl
    cases starts
  rcases digits_or_point starts run with digits | ⟨front, fraction, rfl, some, digits⟩
  · rw [read?_digits inhabited digits, written_digits digits,
      if_pos (by rw [count_point_digits digits]; exact Nat.zero_le 1)]
  · have points : (front ++ '.' :: fraction).count '.' = fraction.count '.' + 1 := by
      rw [List.count_append, count_point_digits digits, List.count_cons_self, Nat.zero_add]
    rw [read?_point some digits, points]
    by_cases more : ∀ c ∈ fraction, Text.isDigit c = true
    · rw [if_pos (List.all_eq_true.mpr more), if_pos (by rw [count_point_digits more]),
        written_point digits more]
    · have second : 0 < fraction.count '.' := by
        rw [List.count_pos_iff]
        push Not at more
        obtain ⟨c, member, noDigit⟩ := more
        have inside := run c (by simp [member])
        obtain rfl : c = '.' := by simpa [Scan.isNumeralChar, noDigit] using inside
        exact member
      rw [if_neg (by rw [List.all_eq_true]; exact more), if_neg (by omega)]

end Decimal

/-! The scanner finds the pieces, and no others. -/

/-- The token that a lexeme is taken in as. -/
inductive Lexeme.Denotes (names : NameTable) : Lexeme → RawToken → Prop where
  | number (value : Number) : Denotes names (.number value) (.number value)
  | word {text : String} {handle : Handle} (stands : names.Stands handle text) :
      Denotes names (.word text) (.name handle)
  | symbol (symbol : Symbol) : Denotes names (.symbol symbol) (.symbol symbol)

/-- The tokens that lexemes are taken in as, each in its place. -/
def Lexeme.DenoteAll (names : NameTable) :
    List (Spanned Lexeme) → List (Spanned RawToken) → Prop :=
  List.Forall₂ fun lexeme token =>
    lexeme.span = token.span ∧ lexeme.value.Denotes names token.value

theorem Lexeme.denoteAll_cons {names : NameTable} {lexeme : Spanned Lexeme}
    {later : List (Spanned Lexeme)} {tokens : List (Spanned RawToken)} :
    DenoteAll names (lexeme :: later) tokens ↔ ∃ value others,
      tokens = ⟨value, lexeme.span⟩ :: others ∧ lexeme.value.Denotes names value ∧
        DenoteAll names later others := by
  constructor
  · intro all
    cases all with
    | @cons _ token _ others first rest =>
      obtain ⟨value, span⟩ := token
      obtain ⟨rfl, denotes⟩ := first
      exact ⟨value, others, rfl, denotes, rest⟩
  · rintro ⟨value, others, rfl, denotes, rest⟩
    exact .cons ⟨rfl, denotes⟩ rest

variable {names : NameTable} {before after piece text : List Char}
  {tokens : List (Spanned RawToken)} {mistake : Option CalcError}

theorem MaximalRun.exists_cons {p : Char → Bool} (run : MaximalRun p before after piece) :
    ∃ first others, piece = first :: others ∧ p first = true ∧
      (others ++ after).takeWhile p = others ∧ (others ++ after).dropWhile p = after := by
  obtain ⟨first, others, rfl⟩ := List.exists_cons_of_ne_nil run.inhabited
  exact ⟨first, others, rfl, run.inside first List.mem_cons_self,
    takeWhile_run (fun c member => run.inside c (List.mem_cons_of_mem _ member)) run.right⟩

theorem NumeralRun.exists_cons (run : NumeralRun before after piece) :
    ∃ first others, piece = first :: others ∧ Text.isDigit first = true ∧
      (others ++ after).takeWhile Scan.isNumeralChar = others ∧
      (others ++ after).dropWhile Scan.isNumeralChar = after := by
  obtain ⟨first, others, rfl, -, taken, dropped⟩ := run.toMaximalRun.exists_cons
  exact ⟨first, others, rfl, run.starts, taken, dropped⟩

theorem Piece.ofChars {value : RawToken} (whole : Piece names before after piece value) :
    ∃ lexeme : Lexeme, lexeme.Denotes names value ∧
      Scan.ofChars before.length (piece ++ after) =
        (Scan.ofChars (before ++ piece).length after).cons ⟨lexeme, .behind before piece⟩ := by
  rw [Span.behind, List.length_append]
  cases whole with
  | name run stands =>
    obtain ⟨first, others, rfl, letter, taken, dropped⟩ := run.exists_cons
    refine ⟨.word (String.ofList (first :: others)), .word stands, ?_⟩
    rw [List.cons_append, Scan.ofChars_letter _ _ letter, taken, dropped]
  | number run points =>
    have read := Decimal.read?_run run.starts run.inside
    rw [if_pos points] at read
    obtain ⟨first, others, rfl, digit, taken, dropped⟩ := run.exists_cons
    refine ⟨.number (Number.ofDecimal (Decimal.written (first :: others))), .number _, ?_⟩
    rw [List.cons_append, Scan.ofChars_numeral _ _ digit (by rw [taken]; exact read), taken,
      dropped]
  | symbol symbol =>
    refine ⟨.symbol symbol, .symbol symbol, ?_⟩
    rw [List.singleton_append, Scan.ofChars_symbol]
    rfl

/-- Pieces that are told without the scanner are those that it finds. -/
theorem Segmentation.ofChars (segmentation : Segmentation names before text tokens mistake) :
    mistake = (Scan.ofChars before.length text).mistake ∧
      Lexeme.DenoteAll names (Scan.ofChars before.length text).lexemes tokens := by
  induction segmentation with
  | ended =>
    rw [Scan.ofChars_nil]
    exact ⟨rfl, .nil⟩
  | blank blank rest ih =>
    rw [List.length_append] at ih
    rwa [Scan.ofChars_blank _ _ blank]
  | token whole rest ih =>
    obtain ⟨lexeme, denotes, cut⟩ := whole.ofChars
    rw [cut]
    exact ⟨ih.1, .cons ⟨rfl, denotes⟩ ih.2⟩
  | @unexpected before after c noBlank noLetter noDigit noSymbol =>
    have unknown : Symbol.ofChar? c = none := by
      cases found : Symbol.ofChar? c with
      | none => rfl
      | some symbol => exact absurd (Symbol.character_ofChar? found) (noSymbol symbol)
    rw [Scan.ofChars_other _ _ (by simp [noBlank]) (by simp [noLetter]) (by simp [noDigit]) unknown,
      Span.behind, List.length_append]
    exact ⟨rfl, .nil⟩
  | invalid run points =>
    have unread := Decimal.read?_run run.starts run.inside
    rw [if_neg (by omega)] at unread
    obtain ⟨first, others, rfl, digit, taken, dropped⟩ := run.exists_cons
    rw [List.cons_append, Scan.ofChars_unread _ _ digit (by rw [taken]; exact unread), taken,
      Span.behind, List.length_append]
    exact ⟨rfl, .nil⟩

/-- A cut between two texts does not go through a run of the class. -/
def Parted (p : Char → Bool) (before text : List Char) : Prop :=
  Stops p before.reverse ∨ Stops p text

theorem stops_reverse_append {p : Char → Bool} (inhabited : piece ≠ [])
    (outside : ∀ c ∈ piece, p c = false) : Stops p (before ++ piece).reverse := by
  obtain ⟨first, others, turned⟩ :=
    List.exists_cons_of_ne_nil (List.reverse_ne_nil_iff.mpr inhabited)
  intro c rest same
  rw [List.reverse_append, turned] at same
  obtain ⟨rfl, -⟩ := List.cons.inj same
  exact outside first (List.mem_reverse.mp (turned ▸ List.mem_cons_self))

theorem Parted.left {p : Char → Bool} {c : Char} {rest : List Char}
    (parted : Parted p before (c :: rest)) (inside : p c = true) : Stops p before.reverse := by
  rcases parted with left | right
  · exact left
  · rw [right c rest rfl] at inside
    cases inside

theorem stops_dropWhile (p : Char → Bool) (text : List Char) : Stops p (text.dropWhile p) := by
  intro c rest same
  have head := List.head?_dropWhile_not p text
  rw [same] at head
  exact head

theorem Text.not_isNumeralChar_of_isLetter {c : Char} (letter : isLetter c = true) :
    Scan.isNumeralChar c = false := by
  rw [← Bool.not_eq_true]
  intro numeral
  rcases Bool.or_eq_true_iff.mp numeral with digit | point
  · rw [not_isLetter_of_isDigit digit] at letter
    cases letter
  · obtain rfl : c = '.' := beq_iff_eq.mp point
    exact absurd letter (by decide +kernel)

theorem Text.not_isLetter_of_isNumeralChar {c : Char} (numeral : Scan.isNumeralChar c = true) :
    isLetter c = false := by
  rw [← Bool.not_eq_true]
  intro letter
  rw [not_isNumeralChar_of_isLetter letter] at numeral
  cases numeral

theorem Span.behind_eq (before piece : List Char) :
    Span.behind before piece = ⟨before.length, (before.length + piece.length : Nat)⟩ := by
  rw [behind, List.length_append]

section Runs

variable (p : Char → Bool) (before : List Char) {c : Char} (rest : List Char)

/-- A run that starts where none goes on, and is taken as far as it goes, cannot be longer. -/
theorem maximalRun_takeWhile (inside : p c = true) (parted : Parted p before (c :: rest)) :
    MaximalRun p before (rest.dropWhile p) (c :: rest.takeWhile p) where
  inhabited := List.cons_ne_nil _ _
  inside := List.forall_mem_cons.mpr ⟨inside, List.all_eq_true.mp List.all_takeWhile⟩
  left := parted.left inside
  right := stops_dropWhile p rest

theorem parted_dropWhile : Parted p (before ++ c :: rest.takeWhile p) (rest.dropWhile p) :=
  .inr (stops_dropWhile p rest)

theorem MaximalRun.parted {q : Char → Bool} (run : MaximalRun p before after piece)
    (apart : ∀ c, p c = true → q c = false) : Parted q (before ++ piece) after :=
  .inl (stops_reverse_append run.inhabited fun c member => apart c (run.inside c member))

end Runs

/-- Where no run goes on from what stands before, the pieces that the scanner finds are pieces of the
text. -/
theorem segmentation_ofChars (position : Nat) (text before : List Char)
    (place : before.length = position) (letters : Parted Text.isLetter before text)
    (numerals : Parted Scan.isNumeralChar before text) (tokens : List (Spanned RawToken))
    (denote : Lexeme.DenoteAll names (Scan.ofChars position text).lexemes tokens) :
    Segmentation names before text tokens (Scan.ofChars position text).mistake := by
  have alone {p : Char → Bool} {c : Char} {rest : List Char} (before : List Char)
      (outside : p c = false) : Parted p (before ++ [c]) rest :=
    .inl (stops_reverse_append (by simp) (by simpa using outside))
  induction position, text using Scan.ofChars.induct generalizing before tokens with
  | case1 position =>
    rw [Scan.ofChars_nil] at denote ⊢
    cases denote
    exact .ended
  | case2 position c rest blank ih =>
    rw [Scan.ofChars_blank _ _ blank] at denote ⊢
    exact .blank blank (ih (before ++ [c]) (by simp [place])
      (alone before (Text.not_isLetter_of_isBlank blank))
      (alone before (Scan.not_isNumeralChar_of_isBlank blank)) tokens denote)
  | case3 position c rest _ letter word stop ih =>
    rw [Scan.ofChars_letter _ _ letter] at denote ⊢
    obtain ⟨value, others, rfl, denotes, later⟩ := Lexeme.denoteAll_cons.mp denote
    cases denotes with
    | word stands =>
      have run := maximalRun_takeWhile Text.isLetter before rest letter letters
      have behind := ih (before ++ word) (by simp [place, stop])
        (parted_dropWhile Text.isLetter before rest)
        (run.parted _ _ fun _ => Text.not_isNumeralChar_of_isLetter) others later
      have whole := Segmentation.token (.name run stands) behind
      rwa [List.cons_append, List.takeWhile_append_dropWhile, Span.behind_eq, place] at whole
  | case4 position c rest _ _ digit numeral stop decimal read ih =>
    rw [Scan.ofChars_numeral _ _ digit read] at denote ⊢
    obtain ⟨_, others, rfl, ⟨⟩, later⟩ := Lexeme.denoteAll_cons.mp denote
    have run := maximalRun_takeWhile Scan.isNumeralChar before rest
      (Scan.isNumeralChar_of_isDigit digit) numerals
    have reads : Decimal.read? numeral = _ := Decimal.read?_run digit run.inside
    rw [reads] at read
    obtain ⟨points, written⟩ := Option.ite_none_right_eq_some.mp read
    obtain rfl := Option.some.inj written
    have behind := ih (before ++ numeral) (by simp [place, stop])
      (run.parted _ _ fun _ => Text.not_isLetter_of_isNumeralChar)
      (parted_dropWhile Scan.isNumeralChar before rest) others later
    have piece : Piece names before _ numeral _ := .number ⟨run, digit⟩ points
    have whole := Segmentation.token piece behind
    rwa [List.cons_append, List.takeWhile_append_dropWhile, Span.behind_eq, place] at whole
  | case5 position c rest _ _ digit numeral unread =>
    rw [Scan.ofChars_unread _ _ digit unread] at denote ⊢
    cases denote
    have run := maximalRun_takeWhile Scan.isNumeralChar before rest
      (Scan.isNumeralChar_of_isDigit digit) numerals
    have reads : Decimal.read? numeral = _ := Decimal.read?_run digit run.inside
    rw [reads] at unread
    have points : 2 ≤ numeral.count '.' := by
      by_contra few
      rw [if_pos (by omega)] at unread
      cases unread
    have found : Segmentation names before _ [] _ := .invalid ⟨run, digit⟩ points
    rwa [List.cons_append, List.takeWhile_append_dropWhile, Span.behind_eq, place] at found
  | case6 position c rest _ _ _ symbol found ih =>
    obtain rfl := Symbol.character_ofChar? found
    rw [Scan.ofChars_symbol] at denote ⊢
    obtain ⟨_, others, rfl, ⟨⟩, later⟩ := Lexeme.denoteAll_cons.mp denote
    obtain ⟨-, noLetter, noNumeral⟩ := symbol.character_apart
    have behind := ih (before ++ [symbol.character]) (by simp [place]) (alone before noLetter)
      (alone before noNumeral) others later
    have whole := Segmentation.token (.symbol symbol) behind
    rwa [List.singleton_append, Span.behind_eq, place] at whole
  | case7 position c rest noBlank noLetter noDigit noSymbol =>
    rw [Scan.ofChars_other _ _ noBlank noLetter noDigit noSymbol] at denote ⊢
    cases denote
    have found : Segmentation names before (c :: rest) [] _ :=
      .unexpected (Bool.not_eq_true _ ▸ noBlank) (by simpa using noLetter) (by simpa using noDigit)
        fun symbol same => by rw [same, Symbol.ofChar?_character] at noSymbol; cases noSymbol
    rwa [Span.behind_eq, place] at found

theorem Segmentation.ordered (segmentation : Segmentation names before text tokens mistake) :
    tokens.Pairwise (fun first second => first.span.stop ≤ second.span.start) ∧
      ∀ token ∈ tokens, (before.length : Int) ≤ token.span.start ∧
        token.span.start < token.span.stop ∧
        token.span.stop ≤ (before.length + text.length : Nat) := by
  induction segmentation with
  | ended | unexpected | invalid => exact ⟨.nil, List.forall_mem_nil _⟩
  | blank blank rest ih =>
    refine ⟨ih.1, fun token member => ?_⟩
    obtain ⟨start, some, stop⟩ := ih.2 token member
    simp only [List.length_append, List.length_cons, List.length_nil] at start stop ⊢
    omega
  | @token before after piece value tokens mistake whole rest ih =>
    have inhabited : piece ≠ [] := by
      cases whole with
      | name run => exact run.inhabited
      | number run => exact run.inhabited
      | symbol => exact List.cons_ne_nil _ _
    have length := List.length_pos_iff.mpr inhabited
    rw [Span.behind_eq]
    constructor
    · refine List.pairwise_cons.mpr ⟨fun token member => ?_, ih.1⟩
      simpa using (ih.2 token member).1
    · intro token member
      rcases List.mem_cons.mp member with rfl | inside
      · simp only [List.length_append]
        omega
      · obtain ⟨start, some, stop⟩ := ih.2 token inside
        simp only [List.length_append] at start stop ⊢
        omega

/-- Every token of a text is one of its pieces. -/
theorem Segmentation.exists_piece (segmentation : Segmentation names before text tokens mistake)
    {token : Spanned RawToken} (member : token ∈ tokens) :
    ∃ front piece after, before ++ text = front ++ piece ++ after ∧
      token.span = .behind front piece ∧ Piece names front after piece token.value := by
  induction segmentation with
  | ended | unexpected | invalid => cases member
  | blank blank rest ih =>
    rw [List.append_cons]
    exact ih member
  | @token before after piece value tokens mistake whole rest ih =>
    rw [← List.append_assoc]
    rcases List.mem_cons.mp member with rfl | later
    · exact ⟨before, piece, after, rfl, rfl, whole⟩
    · exact ih later

/-! Taking in what was cut off: each lexeme becomes the token that it denotes, and the names known
behind it are the old ones and the new ones up to it. -/

namespace Lexeme

variable {later : NameTable} {lexemes : List (Spanned Lexeme)}

theorem Denotes.mono (grows : names.Extends later) {lexeme : Lexeme} {token : RawToken}
    (denotes : lexeme.Denotes names token) : lexeme.Denotes later token := by
  cases denotes with
  | number value => exact .number value
  | word stands => exact .word (stands.mono grows)
  | symbol symbol => exact .symbol symbol

theorem Denotes.unique (distinct : names.spellings.Nodup) {lexeme : Lexeme}
    {first second : RawToken} (denotes : lexeme.Denotes names first)
    (denotesToo : lexeme.Denotes names second) : first = second := by
  cases denotes with
  | number | symbol => cases denotesToo; rfl
  | word stands =>
    cases denotesToo with
    | word standsToo => rw [stands.injective distinct standsToo]

theorem DenoteAll.mono (grows : names.Extends later) (all : DenoteAll names lexemes tokens) :
    DenoteAll later lexemes tokens :=
  List.Forall₂.imp (fun _ _ both => ⟨both.1, both.2.mono grows⟩) all

theorem DenoteAll.unique (distinct : names.spellings.Nodup) {others : List (Spanned RawToken)}
    (all : DenoteAll names lexemes tokens) (allToo : DenoteAll names lexemes others) :
    tokens = others := by
  induction lexemes generalizing tokens others with
  | nil =>
    cases all
    cases allToo
    rfl
  | cons lexeme rest ih =>
    obtain ⟨value, row, rfl, denotes, more⟩ := denoteAll_cons.mp all
    obtain ⟨other, rowToo, rfl, denotesToo, moreToo⟩ := denoteAll_cons.mp allToo
    rw [denotes.unique distinct denotesToo, ih more moreToo]

end Lexeme

namespace NameTable

theorem denotes_take (names : NameTable) (lexeme : Lexeme) :
    lexeme.Denotes (names.take lexeme).names (names.take lexeme).token := by
  cases lexeme with
  | number value => exact .number value
  | word text => exact .word (names.stands_intern text)
  | symbol symbol => exact .symbol symbol

/-- The spellings of a list that are not known, each one once and where it appears first. -/
def fresh (names : NameTable) (words : List String) : List String :=
  (words.filter (· ∉ names.spellings)).eraseDups

theorem spellings_learn (names : NameTable) (words : List String) :
    (names.learn words).spellings = names.spellings ++ names.fresh words := by
  induction words generalizing names with
  | nil => exact (List.append_nil _).symm
  | cons word later ih =>
    rw [learn, List.foldl_cons, ← learn, ih]
    cases known : names.handle? word with
    | some handle =>
      obtain ⟨position, -, found⟩ := stands_of_handle? known
      have member := List.mem_of_getElem? found
      rw [intern_known known, fresh, fresh, List.filter_cons_of_neg (by simpa using member)]
    | none =>
      have new : word ∉ names.spellings := by simpa [handle?] using known
      have others : later.filter (· ∉ names.spellings ++ [word]) =
          (later.filter (· ∉ names.spellings)).filter fun other => !other == word := by
        rw [List.filter_filter]
        apply List.filter_congr
        intro other _
        simp [Bool.and_comm, beq_eq_decide]
      rw [intern_new known, fresh, fresh, List.filter_cons_of_pos (by simpa using new),
        List.eraseDups_cons, others, List.append_assoc, List.singleton_append]

def identifiers (names : NameTable) (tokens : List (Spanned RawToken)) : List String :=
  tokens.filterMap fun token => match token.value with
    | .name handle => names.spelling? handle
    | _ => none

end NameTable

theorem Lexeme.DenoteAll.identifiers {lexemes : List (Spanned Lexeme)}
    (all : DenoteAll names lexemes tokens) : names.identifiers tokens = words lexemes := by
  induction lexemes generalizing tokens with
  | nil =>
    cases all
    rfl
  | cons lexeme rest ih =>
    obtain ⟨value, others, rfl, denotes, more⟩ := denoteAll_cons.mp all
    have same := ih more
    obtain ⟨content, span⟩ := lexeme
    cases denotes with
    | number | symbol => exact same
    | word stands =>
      simp only [NameTable.identifiers, words, List.filterMap_cons, stands.spelling?] at same ⊢
      rw [same]

namespace Listing

theorem denoteAll_takeAll (names : NameTable) (lexemes : List (Spanned Lexeme)) :
    Lexeme.DenoteAll (takeAll none names lexemes).names lexemes
      (takeAll none names lexemes).tokens := by
  induction lexemes generalizing names with
  | nil => exact .nil
  | cons lexeme rest ih =>
    rw [tokens_cons]
    have grows := extends_takeAll (names.take lexeme.value).names rest
    exact Lexeme.denoteAll_cons.mpr
      ⟨_, _, rfl, (names.denotes_take lexeme.value).mono grows, ih (names.take lexeme.value).names⟩

/-- The names that a token comes with are those known behind its lexeme. -/
theorem known_takeAll {mistake : Option CalcError} {names : NameTable}
    {lexemes : List (Spanned Lexeme)} {early later : List (Spanned RawToken × NameTable)}
    {token : Spanned RawToken} {known : NameTable}
    (split : (takeAll mistake names lexemes).items = early ++ (token, known) :: later) :
    ∃ first second, lexemes = first ++ second ∧
      (takeAll none names first).tokens = early.map Prod.fst ++ [token] ∧
        known = (takeAll none names first).names := by
  induction lexemes generalizing names early with
  | nil => simp [takeAll, ended] at split
  | cons lexeme rest ih =>
    simp only [takeAll, following, List.map_cons, List.map_nil, List.singleton_append] at split
    cases early with
    | nil =>
      obtain ⟨same, -⟩ := List.cons.inj split
      cases same
      exact ⟨[lexeme], rest, rfl, rfl, rfl⟩
    | cons item others =>
      obtain ⟨rfl, behind⟩ := List.cons.inj split
      obtain ⟨first, second, rfl, row, same⟩ := ih behind
      exact ⟨lexeme :: first, second, rfl, by rw [tokens_cons, row]; rfl, same⟩

theorem names_read (names : NameTable) (line : String) :
    (read names line).names = (takeAll none names (Scan.ofLine line).lexemes).names :=
  (takeAll_mistake _ names _).2.1

theorem denoteAll_read (names : NameTable) (line : String) :
    Lexeme.DenoteAll (read names line).names (Scan.ofLine line).lexemes (read names line).tokens := by
  rw [names_read, read_tokens]
  exact denoteAll_takeAll names _

theorem segmentation_read (names : NameTable) (line : String) :
    Segmentation (read names line).names [] line.toList (read names line).tokens
      (Scan.ofLine line).mistake :=
  segmentation_ofChars 0 line.toList [] rfl (.inl (stops_nil _)) (.inl (stops_nil _)) _
    (denoteAll_read names line)

end Listing

theorem Lexeme.DenoteAll.exists_of_mem {names : NameTable} {lexemes : List (Spanned Lexeme)}
    {tokens : List (Spanned RawToken)} (all : DenoteAll names lexemes tokens)
    {token : Spanned RawToken} (member : token ∈ tokens) :
    ∃ lexeme, ⟨lexeme, token.span⟩ ∈ lexemes ∧ lexeme.Denotes names token.value := by
  induction all with
  | nil => cases member
  | @cons lexeme first lexemes tokens both rest ih =>
    rcases List.mem_cons.mp member with rfl | later
    · obtain ⟨same, denotes⟩ := both
      exact ⟨lexeme.value, by rw [← same]; exact List.mem_cons_self, denotes⟩
    · obtain ⟨found, inside, denotes⟩ := ih later
      exact ⟨found, List.mem_cons_of_mem _ inside, denotes⟩

theorem NameTable.nodup_ofList (spellings : List String) : (ofList spellings).spellings.Nodup := by
  suffices kept : ∀ table : NameTable, table.spellings.Nodup →
      (table.learn spellings).spellings.Nodup from kept .empty List.nodup_nil
  induction spellings with
  | nil => exact fun table distinct => distinct
  | cons spelling later ih => exact fun table distinct => ih _ (nodup_intern distinct spelling)

/-- The listing has the tokens and the mistake of a line, where the names were known before. -/
structure Listing.Segments (names : NameTable) (line : String) (raw : Listing RawToken) : Prop where
  /-- No other row of tokens and no other mistake would do. -/
  unique : ∀ tokens mistake, Segmentation raw.names [] line.toList tokens mistake ↔
    tokens = raw.tokens ∧ raw.fault = mistake.map Fault.line
  ordered : raw.tokens.Pairwise fun first second => first.span.stop ≤ second.span.start
  places : ∀ token ∈ raw.tokens, 0 ≤ token.span.start ∧ token.span.start < token.span.stop ∧
    token.span.stop ≤ line.length
  /-- With every token, the names are those known before and the new identifiers up to there. -/
  known : ∀ early token known later, raw.items = early ++ (token, known) :: later →
    known.spellings = names.spellings ++
      names.fresh (raw.names.identifiers (early.map Prod.fst ++ [token]))
  names : raw.names.spellings = names.spellings ++ names.fresh (raw.names.identifiers raw.tokens)

/-- With any names known, a line is cut into the pieces of its text, each as long as it can be, up to
its end or to the first place where no piece stands. The pieces have places that follow each other, and
at every point the names are those known before and the new identifiers so far. -/
theorem read_segmentation (spellings : List String) (line : String) :
    (Listing.read (.ofList spellings) line).Segments (.ofList spellings) line := by
  have interned := NameTable.nodup_ofList spellings
  generalize NameTable.ofList spellings = names at interned
  let raw := Listing.read names line
  let lexemes := (Scan.ofLine line).lexemes
  have known : raw.names = (Listing.takeAll none names lexemes).names :=
    (Listing.takeAll_mistake _ names lexemes).2.1
  have distinct : raw.names.spellings.Nodup :=
    known ▸ Listing.nodup_takeAll interned lexemes
  have taken : Lexeme.DenoteAll raw.names lexemes raw.tokens := by
    rw [known, show raw.tokens = _ from Listing.read_tokens names line]
    exact Listing.denoteAll_takeAll names lexemes
  have fault : raw.fault = (Scan.ofLine line).mistake.map Fault.line := Listing.read_fault names line
  have whole : Segmentation raw.names [] line.toList raw.tokens (Scan.ofLine line).mistake :=
    segmentation_ofChars 0 line.toList [] rfl (.inl (stops_nil _)) (.inl (stops_nil _)) raw.tokens
      taken
  obtain ⟨ordered, places⟩ := whole.ordered
  refine ⟨fun tokens mistake => ⟨fun segmentation => ?_, ?_⟩, ordered, ?_, ?_, ?_⟩
  · obtain ⟨same, denote⟩ := segmentation.ofChars
    rw [show (Listing.read names line).fault = _ from fault, same]
    exact ⟨denote.unique distinct taken, rfl⟩
  · rintro ⟨rfl, same⟩
    have agree := Option.map_injective (fun _ _ => Fault.line.inj) (fault.symm.trans same)
    rwa [← agree]
  · intro token member
    have bounds := places token member
    rw [← String.length_toList]
    simpa using bounds
  · intro early token known later split
    obtain ⟨first, second, cut, row, rfl⟩ := Listing.known_takeAll split
    have grows : (Listing.takeAll none names first).names.Extends raw.names := by
      rw [known, show lexemes = _ from cut, (Listing.takeAll_append names first second).1]
      exact Listing.extends_takeAll _ second
    have denote := (Listing.denoteAll_takeAll names first).mono grows
    rw [← row, denote.identifiers, Listing.names_takeAll, NameTable.spellings_learn]
  · rw [show (Listing.read names line).names.identifiers _ = _ from taken.identifiers,
      Listing.read_names, NameTable.spellings_learn]

end LineCalc
