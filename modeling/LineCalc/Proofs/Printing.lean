import LineCalc.Proofs.Numerals

/-!
Tokens written out and cut again. Names, symbols and displays of numbers with blanks between them are
read as the tokens that they are, each in the place where it was written.
-/

namespace LineCalc

/-- A finite number without a sign. -/
structure FiniteNumber where
  value : Number
  finite : value.magnitude < Number.infinity
  unsigned : value.isNegative = false

/-- What can be written out as a word of a line. -/
inductive Item where
  | number (number : FiniteNumber)
  | name (identifier : Identifier)
  | symbol (symbol : Symbol)

namespace Item

/-- The written form: the display of a number, the spelling of a name or the character of a symbol. -/
def text : Item → List Char
  | number v => v.value.display.toList
  | name identifier => identifier.spelling.toList
  | symbol s => [s.character]

def lexeme : Item → Lexeme
  | number v => .number v.value
  | name identifier => .word identifier.spelling
  | symbol s => .symbol s

/-- The text of items, each one with the characters behind it. -/
def textAll (row : List (Item × List Char)) : List Char :=
  row.flatMap fun entry => entry.1.text ++ entry.2

/-- The items of a row where they stand in its text. -/
def located (position : Nat) : List (Item × List Char) → List (Spanned Lexeme)
  | [] => []
  | (item, gap) :: later =>
    ⟨item.lexeme, ⟨position, (position + item.text.length : Nat)⟩⟩ ::
      located (position + item.text.length + gap.length) later

theorem exists_word (item : Item) :
    ∃ word : Word, word.text = item.text ∧ word.lexeme = item.lexeme := by
  cases item with
  | number v =>
    obtain ⟨value, finite, unsigned⟩ := v
    have digits : value.display.toList = Number.displayDigits value.magnitude := by
      rw [Number.display, String.toList_ofList, Number.displayChars, if_neg (by omega),
        if_neg (by omega), unsigned]
      rfl
    obtain ⟨back, read, same⟩ := Number.read?_displayDigits finite
    refine ⟨.literal (.numeral ⟨_, back, read⟩), digits.symm, ?_⟩
    rw [Word.lexeme, Numeral.value, same, ← unsigned, Number.ofMagnitude_magnitude]
    rfl
  | name identifier =>
    exact ⟨.literal (.identifier identifier), (String.toList_ofList).symm, rfl⟩
  | symbol s => exact ⟨.symbol s, rfl, rfl⟩

theorem ofChars_textAll {row : List (Item × List Char)}
    (blank : ∀ entry ∈ row, ∀ c ∈ entry.2, Text.isBlank c = true)
    (apart : ∀ entry ∈ row.dropLast, entry.2 ≠ []) (position : Nat) :
    Scan.ofChars position (textAll row) = ⟨located position row, none⟩ := by
  induction row generalizing position with
  | nil =>
    rw [textAll, List.flatMap_nil, Scan.ofChars_nil]
    rfl
  | cons entry later ih =>
    obtain ⟨item, gap⟩ := entry
    obtain ⟨blankGap, blankLater⟩ := List.forall_mem_cons.mp blank
    have ends (none : gap = []) : textAll later = [] := by
      cases later with
      | nil => rfl
      | cons next others => exact absurd none (apart _ List.mem_cons_self)
    have apartLater : ∀ entry ∈ later.dropLast, entry.2 ≠ [] := by
      cases later with
      | nil => exact List.forall_mem_nil _
      | cons next others => exact fun other member => apart other (List.mem_cons_of_mem _ member)
    obtain ⟨word, text, lexeme⟩ := item.exists_word
    have stops (p : Char → Bool) (none : gap = []) : Stops p (textAll later) := by
      rw [ends none]
      exact stops_nil p
    have cut := word.ofChars (fun _ =>
      ⟨stops_blank (fun _ => Text.not_isLetter_of_isBlank) blankGap (stops _),
        stops_blank (fun _ => Scan.not_isNumeralChar_of_isBlank) blankGap (stops _)⟩) position
    rw [Scan.ofChars_gap blankGap, ih blankLater apartLater, text, lexeme] at cut
    rw [textAll, List.flatMap_cons, List.append_assoc]
    exact cut

end Item

/-- Whatever names are known, items that are written out with blanks between them, and maybe around
them, are read as just these items: no mistake, every number as it was, every name with a handle that
stands for its spelling, and every token in the place of what was written. -/
theorem read_textAll (names : NameTable) {lead : List Char} {row : List (Item × List Char)}
    (blankLead : ∀ c ∈ lead, Text.isBlank c = true)
    (blank : ∀ entry ∈ row, ∀ c ∈ entry.2, Text.isBlank c = true)
    (apart : ∀ entry ∈ row.dropLast, entry.2 ≠ []) :
    let raw := Listing.read names (String.ofList (lead ++ Item.textAll row))
    raw.fault = none ∧ Lexeme.DenoteAll raw.names (Item.located lead.length row) raw.tokens := by
  intro raw
  have cut : Scan.ofLine (String.ofList (lead ++ Item.textAll row)) =
      ⟨Item.located lead.length row, none⟩ := by
    rw [Scan.ofLine, String.toList_ofList, Scan.ofChars_gap blankLead,
      Item.ofChars_textAll blank apart, Nat.zero_add]
  have taken : raw = Listing.takeAll none names (Item.located lead.length row) := by
    simp only [raw, Listing.read, cut]
  rw [taken]
  exact ⟨(Listing.takeAll_mistake none names _).2.2, Listing.denoteAll_takeAll names _⟩

def FiniteNumber.threeHalves : FiniteNumber where
  value := Number.ofMagnitude false 0x3FF8000000000000
  finite := by decide
  unsigned := by decide

theorem read_textAll_assignment :
    let x : Identifier :=
      ⟨'x', [], List.forall_mem_singleton.mpr (Text.isLetter_of_isAlpha (by decide))⟩
    let row := [(Item.name x, [' ']), (.symbol (.operator .equals), [' ']),
      (.number .threeHalves, [])]
    let raw := Listing.read (.ofList ["y"]) (String.ofList ([' '] ++ Item.textAll row))
    raw.fault = none ∧ Lexeme.DenoteAll raw.names (Item.located [' '].length row) raw.tokens := by
  have space : ∀ c ∈ [' '], Text.isBlank c = true :=
    List.forall_mem_singleton.mpr (Text.isBlank_of_isWhitespace (by decide))
  intro x row
  have blank : ∀ entry ∈ row, ∀ c ∈ entry.2, Text.isBlank c = true :=
    List.forall_mem_cons.mpr ⟨space, List.forall_mem_cons.mpr
      ⟨space, List.forall_mem_singleton.mpr (List.forall_mem_nil _)⟩⟩
  exact read_textAll _ space blank (by decide)

end LineCalc
