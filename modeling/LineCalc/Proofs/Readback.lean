import LineCalc.Proofs.Numerals

/-!
Both written forms of a number read back as that number, whatever number it is: the display, and the
form of log messages, which may have an exponent.
-/

namespace LineCalc

namespace Decimal

def readDigits? (digits : List Char) : Option Nat :=
  if digits ≠ [] ∧ digits.all Text.isDigit then some (valueOf digits) else none

/-- Reads the power of ten behind a mark: digits, with or without a sign. -/
def readPower? : List Char → Option Int
  | '-' :: digits => (readDigits? digits).map fun power : Nat => -(power : Int)
  | '+' :: digits => (readDigits? digits).map fun power : Nat => (power : Int)
  | digits => (readDigits? digits).map fun power : Nat => (power : Int)

/-- Reads a numeral with or without a power of ten. -/
def readScaled? (text : List Char) : Option Decimal :=
  match text.dropWhile (· != 'e') with
  | [] => read? text
  | _ :: power =>
    match read? (text.takeWhile (· != 'e')), readPower? power with
    | some d, some shift => some ⟨d.digits, d.exponent + shift⟩
    | _, _ => none

end Decimal

namespace Number

/-- Reads the form of log messages without its sign. -/
def readLoggedMagnitude? (text : List Char) : Option Nat :=
  if text = ['i', 'n', 'f'] then some infinity
  else (Decimal.readScaled? text).map fun d => nearestMagnitude d.toFraction

def readLogged? (text : List Char) : Option Number :=
  match text with
  | ['n', 'a', 'n'] => some notANumber
  | '-' :: digits => (readLoggedMagnitude? digits).map (ofMagnitude true)
  | digits => (readLoggedMagnitude? digits).map (ofMagnitude false)

end Number

namespace Decimal

variable {front fraction digits : List Char}

theorem unmarked_of_read {text : List Char} {d : Decimal} (read : read? text = some d) :
    ∀ c ∈ text, (c != 'e') = true := by
  obtain ⟨first, others, rfl, digit, more⟩ := Numeral.text_eq ⟨text, d, read⟩
  have apart {c : Char} (numeral : Scan.isNumeralChar c = true) : (c != 'e') = true := by
    rw [bne_iff_ne]
    rintro rfl
    exact absurd numeral (by decide)
  exact List.forall_mem_cons.mpr ⟨apart (Scan.isNumeralChar_of_isDigit digit),
    fun c member => apart (more c member)⟩

theorem readScaled?_of_read {text : List Char} {d : Decimal} (read : read? text = some d) :
    readScaled? text = some d := by
  have unmarked : text.dropWhile (· != 'e') = [] :=
    List.dropWhile_eq_nil_iff.mpr (unmarked_of_read read)
  rw [readScaled?, unmarked, read]

/-- A numeral with a mark and a power behind it reads as the numeral so much higher. -/
theorem readScaled?_mark {text power : List Char} {d : Decimal} {shift : Int}
    (read : read? text = some d) (powerRead : readPower? power = some shift) :
    readScaled? (text ++ 'e' :: power) = some ⟨d.digits, d.exponent + shift⟩ := by
  have stops : Stops (· != 'e') ('e' :: power) := by
    intro c rest same
    cases same
    rfl
  obtain ⟨taken, dropped⟩ := takeWhile_run (unmarked_of_read read) stops
  simp only [readScaled?, dropped, taken, read, powerRead]

theorem readDigits?_eq (inhabited : digits ≠ []) (all : ∀ c ∈ digits, Text.isDigit c = true) :
    readDigits? digits = some (valueOf digits) :=
  if_pos ⟨inhabited, List.all_eq_true.mpr all⟩

theorem readPower?_leadingExponent (d : Decimal) :
    let power := Nat.toDigits 10 d.leadingExponent.natAbs
    readPower? ((if d.leadingExponent < 0 then '-' else '+') ::
      (if power.length < 2 then '0' :: power else power)) = some d.leadingExponent := by
  intro power
  have padded : readDigits? (if power.length < 2 then '0' :: power else power) =
      some d.leadingExponent.natAbs := by
    have all : ∀ c ∈ power, Text.isDigit c = true := digits_toDigits _
    have value : valueOf power = d.leadingExponent.natAbs := valueOf_toDigits _
    split
    · rw [readDigits?_eq (List.cons_ne_nil _ _) (List.forall_mem_cons.mpr ⟨by decide, all⟩),
        show '0' :: power = List.replicate 1 '0' ++ power from rfl, valueOf_append, valueOf_zeros,
        value, Nat.zero_mul, Nat.zero_add]
    · rw [readDigits?_eq (toDigits_ne_nil _) all, value]
  by_cases negative : d.leadingExponent < 0
  · rw [if_pos negative, readPower?, padded, Option.map_some]
    exact congrArg some (by omega)
  · rw [if_neg negative, readPower?, padded, Option.map_some]
    exact congrArg some (by omega)

/-- The digits of the scientific form, with a point behind the first one, read as the same digits, as
many places lower as there are digits behind the point. -/
theorem read?_leadingDigit {row : List Char} (inhabited : row ≠ [])
    (all : ∀ c ∈ row, Text.isDigit c = true) :
    ∃ back, read? (match row with
        | first :: second :: rest => first :: '.' :: second :: rest
        | single => single) = some back ∧
      back.value = valueOf row * 10 ^ (1 - (row.length : Int)) := by
  match row with
  | [] => exact absurd rfl inhabited
  | [single] =>
    obtain ⟨back, read, denotes⟩ := reads_digits inhabited all
    exact ⟨back, read, by rw [denotes]; simp⟩
  | first :: second :: rest =>
    obtain ⟨back, read, denotes⟩ := reads_point (List.cons_ne_nil first []) all
    refine ⟨back, read, ?_⟩
    rw [denotes, List.length_cons, List.length_cons, List.length_cons]
    congr 2

theorem readScaled?_scientific (d : Decimal) :
    ∃ back, readScaled? d.scientific = some back ∧ back.value = d.value := by
  obtain ⟨front, read, denotes⟩ :=
    read?_leadingDigit (toDigits_ne_nil d.digits) (digits_toDigits d.digits)
  refine ⟨_, readScaled?_mark read d.readPower?_leadingExponent, ?_⟩
  have shifted : Decimal.value ⟨front.digits, front.exponent + d.leadingExponent⟩ =
      front.value * 10 ^ d.leadingExponent := by
    rw [value, value, zpow_add₀ (by norm_num), mul_assoc]
  rw [shifted, denotes, valueOf_toDigits, mul_assoc, ← zpow_add₀ (by norm_num), value,
    leadingExponent]
  congr 2
  ring

theorem readScaled?_whole {d : Decimal} (whole : 0 ≤ d.exponent) :
    ∃ back, readScaled? (d.positional ++ ['.', '0']) = some back ∧ back.value = d.value := by
  have digits := digits_toDigits d.digits
  obtain ⟨n, same⟩ := Int.eq_ofNat_of_zero_le whole
  have zeros : ∀ c ∈ List.replicate n '0' ++ ['0'], Text.isDigit c = true :=
    List.forall_mem_append.mpr ⟨digits_zeros n, digits_zeros 1⟩
  obtain ⟨back, read, denotes⟩ := reads_point
    (List.append_ne_nil_of_left_ne_nil (toDigits_ne_nil d.digits) (List.replicate n '0'))
    (List.forall_mem_append.mpr ⟨List.forall_mem_append.mpr ⟨digits, digits_zeros n⟩, digits_zeros 1⟩)
  have text : d.positional ++ ['.', '0'] =
      (Nat.toDigits 10 d.digits ++ List.replicate n '0') ++ '.' :: List.replicate 1 '0' := by
    rw [positional, if_pos whole, same]
    rfl
  refine ⟨back, by rw [text]; exact readScaled?_of_read read, ?_⟩
  rw [denotes, valueOf_append, valueOf_append, valueOf_zeros, valueOf_zeros, valueOf_toDigits, value,
    same]
  simp

/-- A form with or without a power of ten starts with a digit. -/
theorem starts_of_readScaled {text : List Char} {d : Decimal} (read : readScaled? text = some d) :
    ∃ first others, text = first :: others ∧ Text.isDigit first = true := by
  have numeral {front : List Char} {d : Decimal} (read : read? front = some d) (behind : List Char) :
      ∃ first others, front ++ behind = first :: others ∧ Text.isDigit first = true := by
    obtain ⟨first, others, rfl, digit, -⟩ := Numeral.text_eq ⟨front, d, read⟩
    exact ⟨first, others ++ behind, rfl, digit⟩
  have parts := List.takeWhile_append_dropWhile (p := (· != 'e')) (l := text)
  unfold readScaled? at read
  rw [← parts]
  cases rest : text.dropWhile (· != 'e') with
  | nil =>
    rw [rest] at read parts
    rw [List.append_nil] at parts ⊢
    rw [parts]
    simpa using numeral read []
  | cons mark power =>
    rw [rest] at read
    cases front : read? (text.takeWhile (· != 'e')) with
    | none => simp [front] at read
    | some d => exact numeral front _

end Decimal

namespace Number

theorem value_loggedDigits (magnitude : Nat) :
    ∃ back, Decimal.readScaled? (loggedDigits magnitude) = some back ∧
      back.value = (shortestDecimal magnitude).value := by
  unfold loggedDigits
  simp only
  split
  · exact (shortestDecimal magnitude).readScaled?_scientific
  · split
    · next whole => exact Decimal.readScaled?_whole whole
    · obtain ⟨back, read, value⟩ := (shortestDecimal magnitude).read?_positional
      exact ⟨back, Decimal.readScaled?_of_read read, value⟩

theorem readScaled?_loggedDigits {magnitude : Nat} (finite : magnitude < infinity) :
    ∃ back, Decimal.readScaled? (loggedDigits magnitude) = some back ∧
      nearestMagnitude back.toFraction = magnitude := by
  obtain ⟨back, read, value⟩ := value_loggedDigits magnitude
  refine ⟨back, read, ?_⟩
  rw [nearestMagnitude_eq back.proper_toFraction, back.value_toFraction, value,
    magnitudeOf_shortestDecimal finite]

/-- How the text of a magnitude starts. -/
def Starts (text : List Char) : Prop :=
  ∃ first others, text = first :: others ∧ (first = 'i' ∨ Text.isDigit first = true)

theorem Starts.apart {first c : Char} {others : List Char} (starts : Starts (first :: others))
    (letter : c ≠ 'i') (other : Text.isDigit c = false) : first ≠ c := by
  obtain ⟨_, _, same, rfl | digit⟩ := starts
  · obtain ⟨rfl, -⟩ := List.cons.inj same
    exact letter.symm
  · obtain ⟨rfl, -⟩ := List.cons.inj same
    rintro rfl
    rw [digit] at other
    cases other

/-- A form that has its own text for what is not a number, and otherwise a sign and the text of the
magnitude, reads back if the texts of magnitudes do. -/
theorem reads_form {read : List Char → Option Number} (readMagnitude : List Char → Option Nat)
    {nan : List Char} {digits : Nat → List Char} (readsNan : read nan = some notANumber)
    (minus : ∀ text, read ('-' :: text) = (readMagnitude text).map (ofMagnitude true))
    (plain : ∀ text, Starts text → read text = (readMagnitude text).map (ofMagnitude false))
    (readsInfinity : readMagnitude ['i', 'n', 'f'] = some infinity)
    (readsDigits : ∀ magnitude < infinity,
      readMagnitude (digits magnitude) = some magnitude ∧ Starts (digits magnitude)) (v : Number) :
    read (if infinity < v.magnitude then nan
      else if v.magnitude = infinity then signed v.isNegative ['i', 'n', 'f']
      else signed v.isNegative (digits v.magnitude)) = some v := by
  have sign {text : List Char} (found : readMagnitude text = some v.magnitude)
      (starts : Starts text) : read (signed v.isNegative text) = some v := by
    have whole := v.ofMagnitude_magnitude
    cases negative : v.isNegative with
    | true =>
      rw [negative] at whole
      rw [signed, if_pos rfl, minus, found, Option.map_some, whole]
    | false =>
      rw [negative] at whole
      rw [signed, if_neg Bool.false_ne_true, plain text starts, found, Option.map_some, whole]
  rcases Nat.lt_trichotomy v.magnitude infinity with below | same | beyond
  · obtain ⟨found, starts⟩ := readsDigits v.magnitude below
    rw [if_neg (by omega), if_neg (by omega)]
    exact sign found starts
  · rw [if_neg (by omega), if_pos same]
    exact sign (same ▸ readsInfinity) ⟨'i', _, rfl, .inl rfl⟩
  · have beyondToo : infinity < notANumber.magnitude := by decide +kernel
    rw [if_pos beyond, readsNan, eq_of_infinity_lt beyond beyondToo]

theorem readLogged?_loggedChars (v : Number) : readLogged? v.loggedChars = some v := by
  refine reads_form readLoggedMagnitude? rfl (fun _ => rfl) ?_ (if_pos rfl) ?_ v
  · intro text starts
    unfold readLogged?
    split
    · exact absurd rfl (starts.apart (by decide) (by decide))
    · exact absurd rfl (starts.apart (by decide) (by decide))
    · rfl
  · intro magnitude finite
    obtain ⟨back, read, same⟩ := readScaled?_loggedDigits finite
    obtain ⟨first, others, text, digit⟩ := Decimal.starts_of_readScaled read
    refine ⟨?_, first, others, text, .inr digit⟩
    rw [readLoggedMagnitude?, if_neg, read, Option.map_some, same]
    rw [text]
    exact fun inf => absurd digit (by rw [(List.cons.inj inf).1]; decide)

theorem read?_displayChars (v : Number) : read? v.displayChars = some v := by
  refine reads_form readMagnitude? rfl (fun _ => rfl) ?_ (if_pos rfl) ?_ v
  · intro text starts
    unfold read?
    split
    · exact absurd rfl (starts.apart (by decide) (by decide))
    · exact absurd rfl (starts.apart (by decide) (by decide))
    · rfl
  · intro magnitude finite
    obtain ⟨back, read, same⟩ := magnitudeOf_displayDigits finite
    obtain ⟨first, others, text, digit, -⟩ := Numeral.text_eq ⟨_, back, read⟩
    refine ⟨?_, first, others, text, .inr digit⟩
    rw [readMagnitude?, if_neg, read, Option.map_some, same]
    rw [show displayDigits magnitude = _ from text]
    exact fun inf => absurd digit (by rw [(List.cons.inj inf).1]; decide)

end Number

end LineCalc
