import LineCalc.Proofs.Readback
import LineCalc.Proofs.Shortness

/-!
The display of a number has no digit that could be left out and never an exponent, and no other such digits
denote the same. Whole numbers have all of their digits, other numbers the fewest that read back, which are
those of log messages; whatever number is displayed, its display reads back as that number.
-/

namespace LineCalc

namespace Decimal

/-! Which digits denote a number. -/

theorem valueOf_cons (c : Char) (row : List Char) :
    valueOf (c :: row) = Text.digitValue c * 10 ^ row.length + valueOf row := by
  rw [← List.singleton_append, valueOf_append]
  simp [valueOf]

theorem valueOf_lt (row : List Char) : valueOf row < 10 ^ row.length := by
  induction row with
  | nil => decide
  | cons c row ih =>
    rw [valueOf_cons, List.length_cons, pow_succ']
    calc Text.digitValue c * 10 ^ row.length + valueOf row
        < (Text.digitValue c + 1) * 10 ^ row.length := by
          rw [Nat.add_one_mul]
          exact Nat.add_lt_add_left ih _
      _ ≤ 10 * 10 ^ row.length := Nat.mul_le_mul_right _ (Text.digitValue_lt c)

variable {front back frontToo backToo row rowToo : List Char}

theorem valueOf_split (length : back.length = backToo.length)
    (same : valueOf (front ++ back) = valueOf (frontToo ++ backToo)) :
    valueOf front = valueOf frontToo ∧ valueOf back = valueOf backToo := by
  have parts {front back : List Char} : valueOf (front ++ back) / 10 ^ back.length = valueOf front ∧
      valueOf (front ++ back) % 10 ^ back.length = valueOf back := by
    rw [Nat.div_mod_unique (Nat.pow_pos (by decide)), valueOf_append]
    exact ⟨by ring, valueOf_lt back⟩
  rw [← (@parts front back).1, ← (@parts front back).2, same, length]
  exact parts

theorem digit_inj {c d : Char} (digit : c.isDigit = true) (digitToo : d.isDigit = true)
    (same : Text.digitValue c = Text.digitValue d) : c = d := by
  rw [Text.digitValue_of_isDigit digit, Text.digitValue_of_isDigit digitToo] at same
  have low := (Char.isDigit_iff_toNat.mp digit).1
  have lowToo := (Char.isDigit_iff_toNat.mp digitToo).1
  exact Char.toNat_inj.mp (by omega)

/-- Rows of as many digits that denote the same are the same. -/
theorem eq_of_valueOf (length : row.length = rowToo.length) (digits : ∀ c ∈ row, c.isDigit = true)
    (digitsToo : ∀ c ∈ rowToo, c.isDigit = true) (same : valueOf row = valueOf rowToo) : row = rowToo := by
  induction row generalizing rowToo with
  | nil => exact (List.eq_nil_of_length_eq_zero length.symm).symm
  | cons c row ih =>
    cases rowToo with
    | nil => cases length
    | cons d rowToo =>
      have shorter := Nat.succ.inj length
      obtain ⟨digit, digits⟩ := List.forall_mem_cons.mp digits
      obtain ⟨digitToo, digitsToo⟩ := List.forall_mem_cons.mp digitsToo
      obtain ⟨first, rest⟩ := @valueOf_split [c] row [d] rowToo shorter same
      rw [valueOf_cons, valueOf_cons] at first
      rw [digit_inj digit digitToo (by simpa using first), ih shorter digits digitsToo rest]

theorem head_toDigits {n : Nat} (positive : 0 < n) : (Nat.toDigits 10 n).head? ≠ some '0' := by
  induction n using Nat.strong_induction_on with
  | h n ih =>
    rw [Nat.toDigits_eq_if (by decide)]
    split
    · exact fun zero => positive.ne' (Nat.digitChar_eq_zero.mp (Option.some.inj zero))
    · next large =>
      rw [List.head?_append_of_ne_nil _ (toDigits_ne_nil _)]
      exact ih (n / 10) (by omega) (by omega)

theorem getLast_toDigits (n : Nat) : (Nat.toDigits 10 n).getLast? = some (n % 10).digitChar := by
  rw [Nat.toDigits_eq_if (by decide)]
  split
  · next small => rw [Nat.mod_eq_of_lt small, List.getLast?_singleton]
  · exact List.getLast?_concat

/-- A numeral without an exponent in which every digit counts: it starts with a zero only where nothing
else is before the point, and no zero ends what is behind the point. -/
@[ext]
structure Expansion where
  whole : List Char
  fraction : List Char
  inhabited : whole ≠ []
  digits : ∀ c ∈ whole ++ fraction, c.isDigit = true
  leading : whole.head? = some '0' → whole = ['0']
  trailing : fraction.getLast? ≠ some '0'

namespace Expansion

/-- The numeral: a point is written only before digits. -/
def text (expansion : Expansion) : List Char :=
  expansion.whole ++ if expansion.fraction = [] then [] else '.' :: expansion.fraction

def decimal (expansion : Expansion) : Decimal :=
  ofDigits expansion.whole expansion.fraction

def ofNat (n : Nat) : Expansion where
  whole := Nat.toDigits 10 n
  fraction := []
  inhabited := toDigits_ne_nil n
  digits c member := by
    rw [List.append_nil] at member
    exact Nat.isDigit_of_mem_toDigits (by decide) (by decide) member
  leading zero := by
    rcases Nat.eq_zero_or_pos n with rfl | positive
    · rfl
    · exact absurd zero (head_toDigits positive)
  trailing := by decide

theorem text_ofNat (n : Nat) : (ofNat n).text = Nat.toDigits 10 n :=
  List.append_nil _

theorem value_ofNat (n : Nat) : (ofNat n).decimal.value = n := by
  simp [decimal, ofNat, ofDigits, value, valueOf_toDigits]

variable {d e : Expansion}

/-- What ends in another digit than zero is no multiple of ten. -/
theorem mod_of_trailing (some : d.fraction ≠ []) : d.decimal.digits % 10 ≠ 0 := by
  obtain ⟨front, last, row⟩ := (List.eq_nil_or_concat' d.fraction).resolve_left some
  have digit : last.isDigit = true := d.digits last (by simp [row])
  have nonzero : last ≠ '0' := by
    rintro rfl
    exact d.trailing (by simp [row])
  have ends : d.decimal.digits = valueOf (d.whole ++ front) * 10 + Text.digitValue last := by
    rw [decimal, ofDigits, row, ← List.append_assoc, valueOf_append]
    simp [valueOf]
  have bound := Text.digitValue_lt last
  intro zero
  exact nonzero (digit_inj digit (by decide) (show Text.digitValue last = 0 by omega))

theorem fraction_length_le (same : d.decimal.value = e.decimal.value) :
    d.fraction.length ≤ e.fraction.length := by
  by_cases none : d.fraction = []
  · rw [none]
    exact Nat.zero_le _
  · have le : -(e.fraction.length : Int) ≤ -d.fraction.length :=
      exponent_le_of_value same (mod_of_trailing none)
    omega

theorem whole_length_le (same : valueOf d.whole = valueOf e.whole) : d.whole.length ≤ e.whole.length := by
  obtain ⟨first, rest, row⟩ := List.exists_cons_of_ne_nil d.inhabited
  by_cases zero : first = '0'
  · rw [d.leading (by rw [row, zero]; rfl)]
    exact List.length_pos_iff.mpr e.inhabited
  · have digit : first.isDigit = true := d.digits first (by simp [row])
    have some : 0 < Text.digitValue first := Nat.pos_of_ne_zero fun none =>
      zero (digit_inj digit (by decide) none)
    have bound : 10 ^ rest.length < 10 ^ e.whole.length := by
      calc 10 ^ rest.length ≤ Text.digitValue first * 10 ^ rest.length := Nat.le_mul_of_pos_left _ some
        _ ≤ valueOf d.whole := by
          rw [row, valueOf_cons]
          exact Nat.le_add_right _ _
        _ < 10 ^ e.whole.length := same ▸ valueOf_lt e.whole
    rw [row, List.length_cons]
    exact (Nat.pow_lt_pow_iff_right (by decide)).mp bound

/-- No other expansion denotes the same value. -/
theorem eq_of_value (same : d.decimal.value = e.decimal.value) : d = e := by
  have length : d.fraction.length = e.fraction.length :=
    Nat.le_antisymm (fraction_length_le same) (fraction_length_le same.symm)
  have digits : valueOf (d.whole ++ d.fraction) = valueOf (e.whole ++ e.fraction) := by
    rw [value, value, decimal, decimal, ofDigits, ofDigits, length] at same
    exact Nat.cast_inj.mp (mul_right_cancel₀ (zpow_ne_zero _ (by norm_num)) same)
  obtain ⟨whole, fraction⟩ := valueOf_split length digits
  have long : d.whole.length = e.whole.length :=
    Nat.le_antisymm (whole_length_le whole) (whole_length_le whole.symm)
  obtain ⟨front, back⟩ := List.forall_mem_append.mp d.digits
  obtain ⟨frontToo, backToo⟩ := List.forall_mem_append.mp e.digits
  exact Expansion.ext (eq_of_valueOf long front frontToo whole)
    (eq_of_valueOf length back backToo fraction)

end Expansion

/-- A point among digits, or before them with zeros behind it, makes an expansion if the digits neither
start nor end with a zero. -/
theorem Expansion.exists_point {row : List Char} {places : Nat} (positive : 0 < places)
    (digits : ∀ c ∈ row, c.isDigit = true) (inhabited : row ≠ []) (head : row.head? ≠ some '0')
    (last : row.getLast? ≠ some '0') : ∃ expansion : Expansion,
      expansion.text = (if row.length ≤ places then
          '0' :: '.' :: List.replicate (places - row.length) '0' ++ row
        else row.take (row.length - places) ++ '.' :: row.drop (row.length - places)) ∧
      expansion.fraction.length = places ∧
      valueOf (expansion.whole ++ expansion.fraction) = valueOf row := by
  by_cases short : row.length ≤ places
  · have behind : List.replicate (places - row.length) '0' ++ row ≠ [] :=
      List.append_ne_nil_of_right_ne_nil _ inhabited
    have zeros (n : Nat) : ∀ c ∈ List.replicate n '0', c.isDigit = true :=
      fun c member => List.eq_of_mem_replicate member ▸ rfl
    refine ⟨⟨['0'], List.replicate (places - row.length) '0' ++ row, List.cons_ne_nil _ _,
      List.forall_mem_append.mpr ⟨zeros 1, List.forall_mem_append.mpr ⟨zeros _, digits⟩⟩,
      fun _ => rfl, ?_⟩, ?_, ?_, ?_⟩
    · rwa [List.getLast?_append_of_ne_nil _ inhabited]
    · rw [text, if_neg behind, if_pos short]
      rfl
    · rw [List.length_append, List.length_replicate]
      omega
    · rw [valueOf_append, valueOf_append, valueOf_zeros, show valueOf ['0'] = 0 by decide, Nat.zero_mul,
        Nat.zero_mul, Nat.zero_add, Nat.zero_add]
  · have long : row.length - places ≠ 0 := by omega
    have length : (row.drop (row.length - places)).length = places := by
      rw [List.length_drop]
      omega
    have behind : row.drop (row.length - places) ≠ [] := List.length_pos_iff.mp (length.symm ▸ positive)
    refine ⟨⟨row.take (row.length - places), row.drop (row.length - places), ?_, ?_, ?_, ?_⟩, ?_, length, ?_⟩
    · exact fun none => (List.take_eq_nil_iff.mp none).elim long inhabited
    · rwa [List.take_append_drop]
    · rw [List.head?_take, if_neg long]
      exact fun zero => absurd zero head
    · rwa [List.getLast?_drop, if_neg (by omega)]
    · rw [text, if_neg behind, if_neg short]
    · exact congrArg valueOf (List.take_append_drop _ _)

theorem exists_expansion {d : Decimal} (broken : d.exponent < 0) (trimmed : d.digits % 10 ≠ 0) :
    ∃ expansion : Expansion,
      expansion.text = d.positional ∧ expansion.fraction ≠ [] ∧ expansion.decimal = d := by
  have last : (Nat.toDigits 10 d.digits).getLast? ≠ some '0' := by
    rw [getLast_toDigits]
    exact fun zero => trimmed (Nat.digitChar_eq_zero.mp (Option.some.inj zero))
  obtain ⟨expansion, text, length, denotes⟩ := Expansion.exists_point
    (show 0 < (-d.exponent).toNat by omega)
    (fun c member => Nat.isDigit_of_mem_toDigits (by decide) (by decide) member)
    (toDigits_ne_nil d.digits) (head_toDigits (by omega)) last
  refine ⟨expansion, ?_, ?_, ?_⟩
  · rw [text, positional, if_neg (not_le.mpr broken)]
  · exact List.length_pos_iff.mp (by omega)
  · rw [Expansion.decimal, ofDigits, denotes, valueOf_toDigits, length]
    exact congrArg (Decimal.mk d.digits) (by omega)

end Decimal

namespace Number

variable {magnitude : Nat}

theorem isWhole_iff (magnitude : Nat) :
    (toFraction magnitude).isWhole = true ↔ ∃ n : Nat, (toFraction magnitude).value = n := by
  refine ⟨fun whole => ⟨_, Fraction.value_of_isWhole whole⟩, fun ⟨n, same⟩ => ?_⟩
  have den : ((toFraction magnitude).den : ℚ) ≠ 0 :=
    Nat.cast_ne_zero.mpr (Nat.pos_iff_ne_zero.mp (proper_toFraction magnitude))
  have multiple : (toFraction magnitude).num = n * (toFraction magnitude).den := by
    rw [Fraction.value, div_eq_iff den] at same
    exact_mod_cast same
  rw [Fraction.isWhole, multiple, Nat.mul_mod_left]
  rfl

/-- What is not whole has digits behind the point, in its shortest decimal as well: a whole decimal is
read as a whole number. -/
theorem shortestDecimal_broken (finite : magnitude < infinity)
    (broken : ¬ ∃ n : Nat, (toFraction magnitude).value = n) : (shortestDecimal magnitude).exponent < 0 := by
  by_contra up
  obtain ⟨n, whole⟩ := Decimal.exists_multiple (not_lt.mp up)
  rw [zpow_zero, mul_one] at whole
  have reads := magnitudeOf_shortestDecimal finite
  rw [whole] at reads
  obtain ⟨m, same⟩ := value_magnitudeOf_natCast (reads.symm ▸ finite)
  exact broken ⟨m, reads ▸ same⟩

/-- The display of what is not whole is an expansion of the shortest decimal. -/
theorem exists_displayDigits (finite : magnitude < infinity)
    (broken : ¬ ∃ n : Nat, (toFraction magnitude).value = n) : ∃ expansion : Decimal.Expansion,
      expansion.text = displayDigits magnitude ∧ expansion.fraction ≠ [] ∧
      expansion.decimal = shortestDecimal magnitude := by
  have below := shortestDecimal_broken finite broken
  rw [displayDigits, if_neg (fun whole => broken ((isWhole_iff magnitude).mp whole))]
  refine Decimal.exists_expansion below ?_
  refine (Decimal.trim_trimmed _).resolve_left fun zero => ?_
  rw [shortestDecimal, zero] at below
  exact absurd below (lt_irrefl 0)

theorem display_toList (v : Number) : v.display.toList = v.displayChars :=
  String.toList_ofList

/-- The display of a finite number is a minus sign exactly if the sign bit is set, and behind it digits
that never come with an exponent, none of which can be left out, so that no other such digits denote the
same. They have a fraction exactly if the number is not whole. The digits of a whole number denote its
value; those of another number denote what its digits in log messages do, which is the shortest decimal
that is read as it. Infinities and what is not a number have displays of their own. Every display is read
as the number that it was made from, bit for bit, and different numbers have different displays. -/
theorem display_canonical (v : Number) :
    (v.magnitude < infinity → ∃ expansion : Decimal.Expansion,
      v.display.toList = (if v.isNegative then ['-'] else []) ++ expansion.text ∧
      (∀ other : Decimal.Expansion, other.decimal.value = expansion.decimal.value → other = expansion) ∧
      (expansion.fraction = [] ↔ ∃ n : Nat, (toFraction v.magnitude).value = n) ∧
      (expansion.fraction = [] → expansion.decimal.value = (toFraction v.magnitude).value) ∧
      (expansion.fraction ≠ [] → ∃ digits logged,
        v.logged.toList = (if v.isNegative then ['-'] else []) ++ digits ∧
        Decimal.readScaled? digits = some logged ∧ Shortest v.magnitude logged ∧
        expansion.decimal.value = logged.value)) ∧
    (v.magnitude = infinity → v.display = if v.isNegative then "-inf" else "inf") ∧
    (infinity < v.magnitude → v.display = "NaN") ∧
    read? v.display.toList = some v ∧
    ∀ w : Number, w.display = v.display → w = v := by
  have sign (text : List Char) :
      signed v.isNegative text = (if v.isNegative then ['-'] else []) ++ text := by
    unfold signed
    split <;> rfl
  refine ⟨fun finite => ?_, fun same => ?_, fun beyond => ?_, ?_, fun w same => ?_⟩
  · have shown : v.display.toList = (if v.isNegative then ['-'] else []) ++ displayDigits v.magnitude := by
      rw [display_toList, displayChars, if_neg (by omega), if_neg (by omega), sign]
    by_cases whole : ∃ n : Nat, (toFraction v.magnitude).value = n
    · have isWhole := (isWhole_iff v.magnitude).mpr whole
      refine ⟨.ofNat (toFraction v.magnitude).floor, ?_, fun _ => Decimal.Expansion.eq_of_value,
        iff_of_true rfl whole, fun _ => ?_, fun some => ?_⟩
      · rw [shown, displayDigits, if_pos isWhole, Decimal.Expansion.text_ofNat]
      · rw [Decimal.Expansion.value_ofNat, Fraction.value_of_isWhole isWhole]
      · exact absurd rfl some
    · obtain ⟨expansion, text, some, denotes⟩ := exists_displayDigits finite whole
      refine ⟨expansion, ?_, fun _ => Decimal.Expansion.eq_of_value, iff_of_false some whole,
        fun none => absurd none some, fun _ => ?_⟩
      · rw [shown, text]
      · obtain ⟨logged, read, value⟩ := value_loggedDigits v.magnitude
        refine ⟨loggedDigits v.magnitude, logged, ?_, read,
          (shortest_shortestDecimal finite).of_value value.symm, ?_⟩
        · rw [Number.logged, String.toList_ofList, loggedChars, if_neg (by omega), if_neg (by omega), sign]
        · rw [denotes, value]
  · rw [display, displayChars, if_neg (by omega), if_pos same, signed]
    split <;> rfl
  · rw [display, displayChars, if_pos beyond]
  · rw [display_toList, read?_displayChars]
  · have reads := read?_displayChars w
    rw [← display_toList, same, display_toList, read?_displayChars] at reads
    exact (Option.some.inj reads).symm

theorem display_canonical_minusThreeHalves :
    let v := ofMagnitude true 0x3FF8000000000000
    v.magnitude < infinity ∧
    (∃ expansion : Decimal.Expansion, v.display.toList = '-' :: expansion.text ∧ expansion.fraction ≠ [] ∧
      ∃ digits logged, v.logged.toList = '-' :: digits ∧ Decimal.readScaled? digits = some logged ∧
        Shortest v.magnitude logged ∧ expansion.decimal.value = logged.value) ∧
    (ofMagnitude true infinity).display = "-inf" ∧ notANumber.display = "NaN" ∧
    read? v.display.toList = some v := by
  intro v
  have finite : v.magnitude < infinity := by decide
  have negative : v.isNegative = true := by decide
  have broken : ¬ ∃ n : Nat, (toFraction v.magnitude).value = n :=
    (isWhole_iff v.magnitude).not.mp (by decide)
  obtain ⟨expansion, shown, -, fraction, -, shortest⟩ := (display_canonical v).1 finite
  have some : expansion.fraction ≠ [] := fraction.not.mpr broken
  rw [negative] at shown shortest
  exact ⟨finite, ⟨expansion, shown, some, shortest some⟩, (display_canonical _).2.1 (by decide),
    (display_canonical _).2.2.1 (by decide +kernel), (display_canonical v).2.2.2.1⟩

end Number

end LineCalc
