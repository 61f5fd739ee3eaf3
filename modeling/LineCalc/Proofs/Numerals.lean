import LineCalc.Number.Bits
import LineCalc.Proofs.Rounding
import LineCalc.Proofs.Segmentation

/-!
Numbers as digits. What is written without an exponent reads back as a decimal of the same value, so
that the display of a finite number reads back as that number.
-/

namespace LineCalc

theorem Text.digitValue_of_isDigit {c : Char} (ascii : c.isDigit = true) :
    digitValue c = c.toNat - '0'.toNat := by
  simp only [Char.isDigit, Bool.and_eq_true, decide_eq_true_eq, ge_iff_le,
    UInt32.le_iff_toNat_le] at ascii
  obtain ⟨low, high⟩ := ascii
  have below : c.toNat ≤ 0x39 := high
  have above : 0x30 ≤ c.toNat := low
  simp only [digitValue, digitRanges, CodeRanges.tensOffset, if_pos below]
  have start : '0'.toNat = 0x30 := rfl
  omega

namespace Decimal

def value (d : Decimal) : ℚ :=
  d.digits * 10 ^ d.exponent

theorem proper_toFraction (d : Decimal) : d.toFraction.Proper :=
  (Fraction.proper_ofNat _).timesPower (by decide) _

theorem value_toFraction (d : Decimal) : d.toFraction.value = d.value := by
  rw [toFraction, Fraction.value_timesPower, Fraction.value_ofNat, value]
  norm_num

theorem value_trim (d : Decimal) : d.trim.value = d.value := by
  induction d using trim.induct with
  | case1 d zero =>
    rw [trim, if_pos zero]
    simp [value, zero]
  | case2 d some tens ih =>
    have whole : (d.digits : ℚ) = 10 * (d.digits / 10 : Nat) := by
      exact_mod_cast (Nat.mul_div_cancel' (Nat.dvd_of_mod_eq_zero tens)).symm
    rw [trim, if_neg some, if_pos tens, ih, value, value, whole, zpow_add₀ (by norm_num)]
    ring
  | case3 d some noTens => rw [trim, if_neg some, if_neg noTens]

/-! What rows of digits denote. -/

theorem valueOf_append (first second : List Char) :
    valueOf (first ++ second) = valueOf first * 10 ^ second.length + valueOf second := by
  have shifted (start : Nat) (row : List Char) :
      row.foldl (fun value digit => 10 * value + Text.digitValue digit) start =
        start * 10 ^ row.length + valueOf row := by
    induction row generalizing start with
    | nil => simp [valueOf]
    | cons digit later ih =>
      rw [valueOf, List.foldl_cons, List.foldl_cons, ih, ih (10 * 0 + _), List.length_cons]
      ring
  rw [valueOf, List.foldl_append, shifted]
  rfl

theorem valueOf_zeros (n : Nat) : valueOf (List.replicate n '0') = 0 := by
  induction n with
  | zero => rfl
  | succ n ih =>
    rw [List.replicate_succ', valueOf_append, ih]
    decide

theorem valueOf_toDigits (n : Nat) : valueOf (Nat.toDigits 10 n) = n := by
  have same : ∀ (row : List Char) (start : Nat), (∀ c ∈ row, c.isDigit = true) →
      row.foldl (fun value digit => 10 * value + Text.digitValue digit) start =
        Nat.ofDigitChars 10 row start := by
    intro row
    induction row with
    | nil => exact fun start digits => rfl
    | cons digit later ih =>
      intro start digits
      obtain ⟨first, others⟩ := List.forall_mem_cons.mp digits
      rw [List.foldl_cons, ih _ others, Text.digitValue_of_isDigit first]
      rfl
  rw [valueOf, same _ _ fun c member => Nat.isDigit_of_mem_toDigits (by decide) (by decide) member,
    Nat.ofDigitChars_toDigits (by decide) (by decide)]

theorem digits_toDigits (n : Nat) : ∀ c ∈ Nat.toDigits 10 n, Text.isDigit c = true :=
  fun _ member =>
    Text.isDigit_of_isDigit (Nat.isDigit_of_mem_toDigits (by decide) (by decide) member)

theorem digits_zeros (n : Nat) : ∀ c ∈ List.replicate n '0', Text.isDigit c = true := by
  intro c member
  rw [List.eq_of_mem_replicate member]
  decide

theorem toDigits_ne_nil (n : Nat) : Nat.toDigits 10 n ≠ [] :=
  List.length_pos_iff.mp Nat.length_toDigits_pos

theorem reads_digits {row : List Char} (inhabited : row ≠ [])
    (digits : ∀ c ∈ row, Text.isDigit c = true) :
    ∃ back, read? row = some back ∧ back.value = valueOf row := by
  refine ⟨_, read?_digits inhabited digits, ?_⟩
  simp [value, ofDigits]

/-- Digits with a point among them read as what they denote without it, as many places lower as there
are digits behind it. -/
theorem reads_point {front fraction : List Char} (inhabited : front ≠ [])
    (digits : ∀ c ∈ front ++ fraction, Text.isDigit c = true) :
    ∃ back, read? (front ++ '.' :: fraction) = some back ∧
      back.value = valueOf (front ++ fraction) * 10 ^ (-(fraction.length : Int)) := by
  obtain ⟨before, behind⟩ := List.forall_mem_append.mp digits
  exact ⟨_, (read?_point inhabited before).trans (if_pos (List.all_eq_true.mpr behind)), rfl⟩

theorem read?_positional (d : Decimal) :
    ∃ back, read? d.positional = some back ∧ back.value = d.value := by
  have digits := digits_toDigits d.digits
  have inhabited := toDigits_ne_nil d.digits
  have whole := valueOf_toDigits d.digits
  unfold positional
  generalize Nat.toDigits 10 d.digits = row at digits inhabited whole
  by_cases up : 0 ≤ d.exponent
  · obtain ⟨n, same⟩ := Int.eq_ofNat_of_zero_le up
    obtain ⟨back, read, denotes⟩ := reads_digits
      (List.append_ne_nil_of_left_ne_nil inhabited (List.replicate d.exponent.toNat '0'))
      (List.forall_mem_append.mpr ⟨digits, digits_zeros _⟩)
    rw [if_pos up]
    refine ⟨back, read, ?_⟩
    rw [denotes, valueOf_append, valueOf_zeros, whole, value, same]
    simp
  · obtain ⟨places, same⟩ := Int.eq_ofNat_of_zero_le (show 0 ≤ -d.exponent by omega)
    have exponent : d.exponent = -(places : Int) := by omega
    have count : (-d.exponent).toNat = places := by omega
    simp only [if_neg up, count]
    by_cases short : row.length ≤ places
    · have length : (List.replicate (places - row.length) '0' ++ row).length = places := by
        rw [List.length_append, List.length_replicate]
        omega
      obtain ⟨back, read, denotes⟩ := reads_point (List.cons_ne_nil '0' [])
        (List.forall_mem_append.mpr ⟨digits_zeros 1, List.forall_mem_append.mpr
          ⟨digits_zeros (places - row.length), digits⟩⟩)
      rw [if_pos short]
      refine ⟨back, read, ?_⟩
      rw [denotes, length, valueOf_append, valueOf_append, valueOf_zeros, whole,
        show valueOf ['0'] = 0 by decide, value, exponent]
      simp
    · have parts := List.take_append_drop (row.length - places) row
      have length : (row.drop (row.length - places)).length = places := by
        rw [List.length_drop]
        omega
      have front : row.take (row.length - places) ≠ [] := by
        rw [← List.length_pos_iff, List.length_take]
        omega
      obtain ⟨back, read, denotes⟩ := reads_point front (parts.symm ▸ digits)
      rw [if_neg short]
      refine ⟨back, read, ?_⟩
      rw [denotes, parts, length, whole, value, exponent]

end Decimal

theorem Fraction.value_of_isWhole {f : Fraction} (whole : f.isWhole = true) : f.value = f.floor := by
  have rest : f.num % f.den = 0 := beq_iff_eq.mp whole
  rw [value, floor, Nat.cast_div_charZero (Nat.dvd_of_mod_eq_zero rest)]

namespace Number

theorem readsBack_iff {magnitude : Nat} {d : Decimal} :
    readsBack magnitude d = true ↔ magnitudeOf d.value = magnitude := by
  rw [readsBack, beq_iff_eq, nearestMagnitude_eq d.proper_toFraction, d.value_toFraction]

theorem value_exactDecimal (magnitude : Nat) :
    (exactDecimal magnitude).value = (toFraction magnitude).value := by
  rw [value_toFraction, exactDecimal]
  split
  · next up =>
    obtain ⟨n, same⟩ := Int.eq_ofNat_of_zero_le up
    simp [Decimal.value, same]
  · next down =>
    obtain ⟨n, same⟩ := Int.eq_ofNat_of_zero_le (show 0 ≤ -binaryExponent magnitude by omega)
    have exponent : binaryExponent magnitude = -(n : Int) := by omega
    have ten : (10 : ℚ) ^ n = 5 ^ n * 2 ^ n := by
      rw [← mul_pow]
      norm_num
    simp only [Decimal.value, exponent, neg_neg, Int.toNat_natCast, Nat.pow_eq, zpow_neg,
      zpow_natCast, ten, mul_inv]
    push_cast
    field_simp

/-- However the search for the shortest decimal ends, what it finds reads back. -/
theorem magnitudeOf_shortestDecimal {magnitude : Nat} (finite : magnitude < infinity) :
    magnitudeOf (shortestDecimal magnitude).value = magnitude := by
  rw [shortestDecimal, Decimal.value_trim]
  generalize (List.range' 1 17).flatMap (toFraction magnitude).neighbours = candidates
  cases found : candidates.find? (readsBack magnitude) with
  | some d => exact readsBack_iff.mp (List.find?_some found)
  | none =>
    rw [Option.getD_none, value_exactDecimal]
    exact magnitudeOf_value finite

theorem magnitudeOf_displayDigits {magnitude : Nat} (finite : magnitude < infinity) :
    ∃ back, Decimal.read? (displayDigits magnitude) = some back ∧
      nearestMagnitude back.toFraction = magnitude := by
  suffices same : ∃ back, Decimal.read? (displayDigits magnitude) = some back ∧
      magnitudeOf back.value = magnitude by
    obtain ⟨back, read, nearest⟩ := same
    refine ⟨back, read, ?_⟩
    rw [nearestMagnitude_eq back.proper_toFraction, back.value_toFraction, nearest]
  unfold displayDigits
  split
  · next whole =>
    obtain ⟨back, read, denotes⟩ := Decimal.reads_digits
      (Decimal.toDigits_ne_nil (toFraction magnitude).floor) (Decimal.digits_toDigits _)
    refine ⟨back, read, ?_⟩
    rw [denotes, Decimal.valueOf_toDigits, ← Fraction.value_of_isWhole whole]
    exact magnitudeOf_value finite
  · obtain ⟨back, read, same⟩ := (shortestDecimal magnitude).read?_positional
    exact ⟨back, read, same ▸ magnitudeOf_shortestDecimal finite⟩

/-- The digits of a display are read as the number that they display. -/
theorem read?_displayDigits {magnitude : Nat} (finite : magnitude < infinity) :
    ∃ back, Decimal.read? (displayDigits magnitude) = some back ∧
      ofDecimal back = ofMagnitude false magnitude := by
  obtain ⟨back, read, nearest⟩ := magnitudeOf_displayDigits finite
  exact ⟨back, read, by rw [ofDecimal, nearest]⟩

end Number

end LineCalc
