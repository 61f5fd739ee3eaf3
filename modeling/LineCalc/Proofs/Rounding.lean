import LineCalc.Number.Shortest
import Mathlib.Algebra.Order.Field.Power
import Mathlib.Algebra.Order.Floor.Semifield
import Mathlib.Data.Int.Log
import Mathlib.Data.Rat.Floor
import Mathlib.Tactic.Linarith
import Mathlib.Tactic.Positivity
import Mathlib.Tactic.Ring

/-!
Rounding is a matter of values. However a quotient is written, the magnitude nearest to it depends on
the rational number that it is, and the magnitude nearest to the value of a finite magnitude is that
magnitude again.
-/

namespace LineCalc

namespace Fraction

def value (f : Fraction) : ℚ :=
  f.num / f.den

def Proper (f : Fraction) : Prop :=
  0 < f.den

theorem proper_ofNat (n : Nat) : (ofNat n).Proper :=
  Nat.one_pos

@[simp] theorem value_ofNat (n : Nat) : (ofNat n).value = n := by
  simp [value, ofNat]

variable {f : Fraction} {base : Nat} (proper : f.Proper)
include proper

theorem Proper.timesPower (positive : 0 < base) (exponent : Int) :
    (f.timesPower base exponent).Proper := by
  unfold Fraction.timesPower
  split
  · exact proper
  · exact Nat.mul_pos proper (Nat.pow_pos positive)

omit proper in
theorem value_timesPower (exponent : Int) :
    (f.timesPower base exponent).value = f.value * (base : ℚ) ^ exponent := by
  unfold Fraction.timesPower
  split
  · next up =>
    obtain ⟨n, rfl⟩ := Int.eq_ofNat_of_zero_le up
    simp only [value, Int.toNat_natCast, zpow_natCast, Nat.pow_eq]
    push_cast
    ring
  · next down =>
    obtain ⟨n, same⟩ := Int.eq_ofNat_of_zero_le (show 0 ≤ -exponent by omega)
    obtain rfl : exponent = -n := by omega
    simp only [value, neg_neg, Int.toNat_natCast, zpow_neg, zpow_natCast, Nat.pow_eq]
    push_cast
    rw [div_mul_eq_div_div, div_eq_mul_inv (_ / _)]

theorem Proper.value_eq_zero : f.value = 0 ↔ f.num = 0 := by
  have den : (f.den : ℚ) ≠ 0 := Nat.cast_ne_zero.mpr (Nat.pos_iff_ne_zero.mp proper)
  simp [value, den]

theorem Proper.value_pos (positive : 0 < f.num) : 0 < f.value :=
  div_pos (Nat.cast_pos.mpr positive) (Nat.cast_pos.mpr proper)

theorem Proper.belowOne : f.belowOne = true ↔ f.value < 1 := by
  have den : (0 : ℚ) < f.den := Nat.cast_pos.mpr proper
  rw [Fraction.belowOne, decide_eq_true_iff, value, div_lt_one den, Nat.cast_lt]

omit proper in
theorem floor_value : ⌊f.value⌋₊ = f.num / f.den :=
  Nat.floor_div_eq_div f.num f.den

theorem Proper.value_sub_floor : (f.value - (f.num / f.den : Nat)) * f.den = (f.num % f.den : Nat) := by
  have den : (f.den : ℚ) ≠ 0 := Nat.cast_ne_zero.mpr (Nat.pos_iff_ne_zero.mp proper)
  have parts : ((f.den * (f.num / f.den) + f.num % f.den : Nat) : ℚ) = f.num :=
    congrArg Nat.cast (Nat.div_add_mod f.num f.den)
  push_cast at parts ⊢
  rw [sub_mul, value, div_mul_cancel₀ _ den]
  linarith

end Fraction

/-- The natural number nearest to a rational number; a half goes to the even neighbour. -/
def roundHalfEven (q : ℚ) : Nat :=
  let rest := 2 * (q - ⌊q⌋₊)
  if rest < 1 ∨ rest = 1 ∧ ⌊q⌋₊ % 2 = 0 then ⌊q⌋₊ else ⌊q⌋₊ + 1

theorem roundHalfEven_natCast (n : Nat) : roundHalfEven n = n := by
  simp [roundHalfEven]

namespace Fraction

variable {f : Fraction} (proper : f.Proper)
include proper

theorem Proper.nearest_eq : f.nearest = roundHalfEven f.value := by
  have den : (0 : ℚ) < f.den := Nat.cast_pos.mpr proper
  have rest := proper.value_sub_floor
  have scaled : 2 * (f.value - (f.num / f.den : Nat)) * f.den = (2 * (f.num % f.den) : Nat) := by
    rw [mul_assoc, rest]
    push_cast
    ring
  have less : 2 * (f.num % f.den) < f.den ↔ 2 * (f.value - (f.num / f.den : Nat)) < 1 := by
    rw [← Nat.cast_lt (α := ℚ), ← scaled, mul_lt_iff_lt_one_left den]
  have half : 2 * (f.num % f.den) = f.den ↔ 2 * (f.value - (f.num / f.den : Nat)) = 1 := by
    rw [← Nat.cast_inj (R := ℚ), ← scaled, mul_eq_right₀ den.ne']
  simp only [nearest, roundHalfEven, floor_value, less, half]

/-- A quotient is between two powers of a base that its parts allow for. -/
theorem Proper.value_bracket {base k l : Nat} (some : 0 < base) (numLow : base ^ k ≤ f.num)
    (numHigh : f.num < base ^ (k + 1)) (denLow : base ^ l ≤ f.den) (denHigh : f.den < base ^ (l + 1)) :
    (base : ℚ) ^ ((k : Int) - l - 1) ≤ f.value ∧ f.value < (base : ℚ) ^ ((k : Int) - l + 1) := by
  have den : (0 : ℚ) < f.den := Nat.cast_pos.mpr proper
  have unit : (0 : ℚ) < base := Nat.cast_pos.mpr some
  have joined (exponent : Int) (n : Nat) :
      (base : ℚ) ^ exponent * base ^ n = (base : ℚ) ^ (exponent + n) := by
    rw [zpow_add₀ unit.ne', zpow_natCast]
  constructor
  · rw [value, le_div_iff₀ den]
    calc (base : ℚ) ^ ((k : Int) - l - 1) * f.den
        ≤ (base : ℚ) ^ ((k : Int) - l - 1) * base ^ (l + 1) := by
          gcongr
          exact_mod_cast denHigh.le
      _ = base ^ k := by
        rw [joined, ← zpow_natCast]
        congr 1
        push_cast
        omega
      _ ≤ f.num := by exact_mod_cast numLow
  · rw [value, div_lt_iff₀ den]
    calc (f.num : ℚ) < base ^ (k + 1) := by exact_mod_cast numHigh
      _ = (base : ℚ) ^ ((k : Int) - l + 1) * base ^ l := by
        rw [joined, ← zpow_natCast]
        congr 1
        push_cast
        omega
      _ ≤ (base : ℚ) ^ ((k : Int) - l + 1) * f.den := by
        gcongr
        exact_mod_cast denLow

/-- Whether a quotient over a power is below one tells whether its logarithm is below the exponent. -/
theorem Proper.belowOne_over (positive : 0 < f.num) {base : Nat} (large : 1 < base) (exponent : Int) :
    (f.timesPower base (-exponent)).belowOne = true ↔ Int.log base f.value < exponent := by
  have some := proper.value_pos positive
  have unit : (0 : ℚ) < base := Nat.cast_pos.mpr (by omega)
  rw [(proper.timesPower (by omega) _).belowOne, value_timesPower, zpow_neg, ← div_eq_mul_inv,
    div_lt_one (by positivity), Int.lt_zpow_iff_log_lt large some]

/-- The parts of a positive quotient tell its logarithm but for one. -/
theorem Proper.log_bracket {base k l : Nat} (large : 1 < base) (numLow : base ^ k ≤ f.num)
    (numHigh : f.num < base ^ (k + 1)) (denLow : base ^ l ≤ f.den) (denHigh : f.den < base ^ (l + 1)) :
    (k : Int) - l - 1 ≤ Int.log base f.value ∧ Int.log base f.value < (k : Int) - l + 1 := by
  obtain ⟨low, high⟩ := proper.value_bracket (by omega) numLow numHigh denLow denHigh
  have positive : 0 < f.num := lt_of_lt_of_le (Nat.pow_pos (by omega)) numLow
  have some := proper.value_pos positive
  exact ⟨(Int.zpow_le_iff_le_log large some).mp low, (Int.lt_zpow_iff_log_lt large some).mp high⟩

theorem Proper.log2_eq (positive : 0 < f.num) : f.log2 = Int.log 2 f.value := by
  have bracket := proper.log_bracket Nat.one_lt_two
    (Nat.log2_self_le (Nat.pos_iff_ne_zero.mp positive)) Nat.lt_log2_self
    (Nat.log2_self_le (Nat.pos_iff_ne_zero.mp proper)) Nat.lt_log2_self
  unfold log2
  simp only [proper.belowOne_over positive Nat.one_lt_two]
  split <;> omega

end Fraction

namespace Number

/-- The magnitude nearest to a rational number that is not negative. -/
def magnitudeOf (q : ℚ) : Nat :=
  if q = 0 then 0
  else
    let exponent := max (Int.log 2 q - 52) (-1074)
    min (packed (roundHalfEven (q * 2 ^ (-exponent))) exponent) infinity

/-- The exponent with which a positive quotient is rounded. -/
def exponentOf (q : ℚ) : Int :=
  max (Int.log 2 q - 52) (-1074)

/-- The quotient in units of the last bit with which it is rounded. -/
def scaled (q : ℚ) : ℚ :=
  q * 2 ^ (-exponentOf q)

theorem magnitudeOf_eq {q : ℚ} (positive : 0 < q) :
    magnitudeOf q = min (packed (roundHalfEven (scaled q)) (exponentOf q)) infinity :=
  if_neg positive.ne'

/-- The exponent is the only one that leaves all bits of the significand before the point. -/
theorem exponentOf_eq {q : ℚ} (positive : 0 < q) {exponent : Int} (least : -1074 ≤ exponent)
    (high : q * 2 ^ (-exponent) < 2 ^ 53)
    (low : 2 ^ 52 ≤ q * 2 ^ (-exponent) ∨ exponent = -1074) : exponentOf q = exponent := by
  have unit : (0 : ℚ) < 2 ^ exponent := zpow_pos two_pos _
  have units : q = q * 2 ^ (-exponent) * 2 ^ exponent := by
    rw [zpow_neg, inv_mul_cancel_right₀ unit.ne']
  have above : Int.log 2 q < 53 + exponent := by
    apply (Int.lt_zpow_iff_log_lt Nat.one_lt_two positive).mp
    rw [Nat.cast_two, zpow_add₀ two_ne_zero, units]
    exact mul_lt_mul_of_pos_right (by exact_mod_cast high) unit
  unfold exponentOf
  rcases low with full | lowest
  · have below : 52 + exponent ≤ Int.log 2 q := by
      apply (Int.zpow_le_iff_le_log Nat.one_lt_two positive).mp
      rw [Nat.cast_two, zpow_add₀ two_ne_zero, units]
      exact mul_le_mul_of_nonneg_right (by exact_mod_cast full) unit.le
    omega
  · omega

/-- Which magnitude is nearest to a quotient depends on its value alone. -/
theorem nearestMagnitude_eq {f : Fraction} (proper : f.Proper) :
    nearestMagnitude f = magnitudeOf f.value := by
  unfold nearestMagnitude magnitudeOf
  by_cases zero : f.num = 0
  · rw [if_pos zero, if_pos (proper.value_eq_zero.mpr zero)]
  · have scaled (exponent : Int) : (f.timesPower 2 exponent).nearest =
        roundHalfEven (f.value * 2 ^ exponent) := by
      rw [(proper.timesPower Nat.two_pos exponent).nearest_eq, Fraction.value_timesPower,
        Nat.cast_two]
    rw [if_neg zero, if_neg (fun none => zero (proper.value_eq_zero.mp none)),
      proper.log2_eq (Nat.pos_iff_ne_zero.mpr zero)]
    simp only [scaled]

theorem proper_toFraction (magnitude : Nat) : (toFraction magnitude).Proper :=
  (Fraction.proper_ofNat _).timesPower Nat.two_pos _

theorem value_toFraction (magnitude : Nat) :
    (toFraction magnitude).value = significand magnitude * 2 ^ binaryExponent magnitude := by
  rw [toFraction, Fraction.value_timesPower, Fraction.value_ofNat, Nat.cast_two]

theorem significand_bounds (magnitude : Nat) :
    significand magnitude < 2 ^ 53 ∧ -1074 ≤ binaryExponent magnitude ∧
      (2 ^ 52 ≤ significand magnitude ∨ binaryExponent magnitude = -1074) := by
  unfold significand binaryExponent rangeSize
  split <;> omega

theorem significand_pos {magnitude : Nat} (some : magnitude ≠ 0) : 0 < significand magnitude := by
  unfold significand rangeSize
  split <;> omega

theorem value_pos {magnitude : Nat} (some : magnitude ≠ 0) : 0 < (toFraction magnitude).value := by
  have size : (0 : ℚ) < significand magnitude := Nat.cast_pos.mpr (significand_pos some)
  rw [value_toFraction]
  positivity

theorem value_zero : (toFraction 0).value = 0 := by
  simp [value_toFraction, significand, rangeSize]

theorem magnitudeOf_value {magnitude : Nat} (finite : magnitude < infinity) :
    magnitudeOf (toFraction magnitude).value = magnitude := by
  by_cases zero : magnitude = 0
  · subst zero
    exact if_pos value_zero
  · have units : (toFraction magnitude).value * 2 ^ (-binaryExponent magnitude) =
        significand magnitude := by
      rw [value_toFraction, zpow_neg, mul_inv_cancel_right₀ (zpow_ne_zero _ two_ne_zero)]
    obtain ⟨short, least, full⟩ := significand_bounds magnitude
    have exponent : exponentOf (toFraction magnitude).value = binaryExponent magnitude := by
      refine exponentOf_eq (value_pos zero) least ?_ ?_
      · rw [units]
        exact_mod_cast short
      · rw [units]
        exact full.imp_left fun long => by exact_mod_cast long
    rw [magnitudeOf_eq (value_pos zero), scaled, exponent, units, roundHalfEven_natCast, packed_significand,
      min_eq_left finite.le]

end Number

end LineCalc
