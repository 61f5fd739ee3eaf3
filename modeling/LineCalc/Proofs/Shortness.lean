import LineCalc.Proofs.Nearness
import LineCalc.Proofs.Numerals

/-!
The shortest decimal is the shortest one. Of all decimals that read back as a number, the one that the
search finds has the fewest digits, and of those with as few digits it is the nearest to the value. What
makes one to seventeen digits and two decimals for each of them enough: seventeen digits are always near
enough, and a decimal that reads back has, among the two next to the value with as many digits, one that
is between it and the value.
-/

namespace LineCalc

namespace Decimal

/-! How many digits a value needs. -/

theorem trim_digits_le (d : Decimal) : d.trim.digits ≤ d.digits := by
  induction d using trim.induct with
  | case1 d zero =>
    rw [trim, if_pos zero]
    exact Nat.zero_le _
  | case2 d some tens ih =>
    rw [trim, if_neg some, if_pos tens]
    exact ih.trans (Nat.div_le_self _ _)
  | case3 d some noTens => rw [trim, if_neg some, if_neg noTens]

theorem trim_trimmed (d : Decimal) : d.trim = ⟨0, 0⟩ ∨ d.trim.digits % 10 ≠ 0 := by
  induction d using trim.induct with
  | case1 d zero =>
    rw [trim, if_pos zero]
    exact .inl rfl
  | case2 d some tens ih => rwa [trim, if_neg some, if_pos tens]
  | case3 d some noTens =>
    rw [trim, if_neg some, if_neg noTens]
    exact .inr noTens

/-- Of two decimals of the same value the one with the lower exponent ends in a zero. -/
theorem exponent_le_of_value {d e : Decimal} (same : d.value = e.value) (trimmed : d.digits % 10 ≠ 0) :
    e.exponent ≤ d.exponent := by
  by_contra less
  obtain ⟨n, step⟩ := Int.eq_ofNat_of_zero_le (show 0 ≤ e.exponent - d.exponent - 1 by omega)
  have exponent : e.exponent = d.exponent + (n + 1 : Nat) := by
    push_cast
    omega
  have unit : (10 : ℚ) ^ d.exponent ≠ 0 := zpow_ne_zero _ (by norm_num)
  have digits : (d.digits : ℚ) = (e.digits * 10 ^ (n + 1) : Nat) := by
    apply mul_right_cancel₀ unit
    calc (d.digits : ℚ) * 10 ^ d.exponent = e.digits * 10 ^ e.exponent := same
      _ = (e.digits * 10 ^ (n + 1) : Nat) * 10 ^ d.exponent := by
        rw [exponent, zpow_add₀ (by norm_num), zpow_natCast]
        push_cast
        ring
  have whole : d.digits = e.digits * 10 ^ n * 10 := by
    rw [Nat.cast_inj.mp digits, pow_succ, mul_assoc]
  omega

theorem digits_eq_zero_iff {d : Decimal} : d.digits = 0 ↔ d.value = 0 := by
  rw [value, mul_eq_zero, Nat.cast_eq_zero]
  exact (or_iff_left (zpow_ne_zero _ (by norm_num))).symm

theorem trim_eq_of_value {d e : Decimal} (same : d.value = e.value) : d.trim = e.trim := by
  rw [← d.value_trim, ← e.value_trim] at same
  have zero (x : Decimal) (none : x.trim.value = 0) : x.trim = ⟨0, 0⟩ := by
    refine x.trim_trimmed.resolve_right fun trimmed => trimmed ?_
    rw [digits_eq_zero_iff.mpr none]
  by_cases none : e.trim.value = 0
  · rw [zero d (same.trans none), zero e none]
  · have trimmed (x : Decimal) (some : x.trim.value ≠ 0) : x.trim.digits % 10 ≠ 0 := by
      refine x.trim_trimmed.resolve_left fun none => some ?_
      rw [none]
      simp [value]
    have exponent : d.trim.exponent = e.trim.exponent :=
      Int.le_antisymm (exponent_le_of_value same.symm (trimmed e none))
        (exponent_le_of_value same (trimmed d (same ▸ none)))
    have digits : d.trim.digits = e.trim.digits := by
      rw [value, value, exponent] at same
      exact Nat.cast_inj.mp (mul_right_cancel₀ (zpow_ne_zero _ (by norm_num)) same)
    exact congrArg₂ Decimal.mk digits exponent

theorem exists_multiple {d : Decimal} {exponent : Int} (coarse : exponent ≤ d.exponent) :
    ∃ n : Nat, d.value = n * 10 ^ exponent := by
  obtain ⟨shift, step⟩ := Int.eq_ofNat_of_zero_le (Int.sub_nonneg_of_le coarse)
  refine ⟨d.digits * 10 ^ shift, ?_⟩
  rw [value, show d.exponent = shift + exponent by omega, zpow_add₀ (by norm_num), zpow_natCast]
  push_cast
  ring

/-- A decimal whose last digit is below another place is less than what its digits allow for there. -/
theorem value_le_power {d : Decimal} {count : Nat} {exponent : Int} (bound : d.digits < 10 ^ count)
    (fine : d.exponent < exponent) : d.value ≤ 10 ^ (exponent + count - 1) := by
  calc d.value ≤ 10 ^ count * 10 ^ (exponent - 1) := by
        unfold value
        gcongr
        · exact_mod_cast bound.le
        · norm_num
        · omega
    _ = 10 ^ (exponent + count - 1) := by
        rw [← zpow_natCast, ← zpow_add₀ (by norm_num)]
        congr 1
        ring

theorem value_nonneg (d : Decimal) : 0 ≤ d.value := by
  unfold value
  positivity

/-- How many digits a decimal has without zeros at its end. -/
def precision (d : Decimal) : Nat :=
  (Nat.toDigits 10 d.trim.digits).length

theorem precision_pos (d : Decimal) : 0 < d.precision :=
  Nat.length_toDigits_pos

theorem precision_eq_of_value {d e : Decimal} (same : d.value = e.value) : d.precision = e.precision := by
  rw [precision, precision, trim_eq_of_value same]

theorem precision_le_iff {d : Decimal} {count : Nat} (some : 0 < count) :
    d.precision ≤ count ↔ d.trim.digits < 10 ^ count :=
  Nat.length_toDigits_le_iff (by decide) some

theorem precision_le {d : Decimal} {count : Nat} (some : 0 < count) (bound : d.digits ≤ 10 ^ count) :
    d.precision ≤ count := by
  rw [precision_le_iff some]
  refine lt_of_le_of_ne (d.trim_digits_le.trans bound) fun full => ?_
  rcases d.trim_trimmed with zero | trimmed
  · rw [zero] at full
    exact absurd full.symm (Nat.pow_pos (by decide)).ne'
  · rw [full] at trimmed
    obtain ⟨fewer, rfl⟩ := Nat.exists_eq_succ_of_ne_zero some.ne'
    exact trimmed (by rw [Nat.pow_succ, Nat.mul_mod_left])

end Decimal

namespace Fraction

/-! Digits before the point. -/

theorem toDigits_bracket {n : Nat} (positive : 0 < n) :
    10 ^ ((Nat.toDigits 10 n).length - 1) ≤ n ∧ n < 10 ^ ((Nat.toDigits 10 n).length - 1 + 1) := by
  have some : 0 < (Nat.toDigits 10 n).length := Nat.length_toDigits_pos
  generalize same : (Nat.toDigits 10 n).length = count at some
  obtain ⟨fewer, rfl⟩ := Nat.exists_eq_succ_of_ne_zero some.ne'
  constructor
  · by_contra less
    cases fewer with
    | zero => exact less positive
    | succ fewer =>
      have short := (Nat.length_toDigits_le_iff (by decide) (Nat.succ_pos fewer)).mpr (Nat.not_le.mp less)
      omega
  · exact (Nat.length_toDigits_le_iff (by decide) some).mp same.le

/-! The decimals next to a quotient. -/

/-- The quotient in units of the last of so many digits. -/
def units (f : Fraction) (count : Nat) : ℚ :=
  f.value * 10 ^ (-(f.decimalPoint - count))

theorem units_mul (f : Fraction) (count : Nat) :
    f.units count * 10 ^ (f.decimalPoint - count) = f.value := by
  rw [units, zpow_neg, inv_mul_cancel_right₀ (zpow_ne_zero _ (by norm_num))]

theorem value_nonneg (f : Fraction) : 0 ≤ f.value := by
  unfold value
  positivity

theorem units_nonneg (f : Fraction) (count : Nat) : 0 ≤ f.units count :=
  mul_nonneg f.value_nonneg (by positivity)

theorem floor_units {f : Fraction} (count : Nat) :
    (f.timesPower 10 (-(f.decimalPoint - count))).floor = ⌊f.units count⌋₊ := by
  rw [Fraction.floor, ← floor_value, value_timesPower, Nat.cast_ofNat, units]

variable {f : Fraction} (proper : f.Proper)
include proper

theorem Proper.decimalPoint_eq (positive : 0 < f.num) : f.decimalPoint = Int.log 10 f.value + 1 := by
  have num := toDigits_bracket positive
  have den := toDigits_bracket proper
  have bracket := proper.log_bracket (by decide) num.1 num.2 den.1 den.2
  have numSome : 0 < (Nat.toDigits 10 f.num).length := Nat.length_toDigits_pos
  have denSome : 0 < (Nat.toDigits 10 f.den).length := Nat.length_toDigits_pos
  unfold decimalPoint
  simp only [proper.belowOne_over positive (show 1 < 10 by decide)]
  split <;> omega

/-- The point stands right before the first digit. -/
theorem Proper.value_bracket_ten (positive : 0 < f.num) :
    (10 : ℚ) ^ (f.decimalPoint - 1) ≤ f.value ∧ f.value < (10 : ℚ) ^ f.decimalPoint := by
  have some := proper.value_pos positive
  rw [proper.decimalPoint_eq positive, add_sub_cancel_right]
  exact ⟨by exact_mod_cast Int.zpow_log_le_self (by decide) some,
    by exact_mod_cast Int.lt_zpow_succ_log_self (by decide) f.value⟩

/-- What is below the quotient in units of the last digit has that many digits at most. -/
theorem Proper.floor_units_lt (positive : 0 < f.num) (count : Nat) : ⌊f.units count⌋₊ < 10 ^ count := by
  rw [Nat.floor_lt (f.units_nonneg count)]
  have unit : (0 : ℚ) < 10 ^ (f.decimalPoint - count) := by positivity
  suffices less : f.units count * 10 ^ (f.decimalPoint - count) <
      10 ^ count * 10 ^ (f.decimalPoint - count) by
    exact_mod_cast lt_of_mul_lt_mul_right less unit.le
  calc f.units count * 10 ^ (f.decimalPoint - count) = f.value := f.units_mul count
    _ < 10 ^ f.decimalPoint := (proper.value_bracket_ten positive).2
    _ = 10 ^ count * 10 ^ (f.decimalPoint - count) := by
      rw [← zpow_natCast, ← zpow_add₀ (by norm_num), add_sub_cancel]

theorem Proper.power_le_floor_units (positive : 0 < f.num) {count : Nat} (some : 0 < count) :
    (10 : ℚ) ^ (f.decimalPoint - 1) ≤ ⌊f.units count⌋₊ * 10 ^ (f.decimalPoint - count) := by
  obtain ⟨fewer, rfl⟩ := Nat.exists_eq_succ_of_ne_zero some.ne'
  have unit : (0 : ℚ) < 10 ^ (f.decimalPoint - fewer.succ) := by positivity
  have power : (10 : ℚ) ^ (f.decimalPoint - 1) =
      (10 ^ fewer : Nat) * 10 ^ (f.decimalPoint - fewer.succ) := by
    push_cast
    rw [← zpow_natCast, ← zpow_add₀ (by norm_num)]
    congr 1
    omega
  have low := (proper.value_bracket_ten positive).1
  rw [← f.units_mul fewer.succ, power] at low
  rw [power]
  exact mul_le_mul_of_nonneg_right
    (Nat.cast_le.mpr (Nat.le_floor (le_of_mul_le_mul_right low unit))) unit.le

theorem Proper.nearest_units (count : Nat) :
    (f.timesPower 10 (-(f.decimalPoint - count))).nearest = roundHalfEven (f.units count) := by
  rw [(proper.timesPower (by decide) _).nearest_eq, value_timesPower, Nat.cast_ofNat, units]

/-- The decimals next to a quotient are the two multiples of the last digit around it. -/
theorem Proper.mem_neighbours {d : Decimal} {count : Nat} : d ∈ f.neighbours count ↔
    d = ⟨⌊f.units count⌋₊, f.decimalPoint - count⟩ ∨ d = ⟨⌊f.units count⌋₊ + 1, f.decimalPoint - count⟩ := by
  unfold neighbours
  simp only [proper.nearest_units, floor_units, List.mem_cons, List.not_mem_nil, or_false]
  rcases roundHalfEven_cases (f.units count) with down | up
  · rw [if_pos down, down]
  · rw [if_neg (by omega), up]
    exact or_comm

theorem Proper.neighbours_nearest (count : Nat) : ∃ near far, f.neighbours count = [near, far] ∧
    ∀ c ∈ [near, far], |near.value - f.value| ≤ |c.value - f.value| := by
  refine ⟨_, _, rfl, fun c member => ?_⟩
  have exponent : c.exponent = f.decimalPoint - count := by
    rcases proper.mem_neighbours.mp member with rfl | rfl <;> rfl
  have unit : (0 : ℚ) < 10 ^ (f.decimalPoint - count) := by positivity
  simp only [proper.nearest_units, Decimal.value, exponent]
  rw [← f.units_mul count, ← sub_mul, ← sub_mul, abs_mul, abs_mul, abs_sub_comm, abs_sub_comm (c.digits : ℚ)]
  exact mul_le_mul_of_nonneg_right (roundHalfEven_nearest (f.units_nonneg count) _) (abs_nonneg _)

theorem Proper.find_nearest {p : Decimal → Bool} {found c : Decimal} {count : Nat}
    (here : (f.neighbours count).find? p = some found) (member : c ∈ f.neighbours count)
    (holds : p c = true) : |found.value - f.value| ≤ |c.value - f.value| := by
  obtain ⟨near, far, row, nearest⟩ := proper.neighbours_nearest count
  rw [row] at here member
  by_cases first : p near = true
  · rw [List.find?_cons_of_pos first] at here
    exact Option.some.inj here ▸ nearest c member
  · rw [List.find?_cons_of_neg first] at here
    have foundFar : found = far := List.mem_singleton.mp (List.mem_of_find?_eq_some here)
    have same : c = far := by
      rcases List.mem_cons.mp member with rfl | rest
      · exact absurd holds first
      · exact List.mem_singleton.mp rest
    rw [foundFar, same]

theorem Proper.precision_neighbours (positive : 0 < f.num) {d : Decimal} {count : Nat} (some : 0 < count)
    (member : d ∈ f.neighbours count) : d.precision ≤ count := by
  have bound := proper.floor_units_lt positive count
  apply Decimal.precision_le some
  rcases proper.mem_neighbours.mp member with rfl | rfl
  · exact bound.le
  · exact bound

/-- Next to the quotient there is, with as many digits as a decimal has, one that is no farther from the
quotient on the same side of it. -/
theorem Proper.exists_between (positive : 0 < f.num) {d : Decimal} {count : Nat}
    (short : d.precision ≤ count) : ∃ c ∈ f.neighbours count,
      d.value ≤ c.value ∧ c.value ≤ f.value ∨ f.value ≤ c.value ∧ c.value ≤ d.value := by
  have some : 0 < count := d.precision_pos.trans_le short
  have bound := (Decimal.precision_le_iff some).mp short
  have unit : (0 : ℚ) < 10 ^ (f.decimalPoint - count) := by positivity
  have low : (⌊f.units count⌋₊ : ℚ) * 10 ^ (f.decimalPoint - count) ≤ f.value := by
    rw [← f.units_mul count]
    exact mul_le_mul_of_nonneg_right (Nat.floor_le (f.units_nonneg count)) unit.le
  have high : f.value ≤ (⌊f.units count⌋₊ + 1 : Nat) * 10 ^ (f.decimalPoint - count) := by
    rw [← f.units_mul count]
    push_cast
    exact mul_le_mul_of_nonneg_right (Nat.lt_floor_add_one _).le unit.le
  rw [← d.value_trim]
  generalize d.trim = d at bound
  rcases Int.lt_or_le d.exponent (f.decimalPoint - count) with fine | coarse
  · -- A decimal in smaller units has too few of them to reach the first digit of the quotient.
    have less := Decimal.value_le_power bound fine
    rw [sub_add_cancel] at less
    exact ⟨_, proper.mem_neighbours.mpr (.inl rfl),
      .inl ⟨less.trans (proper.power_le_floor_units positive some), low⟩⟩
  · obtain ⟨n, whole⟩ := Decimal.exists_multiple coarse
    rw [whole]
    by_cases below : (n : ℚ) ≤ f.units count
    · exact ⟨_, proper.mem_neighbours.mpr (.inl rfl),
        .inl ⟨mul_le_mul_of_nonneg_right (Nat.cast_le.mpr (Nat.le_floor below)) unit.le, low⟩⟩
    · have above := (Nat.floor_lt (f.units_nonneg count)).mpr (not_le.mp below)
      exact ⟨_, proper.mem_neighbours.mpr (.inr rfl),
        .inr ⟨high, mul_le_mul_of_nonneg_right (Nat.cast_le.mpr above) unit.le⟩⟩

/-- The nearer one of them is half a unit away at most. -/
theorem Proper.exists_near (positive : 0 < f.num) (count : Nat) :
    ∃ c ∈ f.neighbours (count + 1), |c.value - f.value| * (2 * 10 ^ count) ≤ f.value := by
  have close := abs_sub_roundHalfEven (f.units_nonneg (count + 1))
  have unit : (0 : ℚ) < 10 ^ (f.decimalPoint - (count + 1 : Nat)) := by positivity
  refine ⟨⟨roundHalfEven (f.units (count + 1)), f.decimalPoint - (count + 1 : Nat)⟩,
    proper.mem_neighbours.mpr ?_, ?_⟩
  · exact (roundHalfEven_cases _).imp (congrArg (Decimal.mk · _)) (congrArg (Decimal.mk · _))
  · calc |(roundHalfEven (f.units (count + 1)) : ℚ) * 10 ^ (f.decimalPoint - (count + 1 : Nat)) - f.value| *
          (2 * 10 ^ count)
        = |f.units (count + 1) - roundHalfEven (f.units (count + 1))| *
          10 ^ (f.decimalPoint - (count + 1 : Nat)) * (2 * 10 ^ count) := by
          rw [abs_sub_comm (f.units _), ← abs_of_pos unit, ← abs_mul, abs_of_pos unit, sub_mul, f.units_mul]
      _ ≤ 1 / 2 * 10 ^ (f.decimalPoint - (count + 1 : Nat)) * (2 * 10 ^ count) := by gcongr
      _ = 10 ^ (f.decimalPoint - 1) := by
          rw [show f.decimalPoint - 1 = f.decimalPoint - (count + 1 : Nat) + count by push_cast; ring,
            zpow_add₀ (by norm_num), zpow_natCast]
          ring
      _ ≤ f.value := (proper.value_bracket_ten positive).1

end Fraction

namespace Number

variable {magnitude : Nat}

theorem num_pos (nonzero : magnitude ≠ 0) : 0 < (toFraction magnitude).num := by
  rw [Nat.pos_iff_ne_zero, ne_eq, ← (proper_toFraction magnitude).value_eq_zero]
  exact (value_pos nonzero).ne'

/-- If a decimal reads back, so does one next to the value with as many digits, which is no farther from
the value. -/
theorem exists_neighbour (finite : magnitude < infinity) (nonzero : magnitude ≠ 0) {d : Decimal}
    {count : Nat} (reads : readsBack magnitude d = true) (short : d.precision ≤ count) :
    ∃ c ∈ (toFraction magnitude).neighbours count, readsBack magnitude c = true ∧
      |c.value - (toFraction magnitude).value| ≤ |d.value - (toFraction magnitude).value| := by
  obtain ⟨c, member, side⟩ := (proper_toFraction magnitude).exists_between (num_pos nonzero) short
  have itself := magnitudeOf_value finite
  simp only [readsBack_iff] at reads ⊢
  refine ⟨c, member, ?_⟩
  rcases side with ⟨near, low⟩ | ⟨high, near⟩
  · refine ⟨magnitudeOf_between d.value_nonneg near low reads itself, ?_⟩
    rw [abs_of_nonpos (by linarith), abs_of_nonpos (by linarith)]
    linarith
  · refine ⟨magnitudeOf_between (toFraction magnitude).value_nonneg high near itself reads, ?_⟩
    rw [abs_of_nonneg (by linarith), abs_of_nonneg (by linarith)]
    linarith

/-- Seventeen digits are enough. -/
theorem exists_seventeen (finite : magnitude < infinity) (nonzero : magnitude ≠ 0) :
    ∃ c ∈ (toFraction magnitude).neighbours 17, readsBack magnitude c = true := by
  obtain ⟨c, member, near⟩ := (proper_toFraction magnitude).exists_near (num_pos nonzero) 16
  exact ⟨c, member, readsBack_iff.mpr (magnitudeOf_of_near finite nonzero near)⟩

/-- The search finds, with the least number of digits with which it finds anything, the nearer one of the
decimals that read back. -/
theorem shortestDecimal_found (finite : magnitude < infinity) (nonzero : magnitude ≠ 0) :
    ∃ count found, 0 < count ∧ shortestDecimal magnitude = found.trim ∧
      ((toFraction magnitude).neighbours count).find? (readsBack magnitude) = some found ∧
      ∀ fewer, 0 < fewer → fewer < count → ∀ c ∈ (toFraction magnitude).neighbours fewer,
        readsBack magnitude c = false := by
  obtain ⟨c, member, reads⟩ := exists_seventeen finite nonzero
  unfold shortestDecimal
  simp only [List.find?_flatMap]
  cases result : (List.range' 1 17).findSome? fun count =>
      ((toFraction magnitude).neighbours count).find? (readsBack magnitude) with
  | none =>
    have refused := List.find?_eq_none.mp (List.findSome?_eq_none_iff.mp result 17 (by decide)) c member
    exact absurd reads refused
  | some found =>
    obtain ⟨before, count, behind, row, here, none⟩ := List.findSome?_eq_some_iff.mp result
    obtain ⟨fewer, -, rfl, rest⟩ := List.range'_eq_append_iff.mp row
    obtain ⟨rfl, -⟩ := List.range'_eq_cons_iff.mp rest.symm
    refine ⟨_, found, by omega, rfl, here, fun less some below c member => ?_⟩
    have refused := List.find?_eq_none.mp (none less (List.mem_range'_1.mpr ⟨by omega, by omega⟩)) c member
    exact Bool.eq_false_iff.mpr refused

/-- Of the decimals that are read as this magnitude it has the fewest digits, and of those with as few
digits it is the nearest one. -/
structure Shortest (magnitude : Nat) (d : Decimal) : Prop where
  reads : readsBack magnitude d = true
  fewest : ∀ other, readsBack magnitude other = true → d.precision ≤ other.precision
  nearest : ∀ other, readsBack magnitude other = true → other.precision = d.precision →
    |d.value - (toFraction magnitude).value| ≤ |other.value - (toFraction magnitude).value|

theorem Shortest.of_value {d e : Decimal} (shortest : Shortest magnitude d) (same : d.value = e.value) :
    Shortest magnitude e where
  reads := readsBack_iff.mpr (same ▸ readsBack_iff.mp shortest.reads)
  fewest := Decimal.precision_eq_of_value same ▸ shortest.fewest
  nearest := Decimal.precision_eq_of_value same ▸ same ▸ shortest.nearest

theorem shortest_zero : Shortest 0 ⟨0, 0⟩ where
  reads := by decide
  fewest other _ := by
    have one : Decimal.precision ⟨0, 0⟩ ≤ 1 := Decimal.precision_le Nat.one_pos (Nat.zero_le _)
    exact one.trans other.precision_pos
  nearest other _ _ := by
    have zero : Decimal.value ⟨0, 0⟩ = 0 := Decimal.digits_eq_zero_iff.mp rfl
    rw [zero, value_zero, sub_self, abs_zero]
    exact abs_nonneg _

theorem shortest_shortestDecimal (finite : magnitude < infinity) :
    Shortest magnitude (shortestDecimal magnitude) := by
  rcases eq_or_ne magnitude 0 with rfl | nonzero
  · have zero : shortestDecimal 0 = ⟨0, 0⟩ := by decide +kernel
    rw [zero]
    exact shortest_zero
  · obtain ⟨count, found, some, same, here, none⟩ := shortestDecimal_found finite nonzero
    have short : found.precision ≤ count := (proper_toFraction magnitude).precision_neighbours
      (num_pos nonzero) some (List.mem_of_find?_eq_some here)
    suffices shortest : Shortest magnitude found from
      shortest.of_value (by rw [same, Decimal.value_trim])
    constructor
    case reads => exact List.find?_some here
    case fewest =>
      intro other reads
      -- With fewer digits than those of the search there is nothing to be found.
      refine short.trans (Nat.le_of_not_lt fun less => ?_)
      obtain ⟨c, member, found, -⟩ := exists_neighbour finite nonzero reads le_rfl
      rw [none _ other.precision_pos less c member] at found
      cases found
    case nearest =>
      intro other reads same
      obtain ⟨c, member, found, near⟩ := exists_neighbour finite nonzero reads (same.le.trans short)
      exact ((proper_toFraction magnitude).find_nearest here member found).trans near

end Number

end LineCalc
