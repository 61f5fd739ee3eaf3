import LineCalc.Proofs.Rounding

/-!
Rounding keeps order, so that everything between two quotients that round to a magnitude rounds to it as
well. What is near enough to the value of a magnitude rounds to that magnitude, and whole numbers round to
whole numbers.
-/

namespace LineCalc

/-! Rounding to natural numbers. -/

theorem roundHalfEven_eq_floor {q : ℚ} : roundHalfEven q = ⌊q⌋₊ ↔
    2 * (q - ⌊q⌋₊) < 1 ∨ 2 * (q - ⌊q⌋₊) = 1 ∧ ⌊q⌋₊ % 2 = 0 := by
  unfold roundHalfEven
  simp only
  split
  next down => exact iff_of_true rfl down
  next up => exact iff_of_false (Nat.succ_ne_self _) up

theorem roundHalfEven_cases (q : ℚ) : roundHalfEven q = ⌊q⌋₊ ∨ roundHalfEven q = ⌊q⌋₊ + 1 :=
  ite_eq_or_eq _ _ _

theorem roundHalfEven_down {q : ℚ} (below : q - ⌊q⌋₊ < 1 / 2) : roundHalfEven q = ⌊q⌋₊ :=
  roundHalfEven_eq_floor.mpr (.inl (by linarith))

theorem roundHalfEven_up {q : ℚ} (above : 1 / 2 < q - ⌊q⌋₊) : roundHalfEven q = ⌊q⌋₊ + 1 := by
  refine (roundHalfEven_cases q).resolve_left fun down => ?_
  rcases roundHalfEven_eq_floor.mp down with below | ⟨half, -⟩ <;> linarith

theorem roundHalfEven_mono {p q : ℚ} (le : p ≤ q) : roundHalfEven p ≤ roundHalfEven q := by
  have lower := roundHalfEven_cases p
  have upper := roundHalfEven_cases q
  rcases Nat.lt_or_eq_of_le (Nat.floor_mono le) with less | same
  · omega
  · by_cases down : roundHalfEven q = ⌊q⌋₊
    · suffices downToo : roundHalfEven p = ⌊p⌋₊ by omega
      rw [roundHalfEven_eq_floor] at down ⊢
      rw [same]
      rcases down with below | ⟨half, even⟩
      · exact .inl (by linarith)
      · rcases lt_or_eq_of_le (show 2 * (p - ⌊q⌋₊) ≤ 1 by linarith) with below | halfToo
        · exact .inl below
        · exact .inr ⟨halfToo, even⟩
    · omega

/-- What is less than a half away from a natural number rounds to it. -/
theorem roundHalfEven_of_near {q : ℚ} {n : Nat} (near : |q - n| < 1 / 2) : roundHalfEven q = n := by
  obtain ⟨low, high⟩ := abs_lt.mp near
  by_cases above : (n : ℚ) ≤ q
  · have floor : ⌊q⌋₊ = n :=
      (Nat.floor_eq_iff (le_trans (Nat.cast_nonneg n) above)).mpr ⟨above, by linarith⟩
    rw [roundHalfEven_down (by rw [floor]; linarith), floor]
  · cases n with
    | zero =>
      have floor : ⌊q⌋₊ = 0 := Nat.floor_of_nonpos (by push_cast at above; linarith)
      rw [roundHalfEven_down (by rw [floor]; push_cast at above ⊢; linarith), floor]
    | succ n =>
      push_cast at above low high
      have floor : ⌊q⌋₊ = n :=
        (Nat.floor_eq_iff (by have := Nat.cast_nonneg (α := ℚ) n; linarith)).mpr
          ⟨by linarith, by linarith⟩
      rw [roundHalfEven_up (by rw [floor]; linarith), floor]

theorem abs_sub_roundHalfEven {q : ℚ} (positive : 0 ≤ q) : |q - roundHalfEven q| ≤ 1 / 2 := by
  have low := Nat.floor_le positive
  have high := Nat.lt_floor_add_one q
  rcases lt_trichotomy (q - ⌊q⌋₊) (1 / 2) with below | half | above
  · rw [roundHalfEven_down below, abs_le]
    exact ⟨by linarith, by linarith⟩
  · rcases roundHalfEven_cases q with same | same
    · rw [same, half, abs_of_pos (by norm_num)]
    · rw [same, abs_le]
      push_cast
      exact ⟨by linarith, by linarith⟩
  · rw [roundHalfEven_up above, abs_le]
    push_cast
    exact ⟨by linarith, by linarith⟩

theorem roundHalfEven_nearest {q : ℚ} (positive : 0 ≤ q) (n : Nat) :
    |q - roundHalfEven q| ≤ |q - n| := by
  by_cases same : n = roundHalfEven q
  · rw [same]
  · have apart : (1 : ℚ) ≤ |(n : ℚ) - roundHalfEven q| := by
      have step : (1 : ℤ) ≤ |(n : ℤ) - roundHalfEven q| := Int.one_le_abs (by omega)
      exact_mod_cast step
    have half := abs_sub_roundHalfEven positive
    have parts : |(n : ℚ) - roundHalfEven q| ≤ |n - q| + |q - roundHalfEven q| :=
      abs_sub_le _ _ _
    rw [abs_sub_comm (n : ℚ) q] at parts
    linarith

namespace Number

/-! Rounding to magnitudes. -/

variable {p q : ℚ} {magnitude : Nat}

theorem least_exponentOf (q : ℚ) : -1074 ≤ exponentOf q :=
  le_max_right _ _

theorem exponentOf_mono (positive : 0 < p) (le : p ≤ q) : exponentOf p ≤ exponentOf q :=
  max_le_max (Int.sub_le_sub_right (Int.log_mono_right positive le) _) (le_refl _)

theorem scaled_mul (q : ℚ) : scaled q * 2 ^ exponentOf q = q := by
  rw [scaled, zpow_neg, inv_mul_cancel_right₀ (zpow_ne_zero _ two_ne_zero)]

theorem scaled_lt (q : ℚ) : scaled q < 2 ^ 53 := by
  have unit : (0 : ℚ) < 2 ^ exponentOf q := zpow_pos two_pos _
  suffices less : scaled q * 2 ^ exponentOf q < 2 ^ (53 : ℤ) * 2 ^ exponentOf q by
    exact_mod_cast lt_of_mul_lt_mul_right less unit.le
  calc scaled q * 2 ^ exponentOf q = q := scaled_mul q
    _ < 2 ^ (Int.log 2 q + 1) := by exact_mod_cast Int.lt_zpow_succ_log_self Nat.one_lt_two q
    _ ≤ 2 ^ (53 + exponentOf q) := by
      apply zpow_le_zpow_right₀ one_le_two
      unfold exponentOf
      omega
    _ = 2 ^ (53 : ℤ) * 2 ^ exponentOf q := zpow_add₀ two_ne_zero _ _

theorem le_scaled (positive : 0 < q) (more : -1074 < exponentOf q) : 2 ^ 52 ≤ scaled q := by
  have unit : (0 : ℚ) < 2 ^ exponentOf q := zpow_pos two_pos _
  have log : 52 + exponentOf q = Int.log 2 q := by
    unfold exponentOf at more ⊢
    omega
  suffices le : 2 ^ (52 : ℤ) * 2 ^ exponentOf q ≤ scaled q * 2 ^ exponentOf q by
    exact_mod_cast le_of_mul_le_mul_right le unit
  calc (2 : ℚ) ^ (52 : ℤ) * 2 ^ exponentOf q = 2 ^ Int.log 2 q := by
        rw [← zpow_add₀ two_ne_zero, log]
    _ ≤ q := by exact_mod_cast Int.zpow_log_le_self Nat.one_lt_two positive
    _ = scaled q * 2 ^ exponentOf q := (scaled_mul q).symm

/-- The rounded significand has 53 bits, or it is the next power of two. -/
theorem rounded_le (q : ℚ) : roundHalfEven (scaled q) ≤ 2 ^ 53 := by
  have bound := roundHalfEven_mono (scaled_lt q).le
  rwa [show (2 : ℚ) ^ 53 = (2 ^ 53 : ℕ) by norm_num, roundHalfEven_natCast] at bound

theorem le_rounded (positive : 0 < q) (more : -1074 < exponentOf q) :
    2 ^ 52 ≤ roundHalfEven (scaled q) := by
  have bound := roundHalfEven_mono (le_scaled positive more)
  rwa [show (2 : ℚ) ^ 52 = (2 ^ 52 : ℕ) by norm_num, roundHalfEven_natCast] at bound

theorem magnitudeOf_mono (positive : 0 ≤ p) (le : p ≤ q) : magnitudeOf p ≤ magnitudeOf q := by
  rcases eq_or_lt_of_le positive with rfl | some
  · rw [magnitudeOf, if_pos rfl]
    exact Nat.zero_le _
  · have someToo := lt_of_lt_of_le some le
    rw [magnitudeOf_eq some, magnitudeOf_eq someToo]
    apply min_le_min_right
    have least := least_exponentOf p
    rcases lt_or_eq_of_le (exponentOf_mono some le) with less | same
    · have short := rounded_le p
      have long := le_rounded someToo (by omega)
      unfold packed rangeSize
      omega
    · have steps : scaled p ≤ scaled q := by
        rw [scaled, scaled, same]
        exact mul_le_mul_of_nonneg_right le (zpow_pos two_pos _).le
      rw [same]
      exact Nat.add_le_add_left (roundHalfEven_mono steps) _

/-- What lies between quotients that round alike rounds as they do. -/
theorem magnitudeOf_between {r : ℚ} (positive : 0 ≤ p) (above : p ≤ q) (below : q ≤ r)
    (low : magnitudeOf p = magnitude) (high : magnitudeOf r = magnitude) :
    magnitudeOf q = magnitude := by
  apply Nat.le_antisymm
  · exact high ▸ magnitudeOf_mono (positive.trans above) below
  · exact low ▸ magnitudeOf_mono positive above

/-! Values of magnitudes. -/

/-- A packed magnitude has the value that was packed, also where the significand has one bit too many and
is a power of two. -/
theorem value_packed {significand : Nat} {exponent : Int} (least : -1074 ≤ exponent)
    (short : significand ≤ 2 ^ 53) (full : 2 ^ 52 ≤ significand ∨ exponent = -1074) :
    (toFraction (packed significand exponent)).value = significand * 2 ^ exponent := by
  rw [value_toFraction]
  by_cases carry : significand = 2 ^ 53
  · have parts : Number.significand (packed significand exponent) = 2 ^ 52 ∧
        binaryExponent (packed significand exponent) = 1 + exponent := by
      unfold Number.significand binaryExponent packed rangeSize
      split <;> omega
    rw [parts.1, parts.2, carry, zpow_add₀ two_ne_zero]
    push_cast
    ring
  · have parts : Number.significand (packed significand exponent) = significand ∧
        binaryExponent (packed significand exponent) = exponent := by
      unfold Number.significand binaryExponent packed rangeSize
      split <;> omega
    rw [parts.1, parts.2]

/-- The value of the nearest magnitude is the quotient rounded to a multiple of the last bit. -/
theorem value_magnitudeOf (positive : 0 < q) (finite : magnitudeOf q < infinity) :
    (toFraction (magnitudeOf q)).value = roundHalfEven (scaled q) * 2 ^ exponentOf q := by
  rw [magnitudeOf_eq positive] at finite ⊢
  rw [min_eq_left (by omega)]
  have least := least_exponentOf q
  refine value_packed least (rounded_le q) ?_
  by_cases more : -1074 < exponentOf q
  · exact .inl (le_rounded positive more)
  · exact .inr (by omega)

theorem value_magnitudeOf_natCast {n : Nat} (finite : magnitudeOf n < infinity) :
    ∃ whole : Nat, (toFraction (magnitudeOf n)).value = whole := by
  by_cases zero : n = 0
  · subst zero
    exact ⟨0, by rw [Nat.cast_zero, magnitudeOf, if_pos rfl, value_zero]⟩
  · have positive : (0 : ℚ) < n := Nat.cast_pos.mpr (Nat.pos_of_ne_zero zero)
    rw [value_magnitudeOf positive finite]
    rcases le_total 0 (exponentOf (n : ℚ)) with up | down
    · obtain ⟨exponent, same⟩ := Int.eq_ofNat_of_zero_le up
      refine ⟨roundHalfEven (scaled n) * 2 ^ exponent, ?_⟩
      rw [same]
      push_cast
      rfl
    · -- In units of a fraction of one, a natural number has nothing behind the point to round.
      obtain ⟨exponent, same⟩ := Int.eq_ofNat_of_zero_le (neg_nonneg.mpr down)
      have units : scaled n = (n * 2 ^ exponent : ℕ) := by
        rw [scaled, same]
        push_cast
        rfl
      refine ⟨n, ?_⟩
      rw [units, roundHalfEven_natCast, ← units, scaled_mul]

/-! What is near to a value. -/

/-- What is less than half a unit away from a significand rounds to it. -/
theorem magnitudeOf_of_units (positive : 0 < q) {exponent : Int} (least : -1074 ≤ exponent)
    (high : q * 2 ^ (-exponent) < 2 ^ 53)
    (low : 2 ^ 52 ≤ q * 2 ^ (-exponent) ∨ exponent = -1074) {n : Nat}
    (near : |q * 2 ^ (-exponent) - n| < 1 / 2) :
    magnitudeOf q = min (packed n exponent) infinity := by
  have same := exponentOf_eq positive least high low
  rw [magnitudeOf_eq positive, scaled, same, roundHalfEven_of_near near]

/-- What is at most one part in 2 * 10 ^ 16 away from the value of a finite magnitude rounds to it. -/
theorem magnitudeOf_of_near (finite : magnitude < infinity) (some : magnitude ≠ 0)
    (near : |q - (toFraction magnitude).value| * (2 * 10 ^ 16) ≤ (toFraction magnitude).value) :
    magnitudeOf q = magnitude := by
  obtain ⟨short, least, full⟩ := significand_bounds magnitude
  have one : (1 : ℚ) ≤ significand magnitude := by exact_mod_cast significand_pos some
  have bound : (significand magnitude : ℚ) + 1 ≤ 2 ^ 53 := by exact_mod_cast short
  have whole := packed_significand magnitude
  rw [value_toFraction] at near
  generalize significand magnitude = n at *
  generalize binaryExponent magnitude = exponent at *
  have unit : (0 : ℚ) < 2 ^ exponent := zpow_pos two_pos _
  obtain ⟨x, rfl⟩ : ∃ x : ℚ, q = x * 2 ^ exponent :=
    ⟨q * 2 ^ (-exponent), by rw [zpow_neg, inv_mul_cancel_right₀ unit.ne']⟩
  have back : x * 2 ^ exponent * 2 ^ (-exponent) = x := by
    rw [zpow_neg, mul_inv_cancel_right₀ unit.ne']
  have close : |x - n| ≤ n / (2 * 10 ^ 16) := by
    rw [← sub_mul, abs_mul, abs_of_pos unit, mul_right_comm] at near
    rw [le_div_iff₀ (by norm_num)]
    exact le_of_mul_le_mul_right near unit
  obtain ⟨low, high⟩ := abs_le.mp close
  have positive : 0 < x * 2 ^ exponent := mul_pos (by linarith) unit
  by_cases same : 2 ^ 52 ≤ x ∨ exponent = -1074
  · have nearest : magnitudeOf (x * 2 ^ exponent) = min (packed n exponent) infinity := by
      refine magnitudeOf_of_units positive least ?_ ?_ ?_
      · rw [back]
        linarith
      · rwa [back]
      · rw [back]
        linarith
    rw [nearest, whole, min_eq_left finite.le]
  · -- Below a power of two the units are half as large.
    obtain ⟨below, more⟩ := not_or.mp same
    have power : n = 2 ^ 52 := by
      have less : (n : ℚ) < (2 ^ 52 + 1 : ℕ) := by
        push_cast
        linarith
      have atMost : n < 2 ^ 52 + 1 := Nat.cast_lt.mp less
      omega
    subst power
    push_cast at low high
    have half : x * 2 ^ exponent * 2 ^ (-(exponent - 1)) = 2 * x := by
      rw [neg_sub, sub_eq_add_neg, zpow_add₀ two_ne_zero, zpow_one, mul_left_comm, back]
    have nearest : magnitudeOf (x * 2 ^ exponent) = min (packed (2 ^ 53) (exponent - 1)) infinity := by
      refine magnitudeOf_of_units positive (by omega) ?_ ?_ ?_
      · rw [half]
        linarith
      · left
        rw [half]
        linarith
      · rw [half, abs_lt]
        push_cast
        exact ⟨by linarith, by linarith⟩
    have packed : packed (2 ^ 53) (exponent - 1) = magnitude := by
      rw [← whole]
      unfold packed rangeSize
      omega
    rw [nearest, packed, min_eq_left finite.le]

end Number

end LineCalc
