import Mathlib
import LineCalc.Number.Basic

/-!
The sign and the magnitude of a number determine it. Since all values that are not numbers share one
bit pattern, this holds of them as well.
-/

namespace LineCalc.Number

open Float.Model Float.Model.UnpackedFloat

private theorem toNat_joined {m n : Nat} (high : BitVec m) (low : BitVec n) :
    (high ++ low).toNat = high.toNat * 2 ^ n + low.toNat := by
  rw [BitVec.toNat_append, ← Nat.shiftLeft_add_eq_or_of_lt low.isLt, Nat.shiftLeft_eq]

private theorem toBitVec_sign (x : BitVec 1) : (Sign.ofBitVec x).toBitVec = x := by
  revert x
  decide

private abbrev fractionBits (bits : BitVec 64) : BitVec 52 :=
  @unpackMantissa Format.binary64 bits

private abbrev exponentBits (bits : BitVec 64) : BitVec 11 :=
  @unpackExponent Format.binary64 bits

private abbrev signBit (bits : BitVec 64) : BitVec 1 :=
  @unpackSign Format.binary64 bits

private theorem toNat_fractionBits (bits : BitVec 64) :
    (fractionBits bits).toNat = bits.toNat % 2 ^ 52 := by
  simp [fractionBits, unpackMantissa, BitVec.extractLsb_toNat]

private theorem toNat_exponentBits (bits : BitVec 64) :
    (exponentBits bits).toNat = bits.toNat / 2 ^ 52 % 2 ^ 11 := by
  simp [exponentBits, unpackExponent, BitVec.extractLsb_toNat, Nat.shiftRight_eq_div_pow]

private theorem toNat_signBit (bits : BitVec 64) :
    (signBit bits).toNat = bits.toNat / 2 ^ 63 := by
  have bound := bits.isLt
  simp [signBit, unpackSign, BitVec.extractLsb_toNat, Nat.shiftRight_eq_div_pow]
  omega

private theorem packComponents_fields (bits : BitVec 64) :
    packComponents Format.binary64 (Sign.ofBitVec (signBit bits)) (exponentBits bits)
      (fractionBits bits) = bits := by
  apply BitVec.eq_of_toNat_eq
  have bound := bits.isLt
  rw [packComponents, toBitVec_sign, toNat_joined, toNat_joined, toNat_fractionBits,
    toNat_exponentBits, toNat_signBit]
  simp only [Format.binary64]
  omega

private theorem pack_unpack (bits : BitVec 64) (valid : Format.binary64.Valid bits) :
    UnpackedFloat.pack Format.binary64 (UnpackedFloat.unpack Format.binary64 bits) = bits := by
  have whole := packComponents_fields bits
  have exponentBound : (exponentBits bits).toNat < 2 ^ 11 := BitVec.isLt _
  have fractionBound : (fractionBits bits).toNat < 2 ^ 52 := BitVec.isLt _
  unfold UnpackedFloat.unpack
  simp only
  split
  · next top =>
    split
    · next zero =>
      simp only [exponentBits, fractionBits] at whole
      rw [top, zero] at whole
      simpa [UnpackedFloat.pack, packedInfinity] using whole
    · next nonzero => exact (valid.eq_packedNaN top nonzero).symm
  · next finite =>
    have below : (exponentBits bits).toNat ≠ 2047 := by
      intro same
      apply finite
      apply BitVec.eq_of_toNat_eq
      change (exponentBits bits).toNat = _
      rw [same]
      decide
    split
    · next low =>
      have least : (exponentBits bits).toNat = 0 := congrArg BitVec.toNat low
      split
      · next zero =>
        simp only [exponentBits, fractionBits] at whole
        rw [low, zero] at whole
        simpa [UnpackedFloat.pack, packedZero] using whole
      · next nonzero =>
        have short : (fractionBits bits).toNat.log2 < 52 := by
          rw [Nat.log2_lt]
          · exact fractionBound
          · intro same
            exact nonzero (BitVec.eq_of_toNat_eq same)
        simp only [UnpackedFloat.pack]
        rw [if_neg, if_neg]
        · rw [BitVec.ofNat_toNat]
          simp only [exponentBits] at whole
          rw [low] at whole
          simpa using whole
        · change ¬(fractionBits bits).toNat.log2 + 1 = 53
          omega
        · simp only [exponentBits] at least
          rw [least]
          decide
    · next high =>
      have leading : ((1#1 : BitVec 1) ++ fractionBits bits).toNat =
          2 ^ 52 + (fractionBits bits).toNat := by
        rw [toNat_joined]
        rfl
      have full : ((1#1 : BitVec 1) ++ fractionBits bits).toNat.log2 = 52 := by
        rw [leading, Nat.log2_eq_iff (by omega)]
        omega
      have rest : BitVec.ofNat 52 ((1#1 : BitVec 1) ++ fractionBits bits).toNat =
          fractionBits bits := by
        apply BitVec.eq_of_toNat_eq
        rw [leading, BitVec.toNat_ofNat]
        omega
      have biased : ((((exponentBits bits).toNat : Int) - (Format.binary64.exponentBias +
          Format.binary64.mantissaBitsWithoutImplicit) + Format.binary64.exponentBias +
          Format.binary64.mantissaBitsWithoutImplicit).toNat) = (exponentBits bits).toNat := by
        omega
      simp only [UnpackedFloat.pack]
      rw [biased, full, if_neg, if_pos]
      · rw [show BitVec.ofNat Format.binary64.exponentBits (exponentBits bits).toNat =
          exponentBits bits from BitVec.ofNat_toNat .., rest]
        exact whole
      · rfl
      · simp only [Format.binary64] at *
        omega

/-- A number is what its bits say. -/
theorem ofBits_toBits (v : Number) : Float.ofBits v.toBits = v := by
  rcases v with ⟨⟨bits, valid⟩⟩
  change Float.ofModel (Float.Model.ofBits bits) = _
  congr 1
  unfold Float.Model.ofBits Float.Model.pack
  congr 1
  rw [pack_unpack _ valid]

theorem ofMagnitude_magnitude (v : Number) : ofMagnitude v.isNegative v.magnitude = v := by
  have bound : v.toBits.toNat < 2 ^ 64 := v.toBits.toNat_lt
  have joined : (if v.isNegative then signWeight else 0) + v.magnitude = v.toBits.toNat := by
    unfold isNegative magnitude signWeight
    by_cases high : 0x8000000000000000 ≤ v.toBits.toNat <;> simp only [high, decide_true, decide_false] <;>
      simp <;> omega
  rw [ofMagnitude, joined, UInt64.ofNat_toNat]
  exact ofBits_toBits v

/-- All values that are not numbers are the same. -/
theorem eq_of_infinity_lt {v w : Number} (beyond : infinity < v.magnitude)
    (beyondToo : infinity < w.magnitude) : v = w := by
  have packed (bits : BitVec 64) (valid : Format.binary64.Valid bits)
      (beyond : infinity < bits.toNat % signWeight) : bits = packedNaN Format.binary64 := by
    have fields : infinity = 2047 * 2 ^ 52 ∧ signWeight = 2 ^ 63 := by decide
    rw [fields.1, fields.2] at beyond
    apply valid.eq_packedNaN
    · apply BitVec.eq_of_toNat_eq
      change (exponentBits bits).toNat = _
      rw [toNat_exponentBits]
      change _ = 2047
      omega
    · intro zero
      have none : (fractionBits bits).toNat = 0 := congrArg BitVec.toNat zero
      rw [toNat_fractionBits] at none
      omega
  obtain ⟨⟨bits, valid⟩⟩ := v
  obtain ⟨⟨bitsToo, validToo⟩⟩ := w
  have same : bits = bitsToo := UInt64.toBitVec_inj.mp
    ((packed _ valid beyond).trans (packed _ validToo beyondToo).symm)
  subst same
  rfl

end LineCalc.Number
