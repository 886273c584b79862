import Mathlib.Algebra.Ring.Int.Parity
import Mathlib.Algebra.Order.Field.Power
import Mathlib.Data.Rat.Cast.Order
import Mathlib.Tactic.Linarith
import Mathlib.Tactic.Positivity
import TreeQuery.Double.Basic

/-!
The rational number that a finite double stands for. Doubles of one number that is not zero are one
double, and the integral ones stand for their integer part.
-/

namespace TreeQuery.Double

/-- The number of a finite double. -/
def number (x : Double) : ℚ :=
  (if x.isNegative then -1 else 1) * ((x.significand : ℚ) * 2 ^ x.exponent)

section Fields

theorem signBit_eq : signBit = 9223372036854775808 := rfl

theorem fractionBound_eq : fractionBound = 4503599627370496 := rfl

variable {x y : Double}

theorem eq_of_fields (sign : x.isNegative = y.isNegative)
    (exponent : x.exponentField = y.exponentField) (fraction : x.fractionField = y.fractionField) :
    x = y := by
  obtain ⟨a⟩ := x
  obtain ⟨b⟩ := y
  have ha := a.toNat_lt
  have hb := b.toNat_lt
  have sign : signBit ≤ a.toNat ↔ signBit ≤ b.toNat := decide_eq_decide.mp sign
  rw [signBit_eq] at sign
  simp only [exponentField, fractionBound_eq] at exponent
  simp only [fractionField, fractionBound_eq] at fraction
  have same : a.toNat = b.toNat := by omega
  rw [UInt64.toNat_inj.mp same]

theorem fractionField_lt (x : Double) : x.fractionField < fractionBound :=
  Nat.mod_lt _ (by decide)

theorem significand_lt (x : Double) : x.significand < 2 * fractionBound := by
  have low := x.fractionField_lt
  unfold significand
  split <;> omega

/-- Beyond the least exponent a significand has its first bit. -/
theorem le_significand (large : -1074 < x.exponent) : fractionBound ≤ x.significand := by
  unfold exponent at large
  unfold significand
  split <;> omega

theorem fields_of_significand (significand : x.significand = y.significand)
    (exponent : x.exponent = y.exponent) :
    x.exponentField = y.exponentField ∧ x.fractionField = y.fractionField := by
  have hx := x.fractionField_lt
  have hy := y.fractionField_lt
  simp only [Double.exponent] at exponent
  simp only [Double.significand] at significand
  split at significand <;> split at significand <;> omega

end Fields

section Magnitude

variable {x y : Double}

/-- A magnitude has one significand, because the first bit of a significand is only missing under
the least exponent. -/
theorem exponent_le_of_magnitude_eq
    (same : (x.significand : ℚ) * 2 ^ x.exponent = y.significand * 2 ^ y.exponent) :
    y.exponent ≤ x.exponent := by
  by_contra larger
  rw [not_le] at larger
  obtain ⟨d, gap⟩ := Int.le.dest (Int.add_one_le_of_lt larger)
  have shifted : x.significand = y.significand * 2 ^ (d + 1) := by
    have power : (2 : ℚ) ^ y.exponent = 2 ^ (d + 1) * 2 ^ x.exponent := by
      rw [← zpow_natCast, ← zpow_add₀ (by norm_num)]
      congr 1
      push_cast
      omega
    rw [power, ← mul_assoc] at same
    have cancelled := mul_right_cancel₀ (zpow_ne_zero _ (by norm_num : (2 : ℚ) ≠ 0)) same
    exact_mod_cast cancelled
  have least : -1074 ≤ x.exponent := by
    unfold exponent
    omega
  have first := le_significand (x := y) (by omega)
  have bound := x.significand_lt
  have power : 2 ≤ 2 ^ (d + 1) := Nat.le_self_pow (by omega) 2
  have double := Nat.mul_le_mul first power
  omega

theorem magnitude_inj
    (same : (x.significand : ℚ) * 2 ^ x.exponent = y.significand * 2 ^ y.exponent) :
    x.exponentField = y.exponentField ∧ x.fractionField = y.fractionField := by
  have exponent : x.exponent = y.exponent :=
    Int.le_antisymm (exponent_le_of_magnitude_eq same.symm) (exponent_le_of_magnitude_eq same)
  rw [exponent] at same
  have cancelled := mul_right_cancel₀ (zpow_ne_zero _ (by norm_num : (2 : ℚ) ≠ 0)) same
  exact fields_of_significand (by exact_mod_cast cancelled) exponent

theorem magnitude_nonneg (x : Double) : (0 : ℚ) ≤ (x.significand : ℚ) * 2 ^ x.exponent := by
  positivity

/-- Only the two zeros share their number. -/
theorem number_inj (nonzero : x.number ≠ 0) (same : x.number = y.number) : x = y := by
  have positive {z : Double} (nonzero : z.number ≠ 0) :
      0 < (z.significand : ℚ) * 2 ^ z.exponent :=
    lt_of_le_of_ne z.magnitude_nonneg (fun zero => nonzero (by rw [number, ← zero, mul_zero]))
  have hx := positive nonzero
  have hy := positive (same ▸ nonzero)
  have sign : x.isNegative = y.isNegative := by
    unfold number at same
    split at same <;> split at same <;> rename_i left right
    · rw [left, right]
    · linarith
    · linarith
    · rw [Bool.eq_false_of_not_eq_true left, Bool.eq_false_of_not_eq_true right]
  have magnitude : (x.significand : ℚ) * 2 ^ x.exponent = y.significand * 2 ^ y.exponent := by
    rw [number, number, sign] at same
    split at same <;> linarith
  obtain ⟨exponent, fraction⟩ := magnitude_inj magnitude
  exact eq_of_fields sign exponent fraction

end Magnitude

section Integral

variable {x : Double}

theorem magnitude_eq_ratio (x : Double) :
    (x.significand : ℚ) * 2 ^ x.exponent = x.ratio.1 / x.ratio.2 := by
  unfold ratio
  split
  · rename_i whole
    obtain ⟨n, power⟩ := Int.eq_ofNat_of_zero_le whole
    rw [power]
    simp
  · rename_i fractional
    obtain ⟨n, power⟩ := Int.eq_ofNat_of_zero_le (show 0 ≤ -x.exponent by omega)
    have negative : x.exponent = -(n : ℤ) := by omega
    rw [negative]
    simp [div_eq_mul_inv]

theorem ratio_snd_pos (x : Double) : 0 < x.ratio.2 := by
  unfold ratio
  split
  · exact Nat.one_pos
  · exact Nat.pow_pos (by decide)

theorem number_eq_ratio (x : Double) :
    x.number = (if x.isNegative then -1 else 1) * ((x.ratio.1 : ℚ) / x.ratio.2) := by
  rw [number, magnitude_eq_ratio]

/-- An integral double stands for its integer part. -/
theorem number_of_isIntegral (integral : x.isIntegral = true) : x.number = x.truncate := by
  obtain ⟨_, whole⟩ := Bool.and_eq_true_iff.mp integral
  obtain ⟨n, multiple⟩ : x.ratio.2 ∣ x.ratio.1 := Nat.dvd_of_mod_eq_zero (by simpa using whole)
  have bottom : (x.ratio.2 : ℚ) ≠ 0 := by exact_mod_cast x.ratio_snd_pos.ne'
  rw [number_eq_ratio, truncate, multiple, Nat.mul_div_cancel_left n x.ratio_snd_pos, Nat.cast_mul,
    mul_div_cancel_left₀ _ bottom]
  split <;> simp

/-- A finite double whose number is an integer is integral. -/
theorem isIntegral_of_number (finite : x.isFinite = true) {i : ℤ} (same : x.number = i) :
    x.isIntegral = true := by
  have bottom : (x.ratio.2 : ℚ) ≠ 0 := by exact_mod_cast x.ratio_snd_pos.ne'
  have magnitude : (x.ratio.1 : ℚ) / x.ratio.2 = ((i.natAbs : ℕ) : ℚ) := by
    have nonneg : (0 : ℚ) ≤ (x.ratio.1 : ℚ) / x.ratio.2 := by positivity
    rw [number_eq_ratio] at same
    rw [Nat.cast_natAbs, Int.cast_abs, ← same]
    split <;> simp [abs_of_nonneg nonneg]
  rw [div_eq_iff bottom] at magnitude
  have multiple : x.ratio.1 = i.natAbs * x.ratio.2 := by exact_mod_cast magnitude
  rw [isIntegral, finite, multiple]
  simp

end Integral

end TreeQuery.Double
