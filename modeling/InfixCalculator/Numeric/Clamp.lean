import InfixCalculator.Numeric.RoundTrip

/-!
Decimals that are replaced before they are rounded. Only decimals far outside the range of
floats are, and they become infinite or zero like their replacements.
-/

namespace InfixCalculator

namespace Binary64

/-- Values far above the floats are rounded to infinity. -/
theorem nearest_index_overflow {exact : Rat} (large : (2 : Rat) ^ (1025 : Int) ≤ exact) :
    nearestIndex exact = infinityIndex := by
  have positive : 0 < exact := lt_of_lt_of_le (by positivity) large
  have normal : ¬exact < (2 : Rat) ^ (-1022 : Int) := by
    rw [not_lt]
    exact (zpow_le_zpow_right₀ (by norm_num) (by norm_num)).trans large
  have above := large.trans_lt (floor_log2_bounds positive).2
  have level := (zpow_lt_zpow_iff_right₀ (by norm_num : (1 : Rat) < 2)).1 above
  have place : 2047 ≤ binadeAround exact := by
    rw [binadeAround, if_neg normal]
    omega
  apply Nat.min_eq_right
  exact (Nat.mul_le_mul_right binadeSize place).trans (Nat.le_add_right _ _)

/-- Values below half of the least float are rounded to zero. -/
theorem nearest_index_underflow {exact : Rat} (nonnegative : 0 ≤ exact)
    (small : exact < (2 : Rat) ^ (-1075 : Int)) : nearestIndex exact = 0 := by
  have subnormal : exact < (2 : Rat) ^ (-1022 : Int) :=
    small.trans (zpow_lt_zpow_right₀ (by norm_num) (by norm_num))
  have place : binadeAround exact = 0 := if_pos subnormal
  have spacing : (0 : Rat) < 2 ^ spacingExponent 0 := by positivity
  have least : (0 : Rat) ≤ exact / 2 ^ spacingExponent 0 := div_nonneg nonnegative spacing.le
  have half : exact / (2 : Rat) ^ spacingExponent 0 < 1 / 2 := by
    rw [div_lt_iff₀ spacing]
    calc exact < 2 ^ (-1075 : Int) := small
      _ = 1 / 2 * 2 ^ spacingExponent 0 := by
        rw [show (1 / 2 : Rat) = 2 ^ (-1 : Int) by norm_num, ← zpow_add₀ (by norm_num)]
        rfl
  have floor : (exact / (2 : Rat) ^ spacingExponent 0).floor.toNat = 0 := by
    have zero : ⌊exact / (2 : Rat) ^ spacingExponent 0⌋ = 0 :=
      Int.floor_eq_zero_iff.2 ⟨least, half.trans (by norm_num)⟩
    exact congrArg Int.toNat zero
  have rounded : roundHalfEven (exact / (2 : Rat) ^ spacingExponent 0) = 0 := by
    unfold roundHalfEven
    dsimp only
    rw [floor, Nat.cast_zero, sub_zero, if_pos half]
  unfold nearestIndex
  dsimp only
  rw [place, rounded]
  rfl

end Binary64

namespace Decimal

open Binary64

theorem extreme_above : (2 : Rat) ^ (1075 : Int) < 10 ^ (extremeExponent : Int) := by
  calc (2 : Rat) ^ (1075 : Int) < 2 ^ ((3 : Int) * extremeExponent) :=
        zpow_lt_zpow_right₀ (by norm_num) (by norm_num [extremeExponent])
    _ = (2 ^ 3) ^ (extremeExponent : Int) := by rw [zpow_mul]; rfl
    _ ≤ 10 ^ (extremeExponent : Int) :=
        zpow_le_zpow_left₀ (Int.natCast_nonneg _) (by norm_num) (by norm_num)

theorem extreme_below : (10 : Rat) ^ (-extremeExponent : Int) < 2 ^ (-1075 : Int) := by
  rw [zpow_neg, zpow_neg]
  exact inv_strictAnti₀ (by positivity) extreme_above

theorem value_nonneg (magnitude : Decimal) : 0 ≤ magnitude.value := by
  unfold value
  positivity

theorem value_above {magnitude : Decimal} (nonzero : magnitude.coefficient ≠ 0)
    (above : (extremeExponent : Int) < magnitude.exponent) :
    (2 : Rat) ^ (1025 : Int) ≤ magnitude.value := by
  have least : (1 : Rat) ≤ magnitude.coefficient := by
    exact_mod_cast Nat.one_le_iff_ne_zero.2 nonzero
  calc (2 : Rat) ^ (1025 : Int) ≤ 2 ^ (1075 : Int) :=
        zpow_le_zpow_right₀ (by norm_num) (by norm_num)
    _ ≤ 10 ^ (extremeExponent : Int) := extreme_above.le
    _ ≤ 10 ^ magnitude.exponent := zpow_le_zpow_right₀ (by norm_num) above.le
    _ ≤ magnitude.value := le_mul_of_one_le_left (by positivity) least

theorem value_below {magnitude : Decimal}
    (below : magnitude.exponent < -((extremeExponent + magnitude.coefficient.log2 : Nat) : Int)) :
    magnitude.value < (2 : Rat) ^ (-1075 : Int) := by
  -- The exponent falls short by the binary length, which no decimal length exceeds.
  have digits :
      (magnitude.coefficient : Rat) ≤ 10 ^ ((magnitude.coefficient.log2 + 1 : Nat) : Int) := by
    have bound : magnitude.coefficient ≤ 10 ^ (magnitude.coefficient.log2 + 1) :=
      Nat.lt_log2_self.le.trans (Nat.pow_le_pow_left (by decide) _)
    exact_mod_cast bound
  calc magnitude.value
      ≤ 10 ^ ((magnitude.coefficient.log2 + 1 : Nat) : Int) * 10 ^ magnitude.exponent :=
        mul_le_mul_of_nonneg_right digits (by positivity)
    _ = 10 ^ (((magnitude.coefficient.log2 + 1 : Nat) : Int) + magnitude.exponent) :=
        (zpow_add₀ (by norm_num) _ _).symm
    _ ≤ 10 ^ (-extremeExponent : Int) := zpow_le_zpow_right₀ (by norm_num) (by omega)
    _ < 2 ^ (-1075 : Int) := extreme_below

theorem clamp_nearest (magnitude : Decimal) :
    nearestIndex magnitude.clamp.value = nearestIndex magnitude.value := by
  unfold clamp
  split
  · rename_i zero
    simp [value, zero]
  · rename_i nonzero
    split
    · rename_i above
      have replaced : (2 : Rat) ^ (1025 : Int) ≤ value ⟨1, extremeExponent⟩ := by
        rw [value, Nat.cast_one, one_mul]
        exact (zpow_le_zpow_right₀ (by norm_num) (by norm_num)).trans extreme_above.le
      rw [nearest_index_overflow (value_above nonzero above), nearest_index_overflow replaced]
    · split
      · rename_i below
        have replaced : value ⟨1, -extremeExponent⟩ < (2 : Rat) ^ (-1075 : Int) := by
          rw [value, Nat.cast_one, one_mul]
          exact extreme_below
        rw [nearest_index_underflow (value_nonneg _) (value_below below),
          nearest_index_underflow (value_nonneg _) replaced]
      · rfl

end Decimal

end InfixCalculator
