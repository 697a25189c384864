import InfixCalculator.Numeric.Display
import Mathlib

/-!
The plain form of a finite float reads back as that float. The nearest float to
an exactly representable value is the float itself, the exact value of a float is
a decimal, and every shortened decimal was tested before it was taken. A float
that is made of a sign and an index has them.
-/

namespace InfixCalculator

namespace Decimal

theorem take_while_join {whole fraction : Text} (digits : ∀ symbol ∈ whole, symbol.isDigit) :
    (joinParts whole fraction).takeWhile Char.isDigit = whole ∧
      (joinParts whole fraction).dropWhile Char.isDigit =
        if fraction.isEmpty then [] else '.' :: fraction := by
  unfold joinParts
  rw [List.takeWhile_append_of_pos digits, List.dropWhile_append_of_pos digits]
  cases fraction with
  | nil => simp
  | cons symbol fraction => simp [Char.isDigit]

theorem of_numeral_join {whole fraction : Text} (filled : whole ≠ [])
    (wholeDigits : ∀ symbol ∈ whole, symbol.isDigit)
    (fractionDigits : ∀ symbol ∈ fraction, symbol.isDigit) :
    ofNumeral? (joinParts whole fraction) = some (ofDigits whole fraction) := by
  obtain ⟨taken, dropped⟩ := @take_while_join whole fraction wholeDigits
  unfold ofNumeral?
  rw [taken, dropped]
  cases fraction with
  | nil => simp [filled]
  | cons symbol fraction => simpa [filled] using fractionDigits

theorem significant_digits_cut (coefficient : Nat) :
    ∃ cut, Nat.toDigits 10 coefficient = significantDigits coefficient ++ zeros cut := by
  let reversed := (Nat.toDigits 10 coefficient).reverse
  let tail := reversed.takeWhile (· == '0')
  refine ⟨tail.length, ?_⟩
  have zeroTail : tail.reverse = zeros tail.length := by
    refine List.eq_replicate_iff.2 ⟨List.length_reverse, fun symbol member => ?_⟩
    simpa using List.all_eq_true.1 List.all_takeWhile symbol (List.mem_reverse.1 member)
  have split : tail ++ reversed.dropWhile (· == '0') = reversed := List.takeWhile_append_dropWhile
  rw [significantDigits, ← zeroTail, ← List.reverse_append, split, List.reverse_reverse]

theorem significant_digits_value (coefficient : Nat) :
    ∃ cut, (Nat.toDigits 10 coefficient).length = (significantDigits coefficient).length + cut ∧
      coefficient = Nat.ofDigitChars 10 (significantDigits coefficient) 0 * 10 ^ cut := by
  obtain ⟨cut, whole⟩ := significant_digits_cut coefficient
  refine ⟨cut, ?_, ?_⟩
  · rw [whole, List.length_append, zeros, List.length_replicate]
  · have read := congrArg (Nat.ofDigitChars 10 · 0) whole
    simp only [Nat.ofDigitChars_ten_toDigits, Nat.ofDigitChars_append, zeros,
      Nat.ofDigitChars_replicate_zero] at read
    rw [Nat.mul_comm]
    exact read

theorem positional_parts_filled (magnitude : Decimal) : magnitude.positionalParts.1 ≠ [] := by
  unfold positionalParts
  dsimp only
  split
  · simp
  · rename_i nonzero
    split
    · simp
    · rename_i positive
      obtain ⟨cut, _, value⟩ := significant_digits_value magnitude.coefficient
      have filled : significantDigits magnitude.coefficient ≠ [] := by
        intro empty
        rw [empty] at value
        simp [Nat.ofDigitChars] at value
        exact nonzero value
      have front : 0 < (pointPosition magnitude).toNat := by omega
      have digits := List.length_pos_iff.2 filled
      apply List.ne_nil_of_length_pos
      rw [List.length_append, List.length_take]
      omega

theorem value_significant (magnitude : Decimal) :
    magnitude.value = Nat.ofDigitChars 10 (significantDigits magnitude.coefficient) 0 *
        (10 : Rat) ^ (pointPosition magnitude -
          (significantDigits magnitude.coefficient).length) := by
  obtain ⟨cut, length, value⟩ := significant_digits_value magnitude.coefficient
  have ten : (10 : Rat) ≠ 0 := by norm_num
  have cast : (magnitude.coefficient : Rat) =
      Nat.ofDigitChars 10 (significantDigits magnitude.coefficient) 0 *
        (10 : Rat) ^ (cut : Int) := by
    conv => lhs; rw [value]
    push_cast
    rw [zpow_natCast]
  rw [Decimal.value, cast, mul_assoc, ← zpow_add₀ ten, pointPosition, length]
  congr 2
  push_cast
  ring

theorem positional_parts_value (magnitude : Decimal) :
    (ofDigits magnitude.positionalParts.1 magnitude.positionalParts.2).value = magnitude.value := by
  rw [magnitude.value_significant]
  unfold positionalParts
  dsimp only
  split
  · rename_i zero
    rw [← magnitude.value_significant]
    simp [ofDigits, Decimal.value, Nat.ofDigitChars, zero]
  · split
    · rename_i nonpositive
      have read : Nat.ofDigitChars 10 (['0'] ++ (zeros (-pointPosition magnitude).toNat ++
          significantDigits magnitude.coefficient)) 0 =
          Nat.ofDigitChars 10 (significantDigits magnitude.coefficient) 0 := by
        simp [Nat.ofDigitChars_cons, Nat.ofDigitChars_append, zeros,
          Nat.ofDigitChars_replicate_zero]
      rw [ofDigits, Decimal.value, read]
      congr 2
      simp only [List.length_append, zeros, List.length_replicate]
      omega
    · rename_i positive
      rcases Nat.lt_or_ge (pointPosition magnitude).toNat
        (significantDigits magnitude.coefficient).length with inside | beyond
      · have none : (pointPosition magnitude).toNat -
            (significantDigits magnitude.coefficient).length = 0 := by omega
        rw [none, ofDigits, Decimal.value]
        simp only [zeros, List.replicate_zero, List.append_nil, List.take_append_drop]
        congr 2
        rw [List.length_drop]
        omega
      · rw [List.take_of_length_le beyond, List.drop_of_length_le beyond, ofDigits, Decimal.value,
          List.append_nil, Nat.ofDigitChars_append, zeros, Nat.ofDigitChars_replicate_zero]
        push_cast
        rw [mul_comm ((10 : Rat) ^ _), List.length_nil, Nat.cast_zero, neg_zero, zpow_zero, mul_one,
          ← zpow_natCast]
        congr 2
        omega

theorem of_numeral_positional (magnitude : Decimal) :
    ∃ found, ofNumeral? magnitude.positional = some found ∧ found.value = magnitude.value := by
  obtain ⟨wholeDigits, fractionDigits⟩ := positional_parts_digits magnitude
  exact ⟨_, of_numeral_join magnitude.positional_parts_filled wholeDigits fractionDigits,
    magnitude.positional_parts_value⟩

end Decimal

namespace Binary64

theorem floor_log2_bounds {exact : Rat} (positive : 0 < exact) :
    (2 : Rat) ^ floorLog2 exact ≤ exact ∧ exact < (2 : Rat) ^ (floorLog2 exact + 1) := by
  have numPos : 0 < exact.num.natAbs := Int.natAbs_pos.2 (Rat.num_pos.2 positive).ne'
  have numLow := Nat.log2_self_le numPos.ne'
  have numHigh := Nat.lt_log2_self (n := exact.num.natAbs)
  have denLow := Nat.log2_self_le exact.den_nz
  have denHigh := Nat.lt_log2_self (n := exact.den)
  have ratio : exact = (exact.num.natAbs : Rat) / exact.den := by
    rw [Nat.cast_natAbs, abs_of_pos (Rat.num_pos.2 positive)]
    exact (Rat.num_div_den exact).symm
  set upper := exact.num.natAbs.log2
  set lower := exact.den.log2
  have denPos : (0 : Rat) < exact.den := by exact_mod_cast exact.den_pos
  have numLow' : (2 : Rat) ^ upper ≤ exact.num.natAbs := by exact_mod_cast numLow
  have numHigh' : (exact.num.natAbs : Rat) < 2 ^ (upper + 1) := by exact_mod_cast numHigh
  have denLow' : (2 : Rat) ^ lower ≤ exact.den := by exact_mod_cast denLow
  have denHigh' : (exact.den : Rat) < 2 ^ (lower + 1) := by exact_mod_cast denHigh
  have below : (2 : Rat) ^ ((upper : Int) - lower - 1) ≤ exact := by
    have power : (2 : Rat) ^ ((upper : Int) - lower - 1) = 2 ^ upper / 2 ^ (lower + 1) := by
      rw [sub_sub, zpow_sub₀ (by norm_num)]
      norm_cast
    rw [power, ratio]
    gcongr
  have above : exact < (2 : Rat) ^ ((upper : Int) - lower + 1) := by
    have power : (2 : Rat) ^ ((upper : Int) - lower + 1) = 2 ^ (upper + 1) / 2 ^ lower := by
      rw [show (upper : Int) - lower + 1 = (upper + 1 : Nat) - lower by push_cast; ring,
        zpow_sub₀ (by norm_num)]
      norm_cast
    rw [power]
    conv => lhs; rw [ratio]
    gcongr
  unfold floorLog2
  dsimp only
  split
  · exact ⟨‹_›, above⟩
  · exact ⟨below, by rw [sub_add_cancel]; exact not_le.1 ‹_›⟩

theorem floor_log2_eq {exact : Rat} {level : Int} (low : (2 : Rat) ^ level ≤ exact)
    (high : exact < (2 : Rat) ^ (level + 1)) : floorLog2 exact = level := by
  have positive : 0 < exact := lt_of_lt_of_le (by positivity) low
  obtain ⟨floorLow, floorHigh⟩ := floor_log2_bounds positive
  have first := (zpow_lt_zpow_iff_right₀ (by norm_num : (1 : Rat) < 2)).1 (low.trans_lt floorHigh)
  have second := (zpow_lt_zpow_iff_right₀ (by norm_num : (1 : Rat) < 2)).1 (floorLow.trans_lt high)
  omega

theorem round_half_even_nat (whole : Nat) : roundHalfEven (whole : Rat) = whole := by
  have floor : (whole : Rat).floor.toNat = whole := by
    rw [Rat.floor_def]; simp
  unfold roundHalfEven
  dsimp only
  rw [floor, sub_self, if_pos (by norm_num)]

theorem binade_split (index : Nat) : index = binade index * binadeSize + significand index := by
  have bound : binade index * binadeSize ≤ index :=
    (Nat.mul_le_mul_right _ (Nat.sub_le _ _)).trans (Nat.div_mul_le_self _ _)
  simp only [significand]
  omega

/-- Only in the lowest binade the significand has no bit in front of its fraction. -/
theorem significand_cases (index : Nat) :
    index < binadeSize ∧ significand index = index ∨
      binadeSize ≤ index ∧ significand index = binadeSize + index % binadeSize := by
  have parts := Nat.div_add_mod index binadeSize
  rcases Nat.eq_zero_or_pos (index / binadeSize) with lowest | higher
  · refine .inl ⟨(Nat.div_eq_zero_iff_lt (by decide)).1 lowest, ?_⟩
    rw [significand, binade, lowest, Nat.zero_sub, Nat.zero_mul, Nat.sub_zero]
  · refine .inr ⟨(Nat.div_pos_iff.1 higher).2, ?_⟩
    rw [significand, binade, Nat.sub_mul, Nat.one_mul]
    have least : binadeSize ≤ index / binadeSize * binadeSize := Nat.le_mul_of_pos_left _ higher
    have order : index / binadeSize * binadeSize = binadeSize * (index / binadeSize) :=
      Nat.mul_comm _ _
    omega

theorem significand_lt (index : Nat) : significand index < 2 * binadeSize := by
  have remainder := Nat.mod_lt index (show 0 < binadeSize by decide)
  have cases := significand_cases index
  omega

/-- The binade found for the value of an index is the binade of the index. -/
theorem binade_around_value_of (index : Nat) : binadeAround (valueOf index) = binade index := by
  have power (level : Int) : (0 : Rat) < 2 ^ level := by positivity
  have parts := binade_split index
  rcases Nat.lt_or_ge index binadeSize with small | large
  · have none : binade index = 0 := by simp [binade, Nat.div_eq_of_lt small]
    have whole : significand index = index := by simpa [none] using parts.symm
    have below : valueOf index < (2 : Rat) ^ (-1022 : Int) := by
      have bound : (index : Rat) < 2 ^ (52 : Int) := by
        have cast : (index : Rat) < (binadeSize : Nat) := by exact_mod_cast small
        exact cast.trans_le (by norm_num [binadeSize])
      calc valueOf index = index * (2 : Rat) ^ (-1074 : Int) := by
            simp [valueOf, none, whole, spacingExponent]
        _ < 2 ^ (52 : Int) * (2 : Rat) ^ (-1074 : Int) :=
            mul_lt_mul_of_pos_right bound (power _)
        _ = 2 ^ (-1022 : Int) := by rw [← zpow_add₀ (by norm_num)]; norm_num
    rw [binadeAround, if_pos below, none]
  · have quotient : 1 ≤ index / binadeSize := Nat.div_pos large (by decide)
    have low : binadeSize ≤ significand index := by
      have cases := significand_cases index
      omega
    have high := significand_lt index
    have lowRat : (2 : Rat) ^ (52 : Int) ≤ significand index := by
      have cast : ((binadeSize : Nat) : Rat) ≤ significand index := by exact_mod_cast low
      exact le_trans (by norm_num [binadeSize]) cast
    have highRat : (significand index : Rat) < 2 ^ (53 : Int) := by
      have cast : (significand index : Rat) < ((2 * binadeSize : Nat) : Rat) := by
        exact_mod_cast high
      exact cast.trans_le (by norm_num [binadeSize])
    have least : (2 : Rat) ^ ((binade index : Int) - 1022) ≤ valueOf index := by
      calc (2 : Rat) ^ ((binade index : Int) - 1022)
          = 2 ^ (52 : Int) * 2 ^ ((binade index : Int) - 1074) := by
            rw [← zpow_add₀ (by norm_num)]; congr 1; ring
        _ ≤ significand index * 2 ^ ((binade index : Int) - 1074) :=
            mul_le_mul_of_nonneg_right lowRat (power _).le
        _ = valueOf index := rfl
    have most : valueOf index < (2 : Rat) ^ ((binade index : Int) - 1022 + 1) := by
      calc valueOf index = significand index * 2 ^ ((binade index : Int) - 1074) := rfl
        _ < 2 ^ (53 : Int) * 2 ^ ((binade index : Int) - 1074) :=
            mul_lt_mul_of_pos_right highRat (power _)
        _ = (2 : Rat) ^ ((binade index : Int) - 1022 + 1) := by
            rw [← zpow_add₀ (by norm_num)]; congr 1; ring
    have normal : ¬ valueOf index < (2 : Rat) ^ (-1022 : Int) := by
      rw [not_lt]
      exact le_trans (zpow_le_zpow_right₀ (by norm_num) (by omega)) least
    rw [binadeAround, if_neg normal, floor_log2_eq least most]
    omega

/-- A finite float is the nearest one to its own value. -/
theorem nearest_index_value_of {index : Nat} (finite : index ≤ infinityIndex) :
    nearestIndex (valueOf index) = index := by
  have spacing : (2 : Rat) ^ spacingExponent (binade index) ≠ 0 := by positivity
  unfold nearestIndex
  rw [binade_around_value_of]
  dsimp only
  have scaled : valueOf index / (2 : Rat) ^ spacingExponent (binade index) = significand index :=
    mul_div_cancel_right₀ _ spacing
  rw [scaled, round_half_even_nat, ← binade_split, Nat.min_eq_left finite]

theorem exact_decimal_value (index : Nat) : (exactDecimal index).value = valueOf index := by
  unfold exactDecimal
  dsimp only
  split
  · rename_i whole
    obtain ⟨exponent, same⟩ := Int.eq_ofNat_of_zero_le whole
    simp [Decimal.value, valueOf, same, Nat.pow_eq]
  · rename_i fractional
    obtain ⟨exponent, same⟩ :=
      Int.eq_ofNat_of_zero_le (by omega : 0 ≤ -spacingExponent (binade index))
    have negated : spacingExponent (binade index) = -exponent := by omega
    simp only [Decimal.value, valueOf, negated, neg_neg, Int.toNat_natCast, Nat.pow_eq,
      Nat.cast_mul, Nat.cast_pow, Nat.cast_ofNat, zpow_neg, zpow_natCast, mul_assoc]
    congr 1
    rw [show (10 : Rat) = 5 * 2 by norm_num, mul_pow, mul_inv, ← mul_assoc,
      mul_inv_cancel₀ (by positivity), one_mul]

theorem choose_nearer_eq (tie : DecimalTie) (exact below above : Decimal) :
    chooseNearer tie exact below above = below ∨ chooseNearer tie exact below above = above := by
  unfold chooseNearer
  dsimp only
  split
  · exact .inl rfl
  · split
    · exact .inr rfl
    · cases tie with
      | upward => exact .inr rfl
      | toEven =>
          dsimp only
          split
          · exact .inl rfl
          · exact .inr rfl

theorem candidate_reads_back {tie : DecimalTie} {index : Nat} {exact below above found : Decimal}
    (taken : candidate? tie index exact below above = some found) : ReadsBackAs index found := by
  unfold candidate? at taken
  split at taken
  · rename_i lower
    split at taken
    · rename_i upper
      obtain rfl := Option.some.inj taken
      rcases choose_nearer_eq tie exact below above with down | up
      · exact down.symm ▸ lower
      · exact up.symm ▸ upper
    · exact Option.some.inj taken ▸ lower
  · split at taken
    · rename_i upper
      exact Option.some.inj taken ▸ upper
    · contradiction

theorem nearest_index_shortest (tie : DecimalTie) {index : Nat} (finite : index ≤ infinityIndex) :
    nearestIndex (shortest tie index).value = index := by
  unfold shortest
  dsimp only
  induction (Nat.toDigits 10 (exactDecimal index).coefficient).length - 1 with
  | zero => rw [shortestDropping, exact_decimal_value, nearest_index_value_of finite]
  | succ dropped induction =>
      rw [shortestDropping]
      cases taken : candidate? tie index (exactDecimal index)
          (roundedDown (exactDecimal index) (dropped + 1))
          (roundedUp (exactDecimal index) (dropped + 1)) with
      | none => exact induction
      | some found => exact candidate_reads_back taken

theorem of_index_index_of (number : Binary64) :
    ofIndex (isNegative number) (indexOf number) = number := by
  have bits :
      indexOf number + (if isNegative number then signWeight else 0) = number.bits.toNat := by
    have bound := number.bits.toNat_lt
    unfold indexOf isNegative signWeight
    simp only [decide_eq_true_eq]
    split <;> omega
  rw [ofIndex, bits, UInt64.ofNat_toNat]

/-- The shortest decimal of a finite float, with its sign, is read as the float. -/
theorem shortest_to_float (tie : DecimalTie) {number : Binary64} (finite : isFinite number) :
    (shortest tie (indexOf number)).toBinary64 (isNegative number) = number := by
  have bound : indexOf number ≤ infinityIndex := by
    simp only [isFinite, decide_eq_true_eq] at finite
    exact finite.le
  rw [Decimal.toBinary64, nearest, nearest_index_shortest tie bound, of_index_index_of]

theorem not_nan_of_finite {number : Binary64} (finite : isFinite number) :
    isNaN number = false := by
  simp only [isNaN, isFinite, decide_eq_true_eq, decide_eq_false_iff_not] at finite ⊢
  omega

theorem read_display {number : Binary64} (finite : isFinite number) :
    ∃ numeral found, display number = signText number ++ numeral ∧
      Decimal.ofNumeral? numeral = some found ∧ found.toBinary64 (isNegative number) = number := by
  obtain ⟨found, read, value⟩ :=
    Decimal.of_numeral_positional (shortest .upward (indexOf number))
  refine ⟨_, found, ?_, read, ?_⟩
  · rw [display, not_nan_of_finite finite, finite]
    rfl
  · rw [Decimal.toBinary64, value]
    exact shortest_to_float .upward finite

theorem of_index_bits (negative : Bool) {index : Nat} (bound : index < signWeight) :
    (ofIndex negative index).bits.toNat = index + if negative then signWeight else 0 := by
  rw [ofIndex, UInt64.toNat_ofNat']
  apply Nat.mod_eq_of_lt
  simp only [signWeight] at bound ⊢
  split <;> omega

theorem index_of_of_index (negative : Bool) {index : Nat} (bound : index < signWeight) :
    indexOf (ofIndex negative index) = index := by
  rw [indexOf, of_index_bits negative bound]
  split
  · rw [Nat.add_mod_right, Nat.mod_eq_of_lt bound]
  · exact Nat.mod_eq_of_lt bound

theorem is_negative_of_index (negative : Bool) {index : Nat} (bound : index < signWeight) :
    isNegative (ofIndex negative index) = negative := by
  rw [isNegative, of_index_bits negative bound]
  cases negative with
  | false => exact decide_eq_false (Nat.not_le.2 bound)
  | true => exact decide_eq_true (Nat.le_add_left ..)

theorem nearest_index_le (exact : Rat) : nearestIndex exact ≤ infinityIndex :=
  Nat.min_le_right ..

theorem nearest_index_lt (exact : Rat) : nearestIndex exact < signWeight :=
  (nearest_index_le exact).trans_lt (by decide)

theorem nearest_infinite {negative : Bool} {exact : Rat}
    (infinite : isFinite (nearest negative exact) = false) :
    nearest negative exact = infinity negative := by
  have bound := nearest_index_le exact
  rw [nearest, isFinite, index_of_of_index negative (nearest_index_lt exact),
    decide_eq_false_iff_not] at infinite
  rw [nearest, infinity, le_antisymm bound (Nat.le_of_not_lt infinite)]

end Binary64

end InfixCalculator
