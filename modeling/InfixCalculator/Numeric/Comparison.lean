import InfixCalculator.Numeric.FloatOperations
import InfixCalculator.Numeric.RoundTrip
import Mathlib.Data.Prod.Lex
import Mathlib.Order.Compare

/-!
Comparison of floats. Every float but a NaN has a place in one linear order, and
two floats compare as their places do, so the comparisons compose although a NaN
compares with nothing. All other floats are ordered.
-/

namespace InfixCalculator

namespace Binary64

open Float.Model

/-- Where a float lies: below, at or above zero and finite or not, then by exponent
and mantissa, which count downwards below zero. Both zeros share a place. -/
def place? : UnpackedFloat → Option (ℤ ×ₗ ℤ ×ₗ ℤ)
  | .notANumber => none
  | .infinity .negative => some (toLex (-2, toLex (0, 0)))
  | .finite .negative mantissa exponent _ => some (toLex (-1, toLex (-exponent, -mantissa)))
  | .zero _ => some (toLex (0, toLex (0, 0)))
  | .finite .positive mantissa exponent _ => some (toLex (1, toLex (exponent, mantissa)))
  | .infinity .positive => some (toLex (2, toLex (0, 0)))

theorem compare_negated (first second : ℤ) :
    compare (-first) (-second) = (compare first second).swap := by
  rw [@Std.OrientedCmp.eq_swap ℤ compare _ (-first) (-second)]
  simp only [compare, compareOfLessAndEq]
  grind

theorem compare_cast (first second : ℕ) :
    compare (first : ℤ) (second : ℤ) = compare first second := by
  simp only [compare, compareOfLessAndEq]
  grind

section

variable (exponent otherExponent : ℤ) (mantissa otherMantissa : ℕ)

theorem compare_above :
    compare (toLex (1, toLex (exponent, (mantissa : ℤ))) : ℤ ×ₗ ℤ ×ₗ ℤ)
        (toLex (1, toLex (otherExponent, (otherMantissa : ℤ)))) =
      (compare exponent otherExponent).then (compare mantissa otherMantissa) := by
  simp [Prod.Lex.compare_def, compareLex, compareOn, compare_cast]

theorem compare_below :
    compare (toLex (-1, toLex (-exponent, -(mantissa : ℤ))) : ℤ ×ₗ ℤ ×ₗ ℤ)
        (toLex (-1, toLex (-otherExponent, -(otherMantissa : ℤ)))) =
      ((compare exponent otherExponent).then (compare mantissa otherMantissa)).swap := by
  simp [Prod.Lex.compare_def, compareLex, compareOn, compare_negated, compare_cast,
    Ordering.swap_then]

end

theorem compare_places (first second : UnpackedFloat) :
    first.compare second =
      (place? first).bind fun low => (place? second).map (compare low) := by
  rcases first with (_ | _) | _ | _ | ⟨_ | _, mantissa, exponent, positive⟩ <;>
  rcases second with (_ | _) | _ | _ | ⟨_ | _, otherMantissa, otherExponent, otherPositive⟩ <;>
  first
  | rfl
  | exact congrArg some (compare_above exponent otherExponent mantissa otherMantissa).symm
  | exact congrArg some (compare_below exponent otherExponent mantissa otherMantissa).symm

/-- The bits of a NaN have the index of one. -/
theorem nan_bits_iff (bits : UInt64) :
    (@UnpackedFloat.unpackExponent .binary64 bits.toBitVec = -1#_ ∧
        @UnpackedFloat.unpackMantissa .binary64 bits.toBitVec ≠ 0#_) ↔
      infinityIndex < bits.toNat % signWeight := by
  have exponent : @UnpackedFloat.unpackExponent .binary64 bits.toBitVec = -1#_ ↔
      bits.toNat / 4503599627370496 % 2048 = 2047 := by
    rw [BitVec.toNat_eq]
    simp [UnpackedFloat.unpackExponent, Nat.shiftRight_eq_div_pow]
  have mantissa : @UnpackedFloat.unpackMantissa .binary64 bits.toBitVec = 0#_ ↔
      bits.toNat % 4503599627370496 = 0 := by
    rw [BitVec.toNat_eq]
    simp [UnpackedFloat.unpackMantissa]
  rw [exponent, ne_eq, mantissa]
  simp only [signWeight, infinityIndex, binadeSize]
  omega

/-- Only the bits of a NaN are lost where a float is computed with. -/
theorem to_float_bits {number : Binary64} (ordered : isNaN number = false) :
    number.toFloat.toBits = number.bits := by
  have valid : Format.binary64.Valid number.bits.toBitVec :=
    ⟨fun exponent mantissa => absurd ((nan_bits_iff number.bits).1 ⟨exponent, mantissa⟩)
      (of_decide_eq_false ordered)⟩
  exact congrArg Float.toBits (Float.ofBits_toBits ⟨⟨number.bits, valid⟩⟩)

def unpacked (number : Binary64) : UnpackedFloat := number.toFloat.toModel.unpack

theorem unpacked_nan_iff {number : Binary64} :
    unpacked number = .notANumber ↔ isNaN number := by
  have parts : UnpackedFloat.unpack .binary64 number.bits.toBitVec = .notANumber ↔
      isNaN number := by
    rw [isNaN, decide_eq_true_iff, indexOf, ← nan_bits_iff]
    unfold UnpackedFloat.unpack
    grind
  cases known : isNaN number with
  | false =>
      have bits : unpacked number = UnpackedFloat.unpack .binary64 number.bits.toBitVec :=
        congrArg (fun bits => UnpackedFloat.unpack .binary64 (UInt64.toBitVec bits))
          (to_float_bits known)
      rw [bits, parts, known]
  | true =>
      have lost : number.toFloat = ⟨.pack .notANumber⟩ :=
        congrArg (fun content => Float.ofModel (.pack content)) (parts.2 known)
      rw [unpacked, lost]
      exact iff_of_true rfl rfl

theorem lt_places {first second : Binary64} :
    first < second ↔ ∃ low ∈ place? (unpacked first), ∃ high ∈ place? (unpacked second),
      low < high := by
  have compared : first < second ↔ (unpacked first).lt (unpacked second) := decide_eq_true_iff
  rw [compared, UnpackedFloat.lt, compare_places]
  cases place? (unpacked first) <;> cases place? (unpacked second) <;>
    simp [compare_lt_iff_lt]

theorem le_places {first second : Binary64} :
    first ≤ second ↔ ∃ low ∈ place? (unpacked first), ∃ high ∈ place? (unpacked second),
      low ≤ high := by
  have compared : first ≤ second ↔ (unpacked first).le (unpacked second) := decide_eq_true_iff
  rw [compared, UnpackedFloat.le, compare_places]
  cases place? (unpacked first) <;> cases place? (unpacked second) <;>
    simp [Ordering.isLE_iff_ne_gt, compare_le_iff_le]

theorem lt_within {first second third : Binary64} (below : first < second)
    (within : second ≤ third) : first < third := by
  obtain ⟨low, lowPlace, middle, middlePlace, under⟩ := lt_places.1 below
  obtain ⟨other, otherPlace, high, highPlace, most⟩ := le_places.1 within
  obtain rfl : middle = other := Option.mem_unique middlePlace otherPlace
  exact lt_places.2 ⟨low, lowPlace, high, highPlace, under.trans_le most⟩

theorem place_exists {number : Binary64} (ordered : isNaN number = false) :
    ∃ place, place? (unpacked number) = some place := by
  cases placed : place? (unpacked number) with
  | some place => exact ⟨place, rfl⟩
  | none =>
      have nan : unpacked number = .notANumber := by
        cases content : unpacked number with
        | notANumber => rfl
        | zero sign => simp [content, place?] at placed
        | infinity sign => cases sign <;> simp [content, place?] at placed
        | finite sign mantissa exponent positive =>
            cases sign <;> simp [content, place?] at placed
      rw [unpacked_nan_iff.1 nan] at ordered
      contradiction

theorem not_le_iff {first second : Binary64} (ordered : isNaN first = false)
    (otherOrdered : isNaN second = false) : ¬first ≤ second ↔ second < first := by
  obtain ⟨low, lowPlace⟩ := place_exists ordered
  obtain ⟨high, highPlace⟩ := place_exists otherOrdered
  rw [le_places, lt_places]
  simp [lowPlace, highPlace]

end Binary64

end InfixCalculator
