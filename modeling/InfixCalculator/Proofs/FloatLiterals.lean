import InfixCalculator.Numeric.Clamp
import InfixCalculator.Numeric.LiteralReading
import InfixCalculator.Proofs.JsonWriting

/-!
The literal of a finite float. It spells itself in the grammar of numbers, in plain form and
with an exponent, and the float is the one that is nearest to it.
-/

namespace InfixCalculator

open Json

theorem leading_digit (number : Nat) (positive : number ≠ 0) :
    (Nat.toDigits 10 number).head? ≠ some '0' := by
  induction number using Nat.strongRecOn with
  | ind number induction =>
      by_cases single : number < 10
      · rw [Nat.toDigits_of_lt_base single]
        have digits : ∀ digit < 10, digit ≠ 0 → [Nat.digitChar digit].head? ≠ some '0' := by decide
        exact digits number single positive
      · -- All digits but the last one are those of the quotient.
        have quotient : number / 10 ≠ 0 := by omega
        have earlier := induction (number / 10) (by omega) quotient
        rw [Nat.toDigits_of_base_le (by decide) (by omega),
          List.head?_append_of_ne_nil _ Nat.toDigits_ne_nil]
        exact earlier

namespace Decimal

theorem significant_digits_leading {coefficient : Nat} (positive : coefficient ≠ 0) :
    ∃ first others, significantDigits coefficient = first :: others ∧ first ≠ '0' := by
  have leading := leading_digit coefficient positive
  obtain ⟨cut, whole⟩ := significant_digits_cut coefficient
  obtain ⟨shorter, -, value⟩ := significant_digits_value coefficient
  cases digits : significantDigits coefficient with
  | nil =>
      rw [digits] at value
      simp [Nat.ofDigitChars] at value
      contradiction
  | cons first others =>
      refine ⟨first, others, rfl, fun zero => leading ?_⟩
      rw [whole, digits, zero]
      rfl

theorem positional_parts_whole (magnitude : Decimal) : IsWhole magnitude.positionalParts.1 := by
  have digits := magnitude.positional_parts_digits.1
  have filled := magnitude.positional_parts_filled
  by_cases zero : magnitude.coefficient = 0
  · rw [positionalParts, if_pos zero]
    exact .inl rfl
  · by_cases outside : pointPosition magnitude ≤ 0
    · simp only [positionalParts, if_neg zero, if_pos outside]
      exact .inl rfl
    · refine .inr ⟨⟨filled, digits⟩, ?_⟩
      obtain ⟨first, others, significant, leading⟩ := significant_digits_leading zero
      have point : (pointPosition magnitude).toNat ≠ 0 := by omega
      obtain ⟨place, same⟩ := Nat.exists_eq_succ_of_ne_zero point
      simp only [positionalParts, if_neg zero, if_neg outside, significant, same,
        List.take_succ_cons, List.cons_append, List.head?_cons]
      simpa using leading

theorem of_digits_zero (whole : Text) :
    (ofDigits whole ['0']).value = (ofDigits whole []).value := by
  simp only [ofDigits, value, Nat.ofDigitChars_append, List.append_nil, List.length_singleton,
    List.length_nil]
  simp only [Nat.ofDigitChars_cons, Nat.ofDigitChars_nil]
  push_cast
  field_simp
  simp

end Decimal

namespace NumberLiteral

open Decimal

theorem scientific_coefficient {magnitude : Decimal} (scientific : isPositional magnitude = false) :
    magnitude.coefficient ≠ 0 := by
  intro zero
  simp [isPositional, zero] at scientific

theorem of_decimal_negative (negative : Bool) (magnitude : Decimal) :
    (ofDecimal negative magnitude).negative = negative := by
  unfold ofDecimal
  split <;> rfl

theorem of_decimal_spelled (negative : Bool) (magnitude : Decimal) :
    SpellsNumber (ofDecimal negative magnitude).text (ofDecimal negative magnitude) := by
  cases form : isPositional magnitude with
  | true =>
      have digits := magnitude.positional_parts_digits.2
      simp only [ofDecimal, form, if_true]
      apply literal_spells magnitude.positional_parts_whole
      intro symbol member
      dsimp only at member
      split at member
      · rw [List.mem_singleton.1 member]
        rfl
      · exact digits symbol member
  | false =>
      obtain ⟨first, others, significant, leading⟩ :=
        significant_digits_leading (scientific_coefficient form)
      have digits (symbol : Char) (member : symbol ∈ first :: others) : symbol.isDigit := by
        rw [← significant] at member
        exact is_digit_of_mem_significant member
      simp only [ofDecimal, form, significant]
      apply literal_spells
      · refine .inr ⟨⟨by simp, fun symbol member => ?_⟩, ?_⟩
        · exact digits symbol (List.mem_of_mem_take member)
        simpa using leading
      · exact fun symbol member => digits symbol (List.mem_of_mem_drop member)

theorem magnitude_of_digits (negative : Bool) (whole fraction : Text) :
    magnitude ⟨negative, whole, fraction, 0⟩ = ofDigits whole fraction := by
  simp [magnitude, ofDigits]

theorem of_decimal_value (negative : Bool) (magnitude : Decimal) :
    (ofDecimal negative magnitude).magnitude.value = magnitude.value := by
  cases form : isPositional magnitude with
  | true =>
      have value := magnitude.positional_parts_value
      simp only [ofDecimal, form, if_true, magnitude_of_digits]
      split
      · rename_i empty
        rw [List.isEmpty_iff.1 empty] at value
        rw [of_digits_zero, value]
      · exact value
  | false =>
      obtain ⟨first, others, significant, leading⟩ :=
        significant_digits_leading (scientific_coefficient form)
      rw [magnitude.value_significant]
      simp only [ofDecimal, form, Bool.false_eq_true, if_false, significant,
        NumberLiteral.magnitude, Decimal.value, List.take_append_drop]
      congr 2
      simp only [List.length_drop, List.length_cons]
      omega

theorem of_float_spelled (number : Binary64) :
    SpellsNumber (ofFloat number).text (ofFloat number) :=
  of_decimal_spelled _ _

theorem of_float_value {number : Binary64} (finite : Binary64.isFinite number) :
    (ofFloat number).magnitude.toBinary64 (ofFloat number).negative = number := by
  rw [ofFloat, of_decimal_negative, Decimal.toBinary64, of_decimal_value]
  exact Binary64.shortest_to_float .toEven finite

end NumberLiteral

namespace NumberReading

/-- The reading takes the float that is nearest to the value of a literal. -/
def IsNearest (reading : NumberReading) : Prop :=
  ∀ literal, reading literal = literal.magnitude.toBinary64 literal.negative

theorem nearest_is_nearest : nearest.IsNearest := by
  intro literal
  rw [nearest, Decimal.toBinary64, Decimal.toBinary64, Binary64.nearest, Binary64.nearest,
    Decimal.clamp_nearest]

end NumberReading

end InfixCalculator
