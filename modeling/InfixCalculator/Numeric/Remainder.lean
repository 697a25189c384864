import InfixCalculator.Numeric.FloatOperations

/-!
Binary64 operations that are exact on the values: the remainder of a truncated
quotient and rounding to a whole number. Both keep the sign of their first
operand, also on a zero result.
-/

namespace InfixCalculator

namespace Binary64

def wholeRemainder (dividend divisor : Rat) : Rat :=
  dividend - divisor * (dividend / divisor).floor

/-- The remainder of the quotient truncated toward zero. An infinite divisor
leaves a finite dividend as it is; otherwise an operand without a finite value,
like a zero divisor, gives no number. -/
def remainder (dividend divisor : Binary64) : Binary64 :=
  if isFinite dividend = false ∨ isNaN divisor ∨ indexOf divisor = 0 then
    undefined [dividend, divisor]
  else if isFinite divisor = false then dividend
  else nearest (isNegative dividend) (wholeRemainder (magnitude dividend) (magnitude divisor))

def roundHalfAway (number : Binary64) : Binary64 :=
  if isFinite number then
    nearest (isNegative number) (magnitude number + 1 / 2).floor
  else number

end Binary64

end InfixCalculator
