import InfixCalculator.Numeric.FloatOperations
import InfixCalculator.Numeric.Literal

/-!
Two readings of number literals as floats. One takes the nearest float. The other
scales by a power of ten in float arithmetic, which is quick, exact as long as
few digits and small powers are involved, and may otherwise miss the nearest
float by a little.
-/

namespace InfixCalculator

/-- Gives a literal its float, which is infinite where the literal is too large. -/
abbrev NumberReading := NumberLiteral → Binary64

namespace NumberReading

def nearest : NumberReading := fun literal =>
  literal.magnitude.clamp.toBinary64 literal.negative

/-- Coefficients of the scaled reading stay below two to the power 64. -/
def coefficientBound : Nat := 18446744073709551616

/-- Takes up leading digits as long as the coefficient stays below the bound,
and returns the digits that are left over. -/
def takeDigits (coefficient : Nat) : Text → Nat × Text
  | [] => (coefficient, [])
  | digit :: rest =>
      let extended := Nat.ofDigitChars 10 [digit] coefficient
      if extended < coefficientBound then takeDigits extended rest
      else (coefficient, digit :: rest)

/-- Whole digits that do not fit raise the exponent; fraction digits that do not
fit are dropped. -/
def truncated (literal : NumberLiteral) : Decimal :=
  let (whole, excess) := takeDigits 0 literal.whole
  let (coefficient, dropped) := takeDigits whole literal.fraction
  ⟨coefficient, literal.exponent + excess.length - (literal.fraction.length - dropped.length : Nat)⟩

def greatestPower : Nat := 308

def powerOfTen (exponent : Nat) : Binary64 := Decimal.toBinary64 false ⟨1, exponent⟩

/-- Multiplies or divides by a power of ten; far below the range it divides
by the greatest power again and again. -/
def scale (number : Binary64) (exponent : Int) : Binary64 :=
  if exponent.natAbs ≤ greatestPower then
    if 0 ≤ exponent then number * powerOfTen exponent.natAbs
    else number / powerOfTen exponent.natAbs
  else if number == 0.0 then number
  else if 0 ≤ exponent then Binary64.infinity false
  else scale (number / powerOfTen greatestPower) (exponent + greatestPower)
  termination_by exponent.natAbs
  decreasing_by
    simp only [greatestPower] at *
    omega

def scaled : NumberReading := fun literal =>
  let rough := truncated literal
  let number := scale (Binary64.nearest false rough.coefficient) rough.exponent
  if literal.negative then -number else number

end NumberReading

end InfixCalculator
