import InfixCalculator.Text

/-!
Decimal magnitudes and the numerals that spell them. A numeral is a run of
digits with at most one point and at least one digit. Signs are not part of a
decimal: the float layer keeps them apart so that zero can be negative.
-/

namespace InfixCalculator

structure Decimal where
  coefficient : Nat
  exponent : Int
  deriving DecidableEq, Repr, Inhabited

namespace Decimal

def value (magnitude : Decimal) : Rat :=
  magnitude.coefficient * (10 : Rat) ^ magnitude.exponent

def ofDigits (whole fraction : Text) : Decimal :=
  ⟨Nat.ofDigitChars 10 (whole ++ fraction) 0, -fraction.length⟩

/-- Reads a whole numeral: `12`, `1.5`, `1.` and `.5` are numerals, a lone point
and anything with two points are not. -/
def ofNumeral? (numeral : Text) : Option Decimal :=
  let whole := numeral.takeWhile Char.isDigit
  match numeral.dropWhile Char.isDigit with
  | [] => if whole.isEmpty then none else some (ofDigits whole [])
  | separator :: fraction =>
      if separator = '.' ∧ fraction.all Char.isDigit ∧ (whole ++ fraction).isEmpty = false then
        some (ofDigits whole fraction)
      else none

/-- Decimals above this power of ten exceed every finite float, and decimals
below its inverse round to zero. -/
def extremeExponent : Nat := 400

/-- Brings an exponent of any size within reach of exact arithmetic. Only values
that overflow or vanish when rounded to a float are replaced. -/
def clamp (magnitude : Decimal) : Decimal :=
  if magnitude.coefficient = 0 then ⟨0, 0⟩
  else if (extremeExponent : Int) < magnitude.exponent then ⟨1, extremeExponent⟩
  else if magnitude.exponent < -((extremeExponent + magnitude.coefficient.log2 : Nat) : Int) then
    ⟨1, -extremeExponent⟩
  else magnitude

end Decimal

end InfixCalculator
