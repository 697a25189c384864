import InfixCalculator.Numeric.Display

/-!
Number literals of the interchange format: digits with an optional fraction and
an optional power of ten. Finite floats are written with their shortest digits.
-/

namespace InfixCalculator

/-- A literal without fraction has no digits there; exponent zero is not shown. -/
structure NumberLiteral where
  negative : Bool
  whole : Text
  fraction : Text
  exponent : Int
  deriving DecidableEq, Repr

namespace NumberLiteral

def exponentText (exponent : Int) : Text :=
  if exponent = 0 then []
  else 'e' :: (if exponent < 0 then '-' else '+') :: Nat.toDigits 10 exponent.natAbs

def text (literal : NumberLiteral) : Text :=
  (if literal.negative then ['-'] else []) ++
    Decimal.joinParts literal.whole literal.fraction ++ exponentText literal.exponent

def magnitude (literal : NumberLiteral) : Decimal :=
  ⟨Nat.ofDigitChars 10 (literal.whole ++ literal.fraction) 0,
    literal.exponent - literal.fraction.length⟩

/-- Scientific exponents written positionally: from 1e-5 up to, not including,
1e16. -/
def isPositional (magnitude : Decimal) : Bool :=
  magnitude.coefficient == 0 ||
    (decide (-5 < magnitude.pointPosition) && decide (magnitude.pointPosition ≤ 16))

/-- Positional literals always show a fraction, scientific ones have one digit
in front of the point. -/
def ofDecimal (negative : Bool) (magnitude : Decimal) : NumberLiteral :=
  if isPositional magnitude then
    let (whole, fraction) := magnitude.positionalParts
    ⟨negative, whole, if fraction.isEmpty then ['0'] else fraction, 0⟩
  else
    let digits := Decimal.significantDigits magnitude.coefficient
    ⟨negative, digits.take 1, digits.drop 1, magnitude.pointPosition - 1⟩

def ofFloat (number : Binary64) : NumberLiteral :=
  ofDecimal (Binary64.isNegative number) (Binary64.shortest .toEven (Binary64.indexOf number))

end NumberLiteral

end InfixCalculator
