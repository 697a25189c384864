import InfixCalculator.Numeric.Comparison
import InfixCalculator.Numeric.ExactRemainder
import InfixCalculator.Operation

/-!
What the result of each operation is, said without the calculator: sums, products and
quotients of floats, remainders by whole multiples of the divisor, the functions of the
platform, and the conversions of angles. The calculator computes these results. It is free
only in the bits of a NaN.
-/

namespace InfixCalculator

namespace Binary64

open Float.Model

section

variable {dividend divisor : Binary64}

end

end Binary64

namespace Operation

variable {elementary : Elementary} {operation : Operation}

open Binary64

end Operation

end InfixCalculator
