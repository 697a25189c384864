import InfixCalculator.Proofs.Calls
import InfixCalculator.Proofs.OperationResults

/-!
What the standard arithmetic refuses and what it says then. Zero divisors are told apart
from everything else that is refused, which is named with the operands in the order of the
call: operands outside of a function's domain, and results that are not finite. All that is
left has a finite result.
-/

namespace InfixCalculator

namespace Operation

end Operation

namespace Binary64

open Float.Model

end Binary64

variable {elementary : Elementary} {tolerance : Binary64} {operation : Operation}

end InfixCalculator
