import InfixCalculator.Proofs.Accounting
import InfixCalculator.Proofs.Rendering
import Mathlib.Data.List.Forall2

/-!
The order in which an expression is evaluated, as its records show it. At one
level the calls come first, from left to right and each behind its argument, then
the operators outside of arguments in postorder. The induction on the spelling
keeps the records of calls apart from those of operators: the former are added
while calls are resolved, the latter once the machine runs on what is left.
-/

namespace InfixCalculator

namespace Expression

def operators : Expression → List Expression
  | .number _ => []
  | .constant _ => []
  | .call _ _ => []
  | .binary operator left right =>
      left.operators ++ right.operators ++ [.binary operator left right]
  | .group inner => inner.operators

def calls : Expression → List Expression
  | .number _ => []
  | .constant _ => []
  | .call function argument =>
      argument.calls ++ argument.operators ++ [.call function argument]
  | .binary _ left right => left.calls ++ right.calls
  | .group inner => inner.calls

def operatorCount : Expression → Nat
  | .number _ => 0
  | .constant _ => 0
  | .call _ argument => argument.operatorCount
  | .binary _ left right => left.operatorCount + right.operatorCount + 1
  | .group inner => inner.operatorCount

end Expression

variable {calculator : Calculator Id} {level : Nat} {text : Text} {value : Binary64}

section

variable {elementary : Elementary} (assured : elementary.IsFiniteOnDomain) {tolerance : Binary64}
  {settings : Settings} (finite : settings.HasFiniteConstants)

include assured finite

end

end InfixCalculator
