import InfixCalculator.Failure
import InfixCalculator.Operation

/-!
Arithmetic as a service that answers operations, possibly with effects. The
standard arithmetic refuses zero divisors, operands outside of a function's
domain and results that are not finite. The unchecked arithmetic refuses zero
divisors only.
-/

namespace InfixCalculator

/-- Answers operations in a monad, so that the service can keep state. -/
abbrev Arithmetic (m : Type → Type) := Operation → ExceptT ArithmeticFailure m Binary64

def Arithmetic.lift {m : Type → Type} [Monad m] (arithmetic : Arithmetic Id) : Arithmetic m :=
  fun operation => ExceptT.mk (pure (arithmetic operation).run)

namespace Operation

def domainFailure (operation : Operation) : ArithmeticFailure :=
  .outsideDomain operation.name (String.ofList operation.argumentText)

/-- Division and remainder by a zero of either sign. -/
def dividesByZero : Operation → Bool
  | .binary .divide _ divisor => divisor == 0.0
  | .binary .modulo _ divisor => divisor == 0.0
  | _ => false

def nearestAsymptote (angle : Binary64) : Binary64 :=
  quarterTurn + Binary64.roundHalfAway ((angle - quarterTurn) / halfTurn) * halfTurn

/-- Operands for which a function is undefined. The tangent is taken as undefined
at any angle closer to an asymptote than the tolerance. -/
def leavesDomain (tangentTolerance : Binary64) : Operation → Bool
  | .unary .tangent angle => decide ((angle - nearestAsymptote angle).abs < tangentTolerance)
  | .unary .arcSine argument => !(decide (-1.0 ≤ argument) && decide (argument ≤ 1.0))
  | .unary .arcCosine argument => !(decide (-1.0 ≤ argument) && decide (argument ≤ 1.0))
  | .unary .decimalLogarithm argument => decide (argument ≤ 0.0)
  | .unary .naturalLogarithm argument => decide (argument ≤ 0.0)
  | .unary .squareRoot argument => decide (argument < 0.0)
  | _ => false

/-- Functions that are finite wherever they are defined, so that their results
need no check. -/
def isBounded : Operation → Bool
  | .unary .arcSine _ => true
  | .unary .arcCosine _ => true
  | _ => false

end Operation

def defaultTangentTolerance : Binary64 := 1e-10

def standardArithmetic (elementary : Elementary) (tangentTolerance : Binary64) : Arithmetic Id :=
  fun operation =>
    let result := elementary.apply operation
    if operation.dividesByZero then throw .zeroDivisor
    else if operation.leavesDomain tangentTolerance then throw operation.domainFailure
    else if operation.isBounded || Binary64.isFinite result then pure result
    else throw operation.domainFailure

def uncheckedArithmetic (elementary : Elementary) : Arithmetic Id :=
  fun operation =>
    if operation.dividesByZero then throw .zeroDivisor
    else pure (elementary.apply operation)

end InfixCalculator
