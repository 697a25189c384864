import InfixCalculator.NamedFunction
import InfixCalculator.Numeric.Elementary
import InfixCalculator.Numeric.Display
import InfixCalculator.Operator

/-!
One arithmetic request together with its operands, and the raw float that it
denotes before any check on domain or finiteness.
-/

namespace InfixCalculator

inductive Operation where
  | binary (operator : Operator) (left right : Binary64)
  | unary (function : NamedFunction) (argument : Binary64)
  deriving DecidableEq

namespace Operation

def name : Operation → String
  | .binary .add _ _ => "add"
  | .binary .subtract _ _ => "subtract"
  | .binary .multiply _ _ => "multiply"
  | .binary .divide _ _ => "divide"
  | .binary .modulo _ _ => "modulo"
  | .binary .power _ _ => "power"
  | .unary .degreesToRadians _ => "deg_to_rad"
  | .unary .radiansToDegrees _ => "rad_to_deg"
  | .unary function _ => function.name

def operands : Operation → List Binary64
  | .binary _ left right => [left, right]
  | .unary _ argument => [argument]

def argumentText (operation : Operation) : Text :=
  List.intercalate [',', ' '] (operation.operands.map Binary64.display)

end Operation

def Elementary.apply (elementary : Elementary) : Operation → Binary64
  | .binary .add left right => left + right
  | .binary .subtract left right => left - right
  | .binary .multiply left right => left * right
  | .binary .divide left right => left / right
  | .binary .modulo left right => Binary64.remainder left right
  | .binary .power left right => elementary.power left right
  | .unary .sine argument => elementary.sine argument
  | .unary .cosine argument => elementary.cosine argument
  | .unary .tangent argument => elementary.tangent argument
  | .unary .arcSine argument => elementary.arcSine argument
  | .unary .arcCosine argument => elementary.arcCosine argument
  | .unary .arcTangent argument => elementary.arcTangent argument
  | .unary .decimalLogarithm argument => elementary.decimalLogarithm argument
  | .unary .naturalLogarithm argument => elementary.naturalLogarithm argument
  | .unary .squareRoot argument => argument.sqrt
  | .unary .exponential argument => elementary.exponential argument
  | .unary .absoluteValue argument => argument.abs
  | .unary .degreesToRadians argument => toRadians argument
  | .unary .radiansToDegrees argument => toDegrees argument

end InfixCalculator
