import InfixCalculator.Text

/-!
Functions of one argument that an expression can call by name.
-/

namespace InfixCalculator

inductive NamedFunction where
  | sine
  | cosine
  | tangent
  | arcSine
  | arcCosine
  | arcTangent
  | decimalLogarithm
  | naturalLogarithm
  | squareRoot
  | exponential
  | absoluteValue
  | degreesToRadians
  | radiansToDegrees
  deriving DecidableEq, Repr, Inhabited

namespace NamedFunction

def all : List NamedFunction :=
  [.sine, .cosine, .tangent, .arcSine, .arcCosine, .arcTangent, .decimalLogarithm,
    .naturalLogarithm, .squareRoot, .exponential, .absoluteValue, .degreesToRadians,
    .radiansToDegrees]

theorem mem_all (function : NamedFunction) : function ∈ all := by
  cases function <;> simp [all]

def name : NamedFunction → String
  | .sine => "sin"
  | .cosine => "cos"
  | .tangent => "tan"
  | .arcSine => "asin"
  | .arcCosine => "acos"
  | .arcTangent => "atan"
  | .decimalLogarithm => "log10"
  | .naturalLogarithm => "ln"
  | .squareRoot => "sqrt"
  | .exponential => "exp"
  | .absoluteValue => "abs"
  | .degreesToRadians => "degToRad"
  | .radiansToDegrees => "radToDeg"

def alias? : NamedFunction → Option String
  | .decimalLogarithm => some "log"
  | _ => none

/-- Resolves a call name. Case matters. -/
def ofName? (spelling : Text) : Option NamedFunction :=
  all.find? fun function =>
    spelling = function.name.toList ∨ function.alias?.map String.toList = some spelling

theorem of_name_name (function : NamedFunction) : ofName? function.name.toList = some function := by
  cases function <;> decide

end NamedFunction

end InfixCalculator
