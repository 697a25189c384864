import InfixCalculator.Arithmetic

/-!
Settings of a calculator: the two named constants, the grouping of the power
operator, and the distance from an asymptote at which a tangent is refused.
-/

namespace InfixCalculator

structure Settings where
  pi : Binary64
  e : Binary64
  powerAssociativity : Associativity
  tangentTolerance : Binary64
  deriving DecidableEq

namespace Settings

def standard : Settings where
  pi := halfTurn
  e := eulerNumber
  powerAssociativity := .left
  tangentTolerance := defaultTangentTolerance

instance : Inhabited Settings := ⟨standard⟩

/-- The value of a constant by name. Each constant has a small and a capital
spelling. -/
def constant? (settings : Settings) (name : Text) : Option Binary64 :=
  if name = ['p', 'i'] ∨ name = ['P', 'I'] then some settings.pi
  else if name = ['e'] ∨ name = ['E'] then some settings.e
  else none

end Settings

end InfixCalculator
