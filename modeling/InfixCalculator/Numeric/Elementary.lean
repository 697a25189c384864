import InfixCalculator.Numeric.Remainder

/-!
Elementary functions as a table. Everything above this module takes the table as
a parameter, so its laws hold for any implementation; the native table supplies
the platform's functions when the program runs.
-/

namespace InfixCalculator

structure Elementary where
  sine : Binary64 → Binary64
  cosine : Binary64 → Binary64
  tangent : Binary64 → Binary64
  arcSine : Binary64 → Binary64
  arcCosine : Binary64 → Binary64
  arcTangent : Binary64 → Binary64
  decimalLogarithm : Binary64 → Binary64
  naturalLogarithm : Binary64 → Binary64
  exponential : Binary64 → Binary64
  power : Binary64 → Binary64 → Binary64

namespace Elementary

def native : Elementary where
  sine := Binary64.computed Float.sin
  cosine := Binary64.computed Float.cos
  tangent := Binary64.computed Float.tan
  arcSine := Binary64.computed Float.asin
  arcCosine := Binary64.computed Float.acos
  arcTangent := Binary64.computed Float.atan
  decimalLogarithm := Binary64.computed Float.log10
  naturalLogarithm := Binary64.computed Float.log
  exponential := Binary64.computed Float.exp
  power := Binary64.computedFromBoth Float.pow

structure IsFiniteOnDomain (elementary : Elementary) : Prop where
  arcSine : ∀ x : Binary64, -1.0 ≤ x → x ≤ 1.0 → Binary64.isFinite (elementary.arcSine x)
  arcCosine : ∀ x : Binary64, -1.0 ≤ x → x ≤ 1.0 → Binary64.isFinite (elementary.arcCosine x)

end Elementary

def halfTurn : Binary64 := 3.141592653589793

def quarterTurn : Binary64 := 1.5707963267948966

def eulerNumber : Binary64 := 2.718281828459045

def toRadians (degrees : Binary64) : Binary64 := degrees * (halfTurn / 180.0)

def toDegrees (radians : Binary64) : Binary64 := radians * 57.2957795130823208767981548141051703

end InfixCalculator
