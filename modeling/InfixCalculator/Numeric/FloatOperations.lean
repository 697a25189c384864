import InfixCalculator.Numeric.Binary64

/-!
Literals, comparisons and arithmetic of floats. The platform computes results; only
the NaNs are chosen here. Signs are changed on the bits, also the sign of a NaN.
-/

namespace InfixCalculator

namespace Binary64

def toFloat (number : Binary64) : Float := Float.ofBits number.bits

/-- Where nothing can be computed, a NaN among the operands is passed on, and
otherwise the NaN is negative. -/
def undefined (operands : List Binary64) : Binary64 :=
  (operands.find? isNaN).getD (notANumber true)

def ofResult (operands : List Binary64) (result : Float) : Binary64 :=
  if result.isNaN then undefined operands else ⟨result.toBits⟩

def computed (compute : Float → Float) (operand : Binary64) : Binary64 :=
  ofResult [operand] (compute operand.toFloat)

def computedFromBoth (compute : Float → Float → Float) (left right : Binary64) : Binary64 :=
  ofResult [left, right] (compute left.toFloat right.toFloat)

instance : OfScientific Binary64 :=
  ⟨fun mantissa negative exponent =>
    ⟨(OfScientific.ofScientific mantissa negative exponent : Float).toBits⟩⟩

instance (value : Nat) : OfNat Binary64 value := ⟨⟨(Float.ofNat value).toBits⟩⟩

instance : Neg Binary64 := ⟨fun number => ofIndex (!isNegative number) (indexOf number)⟩

instance : Add Binary64 := ⟨computedFromBoth Float.add⟩

instance : Sub Binary64 := ⟨computedFromBoth Float.sub⟩

instance : Mul Binary64 := ⟨computedFromBoth Float.mul⟩

instance : Div Binary64 := ⟨computedFromBoth Float.div⟩

instance : LT Binary64 := ⟨fun left right => left.toFloat < right.toFloat⟩

instance : LE Binary64 := ⟨fun left right => left.toFloat ≤ right.toFloat⟩

instance (left right : Binary64) : Decidable (left < right) :=
  inferInstanceAs (Decidable (left.toFloat < right.toFloat))

instance (left right : Binary64) : Decidable (left ≤ right) :=
  inferInstanceAs (Decidable (left.toFloat ≤ right.toFloat))

/-- Both zeros are equal, and a NaN is not equal to itself. -/
instance : BEq Binary64 := ⟨fun left right => left.toFloat == right.toFloat⟩

def abs (number : Binary64) : Binary64 := ofIndex false (indexOf number)

def sqrt : Binary64 → Binary64 := computed Float.sqrt

end Binary64

end InfixCalculator
