import InfixCalculator.Numeric.Decimal

/-!
Binary64 floats as a sign and a magnitude index. Indices count the non-negative
floats upwards from zero, so neighbouring floats have neighbouring indices, the
first index after the finite ones is infinity, and the rest are the NaNs, which
have a sign too. Rounding takes the nearest float, and the even index of two
equally near ones.
-/

namespace InfixCalculator

/-- A float is its 64 bits, so that two NaNs may differ. -/
structure Binary64 where
  bits : UInt64
  deriving DecidableEq

namespace Binary64

def binadeSize : Nat := 4503599627370496

def infinityIndex : Nat := 2047 * binadeSize

def signWeight : Nat := 9223372036854775808

def isNegative (number : Binary64) : Bool := decide (signWeight ≤ number.bits.toNat)

def indexOf (number : Binary64) : Nat := number.bits.toNat % signWeight

def isFinite (number : Binary64) : Bool := decide (indexOf number < infinityIndex)

def isNaN (number : Binary64) : Bool := decide (infinityIndex < indexOf number)

def ofIndex (negative : Bool) (index : Nat) : Binary64 :=
  ⟨UInt64.ofNat (index + if negative then signWeight else 0)⟩

def infinity (negative : Bool) : Binary64 := ofIndex negative infinityIndex

def notANumber (negative : Bool) : Binary64 :=
  ofIndex negative (infinityIndex + binadeSize / 2)

/-- The two lowest blocks of indices share binade zero: the subnormal floats have
the spacing of the least normal ones. -/
def binade (index : Nat) : Nat := index / binadeSize - 1

def significand (index : Nat) : Nat := index - binade index * binadeSize

def spacingExponent (place : Nat) : Int := (place : Int) - 1074

def valueOf (index : Nat) : Rat :=
  significand index * (2 : Rat) ^ spacingExponent (binade index)

def magnitude (number : Binary64) : Rat := valueOf (indexOf number)

def floorLog2 (exact : Rat) : Int :=
  let guess : Int := (exact.num.natAbs.log2 : Int) - exact.den.log2
  if (2 : Rat) ^ guess ≤ exact then guess else guess - 1

def binadeAround (exact : Rat) : Nat :=
  if exact < (2 : Rat) ^ (-1022 : Int) then 0 else (floorLog2 exact + 1022).toNat

/-- The nearest natural number, and the even one of two equally near. -/
def roundHalfEven (exact : Rat) : Nat :=
  let below := exact.floor.toNat
  let excess := exact - below
  if excess < 1 / 2 then below
  else if 1 / 2 < excess then below + 1
  else below + below % 2

/-- Index of the float nearest to a non-negative rational. A significand that
rounds up to the next power of two carries into the next binade by itself. -/
def nearestIndex (exact : Rat) : Nat :=
  let place := binadeAround exact
  let rounded := roundHalfEven (exact / (2 : Rat) ^ spacingExponent place)
  min (place * binadeSize + rounded) infinityIndex

def nearest (negative : Bool) (exact : Rat) : Binary64 := ofIndex negative (nearestIndex exact)

end Binary64

def Decimal.toBinary64 (negative : Bool) (exact : Decimal) : Binary64 :=
  Binary64.nearest negative exact.value

end InfixCalculator
