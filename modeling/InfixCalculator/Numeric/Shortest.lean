import InfixCalculator.Numeric.Binary64

/-!
The shortest decimal that reads back as a given finite float. Decimals with one,
two, three and more digits are tried in turn; of each length only the two
neighbours of the exact value matter, and of two that read back the nearer wins.
-/

namespace InfixCalculator

namespace Binary64

inductive DecimalTie where
  | upward
  | toEven
  deriving DecidableEq, Repr

def ReadsBackAs (index : Nat) (candidate : Decimal) : Prop :=
  nearestIndex candidate.value = index

instance (index : Nat) (candidate : Decimal) : Decidable (ReadsBackAs index candidate) :=
  inferInstanceAs (Decidable (_ = _))

/-- The exact value of a finite float, which always is a decimal. -/
def exactDecimal (index : Nat) : Decimal :=
  let exponent := spacingExponent (binade index)
  if 0 ≤ exponent then ⟨significand index * Nat.pow 2 exponent.toNat, 0⟩
  else ⟨significand index * Nat.pow 5 (-exponent).toNat, exponent⟩

def chooseNearer (tie : DecimalTie) (exact below above : Decimal) : Decimal :=
  let lowerGap := exact.value - below.value
  let upperGap := above.value - exact.value
  if lowerGap < upperGap then below
  else if upperGap < lowerGap then above
  else match tie with
    | .upward => above
    | .toEven => if below.coefficient % 2 = 0 then below else above

def candidate? (tie : DecimalTie) (index : Nat) (exact below above : Decimal) : Option Decimal :=
  if ReadsBackAs index below then
    if ReadsBackAs index above then some (chooseNearer tie exact below above) else some below
  else if ReadsBackAs index above then some above
  else none

def roundedDown (exact : Decimal) (dropped : Nat) : Decimal :=
  ⟨exact.coefficient / Nat.pow 10 dropped, exact.exponent + dropped⟩

def roundedUp (exact : Decimal) (dropped : Nat) : Decimal :=
  ⟨exact.coefficient / Nat.pow 10 dropped + 1, exact.exponent + dropped⟩

/-- Keeps one more digit in each step; with no digit dropped the value is exact. -/
def shortestDropping (tie : DecimalTie) (index : Nat) (exact : Decimal) : Nat → Decimal
  | 0 => exact
  | dropped + 1 =>
      (candidate? tie index exact (roundedDown exact (dropped + 1))
        (roundedUp exact (dropped + 1))).getD (shortestDropping tie index exact dropped)

def shortest (tie : DecimalTie) (index : Nat) : Decimal :=
  let exact := exactDecimal index
  shortestDropping tie index exact ((Nat.toDigits 10 exact.coefficient).length - 1)

end Binary64

end InfixCalculator
