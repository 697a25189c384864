import InfixCalculator.Numeric.Shortest

/-!
Decimals and floats in plain positional form, which never has an exponent and
shows a point only in front of a fraction.
-/

namespace InfixCalculator

namespace Decimal

def significantDigits (coefficient : Nat) : Text :=
  ((Nat.toDigits 10 coefficient).reverse.dropWhile (· == '0')).reverse

def pointPosition (magnitude : Decimal) : Int :=
  (Nat.toDigits 10 magnitude.coefficient).length + magnitude.exponent

def zeros (count : Nat) : Text := List.replicate count '0'

/-- The digits on both sides of the point. Only the whole part is never empty. -/
def positionalParts (magnitude : Decimal) : Text × Text :=
  if magnitude.coefficient = 0 then (['0'], [])
  else
    let digits := significantDigits magnitude.coefficient
    let point := pointPosition magnitude
    if point ≤ 0 then (['0'], zeros (-point).toNat ++ digits)
    else
      (digits.take point.toNat ++ zeros (point.toNat - digits.length), digits.drop point.toNat)

def joinParts (whole fraction : Text) : Text :=
  whole ++ if fraction.isEmpty then [] else '.' :: fraction

def positional (magnitude : Decimal) : Text :=
  joinParts magnitude.positionalParts.1 magnitude.positionalParts.2

theorem is_digit_of_mem_significant {coefficient : Nat} {symbol : Char}
    (member : symbol ∈ significantDigits coefficient) : symbol.isDigit := by
  have kept := (List.dropWhile_suffix _).subset (List.mem_reverse.1 member)
  exact Nat.isDigit_of_mem_toDigits (b := 10) (by decide) (by decide) (List.mem_reverse.1 kept)

theorem is_digit_of_mem_zeros {count : Nat} {symbol : Char} (member : symbol ∈ zeros count) :
    symbol.isDigit := by
  rw [List.eq_of_mem_replicate member]
  rfl

theorem positional_parts_digits (magnitude : Decimal) :
    (∀ symbol ∈ magnitude.positionalParts.1, symbol.isDigit) ∧
      ∀ symbol ∈ magnitude.positionalParts.2, symbol.isDigit := by
  unfold positionalParts
  dsimp only
  split
  · exact ⟨fun symbol member => List.mem_singleton.1 member ▸ rfl, nofun⟩
  · split
    · refine ⟨fun symbol member => List.mem_singleton.1 member ▸ rfl, fun symbol member => ?_⟩
      exact (List.mem_append.1 member).elim is_digit_of_mem_zeros is_digit_of_mem_significant
    · refine ⟨fun symbol member => ?_, fun symbol member => ?_⟩
      · exact (List.mem_append.1 member).elim
          (fun found => is_digit_of_mem_significant (List.mem_of_mem_take found))
          is_digit_of_mem_zeros
      · exact is_digit_of_mem_significant (List.mem_of_mem_drop member)

theorem mem_positional {magnitude : Decimal} {symbol : Char}
    (member : symbol ∈ positional magnitude) : symbol.isDigit ∨ symbol = '.' := by
  obtain ⟨whole, fraction⟩ := positional_parts_digits magnitude
  rcases List.mem_append.1 member with found | found
  · exact .inl (whole symbol found)
  · split at found
    · contradiction
    · exact (List.mem_cons.1 found).elim .inr fun digit => .inl (fraction symbol digit)

end Decimal

namespace Binary64

def signText (number : Binary64) : Text := if isNegative number then ['-'] else []

/-- The plain form of any float: shortest digits, and infinity and NaN by name. -/
def display (number : Binary64) : Text :=
  if isNaN number then ['N', 'a', 'N']
  else if isFinite number then
    signText number ++ (shortest .upward (indexOf number)).positional
  else signText number ++ ['i', 'n', 'f']

end Binary64

end InfixCalculator
