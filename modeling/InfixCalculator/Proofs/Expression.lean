import InfixCalculator.Calculator
import InfixCalculator.Proofs.InfixGrammar

/-!
Expressions as trees, their value by a walk of the tree, and the texts that spell
them. A text may have any number of redundant parentheses and any white space
between its parts. Between the name of a function and its parenthesis only the
blanks may stand that a call allows there.
-/

namespace InfixCalculator

inductive NamedConstant where
  | pi
  | e
  deriving DecidableEq, Repr

namespace NamedConstant

def value (settings : Settings) : NamedConstant → Binary64
  | .pi => settings.pi
  | .e => settings.e

end NamedConstant

inductive Expression where
  | number (value : Binary64)
  | constant (which : NamedConstant)
  | call (function : NamedFunction) (argument : Expression)
  | binary (operator : Operator) (left right : Expression)
  | group (inner : Expression)

/-- Characters with the Unicode property of white space. -/
def isWhiteSpace (symbol : Char) : Bool :=
  (9 ≤ symbol.toNat && symbol.toNat ≤ 13) || symbol.toNat == 0x20 || symbol.toNat == 0x85 ||
    symbol.toNat == 0xa0 || symbol.toNat == 0x1680 ||
    (0x2000 ≤ symbol.toNat && symbol.toNat ≤ 0x200a) || symbol.toNat == 0x2028 ||
    symbol.toNat == 0x2029 || symbol.toNat == 0x202f || symbol.toNat == 0x205f ||
    symbol.toNat == 0x3000

theorem white_space_bounds {symbol : Char} (space : isWhiteSpace symbol) :
    symbol.toNat ≤ 0x20 ∨ 0x7f ≤ symbol.toNat := by
  simp only [isWhiteSpace, Bool.or_eq_true, Bool.and_eq_true, decide_eq_true_eq,
    beq_iff_eq] at space
  omega

end InfixCalculator
