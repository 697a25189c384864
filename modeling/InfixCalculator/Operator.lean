/-!
The six binary operators, how tightly they bind and how the power operator
groups.
-/

namespace InfixCalculator

inductive Operator where
  | add
  | subtract
  | multiply
  | divide
  | modulo
  | power
  deriving DecidableEq, Repr, Inhabited

namespace Operator

def symbol : Operator → Char
  | .add => '+'
  | .subtract => '-'
  | .multiply => '*'
  | .divide => '/'
  | .modulo => '%'
  | .power => '^'

def ofChar? : Char → Option Operator
  | '+' => some .add
  | '-' => some .subtract
  | '*' => some .multiply
  | '/' => some .divide
  | '%' => some .modulo
  | '^' => some .power
  | _ => none

theorem of_char_symbol (operator : Operator) : ofChar? operator.symbol = some operator := by
  cases operator <;> rfl

def precedence : Operator → Nat
  | .add | .subtract => 1
  | .multiply | .divide | .modulo => 2
  | .power => 3

end Operator

/-- How a run of power operators groups: `left` reads `a ^ b ^ c` as `(a ^ b) ^ c`,
and `right` reads it as `a ^ (b ^ c)`. -/
inductive Associativity where
  | left
  | right
  deriving DecidableEq, Repr, Inhabited

/-- Whether `earlier` takes the operand between it and `later`. Only the power
operator can group to the right. -/
def Operator.bindsBefore (power : Associativity) (earlier later : Operator) : Bool :=
  if later = .power ∧ power = .right then decide (later.precedence < earlier.precedence)
  else decide (later.precedence ≤ earlier.precedence)

end InfixCalculator
