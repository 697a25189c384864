import InfixCalculator.Numeric.Display
import InfixCalculator.Numeric.FloatOperations
import InfixCalculator.Operator

/-!
Tokens of an infix expression. Names never reach the token level: they are
replaced by values before the text is scanned.
-/

namespace InfixCalculator

inductive Token where
  | number (value : Binary64)
  | operator (kind : Operator)
  | leftParen
  | rightParen
  deriving DecidableEq

namespace Token

def display : Token → Text
  | .number value => Binary64.display value
  | .operator kind => [kind.symbol]
  | .leftParen => ['(']
  | .rightParen => [')']

def ofChar? (symbol : Char) : Option Token :=
  if symbol = '(' then some .leftParen
  else if symbol = ')' then some .rightParen
  else (Operator.ofChar? symbol).map .operator

end Token

end InfixCalculator
