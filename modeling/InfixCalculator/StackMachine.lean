import InfixCalculator.Evaluation

/-!
Postfix tokens run on a stack of values. An operator takes its right operand
first. Exactly one value has to be left at the end.
-/

namespace InfixCalculator

variable {m : Type → Type} [Monad m]

namespace StackMachine

def result : List Binary64 → Evaluation m Binary64
  | [] => throw .empty
  | [value] => pure value
  | values => throw (.danglingOperands values.length)

def run (arithmetic : Arithmetic m) : List Binary64 → List Token → Evaluation m Binary64
  | stack, [] => result stack
  | stack, .number value :: rest => run arithmetic (value :: stack) rest
  | right :: left :: stack, .operator operator :: rest => do
      let value ← arithmetic.perform (.binary operator left right)
      run arithmetic (value :: stack) rest
  | _, .operator operator :: _ => throw (.missingOperand operator)
  | _, .leftParen :: _ => throw (.unexpectedToken .leftParen)
  | _, .rightParen :: _ => throw (.unexpectedToken .rightParen)

end StackMachine

def evaluatePostfix (arithmetic : Arithmetic m) (tokens : List Token) : Evaluation m Binary64 :=
  StackMachine.run arithmetic [] tokens

end InfixCalculator
