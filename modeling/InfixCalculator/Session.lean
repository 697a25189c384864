import InfixCalculator.Calculator
import InfixCalculator.Journal

/-!
Sessions on one calculator whose arithmetic is recorded. The journal is the only
state that passes from one step to the next.
-/

namespace InfixCalculator

namespace Session

inductive Step where
  | evaluate (expression : Text)
  | evaluatePostfix (tokens : List Token)
  | operate (operation : Operation)
  | clearHistory
  | resetCounts

inductive Answer where
  | evaluated (result : Except EvaluationFailure Binary64)
  | operated (result : Except ArithmeticFailure Binary64)
  | done

end Session

variable {m : Type → Type} [Monad m]

def Calculator.recorded (calculator : Calculator m) : Calculator (StateT Journal m) where
  arithmetic := recording calculator.arithmetic
  settings := calculator.settings

namespace Session

def answer (calculator : Calculator m) : Step → StateT Journal m Answer
  | .evaluate expression => .evaluated <$> (calculator.recorded.evaluateText expression).run
  | .evaluatePostfix tokens =>
      .evaluated <$> (InfixCalculator.evaluatePostfix (recording calculator.arithmetic) tokens).run
  | .operate operation => .operated <$> (recording calculator.arithmetic operation).run
  | .clearHistory => do
      modify Journal.clearHistory
      pure .done
  | .resetCounts => do
      modify Journal.resetCounts
      pure .done

def answers (calculator : Calculator m) (steps : List Step) : StateT Journal m (List Answer) :=
  steps.mapM (answer calculator)

end Session

end InfixCalculator
