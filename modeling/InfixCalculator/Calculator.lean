import InfixCalculator.IdentifierCount
import InfixCalculator.Postfix
import InfixCalculator.Scanner
import InfixCalculator.StackMachine

/-!
Evaluation of expression text. Constants are written in place, calls are
replaced by their results with each argument evaluated as an expression of its
own, and what remains is scanned, put in postfix order and run. The first
failure ends the evaluation.
-/

namespace InfixCalculator

structure Calculator (m : Type → Type) where
  arithmetic : Arithmetic m
  settings : Settings

namespace Calculator

def standard (elementary : Elementary) (settings : Settings) : Calculator Id where
  arithmetic := standardArithmetic elementary settings.tangentTolerance
  settings := settings

variable {m : Type → Type} [Monad m]

/-- Evaluates text without names: what is left once calls are resolved. -/
def evaluateInfix (calculator : Calculator m) (text : Text) : Evaluation m Binary64 := do
  let tokens ← liftText (tokenize text)
  let arranged ← liftText (toPostfix calculator.settings.powerAssociativity tokens)
  evaluatePostfix calculator.arithmetic arranged

/-- One level of evaluation. Arguments of calls go to `evaluate`, each with the
fact that it holds fewer identifiers than the text. -/
def evaluateLevel (calculator : Calculator m) (text : Text)
    (evaluate : (argument : Text) → identifierCount argument < identifierCount text →
      Evaluation m Binary64) : Evaluation m Binary64 :=
  match substituted : substituteConstants calculator.settings text with
  | .error cause => throw (.text cause)
  | .ok replaced =>
      match cut : splitCalls replaced with
      | .error cause => throw (.text cause)
      | .ok fragments => do
          let resolved ← spliceCalls calculator.arithmetic fragments
            fun _ _ argument member => evaluate argument <|
              Nat.lt_of_lt_of_le (argument_count_lt member) <|
                (split_calls_count replaced fragments cut).symm ▸
                  substitute_constants_count_le substituted
          calculator.evaluateInfix resolved

def evaluateText (calculator : Calculator m) (text : Text) : Evaluation m Binary64 :=
  calculator.evaluateLevel text fun argument _ => calculator.evaluateText argument
  termination_by identifierCount text

def evaluate (calculator : Calculator m) (expression : String) : Evaluation m Binary64 :=
  calculator.evaluateText expression.toList

theorem evaluate_level_eq [LawfulMonad m] (calculator : Calculator m) (text : Text)
    (evaluate : Text → Evaluation m Binary64) :
    calculator.evaluateLevel text (fun argument _ => evaluate argument) = (do
      let replaced ← liftText (substituteConstants calculator.settings text)
      let resolved ← substituteFunctions calculator.arithmetic evaluate replaced
      calculator.evaluateInfix resolved) := by
  unfold evaluateLevel
  split
  · rename_i cause substituted
    rw [substituted, lift_text_error_bind]
  · rename_i replaced substituted
    conv => rhs; rw [substituted, lift_text_ok_bind, substituteFunctions]
    split
    · rename_i cause cut
      conv => rhs; rw [cut, lift_text_error_bind, throw_evaluation_bind]
    · rename_i fragments cut
      conv => rhs; rw [cut, lift_text_ok_bind]

/-- Evaluation as a sequence of passes over the text. -/
theorem evaluate_text_eq [LawfulMonad m] (calculator : Calculator m) (text : Text) :
    calculator.evaluateText text = (do
      let replaced ← liftText (substituteConstants calculator.settings text)
      let resolved ← substituteFunctions calculator.arithmetic calculator.evaluateText replaced
      calculator.evaluateInfix resolved) := by
  rw [evaluateText]
  exact evaluate_level_eq calculator text calculator.evaluateText

end Calculator

def evaluate (expression : String) : Except EvaluationFailure Binary64 :=
  ((Calculator.standard .native .standard).evaluate expression).run

end InfixCalculator
