import InfixCalculator.Token

/-!
Causes of failure, one type for each layer, and the wording of each. An outer
failure that carries an inner one shows the inner wording unchanged.
-/

namespace InfixCalculator

inductive TextFailure where
  | malformedNumber (literal : Text)
  | unclosedGroup
  | unopenedGroup
  | unclosedCall (name : Text)
  deriving DecidableEq, Repr

def TextFailure.message : TextFailure → String
  | .malformedNumber literal => "Parse error: malformed number '" ++ String.ofList literal ++ "'"
  | .unclosedGroup => "Parse error: unmatched '(' in expression"
  | .unopenedGroup => "Parse error: unmatched ')' in expression"
  | .unclosedCall name =>
      "Parse error: call to '" ++ String.ofList name ++ "' is missing its closing ')'"

inductive ArithmeticFailure where
  | zeroDivisor
  | outsideDomain (function argument : String)
  deriving DecidableEq, Repr

def ArithmeticFailure.message : ArithmeticFailure → String
  | .zeroDivisor => "Division by zero"
  | .outsideDomain function argument =>
      "Domain error: " ++ function ++ "(" ++ argument ++ ") has no finite real result"

inductive EvaluationFailure where
  | arithmetic (cause : ArithmeticFailure)
  | text (cause : TextFailure)
  | unknownFunction (name : Text)
  | missingOperand (operator : Operator)
  | danglingOperands (count : Nat)
  | unexpectedToken (token : Token)
  | empty
  deriving DecidableEq

namespace EvaluationFailure

def message : EvaluationFailure → String
  | .arithmetic cause => cause.message
  | .text cause => cause.message
  | .unknownFunction name => "Unknown function: " ++ String.ofList name
  | .missingOperand operator =>
      "Operator '" ++ String.ofList [operator.symbol] ++ "' is missing an operand"
  | .danglingOperands count =>
      "Expression has " ++ String.ofList (Nat.toDigits 10 count) ++
        " values left with no operator between them"
  | .unexpectedToken token =>
      "Unexpected token '" ++ String.ofList token.display ++ "' in postfix sequence"
  | .empty => "Empty expression"

def isZeroDivisor : EvaluationFailure → Bool
  | .arithmetic .zeroDivisor => true
  | _ => false

def isOutsideDomain : EvaluationFailure → Bool
  | .arithmetic (.outsideDomain _ _) => true
  | _ => false

end EvaluationFailure

theorem exists_of_map_ok {Failure First Second : Type} {change : First → Second}
    {answer : Except Failure First} {result : Second} (mapped : answer.map change = .ok result) :
    ∃ value, answer = .ok value ∧ change value = result := by
  cases answer with
  | error cause => contradiction
  | ok value => exact ⟨value, rfl, Except.ok.inj mapped⟩

theorem error_of_map_error {Failure First Second : Type} {change : First → Second}
    {answer : Except Failure First} {cause : Failure} (failed : answer.map change = .error cause) :
    answer = .error cause := by
  cases answer with
  | error other => exact congrArg Except.error (Except.error.inj failed)
  | ok value => contradiction

theorem map_map_answer {Failure First Second Third : Type} (answer : Except Failure First)
    (change : First → Second) (again : Second → Third) :
    (answer.map change).map again = answer.map fun value => again (change value) := by
  cases answer <;> rfl

theorem map_id_answer {Failure Value : Type} (answer : Except Failure Value) :
    (answer.map fun value => value) = answer := by
  cases answer <;> rfl

end InfixCalculator
