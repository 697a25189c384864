import InfixCalculator.Evaluation
import InfixCalculator.Fragment
import InfixCalculator.Settings

/-!
Values written over names and calls. A spliced value stands between blanks, and
in parentheses when it is negative, so it neither joins its neighbours nor loses
its sign when the text is scanned again.
-/

namespace InfixCalculator

def splice (value : Binary64) : Text :=
  if Binary64.isNegative value then
    ' ' :: '(' :: Binary64.display value ++ [')', ' ']
  else ' ' :: Binary64.display value ++ [' ']

/-- Bare names of constants are replaced. Calls keep their text: their arguments
are expressions of their own. -/
def Fragment.withConstants (settings : Settings) (fragment : Fragment) : Text :=
  match fragment with
  | .name identifier => ((settings.constant? identifier).map splice).getD identifier
  | _ => fragment.source

def substituteConstants (settings : Settings) (text : Text) : Except TextFailure Text :=
  (splitCalls text).map fun fragments => fragments.flatMap (Fragment.withConstants settings)

variable {m : Type → Type} [Monad m]

def resolveFunction (identifier : Text) : Evaluation m NamedFunction :=
  match NamedFunction.ofName? identifier with
  | some function => pure function
  | none => throw (.unknownFunction identifier)

/-- Replaces calls from left to right by their results. The evaluator is handed
each argument along with the place that it comes from. -/
def spliceCalls (arithmetic : Arithmetic m) : (fragments : List Fragment) →
    ((identifier gap argument : Text) → .call identifier gap argument ∈ fragments →
      Evaluation m Binary64) → Evaluation m Text
  | [], _ => pure []
  | .call identifier gap argument :: rest, evaluate => do
      let function ← resolveFunction identifier
      let operand ← evaluate identifier gap argument (List.mem_cons_self ..)
      let value ← arithmetic.perform (.unary function operand)
      let others ← spliceCalls arithmetic rest fun identifier gap argument member =>
        evaluate identifier gap argument (List.mem_cons_of_mem _ member)
      pure (splice value ++ others)
  | fragment :: rest, evaluate => do
      let others ← spliceCalls arithmetic rest fun identifier gap argument member =>
        evaluate identifier gap argument (List.mem_cons_of_mem _ member)
      pure (fragment.source ++ others)

def substituteFunctions (arithmetic : Arithmetic m) (evaluate : Text → Evaluation m Binary64)
    (text : Text) : Evaluation m Text := do
  let fragments ← liftText (splitCalls text)
  spliceCalls arithmetic fragments fun _ _ argument _ => evaluate argument

end InfixCalculator
