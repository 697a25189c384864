import InfixCalculator.Arithmetic

/-!
Evaluations: computations in the monad of the arithmetic that may fail. A failure
ends the evaluation, and effects that came before it are kept.
-/

namespace InfixCalculator

abbrev Evaluation (m : Type → Type) := ExceptT EvaluationFailure m

variable {m : Type → Type} [Monad m]

def Arithmetic.perform (arithmetic : Arithmetic m) (operation : Operation) :
    Evaluation m Binary64 :=
  ExceptT.adapt .arithmetic (arithmetic operation)

def liftText {Value : Type} : Except TextFailure Value → Evaluation m Value
  | .ok value => pure value
  | .error cause => throw (.text cause)

theorem throw_evaluation_bind [LawfulMonad m] {First Second : Type} (cause : EvaluationFailure)
    (next : First → Evaluation m Second) : (throw cause >>= next) = throw cause := by
  apply ExceptT.ext
  simp

theorem lift_text_ok_bind [LawfulMonad m] {First Second : Type} (value : First)
    (next : First → Evaluation m Second) : (liftText (.ok value) >>= next) = next value :=
  pure_bind value next

theorem lift_text_error_bind [LawfulMonad m] {First Second : Type} (cause : TextFailure)
    (next : First → Evaluation m Second) :
    (liftText (.error cause) >>= next) = throw (.text cause) :=
  throw_evaluation_bind (.text cause) next

section

variable {Failure Value : Type}

theorem answer_cases (answer : ExceptT Failure Id Value) :
    (∃ value, answer = pure value) ∨ ∃ cause, answer = throw cause :=
  match answer with
  | .ok value => .inl ⟨value, rfl⟩
  | .error cause => .inr ⟨cause, rfl⟩

theorem throw_ne_pure (cause : Failure) (value : Value) :
    (throw cause : ExceptT Failure Id Value) ≠ pure value := by
  intro same
  have results : Except.error cause = Except.ok value := same
  contradiction

theorem pure_answer_inj {first second : Value}
    (same : (pure first : ExceptT Failure Id Value) = pure second) : first = second :=
  Except.ok.inj same

theorem exists_of_bind_pure {First Second : Type} {first : ExceptT Failure Id First}
    {next : First → ExceptT Failure Id Second} {result : Second}
    (finished : (first >>= next) = pure result) :
    ∃ value, first = pure value ∧ next value = pure result := by
  rcases answer_cases first with ⟨value, rfl⟩ | ⟨cause, rfl⟩
  · exact ⟨value, rfl, finished⟩
  · exact absurd finished (throw_ne_pure cause result)

end

theorem lift_text_eq_pure {Value : Type} {answer : Except TextFailure Value} {value : Value}
    (lifted : (liftText answer : Evaluation Id Value) = pure value) : answer = .ok value := by
  cases answer with
  | error cause => exact absurd lifted (throw_ne_pure _ _)
  | ok found => exact congrArg Except.ok (pure_answer_inj lifted)

end InfixCalculator
