import InfixCalculator.Proofs.InfixGrammar
import InfixCalculator.StackMachine

/-!
Runs of the stack machine on parts of a token list. The postorder of a tree puts
the value of the tree on any stack, and so does any list that ends in that value
when it is run alone.
-/

namespace InfixCalculator

variable {m : Type → Type} [Monad m]

def InfixTree.value (arithmetic : Arithmetic m) : InfixTree → Evaluation m Binary64
  | .number value => pure value
  | .binary operator left right => do
      let leftValue ← left.value arithmetic
      let rightValue ← right.value arithmetic
      arithmetic.perform (.binary operator leftValue rightValue)

namespace StackMachine

variable (arithmetic : Arithmetic m)

theorem run_postorder [LawfulMonad m] (tree : InfixTree) (stack : List Binary64)
    (rest : List Token) :
    run arithmetic stack (tree.postorder ++ rest) = (do
      let value ← tree.value arithmetic
      run arithmetic (value :: stack) rest) := by
  induction tree generalizing stack rest with
  | number value =>
      rw [InfixTree.value, pure_bind]
      rfl
  | binary operator left right leftInduction rightInduction =>
      simp only [InfixTree.postorder, InfixTree.value, List.append_assoc, bind_assoc]
      rw [leftInduction]
      congr 1
      funext leftValue
      rw [rightInduction]
      rfl

theorem run_congr {first second : List Token}
    (alike : ∀ stack, run arithmetic stack first = run arithmetic stack second)
    (front : List Token) (stack : List Binary64) :
    run arithmetic stack (front ++ first) = run arithmetic stack (front ++ second) := by
  induction front generalizing stack with
  | nil => exact alike stack
  | cons token front induction =>
      cases token with
      | number value => exact induction (value :: stack)
      | leftParen => rfl
      | rightParen => rfl
      | operator operator =>
          match stack with
          | [] => rfl
          | [_] => rfl
          | right :: left :: stack =>
              simp only [List.cons_append, run]
              congr 1
              funext value
              exact induction (value :: stack)

end StackMachine

theorem evaluate_postfix_postorder [LawfulMonad m] (arithmetic : Arithmetic m)
    (tree : InfixTree) : evaluatePostfix arithmetic tree.postorder = tree.value arithmetic := by
  have whole := StackMachine.run_postorder arithmetic tree [] []
  rw [List.append_nil] at whole
  rw [evaluatePostfix, whole]
  exact bind_pure _

namespace StackMachine

variable {arithmetic : Arithmetic Id} {stack own : List Binary64} {tokens : List Token}
  {value : Binary64}

theorem result_eq_pure (ended : (result stack : Evaluation Id Binary64) = pure value) :
    stack = [value] := by
  rcases stack with _ | ⟨only, _ | _⟩
  · exact absurd ended (throw_ne_pure _ _)
  · rw [pure_answer_inj ended]
  · exact absurd ended (throw_ne_pure _ _)

/-- All that the first token can do in a run that ends in a value. -/
theorem run_cons_eq_pure {token : Token}
    (finished : run arithmetic stack (token :: tokens) = pure value) :
    (∃ pushed, token = .number pushed ∧
        run arithmetic (pushed :: stack) tokens = pure value) ∨
      ∃ operator left right others result, token = .operator operator ∧
        stack = right :: left :: others ∧
        arithmetic.perform (.binary operator left right) = pure result ∧
        run arithmetic (result :: others) tokens = pure value := by
  cases token with
  | number pushed => exact .inl ⟨pushed, rfl, finished⟩
  | leftParen =>
      simp only [run] at finished
      exact absurd finished (throw_ne_pure _ _)
  | rightParen =>
      simp only [run] at finished
      exact absurd finished (throw_ne_pure _ _)
  | operator operator =>
      rcases stack with _ | ⟨right, _ | ⟨left, others⟩⟩
      · exact absurd finished (throw_ne_pure _ _)
      · exact absurd finished (throw_ne_pure _ _)
      · obtain ⟨result, performed, later⟩ := exists_of_bind_pure finished
        exact .inr ⟨operator, left, right, others, result, rfl, rfl, performed, later⟩

theorem run_alone (alone : run arithmetic own tokens = pure value) (stack : List Binary64)
    (rest : List Token) :
    run arithmetic (own ++ stack) (tokens ++ rest) = run arithmetic (value :: stack) rest := by
  induction tokens generalizing own with
  | nil =>
      rw [result_eq_pure alone]
      rfl
  | cons token tokens induction =>
      rcases run_cons_eq_pure alone with ⟨pushed, rfl, later⟩ |
        ⟨operator, left, right, others, result, rfl, rfl, performed, later⟩
      · exact induction later
      · simp only [List.cons_append, run]
        rw [performed, pure_bind]
        exact induction later

end StackMachine

end InfixCalculator
