import InfixCalculator.Calculator

/-!
One evaluation over two services of arithmetic, in monads of their own. An
evaluation reaches its arithmetic only by asking for operations, so a relation
that holds between the answers, and that sequences keep, holds between the
evaluations. Both run the same passes over the same text, argument by argument.
-/

namespace InfixCalculator

/-- A relation between evaluations in two monads that sequences keep. Failures of
the arithmetic are left out: an evaluation raises none of its own. -/
structure EvaluationRelation (First Second : Type → Type) [Monad First] [Monad Second] where
  Related : {Value : Type} → Evaluation First Value → Evaluation Second Value → Prop
  value : ∀ {Value : Type} (result : Value), Related (pure result) (pure result)
  failure : ∀ {Value : Type} {cause : EvaluationFailure},
    (∀ refusal, cause ≠ .arithmetic refusal) →
      Related (throw cause : Evaluation First Value) (throw cause)
  sequence : ∀ {Before After : Type} {first : Evaluation First Before}
    {second : Evaluation Second Before} {firstNext : Before → Evaluation First After}
    {secondNext : Before → Evaluation Second After}, Related first second →
      (∀ result, Related (firstNext result) (secondNext result)) →
        Related (first >>= firstNext) (second >>= secondNext)

namespace EvaluationRelation

variable {First Second : Type → Type} [Monad First] [Monad Second]
  (relation : EvaluationRelation First Second)

theorem lift_text {Value : Type} (answer : Except TextFailure Value) :
    relation.Related (liftText answer) (liftText answer) := by
  cases answer with
  | ok result => exact relation.value result
  | error cause => exact relation.failure nofun

theorem resolve_function (identifier : Text) :
    relation.Related (resolveFunction identifier) (resolveFunction identifier) := by
  unfold resolveFunction
  cases NamedFunction.ofName? identifier with
  | some function => exact relation.value function
  | none => exact relation.failure nofun

variable {first : Arithmetic First} {second : Arithmetic Second}
  (answers : ∀ operation, relation.Related (first.perform operation) (second.perform operation))

include answers

theorem splice_calls (fragments : List Fragment)
    {one : (identifier gap argument : Text) → .call identifier gap argument ∈ fragments →
      Evaluation First Binary64}
    {other : (identifier gap argument : Text) → .call identifier gap argument ∈ fragments →
      Evaluation Second Binary64}
    (arguments : ∀ identifier gap argument member,
      relation.Related (one identifier gap argument member)
        (other identifier gap argument member)) :
    relation.Related (spliceCalls first fragments one) (spliceCalls second fragments other) := by
  induction fragments with
  | nil => exact relation.value []
  | cons fragment rest induction =>
      have others := induction fun identifier gap argument member =>
        arguments identifier gap argument (List.mem_cons_of_mem _ member)
      cases fragment with
      | plain source =>
          apply relation.sequence others
          intro resolved
          exact relation.value _
      | name identifier =>
          apply relation.sequence others
          intro resolved
          exact relation.value _
      | call identifier gap argument =>
          apply relation.sequence (relation.resolve_function identifier)
          intro function
          apply relation.sequence (arguments identifier gap argument List.mem_cons_self)
          intro operand
          apply relation.sequence (answers (.unary function operand))
          intro value
          apply relation.sequence others
          intro resolved
          exact relation.value _

theorem run (stack : List Binary64) (tokens : List Token) :
    relation.Related (StackMachine.run first stack tokens)
      (StackMachine.run second stack tokens) := by
  induction tokens generalizing stack with
  | nil =>
      match stack with
      | [] => exact relation.failure nofun
      | [value] => exact relation.value value
      | _ :: _ :: _ => exact relation.failure nofun
  | cons token rest induction =>
      cases token with
      | number value => exact induction (value :: stack)
      | leftParen =>
          simp only [StackMachine.run]
          exact relation.failure nofun
      | rightParen =>
          simp only [StackMachine.run]
          exact relation.failure nofun
      | operator operator =>
          match stack with
          | [] => exact relation.failure nofun
          | [_] => exact relation.failure nofun
          | right :: left :: stack =>
              apply relation.sequence (answers (.binary operator left right))
              intro value
              exact induction (value :: stack)

theorem evaluate_tokens (tokens : List Token) :
    relation.Related (evaluatePostfix first tokens) (evaluatePostfix second tokens) :=
  relation.run answers [] tokens

theorem evaluate_infix (settings : Settings) (text : Text) :
    relation.Related ((Calculator.mk first settings).evaluateInfix text)
      ((Calculator.mk second settings).evaluateInfix text) := by
  apply relation.sequence (relation.lift_text (tokenize text))
  intro tokens
  apply relation.sequence (relation.lift_text (toPostfix settings.powerAssociativity tokens))
  intro arranged
  exact relation.evaluate_tokens answers arranged

theorem evaluate_level (settings : Settings) (text : Text)
    {one : (argument : Text) → identifierCount argument < identifierCount text →
      Evaluation First Binary64}
    {other : (argument : Text) → identifierCount argument < identifierCount text →
      Evaluation Second Binary64}
    (arguments : ∀ argument fewer, relation.Related (one argument fewer) (other argument fewer)) :
    relation.Related ((Calculator.mk first settings).evaluateLevel text one)
      ((Calculator.mk second settings).evaluateLevel text other) := by
  simp only [Calculator.evaluateLevel]
  split
  · exact relation.failure nofun
  · split
    · exact relation.failure nofun
    · apply relation.sequence
      · exact relation.splice_calls answers _ fun _ _ _ _ => arguments _ _
      · intro resolved
        exact relation.evaluate_infix answers settings resolved

/-- Related answers give related evaluations, by induction on the number of
identifiers, which falls from a text to the arguments in it. -/
theorem evaluate_text (settings : Settings) (text : Text) :
    relation.Related ((Calculator.mk first settings).evaluateText text)
      ((Calculator.mk second settings).evaluateText text) := by
  induction count : identifierCount text using Nat.strongRecOn generalizing text with
  | _ size induction =>
      subst count
      rw [Calculator.evaluateText, Calculator.evaluateText]
      apply relation.evaluate_level answers
      intro argument fewer
      exact induction _ fewer argument rfl

end EvaluationRelation

end InfixCalculator
