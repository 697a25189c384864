import InfixCalculator.Numeric.Comparison
import InfixCalculator.Proofs.Calls
import InfixCalculator.Proofs.Simulation

/-!
One text under two tangent tolerances. Standard arithmetic looks at the tolerance
for tangents only, and a wider one refuses more angles. Two evaluations that differ
in the tolerance therefore go through the same operations with the same answers, up
to the first tangent that only the wider tolerance refuses, and there the latter ends.
-/

namespace InfixCalculator

/-- The evaluation ends where a tangent is refused. -/
def RefusesTangent {Value : Type} (evaluated : Evaluation Id Value) : Prop :=
  ∃ argument, evaluated = throw (.arithmetic (.outsideDomain "tan" argument))

/-- Both evaluations end alike, or the second one ends at a tangent. -/
def tangentsApart : EvaluationRelation Id Id where
  Related first second := first = second ∨ RefusesTangent second
  value _ := .inl rfl
  failure _ := .inl rfl
  sequence {_ _ first second firstNext secondNext} related others := by
    rcases related with rfl | ⟨argument, refused⟩
    · rcases answer_cases first with ⟨value, rfl⟩ | ⟨cause, rfl⟩
      · exact others value
      · exact .inl rfl
    · exact .inr ⟨argument, by rw [refused]; rfl⟩

/-- Of all operations only a tangent can be inside a domain under one tolerance and
outside of it under another, and it leaves the domain under the wider one. -/
theorem leaves_domain_wider {tight loose : Binary64} (ordered : tight ≤ loose)
    (operation : Operation) :
    operation.leavesDomain tight = operation.leavesDomain loose ∨
      operation.leavesDomain loose ∧ ∃ angle, operation = .unary .tangent angle := by
  cases operation with
  | binary operator left right => exact .inl rfl
  | unary function argument =>
      cases function with
      | tangent =>
          by_cases refused : (argument - Operation.nearestAsymptote argument).abs < tight
          · have wider := Binary64.lt_within refused ordered
            exact .inl ((decide_eq_true refused).trans (decide_eq_true wider).symm)
          · by_cases wider : (argument - Operation.nearestAsymptote argument).abs < loose
            · exact .inr ⟨decide_eq_true wider, argument, rfl⟩
            · exact .inl ((decide_eq_false refused).trans (decide_eq_false wider).symm)
      | _ => exact .inl rfl

theorem tangents_apart_perform (elementary : Elementary) {tight loose : Binary64}
    (ordered : tight ≤ loose) (operation : Operation) :
    tangentsApart.Related ((standardArithmetic elementary tight).perform operation)
      ((standardArithmetic elementary loose).perform operation) := by
  rcases leaves_domain_wider ordered operation with same | ⟨outside, angle, rfl⟩
  · refine .inl ?_
    simp only [Arithmetic.perform, standardArithmetic, same]
  · refine .inr ⟨String.ofList (Operation.argumentText (.unary .tangent angle)), ?_⟩
    simp only [Arithmetic.perform, standardArithmetic, outside, Operation.dividesByZero]
    rfl

/-- A tighter tolerance keeps every value. Where the results differ, the looser
tolerance has refused a tangent. -/
theorem evaluate_under_tighter_tolerance (elementary : Elementary) (settings : Settings)
    {tight loose : Binary64} (ordered : tight ≤ loose) (expression : String) :
    (∀ value, (Calculator.checked elementary loose settings).evaluate expression = pure value →
      (Calculator.checked elementary tight settings).evaluate expression = pure value) ∧
      ((Calculator.checked elementary tight settings).evaluate expression ≠
          (Calculator.checked elementary loose settings).evaluate expression →
        ∃ argument, (Calculator.checked elementary loose settings).evaluate expression =
          throw (.arithmetic (.outsideDomain "tan" argument))) := by
  have related := tangentsApart.evaluate_text (tangents_apart_perform elementary ordered) settings
    expression.toList
  rcases related with same | ⟨argument, refused⟩
  · exact ⟨fun value evaluated => same.trans evaluated, fun differ => absurd same differ⟩
  · exact ⟨fun value evaluated => absurd (refused.symm.trans evaluated) (throw_ne_pure _ _),
      fun _ => ⟨argument, refused⟩⟩

/-- The angle one is refused within a distance of two, inside an argument. Without
the tangent the same text has a value under both tolerances. -/
theorem evaluate_under_tighter_tolerance_at_one :
    (0 : Binary64) ≤ 2 ∧
      (Calculator.checked .vanishing 0 .standard).evaluate "abs(tan(1)-3)+1/0" =
        throw (.arithmetic .zeroDivisor) ∧
      (∃ argument, (Calculator.checked .vanishing 2 .standard).evaluate "abs(tan(1)-3)+1/0" =
        throw (.arithmetic (.outsideDomain "tan" argument))) ∧
      (Calculator.checked .vanishing 2 .standard).evaluate "abs(1-3)+1" = pure 3 ∧
      (Calculator.checked .vanishing 0 .standard).evaluate "abs(1-3)+1" = pure 3 := by
  have ordered : (0 : Binary64) ≤ 2 := by decide +kernel
  have divided : (Calculator.checked .vanishing 0 .standard).evaluate "abs(tan(1)-3)+1/0" =
      throw (.arithmetic .zeroDivisor) := by
    change @Eq (Except EvaluationFailure Binary64) _ (.error _)
    decide +kernel
  have differ : (Calculator.checked .vanishing 0 .standard).evaluate "abs(tan(1)-3)+1/0" ≠
      (Calculator.checked .vanishing 2 .standard).evaluate "abs(tan(1)-3)+1/0" := by
    change @Ne (Except EvaluationFailure Binary64) _ _
    decide +kernel
  have valued : (Calculator.checked .vanishing 2 .standard).evaluate "abs(1-3)+1" = pure 3 := by
    change @Eq (Except EvaluationFailure Binary64) _ (.ok 3)
    decide +kernel
  exact ⟨ordered, divided,
    (evaluate_under_tighter_tolerance .vanishing .standard ordered _).2 differ, valued,
    (evaluate_under_tighter_tolerance .vanishing .standard ordered _).1 3 valued⟩

end InfixCalculator
