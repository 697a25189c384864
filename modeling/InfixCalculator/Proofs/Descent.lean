import InfixCalculator.Proofs.Recording

/-!
How often evaluation descends into arguments. Each descent is noted together with
the text that it comes from. Identifiers are what descents use up: an argument holds
fewer of them than the text around its call, and constants add none, whatever their
values are. So a text is evaluated in at most as many descents as it has identifiers.
-/

namespace InfixCalculator

def identifiers : Text → List Text
  | [] => []
  | symbol :: rest =>
      if isIdentifierStart symbol then
        (symbol :: rest.takeWhile isIdentifierContinue) ::
          identifiers (rest.dropWhile isIdentifierContinue)
      else identifiers rest
  termination_by text => text.length
  decreasing_by
    · exact Nat.lt_succ_of_le (List.dropWhile_suffix _).length_le
    · exact Nat.lt_succ_self _

theorem identifiers_length (text : Text) : (identifiers text).length = identifierCount text := by
  rw [identifierCount]
  fun_induction identifiers text with
  | case1 => rfl
  | case2 symbol rest start induction =>
      have whole : ∀ other ∈ rest.takeWhile isIdentifierContinue, isIdentifierContinue other :=
        fun _ member => mem_take_while member
      have named := @count_name symbol _ (rest.dropWhile isIdentifierContinue) start whole
      rw [List.cons_append, List.takeWhile_append_dropWhile,
        count_inside (starts_outside_drop rest)] at named
      rw [named, List.length_cons, induction]
  | case3 symbol rest other induction =>
      rw [induction]
      simp [countIdentifiers, other]

structure Descent where
  caller : Text
  argument : Text
  deriving DecidableEq

def Descent.losesIdentifiers (descent : Descent) : Prop :=
  (identifiers descent.argument).length < (identifiers descent.caller).length

namespace Calculator

variable {m : Type → Type} [Monad m]

/-- The same calculator beside a list of descents that its arithmetic leaves alone. -/
def traced (calculator : Calculator m) : Calculator (StateT (List Descent) m) where
  arithmetic := noting (fun _ _ descents => descents) calculator.arithmetic
  settings := calculator.settings

def evaluateTracing (calculator : Calculator (StateT (List Descent) m)) (text : Text) :
    Evaluation (StateT (List Descent) m) Binary64 :=
  calculator.evaluateLevel text fun argument _ => do
    modify (· ++ [⟨text, argument⟩])
    calculator.evaluateTracing argument
  termination_by identifierCount text

theorem modify_run [LawfulMonad m] (change : List Descent → List Descent)
    (descents : List Descent) :
    (modify change : Evaluation (StateT (List Descent) m) PUnit).run.run descents =
      pure (.ok ⟨⟩, change descents) := by
  change (Except.ok <$> (modify change : StateT (List Descent) m PUnit)).run descents = _
  simp

theorem evaluate_tracing_dropped [LawfulMonad m] (calculator : Calculator m) (text : Text) :
    (droppingState (List Descent) m).Related (calculator.traced.evaluateTracing text)
      (calculator.evaluateText text) := by
  have performed := @noting_perform_dropped m _ (List Descent) _ (fun _ _ descents => descents)
    calculator.arithmetic
  induction count : identifierCount text using Nat.strongRecOn generalizing text with
  | _ size induction =>
      subst count
      rw [evaluateTracing, evaluateText]
      apply (droppingState (List Descent) m).evaluate_level performed calculator.settings
      intro argument fewer descents
      rw [ExceptT.run_bind, StateT.run_bind, modify_run, pure_bind]
      exact induction _ fewer argument rfl _

end Calculator

section

variable {State Value Before After : Type}

/-- From any state of the service, the evaluation notes at most so many descents, and
each of them loses identifiers. -/
def DescendsWithin (budget : Nat)
    (evaluated : Evaluation (StateT (List Descent) (StateM State)) Value) : Prop :=
  ∀ descents state, ∃ answer added later,
    (evaluated.run.run descents).run state = ((answer, descents ++ added), later) ∧
      added.length ≤ budget ∧ ∀ descent ∈ added, descent.losesIdentifiers

theorem descends_without {evaluated : Evaluation (StateT (List Descent) (StateM State)) Value}
    (still : ∀ descents state, ∃ answer later,
      (evaluated.run.run descents).run state = ((answer, descents), later)) :
    DescendsWithin 0 evaluated := by
  intro descents state
  obtain ⟨answer, later, ran⟩ := still descents state
  exact ⟨answer, [], later, by rw [List.append_nil]; exact ran, Nat.le_refl 0, nofun⟩

theorem descends_value (value : Value) :
    DescendsWithin 0 (pure value : Evaluation (StateT (List Descent) (StateM State)) Value) :=
  descends_without fun _ state => ⟨.ok value, state, rfl⟩

theorem descends_failure (cause : EvaluationFailure) :
    DescendsWithin 0 (throw cause : Evaluation (StateT (List Descent) (StateM State)) Value) :=
  descends_without fun _ state => ⟨.error cause, state, rfl⟩

theorem descends_sequence {budget more : Nat}
    {first : Evaluation (StateT (List Descent) (StateM State)) Before}
    {next : Before → Evaluation (StateT (List Descent) (StateM State)) After}
    (earlier : DescendsWithin budget first) (others : ∀ value, DescendsWithin more (next value)) :
    DescendsWithin (budget + more) (first >>= next) := by
  intro descents state
  obtain ⟨answer, added, later, ran, within, losing⟩ := earlier descents state
  cases answer with
  | error cause =>
      refine ⟨.error cause, added, later, ?_, by omega, losing⟩
      rw [ExceptT.run_bind, StateT.run_bind, StateT.run_bind, ran]
      rfl
  | ok value =>
      obtain ⟨result, behind, last, ranNext, withinNext, losingNext⟩ :=
        others value (descents ++ added) later
      refine ⟨result, added ++ behind, last, ?_, ?_, ?_⟩
      · rw [ExceptT.run_bind, StateT.run_bind, StateT.run_bind, ran, ← List.append_assoc]
        exact ranNext
      · rw [List.length_append]
        omega
      · intro descent member
        exact (List.mem_append.1 member).elim (losing descent) (losingNext descent)

theorem descends_more {budget more : Nat} (wider : budget ≤ more)
    {evaluated : Evaluation (StateT (List Descent) (StateM State)) Value}
    (descends : DescendsWithin budget evaluated) : DescendsWithin more evaluated := by
  intro descents state
  obtain ⟨answer, added, later, ran, within, losing⟩ := descends descents state
  exact ⟨answer, added, later, ran, within.trans wider, losing⟩

def withoutDescent (State : Type) : EvaluationRelation (StateT (List Descent) (StateM State))
    (StateT (List Descent) (StateM State)) where
  Related evaluated _ := DescendsWithin 0 evaluated
  value := descends_value
  failure _ := descends_failure _
  sequence := descends_sequence

theorem traced_perform_descends (calculator : Calculator (StateM State)) (operation : Operation) :
    DescendsWithin 0 (calculator.traced.arithmetic.perform operation) := by
  apply descends_without
  intro descents state
  let outcome := (calculator.arithmetic operation).run.run state
  refine ⟨outcome.1.mapError .arithmetic, outcome.2, ?_⟩
  rw [Calculator.traced, noting_perform]
  rfl

/-- Each call costs the descent into its argument and what the argument costs. -/
theorem splice_calls_descends {arithmetic : Arithmetic (StateT (List Descent) (StateM State))}
    (performs : ∀ operation, DescendsWithin 0 (arithmetic.perform operation))
    (fragments : List Fragment)
    {evaluate : (identifier gap argument : Text) → .call identifier gap argument ∈ fragments →
      Evaluation (StateT (List Descent) (StateM State)) Binary64}
    (arguments : ∀ identifier gap argument member,
      DescendsWithin (identifierCount argument + 1) (evaluate identifier gap argument member)) :
    DescendsWithin (fragmentsIdentifierCount fragments)
      (spliceCalls arithmetic fragments evaluate) := by
  induction fragments with
  | nil => exact descends_value []
  | cons fragment rest induction =>
      have others := induction fun identifier gap argument member =>
        arguments identifier gap argument (List.mem_cons_of_mem _ member)
      rw [fragmentsIdentifierCount]
      cases fragment with
      | plain source =>
          apply descends_more _ (descends_sequence others fun resolved => descends_value _)
          exact Nat.le_add_left ..
      | name identifier =>
          apply descends_more _ (descends_sequence others fun resolved => descends_value _)
          exact Nat.le_add_left ..
      | call identifier gap argument =>
          have inner := arguments identifier gap argument List.mem_cons_self
          have behind (value : Binary64) := descends_sequence others fun resolved =>
            descends_value (splice value ++ resolved)
          have performed (function : NamedFunction) (operand : Binary64) :=
            descends_sequence (performs (.unary function operand)) behind
          have known := (withoutDescent State).resolve_function identifier
          have whole := descends_sequence known fun function =>
            descends_sequence inner (performed function)
          apply descends_more _ whole
          simp only [Fragment.identifierCount]
          omega

/-- One level costs no more than the text has identifiers, with constants in place
or without. -/
theorem evaluate_level_descends (calculator : Calculator (StateM State)) (text : Text)
    {evaluate : (argument : Text) → identifierCount argument < identifierCount text →
      Evaluation (StateT (List Descent) (StateM State)) Binary64}
    (arguments : ∀ argument fewer,
      DescendsWithin (identifierCount argument + 1) (evaluate argument fewer)) :
    DescendsWithin (identifierCount text) (calculator.traced.evaluateLevel text evaluate) := by
  have performs := traced_perform_descends calculator
  simp only [Calculator.evaluateLevel]
  split
  · exact descends_more (Nat.zero_le _) (descends_failure _)
  · rename_i replaced substituted
    split
    · exact descends_more (Nat.zero_le _) (descends_failure _)
    · rename_i fragments cut
      have within : fragmentsIdentifierCount fragments + 0 ≤ identifierCount text := by
        rw [Nat.add_zero, split_calls_count replaced fragments cut]
        exact substitute_constants_count_le substituted
      apply descends_more within
      apply descends_sequence
      · exact splice_calls_descends performs fragments fun _ _ argument _ => arguments argument _
      · intro resolved
        exact @EvaluationRelation.evaluate_infix _ _ _ _ (withoutDescent State) _
          calculator.traced.arithmetic performs calculator.settings resolved

theorem evaluate_tracing_descends (calculator : Calculator (StateM State)) (text : Text) :
    DescendsWithin (identifierCount text) (calculator.traced.evaluateTracing text) := by
  induction count : identifierCount text using Nat.strongRecOn generalizing text with
  | _ size induction =>
      subst count
      rw [Calculator.evaluateTracing]
      apply evaluate_level_descends
      intro argument fewer descents state
      obtain ⟨answer, added, later, ran, within, losing⟩ :=
        induction _ fewer argument rfl (descents ++ [⟨text, argument⟩]) state
      refine ⟨answer, ⟨text, argument⟩ :: added, later, ?_, Nat.succ_le_succ within, ?_⟩
      · rw [ExceptT.run_bind, StateT.run_bind, Calculator.modify_run, pure_bind, ran]
        simp
      · apply List.forall_mem_cons.2 ⟨_, losing⟩
        rw [Descent.losesIdentifiers, identifiers_length, identifiers_length]
        exact fewer

/-- Evaluation with its descents noted ends as evaluation does, whatever the service
is and whatever the constants are. Every descent loses identifiers, and with the text
itself there are at most as many evaluations as one and its identifiers. -/
theorem evaluation_descends (calculator : Calculator (StateM State)) (text : Text)
    (state : State) :
    ∃ result descents later,
      ((calculator.traced.evaluateTracing text).run.run []).run state =
          ((result, descents), later) ∧
        (calculator.evaluateText text).run.run state = (result, later) ∧
        (∀ descent ∈ descents,
          (identifiers descent.argument).length < (identifiers descent.caller).length) ∧
        1 + descents.length ≤ 1 + (identifiers text).length := by
  obtain ⟨result, descents, later, ran, within, losing⟩ :=
    evaluate_tracing_descends calculator text [] state
  refine ⟨result, descents, later, ran, ?_, losing, ?_⟩
  · rw [← calculator.evaluate_tracing_dropped text [], StateT.run_map, ran]
    rfl
  · rw [identifiers_length]
    omega

end

/-- A negative NaN makes a call of the name in front of it, and its word is a name of its
own. -/
example :
    ((Calculator.traced (m := Id) ⟨uncheckedArithmetic .vanishing,
        { Settings.standard with pi := Binary64.notANumber true }⟩).evaluateTracing
          "abs(abs pi)".toList |>.run.run []).run =
      (.error .empty,
        [⟨"abs(abs pi)".toList, "abs pi".toList⟩, ⟨"abs pi".toList, "NaN".toList⟩]) := by
  decide +kernel

end InfixCalculator
