import InfixCalculator.Session
import InfixCalculator.Proofs.Calls
import InfixCalculator.Proofs.Simulation

/-!
What an arithmetic answers while its calls are noted in a state. Notes are taken
behind every answer and are never looked at, so evaluations and whole sessions
answer as they do on the arithmetic itself, whatever was noted before. A coarser
state that is a view of a finer one stays its view.
-/

namespace InfixCalculator

variable {m : Type → Type} [Monad m] {State Detail : Type}

def Operation.record (operation : Operation) (outcome : Outcome) : Record :=
  ⟨operation.name, operation.operands, outcome⟩

/-- The same arithmetic, with every call noted in a state. -/
def noting (note : Operation → Except ArithmeticFailure Binary64 → State → State)
    (arithmetic : Arithmetic m) : Arithmetic (StateT State m) :=
  fun operation => ExceptT.mk do
    let answer ← StateT.lift (arithmetic operation).run
    modify (note operation answer)
    pure answer

theorem recording_eq_noting (arithmetic : Arithmetic m) :
    recording arithmetic = noting Journal.note arithmetic := rfl

section

variable [LawfulMonad m]

theorem noting_run (note : Operation → Except ArithmeticFailure Binary64 → State → State)
    (arithmetic : Arithmetic m) (operation : Operation) (state : State) :
    (noting note arithmetic operation).run.run state =
      (fun answer => (answer, note operation answer state)) <$> (arithmetic operation).run := by
  simp [noting]

theorem noting_perform (note : Operation → Except ArithmeticFailure Binary64 → State → State)
    (arithmetic : Arithmetic m) (operation : Operation) (state : State) :
    ((noting note arithmetic).perform operation).run.run state =
      (fun answer => (answer.mapError .arithmetic, note operation answer state)) <$>
        (arithmetic operation).run := by
  have adapted : ((noting note arithmetic).perform operation).run =
      Except.mapError .arithmetic <$> (noting note arithmetic operation).run := rfl
  rw [adapted, StateT.run_map, noting_run, Functor.map_map]

/-- The same answers from any state, once the state is dropped. -/
def droppingState (State : Type) (m : Type → Type) [Monad m] [LawfulMonad m] :
    EvaluationRelation (StateT State m) m where
  Related noted plain := ∀ state, Prod.fst <$> noted.run.run state = plain.run
  value result state := by
    simp
  failure _ state := by
    simp
  sequence related others state := by
    rw [ExceptT.run_bind, ExceptT.run_bind, ← related state, StateT.run_bind, map_bind,
      bind_map_left]
    apply bind_congr
    intro outcome
    rcases outcome with ⟨answer, later⟩
    cases answer with
    | ok result => exact others result later
    | error cause => simp

theorem noting_perform_dropped
    (note : Operation → Except ArithmeticFailure Binary64 → State → State)
    (arithmetic : Arithmetic m) (operation : Operation) :
    (droppingState State m).Related ((noting note arithmetic).perform operation)
      (arithmetic.perform operation) := by
  intro state
  rw [noting_perform, Functor.map_map]
  rfl

end

namespace Session

deriving instance DecidableEq for Answer

/-- A step on a calculator whose arithmetic keeps a history and counts in a way of
its own, which two actions clear. -/
def answerWith (calculator : Calculator m) (clearHistory resetCounts : m PUnit) :
    Step → m Answer
  | .evaluate expression => .evaluated <$> (calculator.evaluateText expression).run
  | .evaluatePostfix tokens =>
      .evaluated <$> (InfixCalculator.evaluatePostfix calculator.arithmetic tokens).run
  | .operate operation => .operated <$> (calculator.arithmetic operation).run
  | .clearHistory => (fun _ => .done) <$> clearHistory
  | .resetCounts => (fun _ => .done) <$> resetCounts

/-- What a step answers on the calculator itself, where nothing is recorded and
there is nothing to clear. -/
def directAnswer (calculator : Calculator m) (step : Step) : m Answer :=
  answerWith calculator (pure ()) (pure ()) step

variable [LawfulMonad m]

theorem map_dropped {Value : Type} (wrap : Value → Answer) {noted : StateT Journal m Value}
    {plain : m Value} {journal : Journal} (dropped : Prod.fst <$> noted.run journal = plain) :
    Prod.fst <$> (wrap <$> noted).run journal = wrap <$> plain := by
  rw [← dropped, StateT.run_map, Functor.map_map, Functor.map_map]

theorem answer_dropped (calculator : Calculator m) (step : Step) (journal : Journal) :
    Prod.fst <$> (answer calculator step).run journal = directAnswer calculator step := by
  have performed := noting_perform_dropped Journal.note calculator.arithmetic
  cases step with
  | evaluate expression =>
      exact map_dropped Answer.evaluated <|
        (droppingState Journal m).evaluate_text performed calculator.settings expression journal
  | evaluatePostfix tokens =>
      exact map_dropped Answer.evaluated <|
        (droppingState Journal m).evaluate_tokens performed tokens journal
  | operate operation =>
      apply map_dropped Answer.operated
      rw [recording_eq_noting, noting_run, Functor.map_map]
      exact id_map _
  | clearHistory => simp [answer, directAnswer, answerWith]
  | resetCounts => simp [answer, directAnswer, answerWith]

theorem answers_dropped (calculator : Calculator m) (steps : List Step) (journal : Journal) :
    Prod.fst <$> (answers calculator steps).run journal = steps.mapM (directAnswer calculator) := by
  induction steps generalizing journal with
  | nil => simp [answers]
  | cons step steps induction =>
      rw [List.mapM_cons, ← answer_dropped calculator step journal, bind_map_left]
      simp only [answers, List.mapM_cons, StateT.run_bind, map_bind]
      apply bind_congr
      intro outcome
      rw [← induction outcome.2]
      simp [answers]

/-- Recording is not seen in the answers of a session. With effects of its own,
the arithmetic goes through the session as it does without the recording. An
arithmetic without effects gives each step the answer that the step has alone. -/
theorem session_answers_direct (calculator : Calculator m) (steps : List Step)
    (journal : Journal) :
    Prod.fst <$> (answers calculator steps).run journal = steps.mapM (directAnswer calculator) ∧
      ∀ stateless : Calculator Id, ((answers stateless steps).run journal).run.1 =
        steps.map fun step => (directAnswer stateless step).run := by
  constructor
  · exact answers_dropped calculator steps journal
  · intro stateless
    exact (answers_dropped stateless steps journal).trans List.mapM_pure

/-- Five steps on an arithmetic that counts its calls, and on the same arithmetic
without the count. A division fails, and the steps behind it are not affected. -/
theorem session_answers_direct_counted :
    (Prod.fst <$> (answers ⟨noting (fun _ _ count => count + 1) (uncheckedArithmetic .vanishing),
        .standard⟩ [.evaluate "abs(1-4)*2".toList, .evaluate "1/0".toList, .clearHistory,
          .operate (.binary .add 2 3), .resetCounts]).run Journal.empty : StateM Nat _).run 0 =
        ([.evaluated (.ok 6), .evaluated (.error (.arithmetic .zeroDivisor)), .done,
          .operated (.ok 5), .done], 5) ∧
      ((answers ⟨uncheckedArithmetic .vanishing, .standard⟩ [.evaluate "abs(1-4)*2".toList,
          .evaluate "1/0".toList, .clearHistory, .operate (.binary .add 2 3),
          .resetCounts]).run Journal.empty).run.1 =
        [.evaluated (.ok 6), .evaluated (.error (.arithmetic .zeroDivisor)), .done,
          .operated (.ok 5), .done] := by
  constructor
  · rw [(session_answers_direct _ _ _).1]
    change @Eq (List Answer × Nat) _ _
    decide +kernel
  · rw [(@session_answers_direct Id _ _ ⟨uncheckedArithmetic .vanishing, .standard⟩ _ _).2]
    decide +kernel

end Session

end InfixCalculator
