import InfixCalculator.Proofs.Decomposition
import InfixCalculator.Proofs.Recording

/-!
The pass that replaces the calls of a text, with everything that it asks for. The evaluator of
arguments and the arithmetic may share a state of any kind. Call by call and from left to
right, the argument is evaluated once, as it is written, and its function is asked for once.
The first call that fails ends the pass, and its failure is the result.
-/

namespace InfixCalculator

inductive Request where
  | argument (argument : Text) (answer : Except EvaluationFailure Binary64)
  | operation (operation : Operation) (answer : Except ArithmeticFailure Binary64)

section

variable {m : Type → Type} [Monad m]

def notingArguments (evaluate : Text → Evaluation m Binary64) :
    Text → Evaluation (StateT (List Request) m) Binary64 :=
  fun argument => ExceptT.mk do
    let answer ← StateT.lift (evaluate argument).run
    modify (· ++ [.argument argument answer])
    pure answer

def notingOperations (arithmetic : Arithmetic m) : Arithmetic (StateT (List Request) m) :=
  noting (fun operation answer requests => requests ++ [.operation operation answer]) arithmetic

variable [LawfulMonad m]

theorem noting_arguments_run (evaluate : Text → Evaluation m Binary64) (argument : Text)
    (log : List Request) :
    (notingArguments evaluate argument).run.run log =
      (fun answer => (answer, log ++ [.argument argument answer])) <$> (evaluate argument).run := by
  simp [notingArguments]

theorem noting_arguments_dropped (evaluate : Text → Evaluation m Binary64) (argument : Text) :
    (droppingState (List Request) m).Related (notingArguments evaluate argument)
      (evaluate argument) := by
  intro log
  rw [noting_arguments_run, Functor.map_map]
  exact id_map _

theorem substitute_functions_dropped (arithmetic : Arithmetic m)
    (evaluate : Text → Evaluation m Binary64) (text : Text) :
    (droppingState (List Request) m).Related
      (substituteFunctions (notingOperations arithmetic) (notingArguments evaluate) text)
      (substituteFunctions arithmetic evaluate text) := by
  apply (droppingState (List Request) m).sequence
  · exact (droppingState (List Request) m).lift_text (splitCalls text)
  · intro fragments
    apply (droppingState (List Request) m).splice_calls
    · exact noting_perform_dropped _ arithmetic
    · exact fun _ _ argument _ => noting_arguments_dropped evaluate argument

end

def interleave {Item : Type} (first : List Item) (spans gaps : List (List Item)) : List Item :=
  first ++ (List.zipWith (· ++ ·) spans gaps).flatten

theorem interleave_flat_map {First Second : Type} (write : First → List Second)
    (first : List First) (spans gaps : List (List First)) :
    (interleave first spans gaps).flatMap write =
      interleave (first.flatMap write) (spans.map fun span => span.flatMap write)
        (gaps.map fun gap => gap.flatMap write) := by
  rw [interleave, List.flatMap_append, interleave]
  congr 1
  induction spans generalizing gaps with
  | nil => rfl
  | cons span spans induction =>
      cases gaps with
      | nil => rfl
      | cons gap gaps => simp [induction]

section

variable {State : Type} (arithmetic : Arithmetic (StateM State))
  (evaluate : Text → Evaluation (StateM State) Binary64)

/-- The name of the call is known, its argument has a value, and the function has a result
there. -/
inductive Answers : State → Fragment → Binary64 → List Request → State → Prop where
  | call {before between after : State} {identifier gap argument : Text}
      {function : NamedFunction} {operand value : Binary64}
      (known : NamedFunction.ofName? identifier = some function)
      (evaluated : (evaluate argument).run.run before = (.ok operand, between))
      (applied : (arithmetic (.unary function operand)).run.run between = (.ok value, after)) :
      Answers before (.call identifier gap argument) value
        [.argument argument (.ok operand), .operation (.unary function operand) (.ok value)] after

/-- Nothing is asked for if the name is unknown, and no function if the argument fails. -/
inductive Fails : State → Fragment → EvaluationFailure → List Request → State → Prop where
  | unknown {before : State} {identifier gap argument : Text}
      (unknown : NamedFunction.ofName? identifier = none) :
      Fails before (.call identifier gap argument) (.unknownFunction identifier) [] before
  | argument {before after : State} {identifier gap argument : Text} {function : NamedFunction}
      {cause : EvaluationFailure} (known : NamedFunction.ofName? identifier = some function)
      (failed : (evaluate argument).run.run before = (.error cause, after)) :
      Fails before (.call identifier gap argument) cause [.argument argument (.error cause)] after
  | function {before between after : State} {identifier gap argument : Text}
      {function : NamedFunction} {operand : Binary64} {refusal : ArithmeticFailure}
      (known : NamedFunction.ofName? identifier = some function)
      (evaluated : (evaluate argument).run.run before = (.ok operand, between))
      (refused : (arithmetic (.unary function operand)).run.run between = (.error refusal, after)) :
      Fails before (.call identifier gap argument) (.arithmetic refusal)
        [.argument argument (.ok operand), .operation (.unary function operand) (.error refusal)]
        after

inductive AnswersAll : State → List Fragment → List Binary64 → List Request → State → Prop where
  | nil (state : State) : AnswersAll state [] [] [] state
  | cons {before between after : State} {call : Fragment} {calls : List Fragment} {value : Binary64}
      {values : List Binary64} {own later : List Request}
      (first : Answers arithmetic evaluate before call value own between)
      (others : AnswersAll between calls values later after) :
      AnswersAll before (call :: calls) (value :: values) (own ++ later) after

/-- How the pass over the fragments of a text ends: at the first call that fails, or with the
text in which results stand in the places of all calls. -/
inductive CallsEnd (fragments : List Fragment) (state : State) :
    Except EvaluationFailure Text → List Request → State → Prop where
  | stopped {early late : List Fragment} {call : Fragment} {values : List Binary64}
      {before own : List Request} {between later : State} {cause : EvaluationFailure}
      (calls : fragments.filter Fragment.isCall = early ++ call :: late)
      (answered : AnswersAll arithmetic evaluate state early values before between)
      (fails : Fails arithmetic evaluate between call cause own later) :
      CallsEnd fragments state (.error cause) (before ++ own) later
  | replaced {first : List Fragment} {stretches : List (List Fragment)} {values : List Binary64}
      {requests : List Request} {later : State}
      (placed : fragments =
        interleave first ((fragments.filter Fragment.isCall).map fun call => [call]) stretches)
      (whole : fragments.flatMap Fragment.source = interleave (first.flatMap Fragment.source)
        ((fragments.filter Fragment.isCall).map Fragment.source)
        (stretches.map fun stretch => stretch.flatMap Fragment.source))
      (each : stretches.length = (fragments.filter Fragment.isCall).length)
      (answered : AnswersAll arithmetic evaluate state (fragments.filter Fragment.isCall) values
        requests later) :
      CallsEnd fragments state
        (.ok (interleave (first.flatMap Fragment.source) (values.map splice)
          (stretches.map fun stretch => stretch.flatMap Fragment.source))) requests later

variable {arithmetic evaluate}

theorem CallsEnd.replaced_of_placed {fragments first : List Fragment}
    {stretches : List (List Fragment)} {values : List Binary64} {requests : List Request}
    {state later : State}
    (placed : fragments =
      interleave first ((fragments.filter Fragment.isCall).map fun call => [call]) stretches)
    (each : stretches.length = (fragments.filter Fragment.isCall).length)
    (answered : AnswersAll arithmetic evaluate state (fragments.filter Fragment.isCall) values
      requests later) :
    CallsEnd arithmetic evaluate fragments state
      (.ok (interleave (first.flatMap Fragment.source) (values.map splice)
        (stretches.map fun stretch => stretch.flatMap Fragment.source))) requests later := by
  refine .replaced placed ?_ each answered
  have sources := congrArg (List.flatMap Fragment.source) placed
  rw [interleave_flat_map, List.map_map] at sources
  rw [sources]
  congr 1
  exact List.map_congr_left fun call _ => List.append_nil call.source

def runFrom {Value : Type} (computation : Evaluation (StateT (List Request) (StateM State)) Value)
    (log : List Request) (state : State) :
    (Except EvaluationFailure Value × List Request) × State :=
  (computation.run.run log).run state

section

variable {Before After : Type}
  {computation : Evaluation (StateT (List Request) (StateM State)) Before}
  {next : Before → Evaluation (StateT (List Request) (StateM State)) After}
  {log requests : List Request} {state later : State}

theorem run_from_bind : runFrom (computation >>= next) log state =
    match runFrom computation log state with
    | ((.ok value, requests), later) => runFrom (next value) requests later
    | ((.error cause, requests), later) => ((.error cause, requests), later) := by
  rw [runFrom, ExceptT.run_bind, StateT.run_bind, StateT.run_bind]
  change _ = match (computation.run.run log).run state with
    | ((.ok value, requests), later) => runFrom (next value) requests later
    | ((.error cause, requests), later) => ((.error cause, requests), later)
  rcases (computation.run.run log).run state with ⟨⟨_ | value, requests⟩, later⟩
  · rfl
  · rfl

theorem run_from_bind_ok {value : Before}
    (ran : runFrom computation log state = ((.ok value, requests), later)) :
    runFrom (computation >>= next) log state = runFrom (next value) requests later := by
  rw [run_from_bind, ran]

theorem run_from_bind_error {cause : EvaluationFailure}
    (ran : runFrom computation log state = ((.error cause, requests), later)) :
    runFrom (computation >>= next) log state = ((.error cause, requests), later) := by
  rw [run_from_bind, ran]

end

theorem run_from_argument (argument : Text) (log : List Request) (state : State) :
    runFrom (notingArguments evaluate argument) log state =
      (((((evaluate argument).run.run state).1,
        log ++ [.argument argument ((evaluate argument).run.run state).1])),
        ((evaluate argument).run.run state).2) := by
  rw [runFrom, noting_arguments_run]
  rfl

theorem run_from_operation (operation : Operation) (log : List Request) (state : State) :
    runFrom ((notingOperations arithmetic).perform operation) log state =
      ((((arithmetic operation).run.run state).1.mapError .arithmetic,
        log ++ [.operation operation ((arithmetic operation).run.run state).1]),
        ((arithmetic operation).run.run state).2) := by
  rw [runFrom, notingOperations, noting_perform]
  rfl

/-- A call is answered, or it fails in one of three places. -/
theorem call_value_course (identifier gap argument : Text) (log : List Request) (state : State) :
    (∃ value own after,
        Answers arithmetic evaluate state (.call identifier gap argument) value own after ∧
        runFrom (callValue (notingOperations arithmetic) (notingArguments evaluate) identifier
          argument) log state = ((.ok value, log ++ own), after)) ∨
      ∃ cause own after,
        Fails arithmetic evaluate state (.call identifier gap argument) cause own after ∧
        runFrom (callValue (notingOperations arithmetic) (notingArguments evaluate) identifier
          argument) log state = ((.error cause, log ++ own), after) := by
  cases known : NamedFunction.ofName? identifier with
  | none =>
      refine .inr ⟨_, _, state, .unknown known, ?_⟩
      rw [List.append_nil, callValue]
      apply run_from_bind_error
      rw [resolveFunction, known]
      rfl
  | some function =>
      rw [call_value_known _ _ known]
      have noted := @run_from_argument _ evaluate argument log state
      rcases evaluated : (evaluate argument).run.run state with ⟨_ | operand, between⟩
      all_goals rw [evaluated] at noted
      · exact .inr ⟨_, _, between, .argument known evaluated, run_from_bind_error noted⟩
      · rw [run_from_bind_ok noted, run_from_operation, List.append_assoc]
        rcases applied : (arithmetic (.unary function operand)).run.run between with
          ⟨_ | value, after⟩
        · exact .inr ⟨_, _, after, .function known evaluated applied, rfl⟩
        · exact .inl ⟨value, _, after, .call known evaluated applied, rfl⟩

theorem calls_end_kept {fragment : Fragment} {rest : List Fragment} {state later : State}
    {ending : Except EvaluationFailure Text} {requests : List Request}
    (kept : fragment.isCall = false)
    (ends : CallsEnd arithmetic evaluate rest state ending requests later) :
    CallsEnd arithmetic evaluate (fragment :: rest) state
      (ending.map (fragment.source ++ ·)) requests later := by
  have same : (fragment :: rest).filter Fragment.isCall = rest.filter Fragment.isCall := by
    rw [List.filter_cons, kept]
    rfl
  cases ends with
  | stopped calls answered fails => exact .stopped (same.trans calls) answered fails
  | @replaced first stretches values requests later placed _ each answered =>
      rw [← same] at placed each answered
      have whole : fragment :: rest = interleave (fragment :: first)
          (((fragment :: rest).filter Fragment.isCall).map fun call => [call]) stretches :=
        congrArg (fragment :: ·) placed
      have ends := CallsEnd.replaced_of_placed whole each answered
      rwa [List.flatMap_cons, interleave, List.append_assoc] at ends

theorem calls_end_answered {identifier gap argument : Text} {rest : List Fragment}
    {state between later : State} {value : Binary64} {ending : Except EvaluationFailure Text}
    {own requests : List Request}
    (answered : Answers arithmetic evaluate state (.call identifier gap argument) value own between)
    (ends : CallsEnd arithmetic evaluate rest between ending requests later) :
    CallsEnd arithmetic evaluate (.call identifier gap argument :: rest) state
      (ending.map (splice value ++ ·)) (own ++ requests) later := by
  have one : (Fragment.call identifier gap argument :: rest).filter Fragment.isCall =
      .call identifier gap argument :: rest.filter Fragment.isCall := rfl
  cases ends with
  | stopped calls others fails =>
      rw [← List.append_assoc]
      exact .stopped (one.trans (congrArg _ calls)) (.cons answered others) fails
  | @replaced first stretches values requests later placed _ each others =>
      have whole : Fragment.call identifier gap argument :: rest = interleave []
          (((Fragment.call identifier gap argument :: rest).filter Fragment.isCall).map
            fun call => [call]) (first :: stretches) :=
        congrArg (Fragment.call identifier gap argument :: ·) placed
      have counted : (first :: stretches).length =
          ((Fragment.call identifier gap argument :: rest).filter Fragment.isCall).length :=
        congrArg Nat.succ each
      have ends := CallsEnd.replaced_of_placed whole counted (.cons answered others)
      simpa [interleave, Except.map] using ends

theorem calls_end_failed {identifier gap argument : Text} {rest : List Fragment}
    {state later : State} {cause : EvaluationFailure} {own : List Request}
    (fails : Fails arithmetic evaluate state (.call identifier gap argument) cause own later) :
    CallsEnd arithmetic evaluate (.call identifier gap argument :: rest) state (.error cause) own
      later :=
  .stopped rfl (.nil state) fails

theorem run_from_map {First Second : Type}
    {computation : Evaluation (StateT (List Request) (StateM State)) First}
    (change : First → Second) {ending : Except EvaluationFailure First}
    {log requests : List Request} {state later : State}
    (ran : runFrom computation log state = ((ending, requests), later)) :
    runFrom (do let found ← computation; pure (change found)) log state =
      ((ending.map change, requests), later) := by
  cases ending with
  | error cause => exact run_from_bind_error ran
  | ok found => exact run_from_bind_ok ran

/-- By induction on the fragments. The pass goes on from the state and the log that the first
fragment leaves. -/
theorem splice_calls_course (fragments : List Fragment) (log : List Request) (state : State) :
    ∃ ending requests later,
      runFrom (spliceCalls (notingOperations arithmetic) fragments
          fun _ _ argument _ => notingArguments evaluate argument) log state =
        ((ending, log ++ requests), later) ∧
      CallsEnd arithmetic evaluate fragments state ending requests later := by
  induction fragments generalizing log state with
  | nil =>
      refine ⟨.ok [], [], state, ?_,
        @CallsEnd.replaced_of_placed _ _ _ [] [] [] [] [] state state rfl rfl (.nil state)⟩
      rw [List.append_nil]
      rfl
  | cons fragment rest induction =>
      rw [splice_calls_cons]
      cases fragment with
      | call identifier gap argument =>
          rw [resolvePiece, bind_assoc]
          rcases call_value_course identifier gap argument log state with
            ⟨value, own, between, answered, ran⟩ | ⟨cause, own, later, fails, ran⟩
          · obtain ⟨ending, requests, later, others, ends⟩ := induction (log ++ own) between
            refine ⟨_, own ++ requests, later, ?_, calls_end_answered answered ends⟩
            rw [run_from_bind_ok ran, pure_bind, ← List.append_assoc]
            exact run_from_map (splice value ++ ·) others
          · exact ⟨_, own, later, run_from_bind_error ran, calls_end_failed fails⟩
      | _ =>
          obtain ⟨ending, requests, later, ran, ends⟩ := induction log state
          refine ⟨_, requests, later, ?_, calls_end_kept rfl ends⟩
          simp only [resolvePiece, pure_bind]
          exact run_from_map _ ran

/-- The whole course of the pass, from any state and behind any earlier requests. A text that
cannot be cut asks for nothing. -/
theorem substitute_functions_course (text : Text) (log : List Request) (state : State) :
    ∃ ending requests later,
      ((substituteFunctions (notingOperations arithmetic) (notingArguments evaluate) text).run.run
        log).run state = ((ending, log ++ requests), later) ∧
      (substituteFunctions arithmetic evaluate text).run.run state = (ending, later) ∧
      match splitCalls text with
      | .error cause => ending = .error (.text cause) ∧ requests = [] ∧ later = state
      | .ok fragments => fragments.flatMap Fragment.source = text ∧
          CallsEnd arithmetic evaluate fragments state ending requests later := by
  have plain (ending : Except EvaluationFailure Text) (requests : List Request) (later : State)
      (ran : runFrom (substituteFunctions (notingOperations arithmetic) (notingArguments evaluate)
        text) log state = ((ending, requests), later)) :
      (substituteFunctions arithmetic evaluate text).run.run state = (ending, later) := by
    rw [← substitute_functions_dropped arithmetic evaluate text log]
    exact congrArg (Prod.map Prod.fst id) ran
  cases found : splitCalls text with
  | error cause =>
      have ran : runFrom (substituteFunctions (notingOperations arithmetic)
          (notingArguments evaluate) text) log state = ((.error (.text cause), log), state) := by
        rw [substituteFunctions, found]
        rfl
      refine ⟨.error (.text cause), [], state, ?_, plain _ _ _ ran, rfl, rfl, rfl⟩
      rwa [List.append_nil]
  | ok fragments =>
      obtain ⟨ending, requests, later, ran, ends⟩ :=
        @splice_calls_course _ arithmetic evaluate fragments log state
      have whole : runFrom (substituteFunctions (notingOperations arithmetic)
          (notingArguments evaluate) text) log state = ((ending, log ++ requests), later) := by
        rw [substituteFunctions, found]
        exact ran
      exact ⟨ending, requests, later, whole, plain _ _ _ whole,
        (decomposes_of_split_calls text fragments found).whole, ends⟩

end

end InfixCalculator
