import InfixCalculator.Proofs.Conservation
import InfixCalculator.Proofs.Recording
import InfixCalculator.Proofs.Replacement

/-!
What one evaluation adds to a journal. The records are the same whatever the
journal held before: successes, then the failure of the arithmetic that ended the
evaluation, if one did. An evaluation that ends in a value and has asked for
operations was answered that value last, whether an operator or a call came last.
-/

namespace InfixCalculator

open Scanner

/-- From any journal the evaluation ends in the result and adds the records. -/
def Adds {Value : Type} (evaluated : Evaluation (StateT Journal Id) Value)
    (result : Except EvaluationFailure Value) (added : List Record) : Prop :=
  ∀ journal, ∃ counts,
    (evaluated.run.run journal).run = (result, ⟨journal.history ++ added, counts⟩)

section

variable {Before After : Type} {first : Evaluation (StateT Journal Id) Before}
  {next : Before → Evaluation (StateT Journal Id) After} {early later : List Record}

theorem adds_value (value : Before) : Adds (pure value) (.ok value) [] := by
  intro journal
  exact ⟨journal.counts, by rw [List.append_nil]; rfl⟩

theorem adds_failure (cause : EvaluationFailure) :
    Adds (throw cause : Evaluation _ Before) (.error cause) [] := by
  intro journal
  exact ⟨journal.counts, by rw [List.append_nil]; rfl⟩

theorem adds_sequence {value : Before} {result : Except EvaluationFailure After}
    (earlier : Adds first (.ok value) early) (others : Adds (next value) result later) :
    Adds (first >>= next) result (early ++ later) := by
  intro journal
  obtain ⟨counts, firstRun⟩ := earlier journal
  obtain ⟨behind, nextRun⟩ := others ⟨journal.history ++ early, counts⟩
  refine ⟨behind, ?_⟩
  rw [ExceptT.run_bind, StateT.run_bind, Id.run_bind, firstRun, ← List.append_assoc]
  exact nextRun

theorem adds_map {value : Before} (change : Before → After) (adds : Adds first (.ok value) early) :
    Adds (do let result ← first; pure (change result)) (.ok (change value)) early := by
  rw [← List.append_nil early]
  exact adds_sequence adds (adds_value (change value))

theorem adds_stopped {cause : EvaluationFailure} (stopped : Adds first (.error cause) early) :
    Adds (first >>= next) (.error cause) early := by
  intro journal
  obtain ⟨counts, firstRun⟩ := stopped journal
  refine ⟨counts, ?_⟩
  rw [ExceptT.run_bind, StateT.run_bind, Id.run_bind, firstRun]
  rfl

theorem adds_unique {result other : Except EvaluationFailure Before}
    (one : Adds first result early) (again : Adds first other later) :
    result = other ∧ early = later := by
  obtain ⟨counts, ran⟩ := one .empty
  obtain ⟨others, ranAgain⟩ := again .empty
  rw [ran] at ranAgain
  exact ⟨congrArg Prod.fst ranAgain, congrArg (fun outcome => outcome.2.history) ranAgain⟩

end

theorem adds_perform (arithmetic : Arithmetic Id) (operation : Operation) :
    Adds ((recording arithmetic).perform operation) (arithmetic.perform operation).run
      [operation.record (.ofAnswer (arithmetic operation).run)] := by
  intro journal
  rw [recording_eq_noting, noting_perform]
  exact ⟨_, rfl⟩

theorem answered_of_performed {arithmetic : Arithmetic Id} {operation : Operation}
    {value : Binary64}
    (performed : arithmetic.perform operation = pure value) :
    arithmetic operation = pure value := by
  rcases answer_cases (arithmetic operation) with ⟨result, answered⟩ | ⟨cause, failed⟩
  · rw [answered, pure_answer_inj ((perform_eq_pure answered).symm.trans performed)]
  · rw [Arithmetic.perform, failed] at performed
    exact absurd performed (throw_ne_pure _ _)

theorem adds_performed {arithmetic : Arithmetic Id} {operation : Operation} {value : Binary64}
    (performed : arithmetic.perform operation = pure value) :
    Adds ((recording arithmetic).perform operation) (.ok value)
      [operation.record (.value value)] := by
  have adds := adds_perform arithmetic operation
  rw [performed, answered_of_performed performed] at adds
  exact adds

def Outcome.isValue : Outcome → Bool
  | .value _ => true
  | .refusal _ => false

def EvaluationFailure.refusals : EvaluationFailure → List Outcome
  | .arithmetic cause => [.refusal cause.message]
  | _ => []

def refusals {Value : Type} : Except EvaluationFailure Value → List Outcome
  | .ok _ => []
  | .error cause => cause.refusals

/-- Successes, then what the result stands for. -/
def Settles {Value : Type} (result : Except EvaluationFailure Value) (added : List Record) :
    Prop :=
  ∃ successes failures, added = successes ++ failures ∧
    (∀ record ∈ successes, record.outcome.isValue) ∧
    failures.map Record.outcome = refusals result

section

variable {Value : Type}

theorem settles_successes {result : Except EvaluationFailure Value} {added : List Record}
    (unrefused : refusals result = []) (successes : ∀ record ∈ added, record.outcome.isValue) :
    Settles result added :=
  ⟨added, [], (List.append_nil added).symm, successes, unrefused.symm⟩

theorem successes_of_value {value : Value} {added : List Record}
    (settled : Settles (.ok value) added) : ∀ record ∈ added, record.outcome.isValue := by
  rcases settled with ⟨successes, failures, rfl, valued, refused⟩
  obtain rfl := List.map_eq_nil_iff.1 refused
  rwa [List.append_nil]

theorem settles_behind {result : Except EvaluationFailure Value} {early later : List Record}
    (valued : ∀ record ∈ early, record.outcome.isValue) (settled : Settles result later) :
    Settles result (early ++ later) := by
  rcases settled with ⟨successes, failures, rfl, others, refused⟩
  refine ⟨early ++ successes, failures, (List.append_assoc ..).symm, ?_, refused⟩
  intro record member
  rcases List.mem_append.1 member with front | behind
  · exact valued record front
  · exact others record behind

end

/-- A recorded evaluation and the plain one end alike, and the records that the
former adds are settled by that end. -/
def accounting : EvaluationRelation (StateT Journal Id) Id where
  Related recorded plain := ∃ added, Adds recorded plain.run added ∧ Settles plain.run added
  value result := ⟨[], adds_value result, settles_successes rfl nofun⟩
  failure {_ cause} foreign := by
    refine ⟨[], adds_failure cause, settles_successes ?_ nofun⟩
    cases cause with
    | arithmetic refusal => exact absurd rfl (foreign refusal)
    | _ => rfl
  sequence {_ _ first second firstNext secondNext} related others := by
    rcases related with ⟨early, adds, settled⟩
    rcases answer_cases second with ⟨value, rfl⟩ | ⟨cause, rfl⟩
    · obtain ⟨later, addsLater, settledLater⟩ := others value
      exact ⟨early ++ later, adds_sequence adds addsLater,
        settles_behind (successes_of_value settled) settledLater⟩
    · exact ⟨early, adds_stopped adds, settled⟩

theorem accounting_perform (arithmetic : Arithmetic Id) (operation : Operation) :
    accounting.Related ((recording arithmetic).perform operation)
      (arithmetic.perform operation) := by
  refine ⟨_, adds_perform arithmetic operation, ?_⟩
  rcases answer_cases (arithmetic operation) with ⟨value, answered⟩ | ⟨cause, failed⟩
  · rw [Arithmetic.perform, answered]
    apply settles_successes rfl
    intro record member
    rw [List.mem_singleton.1 member]
    rfl
  · rw [Arithmetic.perform, failed]
    exact ⟨[], _, rfl, nofun, rfl⟩

def EndsIn (added : List Record) (value : Binary64) : Prop :=
  ∃ earlier operation, added = earlier ++ [Operation.record operation (.value value)]

theorem ends_in_behind {added : List Record} {value : Binary64} (ends : EndsIn added value)
    (early : List Record) : EndsIn (early ++ added) value := by
  rcases ends with ⟨earlier, operation, rfl⟩
  exact ⟨early ++ earlier, operation, (List.append_assoc ..).symm⟩

variable {arithmetic : Arithmetic Id}

/-- The machine ends in the value that was pushed last: the answer of its last
operation, or the one number among tokens without operators. -/
theorem run_adds {stack : List Binary64} {tokens : List Token} {value : Binary64}
    (finished : StackMachine.run arithmetic stack tokens = pure value) :
    ∃ added, Adds (StackMachine.run (recording arithmetic) stack tokens) (.ok value) added ∧
      (EndsIn added value ∨ added = [] ∧ tokens.filterMap Token.operator? = [] ∧
        (tokens.filterMap Token.number?).reverse ++ stack = [value]) := by
  induction tokens generalizing stack with
  | nil =>
      obtain rfl := StackMachine.result_eq_pure finished
      exact ⟨[], adds_value value, .inr ⟨rfl, rfl, rfl⟩⟩
  | cons token tokens induction =>
      rcases StackMachine.run_cons_eq_pure finished with ⟨pushed, rfl, later⟩ |
        ⟨operator, left, right, others, result, rfl, rfl, performed, later⟩
      · obtain ⟨added, adds, last⟩ := induction later
        refine ⟨added, adds, last.imp_right (And.imp_right fun only => ?_)⟩
        simpa [Token.number?, Token.operator?] using only
      · obtain ⟨behind, adds, last⟩ := induction later
        refine ⟨_, adds_sequence (adds_performed performed) adds, .inl ?_⟩
        rcases last with ends | ⟨rfl, -, only⟩
        · exact ends_in_behind ends _
        · -- Nothing was pushed behind the answer, so it is the value.
          have alone := congrArg List.length only
          simp only [List.length_append, List.length_cons, List.length_nil] at alone
          have unpushed : (tokens.filterMap Token.number?).reverse = [] :=
            List.length_eq_zero_iff.1 (by omega)
          rw [unpushed] at only
          obtain ⟨rfl, -⟩ := List.cons.inj only
          exact ⟨[], _, rfl⟩

theorem adds_lift_text {Value : Type} {answer : Except TextFailure Value} {value : Value}
    (done : answer = .ok value) : Adds (liftText answer) (.ok value) [] := by
  rw [done]
  exact adds_value value

theorem resolve_function_adds {identifier : Text} {function : NamedFunction}
    (resolved : (resolveFunction identifier : Evaluation Id _) = pure function) :
    Adds (resolveFunction identifier) (.ok function) [] := by
  unfold resolveFunction at resolved ⊢
  split at resolved
  · obtain rfl := pure_answer_inj resolved
    exact adds_value _
  · exact absurd resolved (throw_ne_pure _ _)

section

variable {evaluate : Text → Evaluation Id Binary64}
  {recorded : Text → Evaluation (StateT Journal Id) Binary64}
  (finite : ∀ operation value, arithmetic operation = pure value → Binary64.isFinite value)
  (arguments : ∀ argument value, evaluate argument = pure value →
    ∃ added, Adds (recorded argument) (.ok value) added)

include finite arguments

theorem resolve_piece_adds {piece : Fragment} {resolved : Text}
    (done : resolvePiece arithmetic evaluate piece = pure resolved) :
    ∃ added, Adds (resolvePiece (recording arithmetic) recorded piece) (.ok resolved) added ∧
      (added = [] ∧ resolved = piece.source ∨ ∃ value, Binary64.isFinite value ∧
        resolved = splice value ∧ EndsIn added value) := by
  cases piece with
  | plain source =>
      obtain rfl := pure_answer_inj done
      exact ⟨[], adds_value _, .inl ⟨rfl, rfl⟩⟩
  | name identifier =>
      obtain rfl := pure_answer_inj done
      exact ⟨[], adds_value _, .inl ⟨rfl, rfl⟩⟩
  | call identifier gap argument =>
      obtain ⟨value, called, spliced⟩ := exists_of_bind_pure done
      obtain rfl := pure_answer_inj spliced
      obtain ⟨function, known, evaluated⟩ := exists_of_bind_pure called
      obtain ⟨operand, ended, performed⟩ := exists_of_bind_pure evaluated
      obtain ⟨inner, adds⟩ := arguments argument operand ended
      have call : Adds (callValue (recording arithmetic) recorded identifier argument) (.ok value)
          (inner ++ [Operation.record (.unary function operand) (.value value)]) := by
        apply adds_sequence (resolve_function_adds known)
        exact adds_sequence adds (adds_performed performed)
      refine ⟨_, adds_map splice call, .inr ⟨value, ?_, rfl, inner, _, rfl⟩⟩
      exact finite _ value (answered_of_performed performed)

/-- Without calls the pieces keep their text. Otherwise the last call is answered last,
and its value stands in what the pieces are resolved into. -/
theorem resolve_pieces_adds {pieces : List Fragment} {resolved : Text}
    (done : resolvePieces arithmetic evaluate pieces = pure resolved) :
    ∃ added, Adds (resolvePieces (recording arithmetic) recorded pieces) (.ok resolved) added ∧
      (added = [] ∧ resolved = pieces.flatMap Fragment.source ∨
        ∃ left value right, Binary64.isFinite value ∧
          resolved = left ++ splice value ++ right ∧ EndsIn added value) := by
  induction pieces generalizing resolved with
  | nil =>
      obtain rfl := pure_answer_inj done
      exact ⟨[], adds_value _, .inl ⟨rfl, rfl⟩⟩
  | cons piece pieces induction =>
      obtain ⟨front, first, later⟩ := exists_of_bind_pure done
      obtain ⟨others, second, whole⟩ := exists_of_bind_pure later
      obtain rfl := pure_answer_inj whole
      obtain ⟨early, addsFirst, firstLast⟩ := resolve_piece_adds finite arguments first
      obtain ⟨behind, addsOthers, othersLast⟩ := induction second
      refine ⟨early ++ behind, adds_sequence addsFirst (adds_map (front ++ ·) addsOthers), ?_⟩
      rcases othersLast with ⟨rfl, rfl⟩ | ⟨left, value, right, shown, rfl, ends⟩
      · rw [List.append_nil]
        rcases firstLast with ⟨rfl, rfl⟩ | ⟨value, shown, rfl, ends⟩
        · exact .inl ⟨rfl, rfl⟩
        · exact .inr ⟨[], value, _, shown, rfl, ends⟩
      · exact .inr ⟨front ++ left, value, right, shown, by simp, ends_in_behind ends early⟩

end

theorem numbers_of_spliced (value : Binary64) :
    (splicedTokens value).filterMap Token.number? = [value] := by
  unfold splicedTokens
  split <;> rfl

theorem number_of_spliced {value : Binary64} (shown : Binary64.isFinite value) {left right : Text}
    {read : List Token} (scanned : tokenize (left ++ splice value ++ right) = .ok read) :
    value ∈ read.filterMap Token.number? := by
  obtain ⟨leftRead, rightRead, rfl⟩ :=
    read_around (stands_as_splice shown) (splice_apart value) scanned
  rw [List.filterMap_append, List.filterMap_append, numbers_of_spliced]
  simp

namespace Calculator

variable {calculator : Calculator Id} {text : Text} {value : Binary64}

theorem evaluate_infix_adds (evaluated : calculator.evaluateInfix text = pure value) :
    ∃ added, Adds (calculator.recorded.evaluateInfix text) (.ok value) added ∧
      (EndsIn added value ∨ added = [] ∧ ∃ read, tokenize text = .ok read ∧
        read.filterMap Token.number? = [value] ∧ read.filterMap Token.operator? = []) := by
  obtain ⟨read, arranged, scanned, arrangement, finished⟩ := evaluate_infix_stages evaluated
  obtain ⟨added, adds, last⟩ := run_adds finished
  refine ⟨added, ?_, last.imp_right (And.imp_right fun only => ⟨read, scanned, ?_, ?_⟩)⟩
  · have machine := adds_sequence (adds_lift_text arrangement) adds
    exact adds_sequence (adds_lift_text scanned) machine
  · have numbers := only.2
    rw [List.append_nil, Postfix.arrange_numbers arrangement] at numbers
    exact List.reverse_inj.1 numbers
  · have operators := Postfix.arrange_operators arrangement
    rw [only.1] at operators
    exact operators.nil_eq.symm

/-- The value of a text is what was answered last, or the one number that is left of the
text when nothing is asked: it has no calls and no operators. -/
theorem evaluate_text_adds_cases
    (finite : ∀ operation value, calculator.arithmetic operation = pure value →
      Binary64.isFinite value)
    (evaluated : calculator.evaluateText text = pure value) :
    ∃ added, Adds (calculator.recorded.evaluateText text) (.ok value) added ∧
      (EndsIn added value ∨ added = [] ∧ ∃ replaced read,
        substituteConstants calculator.settings text = .ok replaced ∧
        substituteFunctions calculator.arithmetic calculator.evaluateText replaced =
          pure replaced ∧
        tokenize replaced = .ok read ∧ read.filterMap Token.number? = [value] ∧
        read.filterMap Token.operator? = []) := by
  have arguments (argument : Text) (operand : Binary64)
      (ended : calculator.evaluateText argument = pure operand) :
      ∃ added, Adds (calculator.recorded.evaluateText argument) (.ok operand) added := by
    obtain ⟨added, adds, -⟩ := accounting.evaluate_text
      (accounting_perform calculator.arithmetic) calculator.settings argument
    rw [ended] at adds
    exact ⟨added, adds⟩
  rw [evaluate_text_eq] at evaluated
  obtain ⟨replaced, substituted, later⟩ := exists_of_bind_pure evaluated
  obtain ⟨resolved, functions, infixEvaluated⟩ := exists_of_bind_pure later
  obtain ⟨fragments, cut, spliced⟩ := exists_of_bind_pure functions
  rw [splice_calls_pieces] at spliced
  obtain ⟨early, addsCalls, callsLast⟩ := resolve_pieces_adds finite arguments spliced
  obtain ⟨behind, addsInfix, infixLast⟩ := evaluate_infix_adds infixEvaluated
  refine ⟨early ++ behind, ?_, ?_⟩
  · rw [evaluate_text_eq]
    apply adds_sequence (adds_lift_text (lift_text_eq_pure substituted))
    apply adds_sequence _ addsInfix
    apply adds_sequence (adds_lift_text (lift_text_eq_pure cut))
    rw [splice_calls_pieces]
    exact addsCalls
  · rcases infixLast with ends | ⟨rfl, read, scanned, only, unapplied⟩
    · exact .inl (ends_in_behind ends early)
    · rw [List.append_nil]
      rcases callsLast with ⟨rfl, kept⟩ | ⟨left, last, right, shown, form, ends⟩
      · have whole : splitPieces replaced = .ok (fragments.flatMap Fragment.pieces) := by
          rw [splitPieces, lift_text_eq_pure cut]
          rfl
        obtain rfl : resolved = replaced := kept.trans (cuts_whole (cuts_iff.2 whole))
        exact .inr ⟨rfl, resolved, read, lift_text_eq_pure substituted, functions, scanned, only,
          unapplied⟩
      · -- Without operators the value is the only number that is left of the text.
        rw [form] at scanned
        have held := number_of_spliced shown scanned
        rw [only, List.mem_singleton] at held
        exact .inl (held ▸ ends)

theorem evaluate_text_adds
    (finite : ∀ operation value, calculator.arithmetic operation = pure value →
      Binary64.isFinite value)
    (evaluated : calculator.evaluateText text = pure value) :
    ∃ added, Adds (calculator.recorded.evaluateText text) (.ok value) added ∧
      (added = [] ∨ EndsIn added value) := by
  obtain ⟨added, adds, last⟩ := evaluate_text_adds_cases finite evaluated
  exact ⟨added, adds, last.symm.imp_left And.left⟩

end Calculator

/-- An evaluation adds successes to the journal, then the failure of the arithmetic
that it ends in, if it ends in one, with the wording of that failure. If it ends in
a value, the last success has that value. -/
theorem evaluation_accounts (elementary : Elementary) (tolerance : Binary64) (settings : Settings)
    (expression : String) (journal : Journal) :
    ∃ result successes failures counts,
      (((Calculator.checked elementary tolerance settings).recorded.evaluate expression).run.run
        journal).run = (result, ⟨journal.history ++ successes ++ failures, counts⟩) ∧
      (∀ record ∈ successes, record.outcome.isValue) ∧
      failures.map Record.outcome = refusals result ∧
      (elementary.IsFiniteOnDomain → ∀ value, result = .ok value →
        ∀ last, successes.getLast? = some last → last.outcome = .value value) := by
  obtain ⟨added, adds, settled⟩ := accounting.evaluate_text
    (accounting_perform (standardArithmetic elementary tolerance)) settings expression.toList
  obtain ⟨counts, ran⟩ := adds journal
  obtain ⟨successes, failures, rfl, valued, refused⟩ := settled
  refine ⟨_, successes, failures, counts, ?_, valued, refused, ?_⟩
  · rw [List.append_assoc]
    exact ran
  · intro assured value ended last found
    obtain ⟨others, addsAgain, endsIn⟩ := @Calculator.evaluate_text_adds
      (.checked elementary tolerance settings) _ value
      (fun _ _ answered => standard_result_finite assured answered) ended
    obtain ⟨-, rfl⟩ := adds_unique adds addsAgain
    rw [ended] at refused
    obtain rfl := List.map_eq_nil_iff.1 refused
    rw [List.append_nil] at endsIn
    rcases endsIn with rfl | ⟨earlier, operation, rfl⟩
    · contradiction
    · rw [List.getLast?_concat] at found
      obtain rfl := Option.some.inj found
      rfl

/-- A call, two operators and a journal that is not empty. -/
theorem evaluation_accounts_for_product :
    Elementary.vanishing.IsFiniteOnDomain ∧
      ∃ successes counts,
        (((Calculator.checked .vanishing 0 .standard).recorded.evaluate "abs(1-4)*2").run.run
          ⟨[⟨"add", [2, 3], .value 5⟩], ∅⟩).run =
            (.ok 6, ⟨⟨"add", [2, 3], .value 5⟩ :: successes, counts⟩) ∧
        successes = [⟨"subtract", [1, 4], .value (-3)⟩, ⟨"abs", [-3], .value 3⟩,
          ⟨"multiply", [3, 2], .value 6⟩] ∧
        ∀ last, successes.getLast? = some last → last.outcome = .value 6 := by
  refine ⟨vanishing_finite_on_domain, ?_⟩
  obtain ⟨result, successes, failures, counts, ran, -, refused, ends⟩ := evaluation_accounts
    .vanishing 0 .standard "abs(1-4)*2" ⟨[⟨"add", [2, 3], .value 5⟩], ∅⟩
  obtain rfl : result = .ok 6 := (congrArg Prod.fst ran).symm.trans (by decide +kernel)
  obtain rfl := List.map_eq_nil_iff.1 refused
  rw [List.append_nil] at ran
  have added : [⟨"add", [2, 3], .value 5⟩] ++ successes =
      (⟨"add", [2, 3], .value 5⟩ : Record) :: [⟨"subtract", [1, 4], .value (-3)⟩,
        ⟨"abs", [-3], .value 3⟩, ⟨"multiply", [3, 2], .value 6⟩] :=
    (congrArg (fun outcome => outcome.2.history) ran).symm.trans (by decide +kernel)
  exact ⟨successes, counts, ran, (List.cons.inj added).2, ends vanishing_finite_on_domain 6 rfl⟩

end InfixCalculator
