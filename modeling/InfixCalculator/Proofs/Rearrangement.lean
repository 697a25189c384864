import InfixCalculator.Proofs.Course

/-!
Places of tokens under arrangement. Every token but a parenthesis comes out once, and
what comes out in front of a number has stood in front of it. The invariant follows
the waiting operators with their places beside the tokens ahead with theirs. So the
stack machine never meets a parenthesis, and the values that it finds unused are
counted by the tokens that were read.
-/

namespace InfixCalculator

def Token.isParen : Token → Bool
  | .leftParen => true
  | .rightParen => true
  | _ => false

/-- Tokens with the places that they have in a list, all of the list but parentheses. -/
def placedTokens (start : Nat) (tokens : List Token) : List (Token × Nat) :=
  (tokens.zipIdx start).filter fun entry => !entry.1.isParen

/-- The same tokens without parentheses, numbers in order and operators in any order. Each
of the arranged tokens has a place in the list, and no other has the same one. What is
arranged in front of a number, operators included, has an earlier place than the number. -/
structure Rearranges (tokens arranged : List Token) : Prop where
  bare : ∀ token ∈ arranged, token.isParen = false
  numbers : arranged.filterMap Token.number? = tokens.filterMap Token.number?
  operators : (arranged.filterMap Token.operator?).Perm (tokens.filterMap Token.operator?)
  places : ∃ placed : List (Token × Nat), placed.map Prod.fst = arranged ∧
    placed.Perm (placedTokens 0 tokens) ∧
    placed.Pairwise fun earlier later => later.1.number?.isSome → earlier.2 < later.2

theorem placed_place {start : Nat} {tokens : List Token} {entry : Token × Nat}
    (member : entry ∈ placedTokens start tokens) : start ≤ entry.2 ∧ entry.1.isParen = false := by
  obtain ⟨inside, bare⟩ := List.mem_filter.1 member
  exact ⟨List.le_snd_of_mem_zipIdx inside, by simpa using bare⟩

namespace Postfix

variable {power : Associativity}

/-- Operators that wait and tokens that are ahead, with their places, in the order in
which they come out. -/
structure Places (waiting : List (Operator × Nat)) (start : Nat) (tokens : List Token)
    (placed : List (Token × Nat)) : Prop where
  all : placed.Perm (waiting.map (Prod.map .operator id) ++ placedTokens start tokens)
  order : placed.Pairwise fun earlier later => later.1.number?.isSome → earlier.2 < later.2

section

variable {waiting released : List (Operator × Nat)} {start : Nat} {tokens : List Token}
  {placed : List (Token × Nat)}

/-- Operators wait from before, so a number among the tokens has a place ahead. -/
theorem Places.ahead (places : Places waiting start tokens placed) {entry : Token × Nat}
    (member : entry ∈ placed) (number : entry.1.number?.isSome) : start ≤ entry.2 := by
  rcases List.mem_append.1 (places.all.mem_iff.1 member) with earlier | ahead
  · obtain ⟨⟨kind, place⟩, -, rfl⟩ := List.mem_map.1 earlier
    contradiction
  · exact (placed_place ahead).1

theorem places_number (places : Places waiting (start + 1) tokens placed) (value : Binary64) :
    Places waiting start (.number value :: tokens) ((.number value, start) :: placed) where
  all := (places.all.cons _).trans List.perm_middle.symm
  order := List.pairwise_cons.2
    ⟨fun _ member number => places.ahead member number, places.order⟩

theorem places_paren (places : Places waiting (start + 1) tokens placed) {token : Token}
    (paren : token.isParen) : Places waiting start (token :: tokens) placed where
  all := by
    have skipped : placedTokens start (token :: tokens) = placedTokens (start + 1) tokens := by
      simp [placedTokens, paren]
    rw [skipped]
    exact places.all
  order := places.order

theorem places_operator {operator : Operator}
    (places : Places ((operator, start) :: waiting) (start + 1) tokens placed) :
    Places waiting start (.operator operator :: tokens) placed where
  all := places.all.trans List.perm_middle.symm
  order := places.order

theorem places_released (places : Places waiting start tokens placed)
    (before : ∀ entry ∈ released, entry.2 < start) :
    Places (released ++ waiting) start tokens
      (released.map (Prod.map .operator id) ++ placed) where
  all := by
    rw [List.map_append, List.append_assoc]
    exact places.all.append_left _
  order := by
    refine List.pairwise_append.2 ⟨?_, places.order, ?_⟩
    · exact List.pairwise_map.2 (List.pairwise_of_forall fun _ _ => nofun)
    · intro earlier member later others number
      obtain ⟨entry, inside, rfl⟩ := List.mem_map.1 member
      exact (before entry inside).trans_le (places.ahead others number)

end

theorem released_tokens (released : List (Operator × Nat)) :
    (released.map (Prod.map Token.operator id)).map Prod.fst =
      (released.map Prod.fst).map .operator := by
  simp

/-- One step keeps the places: what it releases has waited, and what it pushes waits
from then on. -/
theorem arrange_places {stack : List Pending} {tokens arranged : List Token}
    (done : arrange power stack tokens = .ok arranged) {waiting : List (Operator × Nat)}
    (pending : waiting.map Prod.fst = stack.filterMap Pending.operator?) {start : Nat}
    (before : ∀ entry ∈ waiting, entry.2 < start) :
    ∃ placed, placed.map Prod.fst = arranged ∧ Places waiting start tokens placed := by
  induction tokens generalizing stack arranged waiting start with
  | nil =>
      obtain ⟨kinds, rfl, rfl⟩ := release_all_split done
      rw [pending_operators] at pending
      have none : Places [] start [] [] := ⟨.refl _, .nil⟩
      have places := places_released none before
      rw [List.append_nil, List.append_nil] at places
      exact ⟨_, by rw [released_tokens, pending], places⟩
  | cons token tokens induction =>
      have later : ∀ entry ∈ waiting, entry.2 < start + 1 :=
        fun entry member => Nat.lt_succ_of_lt (before entry member)
      cases token with
      | number value =>
          obtain ⟨others, found, rfl⟩ := exists_of_map_ok done
          obtain ⟨placed, rfl, places⟩ := induction found pending later
          exact ⟨_, rfl, places_number places value⟩
      | leftParen =>
          obtain ⟨placed, rfl, places⟩ :=
            @induction (.group :: stack) arranged done _ pending _ later
          exact ⟨placed, rfl, places_paren places rfl⟩
      | rightParen =>
          simp only [arrange] at done
          split at done
          · contradiction
          · rename_i out kept closed
            obtain ⟨others, found, rfl⟩ := exists_of_map_ok done
            obtain ⟨kinds, rfl, rfl⟩ := close_group_split closed
            -- What leaves the stack takes its places with it, and the group has none.
            rw [List.filterMap_append, pending_operators] at pending
            obtain ⟨released, below, rfl, rfl, kept⟩ := List.map_eq_append_iff.1 pending
            have first := List.forall_mem_append.1 before
            obtain ⟨placed, rfl, places⟩ := induction found kept
              (List.forall_mem_append.1 later).2
            refine ⟨_, ?_, places_released (places_paren places rfl) first.1⟩
            rw [List.map_append, released_tokens]
      | operator incoming =>
          simp only [arrange] at done
          obtain ⟨others, found, rfl⟩ := exists_of_map_ok done
          obtain ⟨kinds, whole, out⟩ := release_before_split power incoming stack
          rw [whole, List.filterMap_append, pending_operators] at pending
          obtain ⟨released, below, rfl, rfl, kept⟩ := List.map_eq_append_iff.1 pending
          have first := List.forall_mem_append.1 before
          have pushed : ∀ entry ∈ (incoming, start) :: below, entry.2 < start + 1 :=
            List.forall_mem_cons.2 ⟨Nat.lt_succ_self _, (List.forall_mem_append.1 later).2⟩
          obtain ⟨placed, rfl, places⟩ := @induction _ _ found ((incoming, start) :: below)
            (congrArg (incoming :: ·) kept) _ pushed
          refine ⟨_, ?_, places_released (places_operator places) first.1⟩
          rw [out, List.map_append, released_tokens]

end Postfix

/-- Arrangement loses nothing but parentheses and adds nothing. -/
theorem to_postfix_rearranges {power : Associativity} {tokens arranged : List Token}
    (done : toPostfix power tokens = .ok arranged) : Rearranges tokens arranged := by
  obtain ⟨placed, rfl, places⟩ :=
    @Postfix.arrange_places power [] tokens arranged done [] rfl 0 nofun
  refine ⟨?_, Postfix.arrange_numbers done, ?_, placed, rfl, places.all, places.order⟩
  · intro token member
    obtain ⟨entry, inside, rfl⟩ := List.mem_map.1 member
    exact (placed_place (places.all.mem_iff.1 inside)).2
  · exact Postfix.arrange_operators done

theorem surplus_rearranged {tokens arranged : List Token} (same : Rearranges tokens arranged) :
    surplus arranged = surplus tokens := by
  simp only [surplus, numberCount, operatorCount]
  rw [same.numbers, same.operators.length_eq]

namespace StackMachine

theorem stops_unexpected {met token : Token} {height : Int} {calls : List Call}
    (stops : Stops (.unexpectedToken met) height token calls) : token.isParen := by
  cases stops with
  | leftParen => rfl
  | rightParen => rfl
  | operandMissing => contradiction
  | refused => contradiction

theorem stops_not_dangling {count : Nat} {token : Token} {height : Int} {calls : List Call} :
    ¬Stops (.danglingOperands count) height token calls := by
  intro stops
  cases stops <;> contradiction

theorem result_not_unexpected (stack : List Binary64) (token : Token) :
    (result stack : Evaluation Id Binary64).run ≠ .error (.unexpectedToken token) := by
  rcases stack with _ | ⟨only, _ | ⟨second, below⟩⟩ <;> exact nofun

end StackMachine

section

variable {State : Type} {arithmetic : Arithmetic (StateM State)} {tokens : List Token}
  {state : State}

theorem unexpected_needs_paren {token : Token}
    (failed : ((evaluatePostfix arithmetic tokens).run.run state).1 =
      .error (.unexpectedToken token)) : ∃ paren ∈ tokens, paren.isParen := by
  obtain ⟨ending, calls, later, -, ran, course, -⟩ :=
    evaluate_postfix_ends arithmetic tokens state
  rw [ran] at failed
  cases course with
  | finished throughout counted left =>
      exact absurd failed (StackMachine.result_not_unexpected _ token)
  | stopped earlier stops =>
      cases Except.error.inj failed
      obtain ⟨paren, found, here⟩ := stops
      exact ⟨paren, List.mem_of_getElem? found, StackMachine.stops_unexpected here⟩

theorem dangling_surplus {count : Nat}
    (failed : ((evaluatePostfix arithmetic tokens).run.run state).1 =
      .error (.danglingOperands count)) : count = surplus tokens := by
  obtain ⟨ending, calls, later, -, ran, course, -⟩ :=
    evaluate_postfix_ends arithmetic tokens state
  rw [ran] at failed
  cases course with
  | finished throughout counted left =>
      rw [(StackMachine.result_dangling_iff.1 failed).2, left, Int.zero_add]
  | stopped earlier stops =>
      cases Except.error.inj failed
      obtain ⟨token, -, here⟩ := stops
      exact absurd here StackMachine.stops_not_dangling

end

section

variable {State Before After : Type}

/-- Where a sequence fails, its first step fails or what follows the value of that step. -/
theorem sequence_failure {first : Evaluation (StateM State) Before}
    {next : Before → Evaluation (StateM State) After} {state : State} {cause : EvaluationFailure}
    (failed : ((first >>= next).run.run state).1 = .error cause) :
    (first.run.run state).1 = .error cause ∨ ∃ value later,
      first.run.run state = (.ok value, later) ∧
        ((next value).run.run later).1 = .error cause := by
  rw [ExceptT.run_bind, StateT.run_bind] at failed
  rcases answer : first.run.run state with ⟨outcome, later⟩
  rw [answer] at failed
  cases outcome with
  | error other =>
      obtain rfl : other = cause := Except.error.inj failed
      exact .inl rfl
  | ok value => exact .inr ⟨value, later, rfl, failed⟩

theorem map_failure {evaluated : Evaluation (StateM State) Before} {change : Before → After}
    {state : State} {cause : EvaluationFailure}
    (failed : ((do let value ← evaluated; pure (change value) :
      Evaluation (StateM State) After).run.run state).1 = .error cause) :
    (evaluated.run.run state).1 = .error cause := by
  rcases sequence_failure failed with stopped | ⟨value, later, -, behind⟩
  · exact stopped
  · contradiction

theorem lift_text_failure {answer : Except TextFailure Before} {state : State}
    {cause : EvaluationFailure}
    (failed : ((liftText answer : Evaluation (StateM State) Before).run.run state).1 =
      .error cause) : ∃ reason, cause = .text reason := by
  cases answer with
  | ok value => contradiction
  | error reason => exact ⟨reason, (Except.error.inj failed).symm⟩

theorem lift_text_ran {answer : Except TextFailure Before} {state later : State} {value : Before}
    (ran : (liftText answer : Evaluation (StateM State) Before).run.run state =
      (.ok value, later)) : answer = .ok value ∧ later = state := by
  cases answer with
  | error reason => cases ran
  | ok found =>
      cases ran
      exact ⟨rfl, rfl⟩

end

def EvaluationFailure.isOfMachine : EvaluationFailure → Bool
  | .missingOperand _ => true
  | .danglingOperands _ => true
  | .unexpectedToken _ => true
  | .empty => true
  | _ => false

/-- The argument stands in a call of the text, once constants are in place. -/
def IsArgumentIn (settings : Settings) (text argument : Text) : Prop :=
  ∃ replaced fragments identifier gap, substituteConstants settings text = .ok replaced ∧
    splitCalls replaced = .ok fragments ∧ .call identifier gap argument ∈ fragments

theorem argument_in_fewer {settings : Settings} {text argument : Text}
    (inside : IsArgumentIn settings text argument) :
    identifierCount argument < identifierCount text := by
  obtain ⟨replaced, fragments, identifier, gap, substituted, cut, member⟩ := inside
  calc identifierCount argument < fragmentsIdentifierCount fragments := argument_count_lt member
    _ = identifierCount replaced := split_calls_count replaced fragments cut
    _ ≤ identifierCount text := substitute_constants_count_le substituted

section

variable {State : Type} {cause : EvaluationFailure} (machine : cause.isOfMachine)

include machine

theorem perform_not_failed {arithmetic : Arithmetic (StateM State)} {operation : Operation}
    {state : State} : ((arithmetic.perform operation).run.run state).1 ≠ .error cause := by
  intro failed
  have adapted : ((arithmetic.perform operation).run.run state).1 =
      ((arithmetic operation).run.run state).1.mapError .arithmetic := rfl
  rw [adapted] at failed
  cases answer : ((arithmetic operation).run.run state).1 with
  | ok value =>
      rw [answer] at failed
      contradiction
  | error refusal =>
      rw [answer] at failed
      cases Except.error.inj failed
      contradiction

theorem call_value_failure {arithmetic : Arithmetic (StateM State)}
    {evaluate : Text → Evaluation (StateM State) Binary64} {identifier argument : Text}
    {state : State}
    (failed : ((callValue arithmetic evaluate identifier argument).run.run state).1 =
      .error cause) : ∃ earlier, ((evaluate argument).run.run earlier).1 = .error cause := by
  rcases sequence_failure failed with unknown | ⟨function, known, -, behind⟩
  · unfold resolveFunction at unknown
    split at unknown
    · contradiction
    · cases Except.error.inj unknown
      contradiction
  · rcases sequence_failure behind with inner | ⟨operand, later, -, refused⟩
    · exact ⟨known, inner⟩
    · exact absurd refused (perform_not_failed machine)

theorem splice_calls_failure {arithmetic : Arithmetic (StateM State)}
    {evaluate : Text → Evaluation (StateM State) Binary64} {fragments : List Fragment}
    {state : State}
    (failed : ((spliceCalls arithmetic fragments fun _ _ argument _ =>
      evaluate argument).run.run state).1 = .error cause) :
    ∃ identifier gap argument earlier, .call identifier gap argument ∈ fragments ∧
      ((evaluate argument).run.run earlier).1 = .error cause := by
  induction fragments generalizing state with
  | nil => contradiction
  | cons fragment fragments induction =>
      rw [splice_calls_cons] at failed
      rcases sequence_failure failed with own | ⟨front, later, -, behind⟩
      · cases fragment with
        | plain source => contradiction
        | name identifier => contradiction
        | call identifier gap argument =>
            obtain ⟨earlier, inner⟩ := call_value_failure machine (map_failure own)
            exact ⟨identifier, gap, argument, earlier, List.mem_cons_self, inner⟩
      · obtain ⟨identifier, gap, argument, earlier, member, inner⟩ :=
          induction (map_failure behind)
        exact ⟨identifier, gap, argument, earlier, List.mem_cons_of_mem _ member, inner⟩

end

namespace Calculator

variable {State : Type} {calculator : Calculator (StateM State)} {text : Text}
  {state : State} {cause : EvaluationFailure}

/-- The tokens of a text: what is read of it once values stand in place of its constants
and calls. The calls are made from one state and lead to the other. -/
def LeavesTokens (calculator : Calculator (StateM State)) (text : Text) (state later : State)
    (read : List Token) : Prop :=
  ∃ replaced resolved, substituteConstants calculator.settings text = .ok replaced ∧
    (substituteFunctions calculator.arithmetic calculator.evaluateText replaced).run.run state =
      (.ok resolved, later) ∧
    tokenize resolved = .ok read

theorem leaves_tokens_unique {later last : State} {read other : List Token}
    (leaves : calculator.LeavesTokens text state later read)
    (again : calculator.LeavesTokens text state last other) : other = read := by
  obtain ⟨replaced, resolved, substituted, ran, scanned⟩ := leaves
  obtain ⟨_, _, substitutedAgain, ranAgain, scannedAgain⟩ := again
  cases Except.ok.inj (substituted.symm.trans substitutedAgain)
  cases ran.symm.trans ranAgain
  exact Except.ok.inj (scannedAgain.symm.trans scanned)

/-- A failure of the machine comes from the argument of a call, and then the text has no
tokens, or from the machine on the tokens of the text. -/
theorem evaluate_text_failure (machine : cause.isOfMachine)
    (failed : ((calculator.evaluateText text).run.run state).1 = .error cause) :
    ((¬∃ read later, calculator.LeavesTokens text state later read) ∧
        ∃ argument earlier, IsArgumentIn calculator.settings text argument ∧
          ((calculator.evaluateText argument).run.run earlier).1 = .error cause) ∨
      ∃ read later arranged, calculator.LeavesTokens text state later read ∧
        toPostfix calculator.settings.powerAssociativity read = .ok arranged ∧
        ((evaluatePostfix calculator.arithmetic arranged).run.run later).1 = .error cause := by
  have foreign {reason : TextFailure} (same : cause = .text reason) : False := by
    subst same
    contradiction
  rw [evaluate_text_eq] at failed
  rcases sequence_failure failed with shape | ⟨replaced, first, constants, behind⟩
  · exact (foreign (lift_text_failure shape).choose_spec).elim
  · obtain ⟨substituted, rfl⟩ := lift_text_ran constants
    rcases sequence_failure behind with calls | ⟨resolved, later, functions, reading⟩
    · left
      constructor
      · rintro ⟨read, later, again, resolved, substitutedAgain, ran, -⟩
        cases Except.ok.inj (substituted.symm.trans substitutedAgain)
        rw [ran] at calls
        contradiction
      · rcases sequence_failure calls with shape | ⟨fragments, second, cut, spliced⟩
        · exact (foreign (lift_text_failure shape).choose_spec).elim
        · obtain ⟨found, rfl⟩ := lift_text_ran cut
          obtain ⟨identifier, gap, argument, earlier, member, inner⟩ :=
            splice_calls_failure machine spliced
          exact ⟨argument, earlier,
            ⟨replaced, fragments, identifier, gap, substituted, found, member⟩, inner⟩
    · right
      rcases sequence_failure reading with shape | ⟨read, second, scanned, arranging⟩
      · exact (foreign (lift_text_failure shape).choose_spec).elim
      · obtain ⟨tokens, rfl⟩ := lift_text_ran scanned
        rcases sequence_failure arranging with shape | ⟨arranged, third, done, ran⟩
        · exact (foreign (lift_text_failure shape).choose_spec).elim
        · obtain ⟨arrangement, rfl⟩ := lift_text_ran done
          exact ⟨read, _, arranged, ⟨replaced, resolved, substituted, functions, tokens⟩,
            arrangement, ran⟩

/-- By induction on the number of identifiers, which falls from a text to its arguments. -/
theorem evaluate_text_expected (calculator : Calculator (StateM State)) (text : Text)
    (state : State) (token : Token) :
    ((calculator.evaluateText text).run.run state).1 ≠ .error (.unexpectedToken token) := by
  induction count : identifierCount text using Nat.strongRecOn generalizing text state with
  | _ size induction =>
      subst count
      intro failed
      rcases evaluate_text_failure rfl failed with ⟨-, argument, earlier, inside, inner⟩ |
        ⟨read, later, arranged, -, arrangement, ran⟩
      · exact induction _ (argument_in_fewer inside) argument earlier rfl inner
      · obtain ⟨paren, member, isParen⟩ := unexpected_needs_paren ran
        have bare := (to_postfix_rearranges arrangement).bare paren member
        rw [bare] at isParen
        contradiction

end Calculator

def Calculator.vanishing : Calculator (StateM Unit) := ⟨fun _ => pure 0, .standard⟩

/-- Arrangement only moves tokens, and no operator in front of a number that precedes it.
So no evaluation meets a parenthesis where there should be none, and values without an
operator are counted by the tokens of the text, if it was not an argument that had them. -/
theorem arrangement_conserves {State : Type} :
    (∀ power tokens arranged, toPostfix power tokens = .ok arranged →
        Rearranges tokens arranged) ∧
      ∀ (calculator : Calculator (StateM State)) (text : Text) (state : State),
        (∀ token, ((calculator.evaluateText text).run.run state).1 ≠
          .error (.unexpectedToken token)) ∧
        ∀ count, ((calculator.evaluateText text).run.run state).1 =
            .error (.danglingOperands count) →
          (∀ read later, calculator.LeavesTokens text state later read →
            count = surplus read) ∧
          ((¬∃ read later, calculator.LeavesTokens text state later read) →
            ∃ argument earlier, IsArgumentIn calculator.settings text argument ∧
              ((calculator.evaluateText argument).run.run earlier).1 =
                .error (.danglingOperands count)) := by
  refine ⟨fun _ _ _ done => to_postfix_rearranges done, fun calculator text state =>
    ⟨calculator.evaluate_text_expected text state, fun count failed => ?_⟩⟩
  rcases Calculator.evaluate_text_failure rfl failed with ⟨unread, raised⟩ |
    ⟨read, later, arranged, leaves, arrangement, ran⟩
  · exact ⟨fun read later leaves => absurd ⟨read, later, leaves⟩ unread, fun _ => raised⟩
  · constructor
    · intro other last again
      rw [Calculator.leaves_tokens_unique leaves again, dangling_surplus ran,
        surplus_rearranged (to_postfix_rearranges arrangement)]
    · exact fun unread => absurd ⟨read, later, leaves⟩ unread

/-- Operators in all the wrong places, values side by side, and such values as an
argument. -/
theorem arrangement_conserves_of_malformed :
    Rearranges [.operator .subtract, .leftParen, .number 2, .operator .power, .rightParen,
        .number 3, .operator .multiply]
      [.number 2, .operator .power, .number 3, .operator .multiply, .operator .subtract] ∧
    (∃ read later, Calculator.vanishing.LeavesTokens "4 (9 1)".toList () later read ∧
      3 = surplus read) ∧
    ∃ argument earlier, IsArgumentIn .standard "1+abs(4 5)".toList argument ∧
      ((Calculator.vanishing.evaluateText argument).run.run earlier).1 =
        .error (.danglingOperands 2) := by
  obtain ⟨rearranged, evaluated⟩ := @arrangement_conserves Unit
  refine ⟨rearranged .left _ _ (by decide +kernel), ?_, ?_⟩
  · have leaves : Calculator.vanishing.LeavesTokens "4 (9 1)".toList () ()
        [.number 4, .leftParen, .number 9, .number 1, .rightParen] := by
      refine ⟨"4 (9 1)".toList, "4 (9 1)".toList, by decide +kernel, ?_, by decide +kernel⟩
      change @Eq (Except EvaluationFailure Text × Unit) _ _
      decide +kernel
    exact ⟨_, _, leaves, ((evaluated _ _ _).2 3 (by decide +kernel)).1 _ _ leaves⟩
  · have same : substituteConstants .standard "1+abs(4 5)".toList = .ok "1+abs(4 5)".toList := by
      decide +kernel
    have raised : (substituteFunctions Calculator.vanishing.arithmetic
        Calculator.vanishing.evaluateText "1+abs(4 5)".toList).run.run () =
          (.error (.danglingOperands 2), ()) := by
      change @Eq (Except EvaluationFailure Text × Unit) _ _
      decide +kernel
    refine ((evaluated .vanishing "1+abs(4 5)".toList ()).2 2 (by decide +kernel)).2 ?_
    rintro ⟨read, later, replaced, resolved, substituted, ran, -⟩
    cases Except.ok.inj (same.symm.trans substituted)
    exact nomatch raised.symm.trans ran

end InfixCalculator
