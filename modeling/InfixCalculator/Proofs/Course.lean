import InfixCalculator.Proofs.Acceptance
import InfixCalculator.Proofs.Machine
import InfixCalculator.Proofs.SessionHistory

/-!
The course of the stack machine on any list of tokens, over an arithmetic with any
state of its own. The values on the stack in front of a token are the numbers so far
less the operators so far. That count and the answers of the arithmetic decide where
the machine stops. A list that it goes through is a row of trees in postorder, as
many as there are values left.
-/

namespace InfixCalculator

/-- Numbers less operators: what the tokens leave on the stack. -/
def surplus (tokens : List Token) : Int := numberCount tokens - operatorCount tokens

theorem surplus_append (first second : List Token) :
    surplus (first ++ second) = surplus first + surplus second := by
  simp only [surplus, numberCount, operatorCount, List.filterMap_append, List.length_append]
  omega

theorem surplus_cons (token : Token) (rest : List Token) :
    surplus (token :: rest) = surplus [token] + surplus rest := surplus_append [token] rest

theorem operator_count_append (first second : List Token) :
    operatorCount (first ++ second) = operatorCount first + operatorCount second := by
  rw [operatorCount, List.filterMap_append, List.length_append, operatorCount, operatorCount]

theorem surplus_operator (operator : Operator) : surplus [.operator operator] = -1 := rfl

theorem surplus_lowered {Value : Type} (right left value : Value) (below : List Value)
    (operator : Operator) :
    ((right :: left :: below).length : Int) + surplus [.operator operator] =
      ((value :: below).length : Int) := by
  simp only [List.length_cons, surplus_operator]
  omega

theorem surplus_postorder (tree : InfixTree) : surplus tree.postorder = 1 := by
  induction tree with
  | number value => rfl
  | binary operator left right leftInduction rightInduction =>
      rw [InfixTree.postorder, surplus_append, surplus_append, leftInduction, rightInduction,
        surplus_operator]
      rfl

namespace InfixTree

/-- What is read back and the trees that were there before spell the same tokens. -/
theorem postorder_of_assemble {trees read : List InfixTree} {tokens : List Token}
    (assembled : assemble trees tokens = some read) :
    trees.reverse.flatMap postorder ++ tokens = read.reverse.flatMap postorder := by
  fun_induction assemble trees tokens with
  | case1 trees =>
      cases assembled
      exact List.append_nil _
  | case2 trees value rest induction =>
      rw [← induction assembled]
      simp [postorder]
  | case3 right left trees operator rest induction =>
      rw [← induction assembled]
      simp [postorder]
  | case4 => contradiction

end InfixTree

namespace Call

def log (operation : Operation) (answer : Except ArithmeticFailure Binary64)
    (calls : List Call) : List Call :=
  calls ++ [⟨operation, answer⟩]

def operator? (call : Call) : Option Operator :=
  match call.operation with
  | .binary operator _ _ => some operator
  | .unary _ _ => none

end Call

/-- One call for each operator, in the order of the tokens, up to the first call that
is refused. -/
structure Orderly (tokens : List Token) (calls : List Call) : Prop where
  operators : calls.map Call.operator? <+: (tokens.filterMap Token.operator?).map some
  refusedLast : ∀ early call late cause, calls = early ++ call :: late →
    call.answer = .error cause → late = []

theorem orderly_without (tokens : List Token) : Orderly tokens [] where
  operators := List.nil_prefix
  refusedLast := by simp

theorem orderly_number {tokens : List Token} {calls : List Call}
    (orderly : Orderly tokens calls) (value : Binary64) :
    Orderly (.number value :: tokens) calls := ⟨orderly.operators, orderly.refusedLast⟩

theorem orderly_operator {tokens : List Token} {calls : List Call}
    (orderly : Orderly tokens calls) (operator : Operator) (left right value : Binary64) :
    Orderly (.operator operator :: tokens)
      (⟨.binary operator left right, .ok value⟩ :: calls) where
  operators := List.cons_prefix_cons.2 ⟨rfl, orderly.operators⟩
  refusedLast early call late cause split refused := by
    cases early with
    | nil =>
        obtain ⟨rfl, -⟩ := List.cons.inj split
        contradiction
    | cons first early =>
        exact orderly.refusedLast early call late cause (List.cons.inj split).2 refused

theorem orderly_refused (tokens : List Token) (operator : Operator) (left right : Binary64)
    (cause : ArithmeticFailure) :
    Orderly (.operator operator :: tokens) [⟨.binary operator left right, .error cause⟩] where
  operators := List.cons_prefix_cons.2 ⟨rfl, List.nil_prefix⟩
  refusedLast early call late cause split refused := by
    have length := congrArg List.length split
    simp only [List.length_append, List.length_cons, List.length_nil] at length
    exact List.length_eq_zero_iff.1 (by omega)

namespace StackMachine

/-- The machine goes on behind a number, and behind an operator that finds its two
values and whose call is answered with a value. The calls are those that are made
from the token on, and the height is that of the stack in front of it. -/
inductive GoesOn (height : Int) : Token → List Call → Prop where
  | number (value : Binary64) (calls : List Call) : GoesOn height (.number value) calls
  | operator (operator : Operator) (left right value : Binary64) (later : List Call)
      (enough : 2 ≤ height) :
      GoesOn height (.operator operator) (⟨.binary operator left right, .ok value⟩ :: later)

/-- The machine stops at a parenthesis and at an operator that lacks a value, without
a call, and at an operator whose call is refused, which is then the last call. -/
inductive Stops (cause : EvaluationFailure) (height : Int) : Token → List Call → Prop where
  | leftParen (unexpected : cause = .unexpectedToken .leftParen) :
      Stops cause height .leftParen []
  | rightParen (unexpected : cause = .unexpectedToken .rightParen) :
      Stops cause height .rightParen []
  | operandMissing (operator : Operator) (few : height < 2)
      (missing : cause = .missingOperand operator) : Stops cause height (.operator operator) []
  | refused (operator : Operator) (left right : Binary64) (refusal : ArithmeticFailure)
      (enough : 2 ≤ height) (passedOn : cause = .arithmetic refusal) :
      Stops cause height (.operator operator) [⟨.binary operator left right, .error refusal⟩]

/-- A condition on the token at a position, with the height of the stack in front of it
and the calls from it on. At the start of the list the stack has the given height. -/
def HoldsAt (condition : Int → Token → List Call → Prop) (height : Int) (tokens : List Token)
    (calls : List Call) (position : Nat) : Prop :=
  ∃ token, tokens[position]? = some token ∧
    condition (height + surplus (tokens.take position)) token
      (calls.drop (operatorCount (tokens.take position)))

section

variable {condition : Int → Token → List Call → Prop} {height : Int} {token : Token}
  {tokens : List Token} {calls : List Call}

theorem holds_at_first :
    HoldsAt condition height (token :: tokens) calls 0 ↔ condition height token calls := by
  have empty : surplus [] = 0 := rfl
  simp [HoldsAt, empty, operatorCount]

theorem holds_at_later {position : Nat} :
    HoldsAt condition height (token :: tokens) calls (position + 1) ↔
      HoldsAt condition (height + surplus [token]) tokens (calls.drop (operatorCount [token]))
        position := by
  have counted := operator_count_append [token] (tokens.take position)
  rw [List.singleton_append] at counted
  simp only [HoldsAt, List.getElem?_cons_succ, List.take_succ_cons]
  rw [surplus_cons, counted, List.drop_drop, Int.add_assoc]

end

/-- How a run ends: at the first position where it stops, or with a stack of the height
that the tokens leave, after one call for each operator. -/
inductive Course (height : Int) (tokens : List Token) (calls : List Call) :
    Except EvaluationFailure Binary64 → Prop where
  | stopped {position : Nat} {cause : EvaluationFailure}
      (earlier : ∀ before < position, HoldsAt GoesOn height tokens calls before)
      (stops : HoldsAt (Stops cause) height tokens calls position) :
      Course height tokens calls (.error cause)
  | finished {stack : List Binary64}
      (throughout : ∀ position < tokens.length, HoldsAt GoesOn height tokens calls position)
      (counted : calls.length = operatorCount tokens)
      (left : stack.length = height + surplus tokens) :
      Course height tokens calls (result stack : Evaluation Id Binary64).run

section

variable {height : Int} {token : Token} {tokens : List Token} {calls : List Call}
  {ending : Except EvaluationFailure Binary64}

theorem goes_on_counted (goesOn : GoesOn height token calls) :
    operatorCount [token] ≤ calls.length := by
  cases goesOn with
  | number value calls => exact Nat.zero_le _
  | operator operator left right value later enough => exact Nat.le_add_left 1 _

theorem course_behind (goesOn : GoesOn height token calls)
    (course : Course (height + surplus [token]) tokens (calls.drop (operatorCount [token]))
      ending) : Course height (token :: tokens) calls ending := by
  have extend {bound : Nat} (earlier : ∀ before < bound,
        HoldsAt GoesOn (height + surplus [token]) tokens (calls.drop (operatorCount [token]))
          before) :
      ∀ before < bound + 1, HoldsAt GoesOn height (token :: tokens) calls before := by
    intro before within
    cases before with
    | zero => exact holds_at_first.2 goesOn
    | succ before => exact holds_at_later.2 (earlier before (Nat.lt_of_succ_lt_succ within))
  cases course with
  | stopped earlier stops => exact .stopped (extend earlier) (holds_at_later.2 stops)
  | finished throughout counted left =>
      refine .finished (extend throughout) ?_ ?_
      · have made := goes_on_counted goesOn
        have total := operator_count_append [token] tokens
        rw [List.length_drop] at counted
        rw [List.singleton_append] at total
        omega
      · rw [left, surplus_cons token tokens, Int.add_assoc]

theorem course_stopped {cause : EvaluationFailure} (stops : Stops cause height token calls) :
    Course height (token :: tokens) calls (.error cause) :=
  .stopped (fun _ below => absurd below (Nat.not_lt_zero _)) (holds_at_first.2 stops)

end

section

variable {State : Type} (arithmetic : Arithmetic (StateM State))

theorem perform_logged (operation : Operation) (log : List Call) (state : State) :
    (((noting Call.log arithmetic).perform operation).run.run log).run state =
      ((((arithmetic operation).run.run state).1.mapError .arithmetic,
        log ++ [⟨operation, ((arithmetic operation).run.run state).1⟩]),
        ((arithmetic operation).run.run state).2) := by
  rw [noting_perform]
  rfl

/-- By induction on the tokens. One token changes the height by what it leaves, and the
calls behind it are those of the rest. -/
theorem run_course (stack : List Binary64) (tokens : List Token) (log : List Call) (state : State) :
    ∃ ending calls later,
      ((run (noting Call.log arithmetic) stack tokens).run.run log).run state =
          ((ending, log ++ calls), later) ∧
        Course stack.length tokens calls ending ∧ Orderly tokens calls := by
  induction tokens generalizing stack log state with
  | nil =>
      refine ⟨(result stack : Evaluation Id Binary64).run, [], state, ?_, .finished ?_ rfl ?_,
        orderly_without []⟩
      · rw [List.append_nil]
        rcases stack with _ | ⟨only, _ | _⟩ <;> rfl
      · exact nofun
      · exact (Int.add_zero _).symm
  | cons token tokens induction =>
      cases token with
      | number value =>
          obtain ⟨ending, calls, later, ran, course, orderly⟩ :=
            induction (value :: stack) log state
          exact ⟨ending, calls, later, ran, course_behind (.number value calls) course,
            orderly_number orderly value⟩
      | leftParen =>
          refine ⟨_, [], state, ?_, course_stopped (.leftParen rfl), orderly_without _⟩
          rw [List.append_nil, run]
          rfl
      | rightParen =>
          refine ⟨_, [], state, ?_, course_stopped (.rightParen rfl), orderly_without _⟩
          rw [List.append_nil, run]
          rfl
      | operator operator =>
          rcases stack with _ | ⟨right, _ | ⟨left, stack⟩⟩
          · refine ⟨_, [], state, ?_, course_stopped (.operandMissing operator (by simp) rfl),
              orderly_without _⟩
            rw [List.append_nil]
            rfl
          · refine ⟨_, [], state, ?_, course_stopped (.operandMissing operator (by simp) rfl),
              orderly_without _⟩
            rw [List.append_nil]
            rfl
          · have enough : 2 ≤ ((right :: left :: stack).length : Int) := by
              simp only [List.length_cons]
              omega
            have performed := perform_logged arithmetic (.binary operator left right) log state
            simp only [run]
            rw [ExceptT.run_bind, StateT.run_bind, StateT.run_bind, performed]
            -- The calls behind this one are those of the rest of the run, if it goes on.
            cases answer : ((arithmetic (.binary operator left right)).run.run state).1 with
            | error refusal =>
                exact ⟨_, _, _, rfl,
                  course_stopped (.refused operator left right refusal enough rfl),
                  orderly_refused tokens operator left right refusal⟩
            | ok value =>
                obtain ⟨ending, calls, later, ran, course, orderly⟩ :=
                  induction (value :: stack) (log ++ [⟨.binary operator left right, .ok value⟩])
                    ((arithmetic (.binary operator left right)).run.run state).2
                refine ⟨ending, ⟨.binary operator left right, .ok value⟩ :: calls, later, ?_, ?_,
                  orderly_operator orderly operator left right value⟩
                · rw [List.append_assoc] at ran
                  exact ran
                · apply course_behind (.operator operator left right value calls enough)
                  rw [surplus_lowered right left value]
                  exact course

end

/-- A list that the machine goes through is read back as a row of trees. -/
theorem assemble_of_goes_on {trees : List InfixTree} {tokens : List Token} {calls : List Call}
    (throughout : ∀ position < tokens.length,
      HoldsAt GoesOn trees.length tokens calls position) :
    ∃ read, InfixTree.assemble trees tokens = some read ∧
      read.length = trees.length + surplus tokens := by
  induction tokens generalizing trees calls with
  | nil => exact ⟨trees, rfl, (Int.add_zero _).symm⟩
  | cons token tokens induction =>
      have first := holds_at_first.1 (throughout 0 (Nat.zero_lt_succ _))
      have others (position : Nat) (within : position < tokens.length) :=
        holds_at_later.1 (throughout (position + 1) (Nat.succ_lt_succ within))
      rw [surplus_cons, ← Int.add_assoc]
      cases first with
      | number value calls => exact @induction (.number value :: trees) _ others
      | operator operator left right value later enough =>
          rcases trees with _ | ⟨second, _ | ⟨first, trees⟩⟩
          · contradiction
          · contradiction
          · rw [surplus_lowered second first (.binary operator first second)] at others ⊢
            exact induction others

/-- From an empty stack these trees, one after the other, are the whole list. -/
theorem exists_trees {tokens : List Token} {calls : List Call}
    (throughout : ∀ position < tokens.length, HoldsAt GoesOn 0 tokens calls position) :
    ∃ trees : List InfixTree, tokens = trees.flatMap InfixTree.postorder ∧
      trees.length = surplus tokens := by
  obtain ⟨read, assembled, counted⟩ := @assemble_of_goes_on [] tokens calls throughout
  refine ⟨read.reverse, InfixTree.postorder_of_assemble assembled, ?_⟩
  rw [List.length_reverse, counted]
  exact Int.zero_add _

theorem result_empty_iff {stack : List Binary64} :
    (result stack : Evaluation Id Binary64).run = .error .empty ↔ stack = [] := by
  rcases stack with _ | ⟨only, _ | ⟨second, below⟩⟩
  · exact iff_of_true rfl rfl
  · exact iff_of_false nofun nofun
  · exact iff_of_false nofun nofun

theorem result_dangling_iff {stack : List Binary64} {count : Nat} :
    (result stack : Evaluation Id Binary64).run = .error (.danglingOperands count) ↔
      2 ≤ count ∧ count = stack.length := by
  rcases stack with _ | ⟨only, _ | ⟨second, below⟩⟩
  · refine iff_of_false nofun ?_
    simp only [List.length_nil]
    omega
  · refine iff_of_false nofun ?_
    simp only [List.length_cons, List.length_nil]
    omega
  · simp only [List.length_cons]
    constructor
    · intro dangling
      cases dangling
      refine ⟨?_, rfl⟩
      simp only [List.length_cons]
      omega
    · rintro ⟨-, rfl⟩
      rfl

/-- Of the lists that the machine goes through, those that leave one value are the
trees in postorder. -/
theorem surplus_one_iff {tokens : List Token} {calls : List Call}
    (throughout : ∀ position < tokens.length, HoldsAt GoesOn 0 tokens calls position) :
    surplus tokens = 1 ↔ ∃ tree : InfixTree, tokens = tree.postorder := by
  constructor
  · intro one
    obtain ⟨trees, row, counted⟩ := exists_trees throughout
    obtain ⟨tree, rfl⟩ := List.length_eq_one_iff.1 (show trees.length = 1 by omega)
    exact ⟨tree, row.trans (List.flatMap_singleton ..)⟩
  · rintro ⟨tree, rfl⟩
    exact surplus_postorder tree

theorem surplus_zero_iff {tokens : List Token} {calls : List Call}
    (throughout : ∀ position < tokens.length, HoldsAt GoesOn 0 tokens calls position) :
    surplus tokens = 0 ↔ tokens = [] := by
  constructor
  · intro none
    obtain ⟨trees, row, counted⟩ := exists_trees throughout
    obtain rfl := List.length_eq_zero_iff.1 (show trees.length = 0 by omega)
    exact row
  · rintro rfl
    rfl

end StackMachine

open StackMachine

/-- With its calls in a log or without, evaluation from an empty stack takes the same
course. -/
theorem evaluate_postfix_ends {State : Type} (arithmetic : Arithmetic (StateM State))
    (tokens : List Token) (state : State) :
    ∃ ending calls later,
      ((evaluatePostfix (noting Call.log arithmetic) tokens).run.run []).run state =
          ((ending, calls), later) ∧
        (evaluatePostfix arithmetic tokens).run.run state = (ending, later) ∧
        Course 0 tokens calls ending ∧ Orderly tokens calls := by
  obtain ⟨ending, calls, later, ran, course, orderly⟩ := run_course arithmetic [] tokens [] state
  rw [List.nil_append, ← evaluatePostfix] at ran
  have dropped := (droppingState (List Call) (StateM State)).evaluate_tokens
    (noting_perform_dropped Call.log arithmetic) tokens []
  refine ⟨ending, calls, later, ran, ?_, course, orderly⟩
  rw [← dropped, StateT.run_map, ran]
  rfl

/-- Where the machine stops on a list and what it makes of a list that it goes through,
with the calls it makes on the way. -/
theorem evaluate_postfix_course {State : Type} (arithmetic : Arithmetic (StateM State))
    (tokens : List Token) (state : State) :
    ∃ ending calls later,
      ((evaluatePostfix (noting Call.log arithmetic) tokens).run.run []).run state =
          ((ending, calls), later) ∧
        (evaluatePostfix arithmetic tokens).run.run state = (ending, later) ∧
        calls.map Call.operator? <+: (tokens.filterMap Token.operator?).map some ∧
        (∀ early call others cause, calls = early ++ call :: others →
          call.answer = .error cause → others = []) ∧
        ((∃ position cause, (∀ earlier < position, HoldsAt GoesOn 0 tokens calls earlier) ∧
            HoldsAt (Stops cause) 0 tokens calls position ∧ ending = .error cause) ∨
          (∀ position < tokens.length, HoldsAt GoesOn 0 tokens calls position) ∧
            calls.length = operatorCount tokens ∧
            (ending = .error .empty ↔ tokens = []) ∧
            (∀ count : Nat, ending = .error (.danglingOperands count) ↔
              2 ≤ count ∧ count = surplus tokens) ∧
            (surplus tokens = 1 ↔ ∃ tree : InfixTree, tokens = tree.postorder) ∧
            ∀ tree : InfixTree, tokens = tree.postorder →
              (∀ other : InfixTree, tokens = other.postorder → other = tree) ∧
              (∃ value, ending = .ok value) ∧
              (tree.value arithmetic).run.run state = (ending, later) ∧
              ((tree.value (noting Call.log arithmetic)).run.run []).run state =
                ((ending, calls), later)) := by
  obtain ⟨ending, calls, later, ran, plain, course, orderly⟩ :=
    evaluate_postfix_ends arithmetic tokens state
  refine ⟨ending, calls, later, ran, plain, orderly.operators, orderly.refusedLast, ?_⟩
  cases course with
  | stopped earlier stops => exact .inl ⟨_, _, earlier, stops, rfl⟩
  | @finished stack throughout counted left =>
      rw [Int.zero_add] at left
      refine .inr ⟨throughout, counted, ?_, fun count => ?_, surplus_one_iff throughout, ?_⟩
      · rw [result_empty_iff, ← surplus_zero_iff throughout, ← left, ← List.length_eq_zero_iff]
        omega
      · rw [result_dangling_iff, ← left]
        omega
      · rintro tree rfl
        rw [surplus_postorder] at left
        obtain ⟨value, rfl⟩ := List.length_eq_one_iff.1 (show stack.length = 1 by omega)
        rw [evaluate_postfix_postorder] at ran plain
        refine ⟨fun other same => ?_, ⟨value, rfl⟩, plain, ran⟩
        exact InfixTree.postorder_injective same.symm

end InfixCalculator
