import InfixCalculator.Proofs.Conservation
import InfixCalculator.Proofs.InfixGrammar
import InfixCalculator.StackMachine
import Mathlib.Data.List.Chain

/-!
Which token lists pass both the arrangement and the stack machine. Neither looks
at neighbouring tokens, so `2 3 +` passes although it is no infix expression. The
accepted lists that are not expressions are exactly those in which an operand is
directly followed by another one.
-/

namespace InfixCalculator

namespace Token

def startsOperand : Token → Bool
  | .number _ => true
  | .leftParen => true
  | _ => false

def endsOperand : Token → Bool
  | .number _ => true
  | .rightParen => true
  | _ => false

end Token

def OperandsApart (tokens : List Token) : Prop :=
  tokens.IsChain fun earlier later => ¬(earlier.endsOperand ∧ later.startsOperand)

instance (tokens : List Token) : Decidable (OperandsApart tokens) :=
  inferInstanceAs (Decidable (tokens.IsChain _))

theorem operands_apart_cons {token : Token} {rest : List Token} :
    OperandsApart (token :: rest) ↔
      (token.endsOperand → ∀ next ∈ rest.head?, next.startsOperand = false) ∧
        OperandsApart rest := by
  simp only [OperandsApart, List.isChain_cons, not_and, Bool.not_eq_true]
  constructor
  · intro chain
    rcases chain with ⟨apart, others⟩
    exact ⟨fun ends next member => apart next member ends, others⟩
  · intro both
    rcases both with ⟨apart, others⟩
    exact ⟨fun next member ends => apart ends next member, others⟩

theorem well_formed_apart {kind : PhraseKind} {tokens : List Token}
    (wellFormed : WellFormed kind tokens) : OperandsApart tokens := by
  induction wellFormed with
  | number value => simp [OperandsApart]
  | group expression induction =>
      refine operands_apart_cons.2 ⟨nofun, List.isChain_append.2 ⟨induction, by simp, ?_⟩⟩
      intro earlier _ later member
      cases member
      simp [Token.startsOperand]
  | single operand induction => exact induction
  | extend operator expression operand expressionInduction operandInduction =>
      refine List.isChain_append.2 ⟨expressionInduction, ?_, ?_⟩
      · exact operands_apart_cons.2 ⟨nofun, operandInduction⟩
      · intro earlier _ later member
        cases member
        simp [Token.startsOperand]

def numberCount (tokens : List Token) : Nat := (tokens.filterMap Token.number?).length

def operatorCount (tokens : List Token) : Nat := (tokens.filterMap Token.operator?).length

theorem number_count_cons (token : Token) (rest : List Token) :
    numberCount (token :: rest) = token.number?.toList.length + numberCount rest := by
  cases token <;> simp [numberCount, Token.number?, List.filterMap_cons, Nat.add_comm]

theorem operator_count_cons (token : Token) (rest : List Token) :
    operatorCount (token :: rest) = token.operator?.toList.length + operatorCount rest := by
  cases token <;> simp [operatorCount, Token.operator?, List.filterMap_cons, Nat.add_comm]

theorem exists_of_bind_ok {State First Second : Type} {first : Evaluation (StateM State) First}
    {next : First → Evaluation (StateM State) Second} {state : State} {result : Second}
    (finished : ((first >>= next).run.run state).1 = .ok result) :
    ∃ value later, ((next value).run.run later).1 = .ok result := by
  simp only [ExceptT.run_bind, StateT.run_bind] at finished
  cases answer : first.run.run state with
  | mk outcome later =>
      rw [answer] at finished
      cases outcome with
      | error cause => contradiction
      | ok value => exact ⟨value, later, finished⟩

/-- A run that ends in a value has used up all operands but that one, and every
operator uses up one. The arithmetic may keep any state. -/
theorem run_ok_count {State : Type} {arithmetic : Arithmetic (StateM State)}
    {stack : List Binary64} {tokens : List Token} {state : State} {value : Binary64}
    (finished : ((StackMachine.run arithmetic stack tokens).run.run state).1 = .ok value) :
    stack.length + numberCount tokens = operatorCount tokens + 1 := by
  induction tokens generalizing stack state with
  | nil =>
      rcases stack with _ | ⟨only, _ | ⟨second, below⟩⟩
      · contradiction
      · rfl
      · contradiction
  | cons token tokens induction =>
      rw [number_count_cons, operator_count_cons]
      cases token with
      | number pushed =>
          have counted := induction finished
          simp only [List.length_cons, Token.number?, Token.operator?, Option.toList] at counted ⊢
          simp only [List.length_nil]
          omega
      | operator kind =>
          rcases stack with _ | ⟨right, _ | ⟨left, below⟩⟩
          · contradiction
          · contradiction
          · obtain ⟨result, later, others⟩ := exists_of_bind_ok finished
            have counted := induction others
            simp only [List.length_cons, Token.number?, Token.operator?, Option.toList] at counted ⊢
            simp only [List.length_nil]
            omega
      | leftParen =>
          simp only [StackMachine.run] at finished
          contradiction
      | rightParen =>
          simp only [StackMachine.run] at finished
          contradiction

/-- Where operands stay apart there are at most as many of them as operators, and
one more where an operand is due. -/
theorem number_count_le (expecting : Bool) {tokens : List Token} (apart : OperandsApart tokens)
    (due : expecting = false → ∀ next ∈ tokens.head?, next.startsOperand = false) :
    numberCount tokens ≤ operatorCount tokens + expecting.toNat := by
  induction tokens generalizing expecting with
  | nil => exact Nat.zero_le _
  | cons token tokens induction =>
      obtain ⟨next, others⟩ := operands_apart_cons.1 apart
      rw [number_count_cons, operator_count_cons]
      cases token with
      | number value =>
          have counted := induction false others fun _ => next rfl
          cases expecting with
          | false => exact absurd (due rfl _ rfl) (by simp [Token.startsOperand])
          | true => simp [Token.number?, Token.operator?] at counted ⊢; omega
      | leftParen =>
          have counted := induction true others Bool.noConfusion
          cases expecting with
          | false => exact absurd (due rfl _ rfl) (by simp [Token.startsOperand])
          | true => simpa [Token.number?, Token.operator?] using counted
      | rightParen =>
          have counted := induction false others fun _ => next rfl
          simp [Token.number?, Token.operator?] at counted ⊢
          omega
      | operator kind =>
          have counted := induction true others Bool.noConfusion
          simp [Token.number?, Token.operator?] at counted ⊢
          omega

/-- The tokens read so far: contexts of open groups, the innermost first, and what
stands in the innermost group. -/
def enclose : List (List Token) → List Token → List Token
  | [], current => current
  | context :: outer, current => enclose outer (context ++ .leftParen :: current)

theorem enclose_append (outer : List (List Token)) (current rest : List Token) :
    enclose outer (current ++ rest) = enclose outer current ++ rest := by
  induction outer generalizing current with
  | nil => rfl
  | cons context outer induction =>
      simp only [enclose]
      rw [← induction]
      simp only [List.append_assoc, List.cons_append]

def AwaitsOperand (tokens : List Token) : Prop :=
  tokens = [] ∨
    ∃ front operator, WellFormed .expression front ∧ tokens = front ++ [.operator operator]

theorem well_formed_of_awaits {tokens operand : List Token} (awaits : AwaitsOperand tokens)
    (wellFormed : WellFormed .operand operand) : WellFormed .expression (tokens ++ operand) := by
  rcases awaits with rfl | ⟨front, operator, expression, rfl⟩
  · exact .single wellFormed
  · rw [List.append_assoc]
    exact .extend operator expression wellFormed

/-- What holds between two tokens of an accepted list with operands apart. The
tokens of `read` stand in the innermost open group, those of `rest` are ahead. -/
structure Halfway (expecting : Bool) (outer : List (List Token)) (read rest : List Token) :
    Prop where
  contexts : ∀ context ∈ outer, AwaitsOperand context
  phrase : if expecting then AwaitsOperand read else WellFormed .expression read
  apart : OperandsApart rest
  due : expecting = false → ∀ next ∈ rest.head?, next.startsOperand = false
  balanced : groupDepth outer.length rest = some 0
  counted : numberCount rest = operatorCount rest + expecting.toNat

namespace Halfway

variable {expecting : Bool} {outer : List (List Token)} {context read rest : List Token}

/-- An operand cannot follow another one, and with a second operator or a closing
parenthesis in the place of an operand the numbers ahead would be too few. -/
theorem expecting_eq {token : Token} (halfway : Halfway expecting outer read (token :: rest)) :
    expecting = token.startsOperand := by
  have counted := halfway.counted
  obtain ⟨next, others⟩ := operands_apart_cons.1 halfway.apart
  rw [number_count_cons, operator_count_cons] at counted
  cases expecting with
  | false => exact (halfway.due rfl token rfl).symm
  | true =>
      cases token with
      | number value => rfl
      | leftParen => rfl
      | rightParen =>
          have bound := number_count_le false others fun _ => next rfl
          simp [Token.number?, Token.operator?] at counted bound
          omega
      | operator kind =>
          have bound := number_count_le true others Bool.noConfusion
          simp [Token.number?, Token.operator?] at counted bound
          omega

theorem number {value : Binary64} (halfway : Halfway true outer read (.number value :: rest)) :
    Halfway false outer (read ++ [.number value]) rest where
  contexts := halfway.contexts
  phrase := well_formed_of_awaits halfway.phrase (.number value)
  apart := (operands_apart_cons.1 halfway.apart).2
  due _ := (operands_apart_cons.1 halfway.apart).1 rfl
  balanced := halfway.balanced
  counted := by
    have counted := halfway.counted
    rw [number_count_cons, operator_count_cons] at counted
    simp [Token.number?, Token.operator?] at counted ⊢
    omega

theorem opening (halfway : Halfway true outer read (.leftParen :: rest)) :
    Halfway true (read :: outer) [] rest where
  contexts := by
    intro context member
    rcases List.mem_cons.1 member with rfl | outside
    · exact halfway.phrase
    · exact halfway.contexts context outside
  phrase := .inl rfl
  apart := (operands_apart_cons.1 halfway.apart).2
  due := Bool.noConfusion
  balanced := halfway.balanced
  counted := by
    have counted := halfway.counted
    rw [number_count_cons, operator_count_cons] at counted
    simpa [Token.number?, Token.operator?] using counted

theorem closing (halfway : Halfway false (context :: outer) read (.rightParen :: rest)) :
    Halfway false outer (context ++ .leftParen :: read ++ [.rightParen]) rest where
  contexts other member := halfway.contexts other (List.mem_cons_of_mem _ member)
  phrase := by
    have group := well_formed_of_awaits (halfway.contexts context List.mem_cons_self)
      (.group halfway.phrase)
    rwa [← List.append_assoc] at group
  apart := (operands_apart_cons.1 halfway.apart).2
  due _ := (operands_apart_cons.1 halfway.apart).1 rfl
  balanced := halfway.balanced
  counted := by
    have counted := halfway.counted
    rw [number_count_cons, operator_count_cons] at counted
    simpa [Token.number?, Token.operator?] using counted

theorem operator {kind : Operator} (halfway : Halfway false outer read (.operator kind :: rest)) :
    Halfway true outer (read ++ [.operator kind]) rest where
  contexts := halfway.contexts
  phrase := .inr ⟨read, kind, halfway.phrase, rfl⟩
  apart := (operands_apart_cons.1 halfway.apart).2
  due := Bool.noConfusion
  balanced := halfway.balanced
  counted := by
    have counted := halfway.counted
    rw [number_count_cons, operator_count_cons] at counted
    simp [Token.number?, Token.operator?] at counted ⊢
    omega

theorem well_formed (halfway : Halfway expecting outer read rest) :
    WellFormed .expression (enclose outer read ++ rest) := by
  induction rest generalizing expecting outer read with
  | nil =>
      have counted := halfway.counted
      have balanced := halfway.balanced
      cases expecting with
      | true => simp [numberCount, operatorCount] at counted
      | false =>
          obtain rfl : outer = [] := by
            simpa [groupDepth, List.length_eq_zero_iff] using balanced
          simpa [enclose] using halfway.phrase
  | cons token rest induction =>
      have expected := halfway.expecting_eq
      subst expected
      cases token with
      | number value =>
          have extended := induction halfway.number
          rw [enclose_append] at extended
          simpa using extended
      | leftParen =>
          have opened := induction halfway.opening
          simp only [enclose] at opened
          rw [enclose_append] at opened
          simpa using opened
      | rightParen =>
          cases outer with
          | nil =>
              have balanced := halfway.balanced
              contradiction
          | cons context outer =>
              have closed := induction halfway.closing
              rw [enclose_append] at closed
              simpa [enclose] using closed
      | operator kind =>
          have extended := induction halfway.operator
          rw [enclose_append] at extended
          simpa using extended

end Halfway

/-- An accepted list is an infix expression exactly if its operands stay apart.
Both associativities and every arithmetic, with any state of its own, accept no
other lists that are not expressions than those with touching operands. -/
theorem accepted_expression_iff {State : Type} (power : Associativity)
    (arithmetic : Arithmetic (StateM State)) {tokens arranged : List Token} {state : State}
    {value : Binary64} (arrangement : toPostfix power tokens = .ok arranged)
    (evaluation : ((evaluatePostfix arithmetic arranged).run.run state).1 = .ok value) :
    WellFormed .expression tokens ↔ OperandsApart tokens := by
  constructor
  · exact well_formed_apart
  · intro apart
    have balanced := (to_postfix_ok_iff power tokens).1 ⟨arranged, arrangement⟩
    have machine := run_ok_count evaluation
    have numbers := congrArg List.length (Postfix.arrange_numbers arrangement)
    have operators := (Postfix.arrange_operators arrangement).length_eq
    have counted : numberCount tokens = operatorCount tokens + 1 := by
      simp only [numberCount, operatorCount, List.length_nil, List.filterMap_nil,
        List.nil_append] at machine operators ⊢
      omega
    have start : Halfway true [] [] tokens :=
      ⟨by simp, .inl rfl, apart, Bool.noConfusion, balanced, counted⟩
    exact start.well_formed

/-- `(2 + 3) * 4` is accepted and keeps its operands apart. -/
theorem accepted_expression_grouped :
    toPostfix .left [.leftParen, .number 2, .operator .add, .number 3, .rightParen,
        .operator .multiply, .number 4] =
        .ok [.number 2, .number 3, .operator .add, .number 4, .operator .multiply] ∧
      ((evaluatePostfix ((standardArithmetic .native defaultTangentTolerance).lift :
        Arithmetic (StateM Unit)) [.number 2, .number 3, .operator .add, .number 4,
          .operator .multiply]).run.run ()).1 = .ok 20 ∧
      WellFormed .expression [.leftParen, .number 2, .operator .add, .number 3, .rightParen,
        .operator .multiply, .number 4] := by
  have evaluation : ((evaluatePostfix ((standardArithmetic .native defaultTangentTolerance).lift :
      Arithmetic (StateM Unit)) [.number 2, .number 3, .operator .add, .number 4,
        .operator .multiply]).run.run ()).1 = .ok 20 := by
    decide +kernel
  exact ⟨rfl, evaluation, (accepted_expression_iff .left _ rfl evaluation).2 (by decide)⟩

/-- Two numbers and the operator behind them are accepted as well. -/
theorem postfix_order_accepted :
    toPostfix .left [.number 2, .number 3, .operator .add] =
        .ok [.number 2, .number 3, .operator .add] ∧
      ((evaluatePostfix ((standardArithmetic .native defaultTangentTolerance).lift :
        Arithmetic (StateM Unit)) [.number 2, .number 3, .operator .add]).run.run ()).1 = .ok 5 ∧
      ¬WellFormed .expression [.number 2, .number 3, .operator .add] := by
  refine ⟨rfl, by decide +kernel, ?_⟩
  intro wellFormed
  exact absurd (well_formed_apart wellFormed) (by decide)

end InfixCalculator
