import InfixCalculator.Token

/-!
Infix token lists as a language. The plain grammar says which lists are
expressions and leaves their grouping open. The grammar by levels adds
precedence and the grouping of the power operator: a phrase of some level holds
operators of that level or a higher one outside of its groups.
-/

namespace InfixCalculator

inductive PhraseKind where
  | operand
  | expression
  deriving DecidableEq, Repr

/-- An expression is an operand followed by any number of operators, each with
the operand to its right. An operand is a number or an expression in parentheses. -/
inductive WellFormed : PhraseKind → List Token → Prop where
  | number (value : Binary64) : WellFormed .operand [.number value]
  | group {inner : List Token} (expression : WellFormed .expression inner) :
      WellFormed .operand (.leftParen :: inner ++ [.rightParen])
  | single {tokens : List Token} (operand : WellFormed .operand tokens) :
      WellFormed .expression tokens
  | extend {front last : List Token} (operator : Operator)
      (expression : WellFormed .expression front) (operand : WellFormed .operand last) :
      WellFormed .expression (front ++ .operator operator :: last)

inductive InfixTree where
  | number (value : Binary64)
  | binary (operator : Operator) (left right : InfixTree)
  deriving DecidableEq

namespace Operator

/-- Level of the phrases that an operator makes: sums below products, and products
below powers. -/
def level : Operator → Nat
  | .add | .subtract => 1
  | .multiply | .divide | .modulo => 2
  | .power => 3

def leftLevel (power : Associativity) (operator : Operator) : Nat :=
  if operator = .power ∧ power = .right then 4 else operator.level

def rightLevel (power : Associativity) (operator : Operator) : Nat :=
  if operator = .power ∧ power = .right then 3 else operator.level + 1

/-- The precedence that the conversion goes by orders the operators as the levels of
the grammar do. -/
theorem precedence_le_iff (first second : Operator) :
    first.precedence ≤ second.precedence ↔ first.level ≤ second.level := by
  cases first <;> cases second <;> decide

theorem level_le_three (operator : Operator) : operator.level ≤ 3 := by
  cases operator <;> decide

theorem binds_before_iff (power : Associativity) (earlier later : Operator) :
    earlier.bindsBefore power later ↔ later.leftLevel power ≤ earlier.level := by
  unfold bindsBefore leftLevel
  split
  · rename_i grouped
    have bound := earlier.level_le_three
    rw [decide_eq_true_iff, ← Nat.not_le, precedence_le_iff, grouped.1]
    change ¬earlier.level ≤ 3 ↔ 4 ≤ earlier.level
    omega
  · rw [decide_eq_true_iff, precedence_le_iff]

theorem level_le_left_level (power : Associativity) (operator : Operator) :
    operator.level ≤ operator.leftLevel power := by
  cases power <;> cases operator <;> decide

theorem level_le_right_level (power : Associativity) (operator : Operator) :
    operator.level ≤ operator.rightLevel power := by
  cases power <;> cases operator <;> decide

/-- Of two neighbouring operators, either the later one belongs to the right
operand of the earlier one, or the earlier one to the left operand of the later. -/
theorem right_level_le_iff (power : Associativity) (earlier later : Operator) :
    earlier.rightLevel power ≤ later.level ↔ ¬later.leftLevel power ≤ earlier.level := by
  cases power <;> cases earlier <;> cases later <;> decide

end Operator

/-- The grammar by levels. Both operands of an operator are phrases of the level
that its side admits, and numbers and groups are phrases of every level. -/
inductive Derives (power : Associativity) : Nat → List Token → InfixTree → Prop where
  | number (level : Nat) (value : Binary64) : Derives power level [.number value] (.number value)
  | group {inner : List Token} {tree : InfixTree} (level : Nat)
      (expression : Derives power 0 inner tree) :
      Derives power level (.leftParen :: inner ++ [.rightParen]) tree
  | binary {leftTokens rightTokens : List Token} {left right : InfixTree} (level : Nat)
      (operator : Operator) (reaches : level ≤ operator.level)
      (leftPhrase : Derives power (operator.leftLevel power) leftTokens left)
      (rightPhrase : Derives power (operator.rightLevel power) rightTokens right) :
      Derives power level (leftTokens ++ .operator operator :: rightTokens)
        (.binary operator left right)

variable {power : Associativity}

/-- One more operator and operand behind a phrase give a phrase again. The
operator takes either the whole phrase or the right end of it as its left operand. -/
theorem derives_extend {level : Nat} {tokens last : List Token} {tree : InfixTree}
    (phrase : Derives power level tokens tree) (operator : Operator)
    (reaches : level ≤ operator.level)
    (operand : ∃ right, ∀ level, Derives power level last right) :
    ∃ extended, Derives power level (tokens ++ .operator operator :: last) extended := by
  rcases operand with ⟨right, operand⟩
  induction phrase with
  | number level value =>
      exact ⟨_, .binary level operator reaches (.number _ value) (operand _)⟩
  | group level expression =>
      exact ⟨_, .binary level operator reaches (.group _ expression) (operand _)⟩
  | binary level earlier earlierReaches leftPhrase rightPhrase leftInduction rightInduction =>
      by_cases bound : operator.leftLevel power ≤ earlier.level
      · exact ⟨_, .binary level operator reaches
          (.binary _ earlier bound leftPhrase rightPhrase) (operand _)⟩
      · have inside := (Operator.right_level_le_iff power earlier operator).2 bound
        obtain ⟨extended, rightExtended⟩ := rightInduction inside
        have whole := Derives.binary level earlier earlierReaches leftPhrase rightExtended
        rw [← List.cons_append, ← List.append_assoc] at whole
        exact ⟨_, whole⟩

/-- Every operand has a tree at all levels, and every expression at the lowest. -/
theorem exists_derivation (power : Associativity) {kind : PhraseKind} {tokens : List Token}
    (wellFormed : WellFormed kind tokens) :
    ∃ tree, Derives power 0 tokens tree ∧
      (kind = .operand → ∀ level, Derives power level tokens tree) := by
  induction wellFormed with
  | number value => exact ⟨_, .number 0 value, fun _ level => .number level value⟩
  | group expression induction =>
      rcases induction with ⟨tree, derived, -⟩
      exact ⟨tree, .group 0 derived, fun _ level => .group level derived⟩
  | single operand induction =>
      rcases induction with ⟨tree, derived, -⟩
      exact ⟨tree, derived, nofun⟩
  | extend operator expression operand expressionInduction operandInduction =>
      rcases expressionInduction with ⟨tree, derived, -⟩
      rcases operandInduction with ⟨right, -, operandDerived⟩
      obtain ⟨extended, whole⟩ :=
        derives_extend derived operator (Nat.zero_le _) ⟨right, operandDerived rfl⟩
      exact ⟨extended, whole, nofun⟩

namespace InfixTree

def postorder : InfixTree → List Token
  | .number value => [.number value]
  | .binary operator left right => left.postorder ++ (right.postorder ++ [.operator operator])

/-- Reads postorder back: operators join the two trees on top of a stack. -/
def assemble : List InfixTree → List Token → Option (List InfixTree)
  | stack, [] => some stack
  | stack, .number value :: rest => assemble (.number value :: stack) rest
  | right :: left :: stack, .operator operator :: rest =>
      assemble (.binary operator left right :: stack) rest
  | _, _ => none

theorem assemble_postorder (tree : InfixTree) (stack : List InfixTree) (rest : List Token) :
    assemble stack (tree.postorder ++ rest) = assemble (tree :: stack) rest := by
  induction tree generalizing stack rest with
  | number value => rfl
  | binary operator left right leftInduction rightInduction =>
      simp only [postorder, List.append_assoc]
      rw [leftInduction, rightInduction]
      rfl

theorem postorder_injective {first second : InfixTree}
    (same : first.postorder = second.postorder) : first = second := by
  have firstRead := assemble_postorder first [] []
  have secondRead := assemble_postorder second [] []
  rw [same, secondRead] at firstRead
  simpa [assemble] using firstRead.symm

end InfixTree

end InfixCalculator
