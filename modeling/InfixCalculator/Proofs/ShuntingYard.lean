import InfixCalculator.Postfix
import InfixCalculator.Proofs.InfixGrammar

/-!
The arrangement of an expression is the postorder of its tree. The stack that a
phrase leaves behind depends on what follows it, so the main lemma speaks of a
phrase in its place: operators that wait below the phrase stay, and the next
token releases everything that the phrase has pushed.
-/

namespace InfixCalculator

namespace Postfix

variable {power : Associativity}

theorem release_before_under (incoming : Operator) (own outer : List Pending) :
    releaseBefore power incoming (own ++ .group :: outer) =
      ((releaseBefore power incoming own).1,
        (releaseBefore power incoming own).2 ++ .group :: outer) := by
  induction own with
  | nil => rfl
  | cons pending own induction =>
      cases pending with
      | group => rfl
      | operator top =>
          simp only [List.cons_append, releaseBefore]
          split
          · rw [induction]
          · rfl

theorem close_group_under {own kept : List Pending} {released : List Token}
    (closed : closeGroup own = .ok (released, kept)) (outer : List Pending) :
    closeGroup (own ++ .group :: outer) = .ok (released, kept ++ .group :: outer) := by
  induction own generalizing released with
  | nil => contradiction
  | cons pending own induction =>
      cases pending with
      | group =>
          cases closed
          rfl
      | operator top =>
          obtain ⟨⟨inner, below⟩, found, same⟩ := exists_of_map_ok closed
          cases same
          simp only [List.cons_append, closeGroup]
          rw [induction found]
          rfl

theorem close_group_of_release_all {own : List Pending} {released : List Token}
    (done : releaseAll own = .ok released) (outer : List Pending) :
    closeGroup (own ++ .group :: outer) = .ok (released, outer) := by
  induction own generalizing released with
  | nil =>
      cases done
      rfl
  | cons pending own induction =>
      cases pending with
      | group => contradiction
      | operator top =>
          obtain ⟨inner, found, rfl⟩ := exists_of_map_ok done
          simp only [List.cons_append, closeGroup]
          rw [induction found]
          rfl

/-- What can be arranged on its own is arranged in the same way above an open
group, and the parenthesis that closes the group leaves nothing of it behind. -/
theorem arrange_under {own : List Pending} {tokens arranged : List Token}
    (alone : arrange power own tokens = .ok arranged) (outer : List Pending) (rest : List Token) :
    arrange power (own ++ .group :: outer) (tokens ++ .rightParen :: rest) =
      (arrange power outer rest).map (arranged ++ ·) := by
  induction tokens generalizing own arranged with
  | nil =>
      simp only [List.nil_append, arrange]
      rw [close_group_of_release_all alone]
  | cons token tokens induction =>
      cases token with
      | number value =>
          obtain ⟨others, found, rfl⟩ := exists_of_map_ok alone
          simp only [List.cons_append, arrange]
          rw [induction found, map_map_answer]
      | leftParen =>
          simp only [List.cons_append, arrange]
          exact @induction (.group :: own) arranged alone
      | rightParen =>
          simp only [arrange] at alone
          split at alone
          · contradiction
          · rename_i released kept closed
            obtain ⟨others, found, rfl⟩ := exists_of_map_ok alone
            simp only [List.cons_append, arrange]
            rw [close_group_under closed]
            simp only
            rw [induction found, map_map_answer]
            simp only [List.append_assoc]
      | operator incoming =>
          simp only [arrange] at alone
          obtain ⟨others, found, rfl⟩ := exists_of_map_ok alone
          simp only [List.cons_append, arrange]
          rw [release_before_under]
          simp only
          rw [← List.cons_append, induction found, map_map_answer]
          simp only [List.append_assoc]

/-- A group is a closed unit: whatever stands around it, its own arrangement is
put in front of the rest. -/
theorem arrange_group {inner arranged : List Token} (alone : toPostfix power inner = .ok arranged)
    (stack : List Pending) (rest : List Token) :
    arrange power stack (.leftParen :: inner ++ .rightParen :: rest) =
      (arrange power stack rest).map (arranged ++ ·) :=
  @arrange_under power [] inner arranged alone stack rest

/-- The operator on top of the stack takes a phrase of this level as its right
operand. -/
def Admits (power : Associativity) (level : Nat) : List Pending → Prop
  | .operator top :: _ => top.rightLevel power ≤ level
  | _ => True

/-- What follows a phrase of this level takes no part of it away. -/
def Settles (power : Associativity) (level : Nat) : List Token → Prop
  | [] => True
  | .rightParen :: _ => True
  | .operator operator :: _ => operator.leftLevel power ≤ level
  | _ => False

theorem settles_mono {lower upper : Nat} {rest : List Token} (order : lower ≤ upper)
    (settled : Settles power lower rest) : Settles power upper rest := by
  cases rest with
  | nil => trivial
  | cons token rest =>
      cases token with
      | operator operator => exact Nat.le_trans settled order
      | rightParen => trivial
      | number value => contradiction
      | leftParen => contradiction

theorem admits_mono {lower upper : Nat} {stack : List Pending} (order : lower ≤ upper)
    (admitted : Admits power lower stack) : Admits power upper stack := by
  cases stack with
  | nil => trivial
  | cons pending stack =>
      cases pending with
      | operator top => exact Nat.le_trans admitted order
      | group => trivial

/-- An operator leaves what waits for it to become part of its right operand. -/
theorem release_before_admitted {operator : Operator} {stack : List Pending}
    (admitted : Admits power operator.level stack) :
    releaseBefore power operator stack = ([], stack) := by
  cases stack with
  | nil => rfl
  | cons pending stack =>
      cases pending with
      | group => rfl
      | operator top =>
          have later := (Operator.right_level_le_iff power top operator).1 admitted
          rw [← Operator.binds_before_iff] at later
          simp only [releaseBefore]
          rw [if_neg later]

theorem arrange_settled {operator : Operator} {rest : List Token}
    (settled : Settles power operator.level rest) (stack : List Pending) :
    arrange power (.operator operator :: stack) rest =
      (arrange power stack rest).map (.operator operator :: ·) := by
  cases rest with
  | nil => rfl
  | cons token rest =>
      cases token with
      | number value => contradiction
      | leftParen => contradiction
      | rightParen =>
          simp only [arrange, closeGroup]
          cases closeGroup stack with
          | error cause => rfl
          | ok answer =>
              simp only [Except.map]
              cases arrange power answer.2 rest <;> rfl
      | operator incoming =>
          have earlier := (Operator.binds_before_iff power operator incoming).2 settled
          simp only [arrange, releaseBefore]
          rw [if_pos earlier, map_map_answer]
          rfl

/-- A phrase in its place contributes the postorder of its tree and leaves the
stack as it was. -/
theorem arrange_phrase {level : Nat} {tokens : List Token} {tree : InfixTree}
    (phrase : Derives power level tokens tree) {stack : List Pending} {rest : List Token}
    (admitted : Admits power level stack) (settled : Settles power level rest) :
    arrange power stack (tokens ++ rest) =
      (arrange power stack rest).map (tree.postorder ++ ·) := by
  induction phrase generalizing stack rest with
  | number level value => rfl
  | group level expression induction =>
      rename_i inner tree
      have alone : toPostfix power inner = .ok tree.postorder := by
        have whole := @induction [] [] trivial trivial
        simpa [arrange, releaseAll, Except.map, toPostfix] using whole
      simp only [List.cons_append, List.append_assoc, List.nil_append]
      exact arrange_group alone stack rest
  | @binary leftTokens rightTokens left right level operator reaches leftPhrase rightPhrase
      leftInduction rightInduction =>
      have levelLeft := Operator.level_le_left_level power operator
      have levelRight := Operator.level_le_right_level power operator
      have leftAdmitted : Admits power (operator.leftLevel power) stack :=
        admits_mono (Nat.le_trans reaches levelLeft) admitted
      have leftSettled : Settles power (operator.leftLevel power)
          (.operator operator :: (rightTokens ++ rest)) := Nat.le_refl _
      have rightAdmitted : Admits power (operator.rightLevel power) (.operator operator :: stack) :=
        Nat.le_refl _
      have rightSettled := settles_mono (Nat.le_trans reaches levelRight) settled
      rw [List.append_assoc, List.cons_append, leftInduction leftAdmitted leftSettled]
      simp only [arrange]
      rw [release_before_admitted (admits_mono reaches admitted)]
      simp only
      rw [rightInduction rightAdmitted rightSettled, arrange_settled (settles_mono reaches settled)]
      simp only [map_map_answer]
      simp only [InfixTree.postorder, List.append_assoc, List.cons_append, List.nil_append]

/-- Tokens in front of others either fail whatever follows, or release some tokens
and leave a stack on which the others go on. -/
theorem arrange_prefix (power : Associativity) (stack : List Pending) (front : List Token) :
    (∃ cause, ∀ rest, arrange power stack (front ++ rest) = .error cause) ∨
      ∃ released kept, ∀ rest,
        arrange power stack (front ++ rest) = (arrange power kept rest).map (released ++ ·) := by
  induction front generalizing stack with
  | nil => exact .inr ⟨[], stack, fun rest => (map_id_answer _).symm⟩
  | cons token front induction =>
      -- What one token releases goes in front of what the tail does.
      have extend (first : List Token) (below : List Pending)
          (step : ∀ rest, arrange power stack (token :: (front ++ rest)) =
            (arrange power below (front ++ rest)).map (first ++ ·)) :
          (∃ cause, ∀ rest, arrange power stack (token :: front ++ rest) = .error cause) ∨
            ∃ released kept, ∀ rest, arrange power stack (token :: front ++ rest) =
              (arrange power kept rest).map (released ++ ·) := by
        rcases induction below with ⟨cause, failed⟩ | ⟨released, kept, arranged⟩
        · refine .inl ⟨cause, fun rest => ?_⟩
          rw [List.cons_append, step, failed]
          rfl
        · refine .inr ⟨first ++ released, kept, fun rest => ?_⟩
          rw [List.cons_append, step, arranged, map_map_answer]
          simp only [List.append_assoc]
      cases token with
      | number value => exact extend [.number value] stack fun rest => rfl
      | leftParen => exact extend [] (.group :: stack) fun rest => (map_id_answer _).symm
      | rightParen =>
          cases closed : closeGroup stack with
          | error cause =>
              refine .inl ⟨cause, fun rest => ?_⟩
              simp only [List.cons_append, arrange]
              rw [closed]
          | ok answer =>
              apply extend answer.1 answer.2
              intro rest
              simp only [arrange]
              rw [closed]
      | operator incoming =>
          exact extend (releaseBefore power incoming stack).1
            (.operator incoming :: (releaseBefore power incoming stack).2) fun rest => rfl

theorem to_postfix_congr {first second : List Token}
    (alike : ∀ stack, arrange power stack first = arrange power stack second)
    (before : List Token) :
    toPostfix power (before ++ first) = toPostfix power (before ++ second) := by
  unfold toPostfix
  rcases arrange_prefix power [] before with ⟨cause, failed⟩ | ⟨released, kept, arranged⟩
  · rw [failed, failed]
  · rw [arranged, arranged, alike]

end Postfix

theorem to_postfix_phrase {power : Associativity} {tokens : List Token} {tree : InfixTree}
    (phrase : Derives power 0 tokens tree) : toPostfix power tokens = .ok tree.postorder := by
  have whole := @Postfix.arrange_phrase power 0 tokens tree phrase [] [] trivial trivial
  simpa [Postfix.arrange, Postfix.releaseAll, Except.map, toPostfix] using whole

/-- An operand in one more pair of parentheses is arranged as without them,
whatever stands around it. -/
theorem to_postfix_wrapped_operand (power : Associativity) {inner : List Token}
    (operand : WellFormed .operand inner) (before after : List Token) :
    toPostfix power (before ++ .leftParen :: inner ++ .rightParen :: after) =
      toPostfix power (before ++ inner ++ after) := by
  rw [List.append_assoc, List.append_assoc]
  apply Postfix.to_postfix_congr
  intro stack
  cases operand with
  | number value =>
      have alone : toPostfix power [.number value] = .ok [.number value] := rfl
      exact Postfix.arrange_group alone stack after
  | @group inner expression =>
      obtain ⟨tree, derived, -⟩ := exists_derivation power expression
      have once : toPostfix power (.leftParen :: inner ++ [.rightParen]) = .ok tree.postorder :=
        to_postfix_phrase (.group 0 derived)
      have twice := Postfix.arrange_group once stack after
      have single := Postfix.arrange_group (to_postfix_phrase derived) stack after
      rw [twice, ← single]
      simp only [List.cons_append, List.append_assoc, List.nil_append]

/-- An expression is arranged into the postorder of its tree, the only one that
precedence and grouping assign to it. Parentheses that leave the tree as it is
change nothing, and a further pair around an operand always is of that kind. -/
theorem to_postfix_expression (power : Associativity) {tokens : List Token}
    (wellFormed : WellFormed .expression tokens) :
    ∃ tree, (∀ other, Derives power 0 tokens other ↔ other = tree) ∧
      toPostfix power tokens = .ok tree.postorder ∧
      ∀ before inner after, tokens = before ++ inner ++ after →
        Derives power 0 (before ++ .leftParen :: inner ++ .rightParen :: after) tree ∨
          WellFormed .operand inner →
        toPostfix power (before ++ .leftParen :: inner ++ .rightParen :: after) =
          .ok tree.postorder := by
  obtain ⟨tree, derived, -⟩ := exists_derivation power wellFormed
  have arranged := to_postfix_phrase derived
  have unique {other : InfixTree} (second : Derives power 0 tokens other) : other = tree := by
    have again := to_postfix_phrase second
    rw [arranged] at again
    exact (InfixTree.postorder_injective (Except.ok.inj again)).symm
  refine ⟨tree, fun other => ⟨unique, fun same => same ▸ derived⟩, arranged, ?_⟩
  intro before inner after whole redundant
  subst whole
  rcases redundant with same | operand
  · exact to_postfix_phrase same
  · rw [to_postfix_wrapped_operand power operand, arranged]

/-- `2 + 3 * 4 ^ 5 ^ (6) - 7` with powers grouping to the right. -/
theorem to_postfix_three_levels :
    WellFormed .expression [.number 2, .operator .add, .number 3, .operator .multiply, .number 4,
        .operator .power, .number 5, .operator .power, .leftParen, .number 6, .rightParen,
        .operator .subtract, .number 7] ∧
      toPostfix .right [.number 2, .operator .add, .number 3, .operator .multiply, .number 4,
        .operator .power, .number 5, .operator .power, .leftParen, .number 6, .rightParen,
        .operator .subtract, .number 7] =
      .ok [.number 2, .number 3, .number 4, .number 5, .number 6, .operator .power,
        .operator .power, .operator .multiply, .operator .add, .number 7, .operator .subtract] := by
  have wellFormed : WellFormed .expression [.number 2, .operator .add, .number 3,
      .operator .multiply, .number 4, .operator .power, .number 5, .operator .power, .leftParen,
      .number 6, .rightParen, .operator .subtract, .number 7] :=
    .extend .subtract
      (.extend .power
        (.extend .power
          (.extend .multiply (.extend .add (.single (.number 2)) (.number 3)) (.number 4))
          (.number 5))
        (.group (.single (.number 6))))
      (.number 7)
  have powers : Derives .right 3 [.number 4, .operator .power, .number 5, .operator .power,
      .leftParen, .number 6, .rightParen]
      (.binary .power (.number 4) (.binary .power (.number 5) (.number 6))) :=
    .binary 3 .power (by decide) (.number _ 4)
      (.binary _ .power (by decide) (.number _ 5) (.group _ (.number _ 6)))
  have sum : Derives .right 1 [.number 2, .operator .add, .number 3, .operator .multiply,
      .number 4, .operator .power, .number 5, .operator .power, .leftParen, .number 6, .rightParen]
      (.binary .add (.number 2) (.binary .multiply (.number 3)
        (.binary .power (.number 4) (.binary .power (.number 5) (.number 6))))) :=
    .binary 1 .add (by decide) (.number _ 2)
      (.binary _ .multiply (by decide) (.number _ 3) powers)
  obtain ⟨tree, unique, arranged, -⟩ := to_postfix_expression .right wellFormed
  obtain rfl := (unique _).1 (.binary 0 .subtract (by decide) sum (.number _ 7))
  exact ⟨wellFormed, arranged⟩

end InfixCalculator
