import InfixCalculator.Postfix
import Mathlib.Data.List.Perm.Basic

/-!
What arrangement keeps of any token list, well formed or not. Numbers stay in
order, operators are only moved, and the parentheses alone decide whether there
is an arrangement and which failure is reported otherwise.
-/

namespace InfixCalculator

namespace Token

def number? : Token → Option Binary64
  | .number value => some value
  | _ => none

def operator? : Token → Option Operator
  | .operator kind => some kind
  | _ => none

end Token

def Pending.operator? : Pending → Option Operator
  | .operator kind => some kind
  | .group => none

/-- Nesting depth behind the tokens, from a depth in front of them. There is none
if a parenthesis closes a group that was not opened. -/
def groupDepth : Nat → List Token → Option Nat
  | depth, [] => some depth
  | depth, .leftParen :: rest => groupDepth (depth + 1) rest
  | 0, .rightParen :: _ => none
  | depth + 1, .rightParen :: rest => groupDepth depth rest
  | depth, .number _ :: rest => groupDepth depth rest
  | depth, .operator _ :: rest => groupDepth depth rest

namespace Postfix

variable {power : Associativity}

def openGroups (stack : List Pending) : Nat := stack.count .group

@[simp] theorem open_groups_nil : openGroups [] = 0 := rfl

@[simp] theorem open_groups_group (stack : List Pending) :
    openGroups (.group :: stack) = openGroups stack + 1 := by
  simp [openGroups]

@[simp] theorem open_groups_operator (kind : Operator) (stack : List Pending) :
    openGroups (.operator kind :: stack) = openGroups stack := by
  simp [openGroups]

theorem release_before_split (power : Associativity) (incoming : Operator)
    (stack : List Pending) :
    ∃ kinds : List Operator, stack = kinds.map .operator ++ (releaseBefore power incoming stack).2 ∧
      (releaseBefore power incoming stack).1 = kinds.map .operator := by
  induction stack with
  | nil => exact ⟨[], rfl, rfl⟩
  | cons pending stack induction =>
      cases pending with
      | group => exact ⟨[], rfl, rfl⟩
      | operator top =>
          simp only [releaseBefore]
          split
          · obtain ⟨kinds, whole, released⟩ := induction
            exact ⟨top :: kinds, congrArg (.operator top :: ·) whole,
              congrArg (.operator top :: ·) released⟩
          · exact ⟨[], rfl, rfl⟩

theorem close_group_split {stack kept : List Pending} {released : List Token}
    (closed : closeGroup stack = .ok (released, kept)) :
    ∃ kinds : List Operator, stack = kinds.map .operator ++ .group :: kept ∧
      released = kinds.map .operator := by
  induction stack generalizing released with
  | nil => contradiction
  | cons pending stack induction =>
      cases pending with
      | group =>
          cases closed
          exact ⟨[], rfl, rfl⟩
      | operator top =>
          obtain ⟨⟨inner, below⟩, found, same⟩ := exists_of_map_ok closed
          cases same
          obtain ⟨kinds, rfl, rfl⟩ := induction found
          exact ⟨top :: kinds, rfl, rfl⟩

theorem release_all_split {stack : List Pending} {released : List Token}
    (done : releaseAll stack = .ok released) :
    ∃ kinds : List Operator, stack = kinds.map .operator ∧ released = kinds.map .operator := by
  induction stack generalizing released with
  | nil =>
      cases done
      exact ⟨[], rfl, rfl⟩
  | cons pending stack induction =>
      cases pending with
      | group => contradiction
      | operator top =>
          obtain ⟨inner, found, rfl⟩ := exists_of_map_ok done
          obtain ⟨kinds, rfl, rfl⟩ := induction found
          exact ⟨top :: kinds, rfl, rfl⟩

theorem pending_operators (kinds : List Operator) :
    (kinds.map Pending.operator).filterMap Pending.operator? = kinds := by
  rw [List.filterMap_map]
  exact List.filterMap_some

theorem released_operators (kinds : List Operator) :
    (kinds.map Token.operator).filterMap Token.operator? = kinds := by
  rw [List.filterMap_map]
  exact List.filterMap_some

theorem released_numbers (kinds : List Operator) :
    (kinds.map Token.operator).filterMap Token.number? = [] := by
  rw [List.filterMap_map]
  exact List.filterMap_none kinds

structure Releases (stack : List Pending) (released : List Token) (kept : List Pending) : Prop where
  operators : released.filterMap Token.operator? ++ kept.filterMap Pending.operator? =
    stack.filterMap Pending.operator?
  numbers : released.filterMap Token.number? = []

theorem release_before_releases (power : Associativity) (incoming : Operator)
    (stack : List Pending) :
    Releases stack (releaseBefore power incoming stack).1
      (releaseBefore power incoming stack).2 := by
  obtain ⟨kinds, whole, released⟩ := release_before_split power incoming stack
  constructor
  · conv_rhs => rw [whole]
    rw [released, released_operators, List.filterMap_append, pending_operators]
  · rw [released, released_numbers]

theorem open_groups_operators (kinds : List Operator) (stack : List Pending) :
    openGroups (kinds.map .operator ++ stack) = openGroups stack := by
  induction kinds with
  | nil => rfl
  | cons kind kinds induction => simpa using induction

theorem release_before_open_groups (incoming : Operator) (stack : List Pending) :
    openGroups (releaseBefore power incoming stack).2 = openGroups stack := by
  obtain ⟨kinds, whole, -⟩ := release_before_split power incoming stack
  conv_rhs => rw [whole]
  rw [open_groups_operators]

theorem close_group_releases {stack kept : List Pending} {released : List Token}
    (closed : closeGroup stack = .ok (released, kept)) : Releases stack released kept := by
  obtain ⟨kinds, rfl, rfl⟩ := close_group_split closed
  constructor
  · rw [released_operators, List.filterMap_append, pending_operators]
    rfl
  · exact released_numbers kinds

/-- A closing parenthesis needs an open group and closes one. -/
theorem close_group_cases (stack : List Pending) :
    (openGroups stack = 0 ∧ closeGroup stack = .error .unopenedGroup) ∨
      ∃ released kept, closeGroup stack = .ok (released, kept) ∧
        openGroups stack = openGroups kept + 1 := by
  induction stack with
  | nil => exact .inl ⟨rfl, rfl⟩
  | cons pending stack induction =>
      cases pending with
      | group => exact .inr ⟨[], stack, rfl, open_groups_group stack⟩
      | operator top =>
          rw [open_groups_operator]
          rcases induction with ⟨none, failed⟩ | ⟨released, kept, closed, one⟩
          · refine .inl ⟨none, ?_⟩
            simp only [closeGroup]
            rw [failed]
            rfl
          · refine .inr ⟨.operator top :: released, kept, ?_, one⟩
            simp only [closeGroup]
            rw [closed]
            rfl

theorem release_all_releases {stack : List Pending} {released : List Token}
    (done : releaseAll stack = .ok released) : Releases stack released [] := by
  obtain ⟨kinds, rfl, rfl⟩ := release_all_split done
  constructor
  · rw [released_operators, pending_operators, List.filterMap_nil, List.append_nil]
  · exact released_numbers kinds

theorem release_all_cases (stack : List Pending) :
    (openGroups stack = 0 ∧ ∃ released, releaseAll stack = .ok released) ∨
      (openGroups stack ≠ 0 ∧ releaseAll stack = .error .unclosedGroup) := by
  induction stack with
  | nil => exact .inl ⟨rfl, [], rfl⟩
  | cons pending stack induction =>
      cases pending with
      | group => exact .inr ⟨by simp, rfl⟩
      | operator top =>
          rw [open_groups_operator]
          rcases induction with ⟨none, released, done⟩ | ⟨some, failed⟩
          · refine .inl ⟨none, .operator top :: released, ?_⟩
            simp only [releaseAll]
            rw [done]
            rfl
          · refine .inr ⟨some, ?_⟩
            simp only [releaseAll]
            rw [failed]
            rfl

theorem arrange_numbers {stack : List Pending} {tokens arranged : List Token}
    (done : arrange power stack tokens = .ok arranged) :
    arranged.filterMap Token.number? = tokens.filterMap Token.number? := by
  induction tokens generalizing stack arranged with
  | nil => exact (release_all_releases done).numbers
  | cons token tokens induction =>
      cases token with
      | number value =>
          obtain ⟨others, found, rfl⟩ := exists_of_map_ok done
          simpa [List.filterMap_cons, Token.number?] using induction found
      | leftParen => exact induction done
      | rightParen =>
          simp only [arrange] at done
          split at done
          · contradiction
          · rename_i released kept closed
            obtain ⟨others, found, rfl⟩ := exists_of_map_ok done
            simp only [List.filterMap_append, (close_group_releases closed).numbers]
            exact induction found
      | operator incoming =>
          simp only [arrange] at done
          obtain ⟨others, found, rfl⟩ := exists_of_map_ok done
          simp only [List.filterMap_append, (release_before_releases power incoming stack).numbers]
          exact induction found

theorem arrange_operators {stack : List Pending} {tokens arranged : List Token}
    (done : arrange power stack tokens = .ok arranged) :
    (arranged.filterMap Token.operator?).Perm
      (stack.filterMap Pending.operator? ++ tokens.filterMap Token.operator?) := by
  induction tokens generalizing stack arranged with
  | nil =>
      have released := (release_all_releases done).operators
      simp only [List.filterMap_nil, List.append_nil] at released ⊢
      rw [released]
  | cons token tokens induction =>
      cases token with
      | number value =>
          obtain ⟨others, found, rfl⟩ := exists_of_map_ok done
          simpa [List.filterMap_cons, Token.operator?] using induction found
      | leftParen =>
          have opened := @induction (.group :: stack) arranged done
          simpa [List.filterMap_cons, Token.operator?, Pending.operator?] using opened
      | rightParen =>
          simp only [arrange] at done
          split at done
          · contradiction
          · rename_i released kept closed
            obtain ⟨others, found, rfl⟩ := exists_of_map_ok done
            rw [← (close_group_releases closed).operators, List.filterMap_append,
              List.append_assoc]
            exact (induction found).append_left _
      | operator incoming =>
          simp only [arrange] at done
          obtain ⟨others, found, rfl⟩ := exists_of_map_ok done
          rw [← (release_before_releases power incoming stack).operators,
            List.filterMap_append, List.append_assoc]
          apply List.Perm.append_left
          exact (induction found).trans List.perm_middle.symm

/-- The answer that goes with a nesting depth at the end of the tokens. -/
def OutcomeAt : Option Nat → Except TextFailure (List Token) → Prop
  | none, answer => answer = .error .unopenedGroup
  | some 0, answer => ∃ arranged, answer = .ok arranged
  | some (_ + 1), answer => answer = .error .unclosedGroup

theorem outcome_at_map {depth : Option Nat} {answer : Except TextFailure (List Token)}
    (outcome : OutcomeAt depth answer) (first : List Token) :
    OutcomeAt depth (answer.map (first ++ ·)) := by
  cases depth with
  | none =>
      obtain rfl : answer = .error .unopenedGroup := outcome
      rfl
  | some depth =>
      cases depth with
      | zero =>
          rcases outcome with ⟨arranged, rfl⟩
          exact ⟨first ++ arranged, rfl⟩
      | succ depth =>
          obtain rfl : answer = .error .unclosedGroup := outcome
          rfl

theorem arrange_outcome (power : Associativity) (stack : List Pending) (tokens : List Token) :
    OutcomeAt (groupDepth (openGroups stack) tokens) (arrange power stack tokens) := by
  induction tokens generalizing stack with
  | nil =>
      simp only [groupDepth, arrange]
      rcases release_all_cases stack with ⟨none, done⟩ | ⟨some, failed⟩
      · rw [none]
        exact done
      · obtain ⟨depth, same⟩ := Nat.exists_eq_succ_of_ne_zero some
        rw [same]
        exact failed
  | cons token tokens induction =>
      cases token with
      | number value => exact outcome_at_map (induction stack) [.number value]
      | leftParen =>
          have opened := induction (.group :: stack)
          rw [open_groups_group] at opened
          exact opened
      | rightParen =>
          simp only [arrange]
          rcases close_group_cases stack with ⟨none, failed⟩ | ⟨released, kept, closed, one⟩
          · rw [none, failed]
            rfl
          · rw [one, closed]
            exact outcome_at_map (induction kept) released
      | operator incoming =>
          have released := induction (.operator incoming :: (releaseBefore power incoming stack).2)
          rw [open_groups_operator, release_before_open_groups] at released
          exact outcome_at_map released _

end Postfix

theorem to_postfix_outcome (power : Associativity) (tokens : List Token) :
    Postfix.OutcomeAt (groupDepth 0 tokens) (toPostfix power tokens) := by
  have outcome := Postfix.arrange_outcome power [] tokens
  rwa [Postfix.open_groups_nil] at outcome

/-- An arrangement exists exactly for balanced parentheses. -/
theorem to_postfix_ok_iff (power : Associativity) (tokens : List Token) :
    (∃ arranged, toPostfix power tokens = .ok arranged) ↔ groupDepth 0 tokens = some 0 := by
  have outcome := to_postfix_outcome power tokens
  constructor
  · intro arrangement
    rcases arrangement with ⟨arranged, done⟩
    rw [done] at outcome
    match depth : groupDepth 0 tokens with
    | none => rw [depth] at outcome; contradiction
    | some 0 => rfl
    | some (open' + 1) => rw [depth] at outcome; contradiction
  · intro balanced
    rw [balanced] at outcome
    exact outcome

/-- From the depth, some front of the tokens closes more groups than are open. -/
def ClosesBeyond (depth : Nat) (tokens : List Token) : Prop :=
  ∃ front, front <+: tokens ∧ depth + front.count .leftParen < front.count .rightParen

theorem closes_beyond_cons {depth next : Nat} {token : Token}
    (step : next + [token].count .rightParen = depth + [token].count .leftParen)
    (rest : List Token) : ClosesBeyond depth (token :: rest) ↔ ClosesBeyond next rest := by
  have counted (kind : Token) (front : List Token) :
      (token :: front).count kind = [token].count kind + front.count kind := by
    rw [← List.singleton_append, List.count_append]
  constructor
  · rintro ⟨front, start, beyond⟩
    rcases List.prefix_cons_iff.1 start with rfl | ⟨others, rfl, behind⟩
    · exact absurd beyond (Nat.not_lt_zero _)
    · have opened := counted .leftParen others
      have closed := counted .rightParen others
      exact ⟨others, behind, by omega⟩
  · rintro ⟨front, start, beyond⟩
    have opened := counted .leftParen front
    have closed := counted .rightParen front
    exact ⟨token :: front, List.cons_prefix_cons.2 ⟨rfl, start⟩, by omega⟩

theorem group_depth_none_iff {depth : Nat} {tokens : List Token} :
    groupDepth depth tokens = none ↔ ClosesBeyond depth tokens := by
  fun_induction groupDepth depth tokens with
  | case1 depth => simp [ClosesBeyond]
  | case2 depth rest induction => exact induction.trans (closes_beyond_cons (by simp) rest).symm
  | case3 rest =>
      refine iff_of_true rfl ⟨[.rightParen], List.cons_prefix_cons.2 ⟨rfl, List.nil_prefix⟩, ?_⟩
      decide
  | case4 depth rest induction => exact induction.trans (closes_beyond_cons (by simp) rest).symm
  | case5 depth value rest induction =>
      exact induction.trans (closes_beyond_cons (by simp) rest).symm
  | case6 depth kind rest induction =>
      exact induction.trans (closes_beyond_cons (by simp) rest).symm

theorem group_depth_count {depth deeper : Nat} {tokens : List Token}
    (nested : groupDepth depth tokens = some deeper) :
    deeper + tokens.count .rightParen = depth + tokens.count .leftParen := by
  fun_induction groupDepth depth tokens with
  | case1 depth =>
      cases nested
      rfl
  | case2 depth rest induction =>
      have counted := induction nested
      rw [List.count_cons_self, List.count_cons_of_ne (by decide)]
      omega
  | case3 => contradiction
  | case4 depth rest induction =>
      have counted := induction nested
      rw [List.count_cons_self, List.count_cons_of_ne (by decide)]
      omega
  | case5 depth value rest induction => simpa using induction nested
  | case6 depth kind rest induction => simpa using induction nested

theorem outcome_at_error {depth : Option Nat} {first second : Except TextFailure (List Token)}
    {cause : TextFailure} (outcome : Postfix.OutcomeAt depth first)
    (other : Postfix.OutcomeAt depth second) (failed : first = .error cause) :
    second = .error cause := by
  subst failed
  match depth with
  | none => exact other.trans outcome.symm
  | some 0 =>
      obtain ⟨arranged, same⟩ := outcome
      contradiction
  | some (_ + 1) => exact other.trans outcome.symm

/-- Parentheses alone decide whether tokens are arranged and which failure is
reported otherwise, whatever stands between them and however powers group. -/
theorem to_postfix_failures (power : Associativity) (tokens : List Token) :
    (toPostfix power tokens = .error .unopenedGroup ↔
        ∃ front, front <+: tokens ∧ front.count .leftParen < front.count .rightParen) ∧
      (toPostfix power tokens = .error .unclosedGroup ↔
        (∀ front, front <+: tokens → front.count .rightParen ≤ front.count .leftParen) ∧
          tokens.count .rightParen < tokens.count .leftParen) ∧
      ((∃ arranged, toPostfix power tokens = .ok arranged) ↔
        (∀ front, front <+: tokens → front.count .rightParen ≤ front.count .leftParen) ∧
          tokens.count .rightParen = tokens.count .leftParen) ∧
      ∀ other cause,
        toPostfix other tokens = .error cause ↔ toPostfix power tokens = .error cause := by
  have outcome := to_postfix_outcome power tokens
  have beyond : groupDepth 0 tokens = none ↔
      ∃ front, front <+: tokens ∧ front.count .leftParen < front.count .rightParen := by
    simpa only [ClosesBeyond, Nat.zero_add] using @group_depth_none_iff 0 tokens
  have within : (∀ front, front <+: tokens → front.count .rightParen ≤ front.count .leftParen) ↔
      groupDepth 0 tokens ≠ none := by
    rw [ne_eq, beyond]
    simp only [not_exists, not_and, Nat.not_lt]
  rw [within, ← beyond, ← and_assoc, ← and_assoc]
  refine ⟨?_, fun other cause => ⟨?_, ?_⟩⟩
  · match depth : groupDepth 0 tokens with
    | none =>
        rw [depth] at outcome
        have same : toPostfix power tokens = .error .unopenedGroup := outcome
        simp [same]
    | some 0 =>
        have counted := group_depth_count depth
        rw [depth] at outcome
        obtain ⟨arranged, same⟩ := outcome
        have balance : tokens.count .rightParen = tokens.count .leftParen := by omega
        simp [same, balance]
    | some (opened + 1) =>
        have counted := group_depth_count depth
        rw [depth] at outcome
        have same : toPostfix power tokens = .error .unclosedGroup := outcome
        have open' : tokens.count .rightParen < tokens.count .leftParen := by omega
        simp [same, open', Nat.ne_of_lt open']
  · exact outcome_at_error (to_postfix_outcome other tokens) outcome
  · exact outcome_at_error outcome (to_postfix_outcome other tokens)

end InfixCalculator
