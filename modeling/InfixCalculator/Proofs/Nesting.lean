import InfixCalculator.Fragment

/-!
Nesting of parentheses in text. The depth behind a text decides where a group
that is open in front of it closes, so the search for a closing parenthesis can
step over any text whose depth is known.
-/

namespace InfixCalculator

/-- Nesting depth behind a text, from a depth in front of it. There is none if a
parenthesis closes a group that was not opened. -/
def parenDepth : Nat → Text → Option Nat
  | depth, [] => some depth
  | depth, symbol :: rest =>
      if symbol = ')' then
        match depth with
        | 0 => none
        | outer + 1 => parenDepth outer rest
      else if symbol = '(' then parenDepth (depth + 1) rest
      else parenDepth depth rest

/-- Every group that the text opens is closed in it, and no other. -/
def Balanced (text : Text) : Prop := parenDepth 0 text = some 0

theorem paren_depth_opening (depth : Nat) (rest : Text) :
    parenDepth depth ('(' :: rest) = parenDepth (depth + 1) rest := rfl

theorem paren_depth_other {symbol : Char} (opening : symbol ≠ '(') (closing : symbol ≠ ')')
    (depth : Nat) (rest : Text) : parenDepth depth (symbol :: rest) = parenDepth depth rest := by
  simp only [parenDepth, if_neg closing, if_neg opening]

theorem paren_depth_append (depth : Nat) (text rest : Text) :
    parenDepth depth (text ++ rest) = (parenDepth depth text).bind (parenDepth · rest) := by
  fun_induction parenDepth depth text with
  | case1 depth => rfl
  | case2 => rfl
  | case3 rest outer induction => exact induction
  | case4 depth rest closing induction => exact induction
  | case5 depth symbol rest closing opening induction =>
      rw [List.cons_append, paren_depth_other opening closing]
      exact induction

theorem paren_depth_congr {first second : Text}
    (same : ∀ depth, parenDepth depth first = parenDepth depth second) (front : Text)
    (depth : Nat) : parenDepth depth (front ++ first) = parenDepth depth (front ++ second) := by
  rw [paren_depth_append, paren_depth_append]
  congr 1
  funext deeper
  exact same deeper

theorem paren_depth_raise {depth deeper : Nat} {text : Text}
    (nested : parenDepth depth text = some deeper) (outer : Nat) :
    parenDepth (depth + outer) text = some (deeper + outer) := by
  fun_induction parenDepth depth text with
  | case1 depth =>
      cases nested
      rfl
  | case2 => contradiction
  | case3 rest inner induction =>
      rw [Nat.succ_add]
      exact induction nested
  | case4 depth rest closing induction =>
      rw [paren_depth_opening, Nat.add_right_comm]
      exact induction nested
  | case5 depth symbol rest closing opening induction =>
      rw [paren_depth_other opening closing]
      exact induction nested

theorem paren_depth_balanced {text : Text} (balanced : Balanced text) (depth : Nat) :
    parenDepth depth text = some depth := by
  have raised := paren_depth_raise balanced depth
  rwa [Nat.zero_add] at raised

theorem balanced_append {text rest : Text} (balanced : Balanced text)
    (others : Balanced rest) : Balanced (text ++ rest) := by
  rw [Balanced, paren_depth_append, balanced]
  exact others

theorem balanced_group {text : Text} (balanced : Balanced text) :
    Balanced ('(' :: text ++ [')']) := by
  rw [Balanced, List.cons_append, paren_depth_opening, paren_depth_append,
    paren_depth_balanced balanced]
  rfl

theorem balanced_of_free {text : Text}
    (free : ∀ symbol ∈ text, symbol ≠ '(' ∧ symbol ≠ ')') : Balanced text := by
  induction text with
  | nil => rfl
  | cons symbol text induction =>
      obtain ⟨opening, closing⟩ := free symbol List.mem_cons_self
      rw [Balanced, paren_depth_other opening closing]
      exact induction fun other member => free other (List.mem_cons_of_mem _ member)

/-- The search for a closing parenthesis steps over a text of known depth. -/
theorem split_at_closing_over {depth deeper : Nat} {text : Text}
    (nested : parenDepth depth text = some deeper) (rest : Text) :
    splitAtClosing? depth (text ++ rest) =
      (splitAtClosing? deeper rest).map fun (inside, behind) => (text ++ inside, behind) := by
  fun_induction parenDepth depth text with
  | case1 depth =>
      cases nested
      simp
  | case2 => contradiction
  | case3 others outer induction =>
      simp only [List.cons_append, splitAtClosing?, if_true, induction nested, Option.map_map]
      rfl
  | case4 depth others closing induction =>
      simp only [List.cons_append, splitAtClosing?, if_neg closing, if_true, induction nested,
        Option.map_map]
      rfl
  | case5 depth symbol others closing opening induction =>
      simp only [List.cons_append, splitAtClosing?, if_neg closing, if_neg opening,
        induction nested, Option.map_map]
      rfl

theorem exists_depth_of_unclosed {depth : Nat} {text : Text}
    (unclosed : splitAtClosing? depth text = none) :
    ∃ deeper, parenDepth depth text = some deeper := by
  fun_induction splitAtClosing? depth text with
  | case1 depth => exact ⟨depth, rfl⟩
  | case2 => contradiction
  | case3 rest outer induction => exact induction (Option.map_eq_none_iff.1 unclosed)
  | case4 depth rest closing induction => exact induction (Option.map_eq_none_iff.1 unclosed)
  | case5 depth symbol rest closing opening induction =>
      rw [paren_depth_other opening closing]
      exact induction (Option.map_eq_none_iff.1 unclosed)

theorem inside_depth {depth : Nat} {text inside behind : Text}
    (closed : splitAtClosing? depth text = some (inside, behind)) :
    parenDepth depth inside = some 0 := by
  fun_induction splitAtClosing? depth text generalizing inside with
  | case1 => contradiction
  | case2 rest =>
      cases closed
      rfl
  | case3 rest outer induction =>
      obtain ⟨⟨inner, last⟩, found, same⟩ := Option.map_eq_some_iff.1 closed
      cases same
      exact induction found
  | case4 depth rest closing induction =>
      obtain ⟨⟨inner, last⟩, found, same⟩ := Option.map_eq_some_iff.1 closed
      cases same
      exact induction found
  | case5 depth symbol rest closing opening induction =>
      obtain ⟨⟨inner, last⟩, found, same⟩ := Option.map_eq_some_iff.1 closed
      cases same
      rw [paren_depth_other opening closing]
      exact induction found

/-- A group closes behind a balanced text exactly. -/
theorem split_at_closing_balanced {inside : Text} (balanced : Balanced inside) (behind : Text) :
    splitAtClosing? 0 (inside ++ ')' :: behind) = some (inside, behind) := by
  rw [split_at_closing_over balanced]
  simp [splitAtClosing?]

end InfixCalculator
