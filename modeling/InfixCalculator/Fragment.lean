import InfixCalculator.Failure

/-!
Cutting text into plain text, bare names and calls. Identifiers are read whole.
A call is an identifier, a gap of blanks and a parenthesised argument; its
argument ends at the parenthesis that balances the opening one and is not cut
further here.
-/

namespace InfixCalculator

def isIdentifierStart (symbol : Char) : Bool := symbol.isAlpha || symbol == '_'

def isIdentifierContinue (symbol : Char) : Bool := symbol.isAlphanum || symbol == '_'

/-- Blanks allowed between a name and its opening parenthesis: space, tab, line
feed, form feed and carriage return. -/
def isGapChar (symbol : Char) : Bool :=
  symbol == ' ' || symbol == '\t' || symbol == '\n' || symbol == '\x0c' || symbol == '\r'

inductive Fragment where
  | plain (source : Text)
  | name (identifier : Text)
  | call (identifier gap argument : Text)
  deriving DecidableEq, Repr

def Fragment.source : Fragment → Text
  | .plain source => source
  | .name identifier => identifier
  | .call identifier gap argument => identifier ++ gap ++ '(' :: argument ++ [')']

/-- Splits behind the parenthesis that closes a group already open, `depth`
counting the groups opened since. -/
def splitAtClosing? : Nat → Text → Option (Text × Text)
  | _, [] => none
  | depth, symbol :: rest =>
      if symbol = ')' then
        match depth with
        | 0 => some ([], rest)
        | outer + 1 =>
            (splitAtClosing? outer rest).map fun (inside, behind) => (symbol :: inside, behind)
      else if symbol = '(' then
        (splitAtClosing? (depth + 1) rest).map fun (inside, behind) => (symbol :: inside, behind)
      else (splitAtClosing? depth rest).map fun (inside, behind) => (symbol :: inside, behind)

theorem split_at_closing_append {depth : Nat} {text inside behind : Text}
    (closed : splitAtClosing? depth text = some (inside, behind)) :
    text = inside ++ ')' :: behind := by
  induction text generalizing depth inside behind with
  | nil => simp [splitAtClosing?] at closed
  | cons symbol rest induction =>
      rw [splitAtClosing?.eq_def] at closed
      split at closed
      · contradiction
      · rename_i same
        obtain ⟨rfl, rfl⟩ := List.cons.inj same
        split at closed
        · rename_i right
          split at closed
          · simp_all
          · obtain ⟨⟨_, _⟩, found, same⟩ := Option.map_eq_some_iff.1 closed
            obtain ⟨rfl, rfl⟩ := Prod.mk.inj same
            simp [induction found]
        · split at closed <;>
          · obtain ⟨⟨_, _⟩, found, same⟩ := Option.map_eq_some_iff.1 closed
            obtain ⟨rfl, rfl⟩ := Prod.mk.inj same
            simp [induction found]

/-- What follows an identifier: a call's gap, argument and remainder, or nothing
that makes it a call. -/
inductive Continuation where
  | bare
  | unclosed
  | call (gap argument behind : Text)

def continuation (text : Text) : Continuation :=
  match text.dropWhile isGapChar with
  | '(' :: inner =>
      match splitAtClosing? 0 inner with
      | none => .unclosed
      | some (argument, behind) => .call (text.takeWhile isGapChar) argument behind
  | _ => .bare

theorem continuation_call {text gap argument behind : Text}
    (called : continuation text = .call gap argument behind) :
    text = gap ++ '(' :: argument ++ ')' :: behind ∧ gap = text.takeWhile isGapChar := by
  unfold continuation at called
  split at called
  · rename_i inner opening
    split at called
    · contradiction
    · rename_i found
      obtain ⟨rfl, rfl, rfl⟩ := Continuation.call.inj called
      refine ⟨?_, rfl⟩
      calc text = text.takeWhile isGapChar ++ text.dropWhile isGapChar :=
            List.takeWhile_append_dropWhile.symm
        _ = _ := by rw [opening, split_at_closing_append found]; simp
  · contradiction

/-- Cuts text into fragments, in order. The first call without a closing
parenthesis makes the text unusable. -/
def splitCalls (text : Text) : Except TextFailure (List Fragment) :=
  match text with
  | [] => .ok []
  | symbol :: others =>
      if isIdentifierStart symbol then
        let identifier := symbol :: others.takeWhile isIdentifierContinue
        let after := others.dropWhile isIdentifierContinue
        match _ : continuation after with
        | .bare => (splitCalls after).map (.name identifier :: ·)
        | .unclosed => .error (.unclosedCall identifier)
        | .call gap argument behind =>
            (splitCalls behind).map (.call identifier gap argument :: ·)
      else
        (splitCalls (others.dropWhile fun other => !isIdentifierStart other)).map
          (.plain (symbol :: others.takeWhile fun other => !isIdentifierStart other) :: ·)
  termination_by text.length
  decreasing_by
    · exact Nat.lt_succ_of_le (List.dropWhile_suffix _).length_le
    · rename_i called
      have whole := congrArg List.length (continuation_call called).1
      have suffix : after.length ≤ others.length := (List.dropWhile_suffix _).length_le
      simp only [List.length_append, List.length_cons] at whole ⊢
      omega
    · exact Nat.lt_succ_of_le (List.dropWhile_suffix _).length_le

end InfixCalculator
