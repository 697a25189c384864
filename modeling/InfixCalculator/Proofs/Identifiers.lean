import InfixCalculator.Proofs.Constants
import InfixCalculator.Proofs.Decomposition
import InfixCalculator.Proofs.Descent
import InfixCalculator.Proofs.Inert

/-!
Which identifiers a text has, whatever stands around them. They are those of its
fragments, and a call brings the identifiers of its argument with it. Constants in
place leave no identifier but the ones that were there, apart from the words for
values that are not finite.
-/

namespace InfixCalculator

theorem identifiers_nil : identifiers [] = [] := by
  rw [identifiers]

theorem identifiers_plain {symbol : Char} (outside : isIdentifierStart symbol = false)
    (rest : Text) : identifiers (symbol :: rest) = identifiers rest := by
  rw [identifiers, if_neg (by simp [outside])]

theorem identifiers_name {identifier rest : Text} (isName : IsIdentifier identifier)
    (outside : StartsOutside rest) :
    identifiers (identifier ++ rest) = identifier :: identifiers rest := by
  have taken := take_identifier isName outside
  have dropped := drop_identifier isName outside
  match identifier, isName with
  | symbol :: run, ⟨start, _⟩ =>
      have inside := continue_of_start start
      simp only [List.cons_append, List.takeWhile_cons, List.dropWhile_cons, inside, if_true]
        at taken dropped
      rw [List.cons_append, identifiers, if_pos start, taken, dropped]

theorem identifiers_separator {separator : Char}
    (outside : isIdentifierContinue separator = false) (text rest : Text) :
    identifiers (text ++ separator :: rest) = identifiers text ++ identifiers rest := by
  fun_induction identifiers text with
  | case1 => exact identifiers_plain (not_start_of_not_continue outside) rest
  | case2 symbol others start induction =>
      have taken : (others ++ separator :: rest).takeWhile isIdentifierContinue =
          others.takeWhile isIdentifierContinue := by
        rw [List.takeWhile_append]
        split
        · rename_i whole
          have all := (List.takeWhile_prefix isIdentifierContinue).eq_of_length whole
          simp [outside, all]
        · rfl
      have dropped : (others ++ separator :: rest).dropWhile isIdentifierContinue =
          others.dropWhile isIdentifierContinue ++ separator :: rest := by
        rw [List.dropWhile_append]
        split
        · rename_i none
          simp [outside, List.isEmpty_iff.1 none]
        · rfl
      rw [List.cons_append, identifiers, if_pos start, taken, dropped, induction,
        List.cons_append]
  | case3 symbol others other induction =>
      rw [List.cons_append, identifiers_plain (by simpa using other), induction]

theorem identifiers_behind_nameless {front : Text} (nameless : IsNameless front) (rest : Text) :
    identifiers (front ++ rest) = identifiers rest := by
  induction front with
  | nil => rfl
  | cons symbol front induction =>
      rw [List.cons_append, identifiers_plain (nameless symbol List.mem_cons_self)]
      exact induction fun other member => nameless other (List.mem_cons_of_mem _ member)

theorem gap_nameless {gap : Text} (blanks : ∀ symbol ∈ gap, isGapChar symbol) :
    IsNameless gap := by
  intro symbol member
  exact not_start_of_not_continue (gap_not_continue (blanks symbol member))

theorem identifiers_call {identifier gap : Text} (isName : IsIdentifier identifier)
    (blanks : ∀ symbol ∈ gap, isGapChar symbol) (argument rest : Text) :
    identifiers (identifier ++ gap ++ '(' :: argument ++ ')' :: rest) =
      identifier :: identifiers argument ++ identifiers rest := by
  have outside := starts_outside_call blanks argument rest
  have opening : identifiers (gap ++ '(' :: (argument ++ ')' :: rest)) =
      identifiers (argument ++ ')' :: rest) := by
    rw [identifiers_behind_nameless (gap_nameless blanks), identifiers_plain (by decide)]
  simp only [List.append_assoc, List.cons_append] at outside ⊢
  rw [identifiers_name isName outside, opening, identifiers_separator (by decide)]

def Fragment.identifiers : Fragment → List Text
  | .plain _ => []
  | .name identifier => [identifier]
  | .call identifier _ argument => identifier :: InfixCalculator.identifiers argument

theorem identifiers_of_pieces {text : Text} {pieces : List Fragment} (cut : Cuts text pieces) :
    identifiers text = pieces.flatMap Fragment.identifiers := by
  induction cut with
  | empty => exact identifiers_nil
  | plain outside others induction =>
      rw [identifiers_plain outside, induction]
      rfl
  | name isName apart uncalled others induction =>
      rw [identifiers_name isName apart, induction]
      rfl
  | call isName blanks balanced others induction =>
      rw [identifiers_call isName blanks, induction]
      rfl

theorem identifiers_of_call {text identifier gap argument : Text} {pieces : List Fragment}
    (cut : Cuts text pieces) (member : .call identifier gap argument ∈ pieces) :
    identifier ∈ identifiers text ∧ (∀ name ∈ identifiers argument, name ∈ identifiers text) ∧
      (identifiers argument).length < (identifiers text).length := by
  obtain ⟨before, behind, rfl⟩ := List.append_of_mem member
  rw [identifiers_of_pieces cut]
  simp only [List.flatMap_append, List.flatMap_cons, Fragment.identifiers]
  refine ⟨by simp, ?_, ?_⟩
  · intro name named
    simp [named]
  · simp only [List.length_append, List.length_cons]
    omega

def valueWords : List Text := ["inf".toList, "NaN".toList]

theorem splice_identifiers {value : Binary64} {rest name : Text}
    (named : name ∈ identifiers (splice value ++ rest)) :
    name ∈ valueWords ∨ name ∈ identifiers rest := by
  cases finite : Binary64.isFinite value with
  | true =>
      apply Or.inr
      rwa [identifiers_behind_nameless (splice_nameless finite)] at named
  | false =>
      have worded {front : Text} (own : ∀ word ∈ identifiers front, word ∈ valueWords)
          (form : splice value = front ++ [' ']) :
          name ∈ valueWords ∨ name ∈ identifiers rest := by
        rw [form, List.append_assoc, List.singleton_append, identifiers_separator (by decide)]
          at named
        exact (List.mem_append.1 named).imp (own name) id
      rcases splice_nonfinite_forms finite with form | form | form | form
      · exact @worded " NaN".toList (by decide +kernel) form
      · exact @worded " inf".toList (by decide +kernel) form
      · exact @worded " (NaN)".toList (by decide +kernel) form
      · exact @worded " (-inf)".toList (by decide +kernel) form

/-- With constants in place a text has no identifiers but its own, and the words for
values that are not finite. -/
theorem valued_identifiers {settings : Settings} {text name : Text} {pieces : List Fragment}
    (cut : Cuts text pieces) (named : name ∈ identifiers (valued settings pieces)) :
    name ∈ valueWords ∨ name ∈ identifiers text := by
  induction cut with
  | empty => exact .inr named
  | plain outside others induction =>
      rw [valued_cons, plain_with_constants, List.singleton_append, identifiers_plain outside]
        at named
      rw [identifiers_plain outside]
      exact induction named
  | @name identifier rest _ isName apart uncalled others induction =>
      rw [identifiers_name isName apart]
      rw [valued_cons] at named
      have later (behind : name ∈ identifiers (valued settings _)) :
          name ∈ valueWords ∨ name ∈ identifier :: identifiers rest :=
        (induction behind).imp id (List.mem_cons_of_mem _)
      cases known : settings.constant? identifier with
      | none =>
          have outside := @valued_starts_outside settings _ _ others apart
          rw [unknown_with_constants known, identifiers_name isName outside] at named
          rcases List.mem_cons.1 named with rfl | behind
          · exact .inr List.mem_cons_self
          · exact later behind
      | some value =>
          rw [constant_with_constants known] at named
          exact (splice_identifiers named).elim .inl later
  | @call identifier gap argument rest _ isName blanks balanced others induction =>
      rw [identifiers_call isName blanks]
      rw [valued_cons, call_with_constants, List.append_assoc, List.singleton_append,
        identifiers_call isName blanks] at named
      rcases List.mem_append.1 named with own | behind
      · exact .inr (List.mem_append_left _ own)
      · exact (induction behind).imp id (List.mem_append_right _)

end InfixCalculator
