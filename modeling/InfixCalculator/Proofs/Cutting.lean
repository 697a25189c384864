import InfixCalculator.Proofs.Boundaries
import InfixCalculator.Proofs.Nesting

/-!
Cutting as a relation between a text and its pieces, which are names, calls and
single symbols. The relation holds of the texts that can be cut. A text that is
cut keeps its pieces in front of any other text that it does not grow together
with, and a text that cannot be cut ends in a call without closing parenthesis.
-/

namespace InfixCalculator

/-- Plain text symbol by symbol. -/
def Fragment.pieces : Fragment → List Fragment
  | .plain source => source.map fun symbol => .plain [symbol]
  | fragment => [fragment]

def splitPieces (text : Text) : Except TextFailure (List Fragment) :=
  (splitCalls text).map fun fragments => fragments.flatMap Fragment.pieces

inductive Cuts : Text → List Fragment → Prop where
  | empty : Cuts [] []
  | plain {symbol : Char} {rest : Text} {pieces : List Fragment}
      (outside : isIdentifierStart symbol = false) (others : Cuts rest pieces) :
      Cuts (symbol :: rest) (.plain [symbol] :: pieces)
  | name {identifier rest : Text} {pieces : List Fragment} (isName : IsIdentifier identifier)
      (apart : StartsOutside rest) (uncalled : ¬Opens rest) (others : Cuts rest pieces) :
      Cuts (identifier ++ rest) (.name identifier :: pieces)
  | call {identifier gap argument rest : Text} {pieces : List Fragment}
      (isName : IsIdentifier identifier) (blanks : ∀ symbol ∈ gap, isGapChar symbol)
      (balanced : Balanced argument) (others : Cuts rest pieces) :
      Cuts (identifier ++ gap ++ '(' :: argument ++ ')' :: rest)
        (.call identifier gap argument :: pieces)

inductive Unclosed : Text → Text → Prop where
  | call {identifier gap inner : Text} (isName : IsIdentifier identifier)
      (blanks : ∀ symbol ∈ gap, isGapChar symbol)
      (unclosed : splitAtClosing? 0 inner = none) :
      Unclosed identifier (identifier ++ gap ++ '(' :: inner)

theorem drop_blank_opening {gap : Text} (blanks : ∀ symbol ∈ gap, isGapChar symbol)
    (inner : Text) : (gap ++ '(' :: inner).dropWhile isGapChar = '(' :: inner := by
  rw [List.dropWhile_append_of_pos blanks]
  rfl

theorem take_blank_opening {gap : Text} (blanks : ∀ symbol ∈ gap, isGapChar symbol)
    (inner : Text) : (gap ++ '(' :: inner).takeWhile isGapChar = gap := by
  rw [List.takeWhile_append_of_pos blanks]
  simp [isGapChar]

theorem continuation_bare {text : Text} (uncalled : ¬Opens text) : continuation text = .bare := by
  unfold continuation
  split
  · rename_i inner opening
    exact absurd (by rw [Opens, opening]; rfl) uncalled
  · rfl

theorem continuation_unclosed {gap inner : Text} (blanks : ∀ symbol ∈ gap, isGapChar symbol)
    (unclosed : splitAtClosing? 0 inner = none) :
    continuation (gap ++ '(' :: inner) = .unclosed := by
  simp only [continuation, drop_blank_opening blanks, unclosed]

theorem continuation_closed {gap argument : Text} (blanks : ∀ symbol ∈ gap, isGapChar symbol)
    (balanced : Balanced argument) (behind : Text) :
    continuation (gap ++ '(' :: argument ++ ')' :: behind) = .call gap argument behind := by
  rw [List.append_assoc, List.cons_append]
  simp only [continuation, drop_blank_opening blanks, take_blank_opening blanks,
    split_at_closing_balanced balanced]

theorem continuation_cases (text : Text) :
    ¬Opens text ∨
      (∃ gap inner, text = gap ++ '(' :: inner ∧ (∀ symbol ∈ gap, isGapChar symbol) ∧
        splitAtClosing? 0 inner = none) ∨
      ∃ gap argument behind, text = gap ++ '(' :: argument ++ ')' :: behind ∧
        (∀ symbol ∈ gap, isGapChar symbol) ∧ Balanced argument := by
  by_cases opening : Opens text
  · obtain ⟨inner, dropped⟩ := List.head?_eq_some_iff.1 opening
    have whole : text = text.takeWhile isGapChar ++ '(' :: inner := by
      rw [← dropped, List.takeWhile_append_dropWhile]
    have blanks : ∀ symbol ∈ text.takeWhile isGapChar, isGapChar symbol :=
      fun symbol member => mem_take_while member
    cases found : splitAtClosing? 0 inner with
    | none => exact .inr (.inl ⟨_, inner, whole, blanks, found⟩)
    | some parts =>
        refine .inr (.inr ⟨_, parts.1, parts.2, ?_, blanks, inside_depth found⟩)
        rw [List.append_assoc, List.cons_append, ← split_at_closing_append found]
        exact whole
  · exact .inl opening

/-- An identifier is read whole, and what follows it decides on the rest. -/
theorem split_calls_identifier {identifier : Text} (isName : IsIdentifier identifier)
    {after : Text} (outside : StartsOutside after) :
    splitCalls (identifier ++ after) =
      match continuation after with
      | .bare => (splitCalls after).map (.name identifier :: ·)
      | .unclosed => .error (.unclosedCall identifier)
      | .call gap argument behind =>
          (splitCalls behind).map (.call identifier gap argument :: ·) := by
  match identifier, isName with
  | symbol :: run, ⟨start, continued⟩ =>
      have taken : (run ++ after).takeWhile isIdentifierContinue = run := by
        rw [List.takeWhile_append_of_pos continued]
        cases after with
        | nil => simp
        | cons separator after => simp [starts_outside_cons.1 outside]
      have dropped : (run ++ after).dropWhile isIdentifierContinue = after := by
        rw [List.dropWhile_append_of_pos continued]
        cases after with
        | nil => rfl
        | cons separator after => simp [starts_outside_cons.1 outside]
      rw [List.cons_append, splitCalls, if_pos start]
      simp only [taken, dropped]
      split <;>
      · rename_i found
        rw [dropped] at found
        simp only [found]

theorem split_pieces_identifier {identifier : Text} (isName : IsIdentifier identifier)
    {after : Text} (outside : StartsOutside after) :
    splitPieces (identifier ++ after) =
      match continuation after with
      | .bare => (splitPieces after).map (.name identifier :: ·)
      | .unclosed => .error (.unclosedCall identifier)
      | .call gap argument behind =>
          (splitPieces behind).map (.call identifier gap argument :: ·) := by
  rw [splitPieces, split_calls_identifier isName outside]
  cases continuation after with
  | bare =>
      simp only [splitPieces, map_map_answer]
      rfl
  | unclosed => rfl
  | call gap argument behind =>
      simp only [splitPieces, map_map_answer]
      rfl

theorem split_pieces_plain {symbol : Char} (outside : isIdentifierStart symbol = false)
    (rest : Text) :
    splitPieces (symbol :: rest) = (splitPieces rest).map (.plain [symbol] :: ·) := by
  have cut (others : Text) (symbol : Char) (outside : isIdentifierStart symbol = false) :
      splitCalls (symbol :: others) =
        (splitCalls (others.dropWhile fun other => !isIdentifierStart other)).map
          (.plain (symbol :: others.takeWhile fun other => !isIdentifierStart other) :: ·) := by
    rw [splitCalls, if_neg (by simp [outside])]
  cases rest with
  | nil =>
      rw [splitPieces, cut [] symbol outside, splitPieces]
      simp [splitCalls, Fragment.pieces, Except.map]
  | cons second rest =>
      rw [splitPieces, cut _ symbol outside, splitPieces]
      cases start : isIdentifierStart second with
      | true =>
          simp only [List.dropWhile_cons, List.takeWhile_cons, start, map_map_answer]
          rfl
      | false =>
          rw [cut rest second start]
          simp only [List.dropWhile_cons, List.takeWhile_cons, start, map_map_answer]
          rfl

theorem split_pieces_empty : splitPieces [] = .ok [] := by
  simp [splitPieces, splitCalls, Except.map]

theorem split_pieces_front {front : Text} {pieces : List Fragment} (cut : Cuts front pieces)
    {rest : Text} (apart : ¬Joins front rest) :
    splitPieces (front ++ rest) = (splitPieces rest).map (pieces ++ ·) := by
  induction cut with
  | empty => exact (map_id_answer _).symm
  | @plain symbol front pieces outside others induction =>
      have kept : ¬Joins front rest := fun joined => apart (joins_append [symbol] joined)
      rw [List.cons_append, split_pieces_plain outside, induction kept, map_map_answer]
      rfl
  | @name identifier front pieces isName outside uncalled others induction =>
      have kept : ¬Joins front rest := fun joined => apart (joins_append identifier joined)
      obtain ⟨outsideBoth, uncalledBoth⟩ := identifier_apart isName outside uncalled apart
      rw [List.append_assoc, split_pieces_identifier isName outsideBoth,
        continuation_bare uncalledBoth]
      simp only
      rw [induction kept, map_map_answer]
      rfl
  | @call identifier gap argument front pieces isName blanks balanced others induction =>
      have kept : ¬Joins front rest := by
        intro joined
        have whole := joins_append (identifier ++ gap ++ '(' :: argument ++ [')']) joined
        simp only [List.append_assoc, List.cons_append, List.nil_append] at whole apart
        exact apart whole
      have whole : identifier ++ gap ++ '(' :: argument ++ ')' :: front ++ rest =
          identifier ++ (gap ++ '(' :: argument ++ ')' :: (front ++ rest)) := by
        simp only [List.append_assoc, List.cons_append]
      have outside := starts_outside_call blanks argument (front ++ rest)
      rw [whole, split_pieces_identifier isName outside, continuation_closed blanks balanced]
      simp only
      rw [induction kept, map_map_answer]
      rfl

theorem split_pieces_of_cuts {text : Text} {pieces : List Fragment} (cut : Cuts text pieces) :
    splitPieces text = .ok pieces := by
  have whole := split_pieces_front cut (not_joins_nil text)
  rw [List.append_nil, split_pieces_empty] at whole
  simpa [Except.map] using whole

theorem split_pieces_unclosed {identifier rest : Text} (unclosed : Unclosed identifier rest) :
    splitPieces rest = .error (.unclosedCall identifier) := by
  cases unclosed with
  | call isName blanks unclosed =>
      rw [List.append_assoc, split_pieces_identifier isName (starts_outside_gap blanks _),
        continuation_unclosed blanks unclosed]

/-- Induction along the cut of a text, whether or not it can be cut to the end. -/
theorem cutting_induction {motive : Text → Prop} (empty : motive [])
    (plain : ∀ symbol rest, isIdentifierStart symbol = false → motive rest →
      motive (symbol :: rest))
    (name : ∀ identifier rest, IsIdentifier identifier → StartsOutside rest → ¬Opens rest →
      motive rest → motive (identifier ++ rest))
    (call : ∀ identifier gap argument rest, IsIdentifier identifier →
      (∀ symbol ∈ gap, isGapChar symbol) → Balanced argument → motive rest →
      motive (identifier ++ gap ++ '(' :: argument ++ ')' :: rest))
    (unclosed : ∀ identifier rest, Unclosed identifier rest → motive rest) (text : Text) :
    motive text := by
  induction length : text.length using Nat.strong_induction_on generalizing text with
  | _ size induction =>
      subst length
      match text with
      | [] => exact empty
      | symbol :: others =>
          cases start : isIdentifierStart symbol with
          | false => exact plain symbol others start (induction _ (Nat.lt_succ_self _) others rfl)
          | true =>
              have isName : IsIdentifier (symbol :: others.takeWhile isIdentifierContinue) :=
                ⟨start, fun other member => mem_take_while member⟩
              have outside := starts_outside_drop others
              have shorter : (others.dropWhile isIdentifierContinue).length < others.length + 1 :=
                Nat.lt_succ_of_le (List.dropWhile_suffix _).length_le
              have whole : symbol :: others = symbol :: others.takeWhile isIdentifierContinue ++
                  others.dropWhile isIdentifierContinue := by simp
              rw [whole]
              rcases continuation_cases (others.dropWhile isIdentifierContinue) with
                uncalled | ⟨gap, inner, after, blanks, open'⟩ |
                ⟨gap, argument, behind, after, blanks, balanced⟩
              · exact name _ _ isName outside uncalled (induction _ shorter _ rfl)
              · rw [after, ← List.append_assoc]
                exact unclosed _ _ (.call isName blanks open')
              · have behindShorter : behind.length < (symbol :: others).length := by
                  rw [after] at shorter
                  simp only [List.length_append, List.length_cons] at shorter ⊢
                  omega
                rw [after]
                simp only [List.append_assoc, List.cons_append]
                have called := call _ gap argument behind isName blanks balanced
                  (induction _ behindShorter behind rfl)
                simpa only [List.append_assoc, List.cons_append] using called

section

variable {front rest : Text} {pieces : List Fragment}

/-! A piece more in front of a text that does not grow together with what follows it. -/

theorem cuts_apart_plain {symbol : Char} (outside : isIdentifierStart symbol = false)
    (cut : Cuts front pieces) (apart : ¬Joins front rest) :
    Cuts (symbol :: front) (.plain [symbol] :: pieces) ∧ ¬Joins (symbol :: front) rest :=
  ⟨.plain outside cut, fun joined => apart (joins_behind_free outside joined)⟩

theorem cuts_apart_name {identifier : Text} (isName : IsIdentifier identifier)
    (outside : StartsOutside (front ++ rest)) (uncalled : ¬Opens (front ++ rest))
    (cut : Cuts front pieces) (apart : ¬Joins front rest) :
    Cuts (identifier ++ front) (.name identifier :: pieces) ∧
      ¬Joins (identifier ++ front) rest := by
  have uncalledFront : ¬Opens front := fun opening => uncalled (opens_front opening rest)
  exact ⟨.name isName (starts_outside_front outside) uncalledFront cut,
    fun joined => apart (joins_behind_identifier isName outside uncalled joined)⟩

theorem cuts_apart_call {identifier gap argument : Text} (isName : IsIdentifier identifier)
    (blanks : ∀ symbol ∈ gap, isGapChar symbol) (balanced : Balanced argument)
    (cut : Cuts front pieces) (apart : ¬Joins front rest) :
    Cuts (identifier ++ gap ++ '(' :: argument ++ ')' :: front)
        (.call identifier gap argument :: pieces) ∧
      ¬Joins (identifier ++ gap ++ '(' :: argument ++ ')' :: front) rest :=
  ⟨.call isName blanks balanced cut,
    fun joined => apart (joins_behind_separator (by decide) (by decide) joined)⟩

end

/-- A text is cut to its end, or up to a call that is not closed. -/
theorem cuts_or_unclosed (text : Text) :
    (∃ pieces, Cuts text pieces) ∨
      ∃ front pieces identifier rest, text = front ++ rest ∧ Cuts front pieces ∧
        ¬Joins front rest ∧ Unclosed identifier rest := by
  induction text using cutting_induction with
  | empty => exact .inl ⟨[], .empty⟩
  | plain symbol text outside induction =>
      rcases induction with ⟨pieces, cut⟩ |
        ⟨front, pieces, identifier, rest, rfl, cut, apart, unclosed⟩
      · exact .inl ⟨_, .plain outside cut⟩
      · obtain ⟨cutBoth, apartBoth⟩ := cuts_apart_plain outside cut apart
        exact .inr ⟨_, _, identifier, rest, rfl, cutBoth, apartBoth, unclosed⟩
  | name name text isName outside uncalled induction =>
      rcases induction with ⟨pieces, cut⟩ |
        ⟨front, pieces, identifier, rest, rfl, cut, apart, unclosed⟩
      · exact .inl ⟨_, .name isName outside uncalled cut⟩
      · obtain ⟨cutBoth, apartBoth⟩ := cuts_apart_name isName outside uncalled cut apart
        exact .inr ⟨_, _, identifier, rest, by rw [List.append_assoc], cutBoth, apartBoth,
          unclosed⟩
  | call name gap argument text isName blanks balanced induction =>
      rcases induction with ⟨pieces, cut⟩ |
        ⟨front, pieces, identifier, rest, rfl, cut, apart, unclosed⟩
      · exact .inl ⟨_, .call isName blanks balanced cut⟩
      · obtain ⟨cutBoth, apartBoth⟩ := cuts_apart_call isName blanks balanced cut apart
        refine .inr ⟨_, _, identifier, rest, ?_, cutBoth, apartBoth, unclosed⟩
        simp only [List.append_assoc, List.cons_append]
  | unclosed identifier text unclosed =>
      have apart : ¬Joins [] text := not_joins_of_not_ends not_ends_in_name_nil text
      exact .inr ⟨[], [], identifier, text, rfl, .empty, apart, unclosed⟩

theorem cuts_iff {text : Text} {pieces : List Fragment} :
    Cuts text pieces ↔ splitPieces text = .ok pieces := by
  constructor
  · exact split_pieces_of_cuts
  · intro split
    rcases cuts_or_unclosed text with ⟨found, cut⟩ |
      ⟨front, found, identifier, rest, rfl, cut, apart, unclosed⟩
    · rw [split_pieces_of_cuts cut] at split
      exact Except.ok.inj split ▸ cut
    · rw [split_pieces_front cut apart, split_pieces_unclosed unclosed] at split
      contradiction

theorem cuts_append {front rest : Text} {pieces others : List Fragment} (cut : Cuts front pieces)
    (apart : ¬Joins front rest) (behind : Cuts rest others) :
    Cuts (front ++ rest) (pieces ++ others) := by
  rw [cuts_iff, split_pieces_front cut apart, split_pieces_of_cuts behind]
  rfl

/-- The pieces of a text up to some point are those of the text up to there. -/
theorem cuts_append_apart {text : Text} {pieces others : List Fragment}
    (cut : Cuts text (pieces ++ others)) :
    ∃ front rest, text = front ++ rest ∧ Cuts front pieces ∧ Cuts rest others ∧
      ¬Joins front rest := by
  induction pieces generalizing text with
  | nil =>
      have apart : ¬Joins [] text := not_joins_of_not_ends not_ends_in_name_nil text
      exact ⟨[], text, rfl, .empty, cut, apart⟩
  | cons piece pieces induction =>
      cases cut with
      | plain outside cut =>
          obtain ⟨front, rest, rfl, frontCut, restCut, apart⟩ := induction cut
          obtain ⟨cutBoth, apartBoth⟩ := cuts_apart_plain outside frontCut apart
          exact ⟨_, rest, rfl, cutBoth, restCut, apartBoth⟩
      | name isName outside uncalled cut =>
          obtain ⟨front, rest, rfl, frontCut, restCut, apart⟩ := induction cut
          obtain ⟨cutBoth, apartBoth⟩ := cuts_apart_name isName outside uncalled frontCut apart
          exact ⟨_, rest, (List.append_assoc ..).symm, cutBoth, restCut, apartBoth⟩
      | call isName blanks balanced cut =>
          obtain ⟨front, rest, rfl, frontCut, restCut, apart⟩ := induction cut
          obtain ⟨cutBoth, apartBoth⟩ := cuts_apart_call isName blanks balanced frontCut apart
          refine ⟨_, rest, ?_, cutBoth, restCut, apartBoth⟩
          simp only [List.append_assoc, List.cons_append]

theorem cuts_whole {text : Text} {pieces : List Fragment} (cut : Cuts text pieces) :
    pieces.flatMap Fragment.source = text := by
  induction cut with
  | empty => rfl
  | plain outside others induction => simp [Fragment.source, induction]
  | name isName apart uncalled others induction => simp [Fragment.source, induction]
  | call isName blanks balanced others induction => simp [Fragment.source, induction]

theorem pieces_source (fragments : List Fragment) :
    (fragments.flatMap Fragment.pieces).flatMap Fragment.source =
      fragments.flatMap Fragment.source := by
  induction fragments with
  | nil => rfl
  | cons fragment fragments induction =>
      rw [List.flatMap_cons, List.flatMap_append, List.flatMap_cons, induction]
      congr 1
      cases fragment with
      | plain source => simp [Fragment.pieces, Fragment.source, List.flatMap_map]
      | name identifier => simp [Fragment.pieces]
      | call identifier gap argument => simp [Fragment.pieces]

end InfixCalculator
