import InfixCalculator.Proofs.Inert
import InfixCalculator.Proofs.Spacing

/-!
Bare names that are no constants. They are left in place and the scanner, which knows no
names, passes over their letters and underscores one by one. The digits among them are numbers
like any others. So blanks may stand for the letters, and one blank for a name without digits.
-/

namespace InfixCalculator

open Scanner

/-- Blanks in place of all symbols but the digits. -/
def lettersBlanked (identifier : Text) : Text :=
  identifier.map fun symbol => if symbol.isDigit then symbol else ' '

/-- A text without names that neither goes on with an identifier nor opens a parenthesis. -/
structure IsFiller (text : Text) : Prop where
  filled : text ≠ []
  nameless : IsNameless text
  outside : StartsOutside text
  unopened : '(' ∉ text

theorem IsFiller.not_opens {text rest : Text} (filler : IsFiller text) (closed : ¬Opens rest) :
    ¬Opens (text ++ rest) := by
  by_cases blanks : ∀ symbol ∈ text, isGapChar symbol
  · rwa [opens_behind_gap blanks]
  · rw [opens_append blanks]
    intro opening
    exact filler.unopened (drop_while_subset _ _ (List.mem_of_mem_head? opening))

theorem IsFiller.not_joins {text rest : Text} (filler : IsFiller text) (closed : ¬Opens rest)
    (left : Text) : ¬Joins left (text ++ rest) :=
  not_joins_of_apart ((starts_outside_append filler.filled).2 filler.outside)
    (filler.not_opens closed) left

def ReadAlike (first second : Text) : Prop :=
  ∀ front rest, tokenize (front ++ (first ++ rest)) = tokenize (front ++ (second ++ rest))

theorem passes_unknown {settings : Settings} {identifier : Text} (isName : IsIdentifier identifier)
    (unknown : settings.constant? identifier = none) :
    Passes settings identifier [.name identifier] [.name identifier] := by
  have cut := Cuts.name isName starts_outside_nil not_opens_nil .empty
  rw [List.append_nil] at cut
  refine ⟨cut, ?_⟩
  rwa [valued_cons, unknown_with_constants unknown, valued, List.flatMap_nil, List.append_nil]

theorem evaluate_text_filled {m : Type → Type} [Monad m] [LawfulMonad m] {calculator : Calculator m}
    (finite : calculator.settings.HasFiniteConstants)
    (unsigned : calculator.settings.HasUnsignedConstants) {front rest identifier filler : Text}
    {before after : List Fragment} (frontCut : Cuts front before)
    (apart : ¬Joins front (identifier ++ rest)) (isName : IsIdentifier identifier)
    (unknown : calculator.settings.constant? identifier = none) (outside : StartsOutside rest)
    (uncalled : ¬Opens rest) (restCut : Cuts rest after) (fills : IsFiller filler)
    (alike : ReadAlike identifier filler) :
    calculator.evaluateText (front ++ (identifier ++ rest)) =
      calculator.evaluateText (front ++ (filler ++ rest)) := by
  obtain ⟨frontOthers, frontPasses⟩ := exists_passes finite frontCut
  obtain ⟨restOthers, restPasses⟩ := exists_passes finite restCut
  have named := (passes_unknown isName unknown).append finite restPasses
    (not_joins_of_apart outside uncalled identifier)
    (valued_not_joins finite unsigned restCut (not_joins_of_apart outside uncalled identifier))
  have filled := (passes_nameless calculator.settings fills.nameless).append finite restPasses
    (nameless_not_joins fills.nameless _) (nameless_not_joins fills.nameless _)
  have apartFilled := fills.not_joins uncalled front
  have wholeNamed := frontPasses.append finite named apart
    (valued_not_joins finite unsigned named.cut apart)
  have wholeFilled := frontPasses.append finite filled apartFilled
    (valued_not_joins finite unsigned filled.cut apartFilled)
  have left (arithmetic : Arithmetic m) (evaluate : Text → Evaluation m Binary64) :
      resolvePieces arithmetic evaluate [.name identifier] = pure identifier := by
    simp [resolvePieces, resolvePiece, Fragment.source]
  rw [calculator.evaluate_text_of_passes wholeNamed, calculator.evaluate_text_of_passes wholeFilled]
  simp only [resolve_pieces_append, resolve_pieces_plain, left, bind_assoc, pure_bind]
  congr 1
  funext resolvedFront
  congr 1
  funext resolvedRest
  rw [Calculator.evaluateInfix, Calculator.evaluateInfix, alike]

theorem token_not_continue {symbol : Char} {token : Token}
    (spelled : Token.ofChar? symbol = some token) : isIdentifierContinue symbol = false := by
  have each : tokenSymbols.all fun other => !isIdentifierContinue other := by decide
  simpa using List.all_eq_true.1 each symbol (token_symbol_listed spelled)

theorem continue_inert {symbol : Char} (inside : isIdentifierContinue symbol)
    (other : symbol.isDigit = false) :
    Token.ofChar? symbol = none ∧ isLiteralChar symbol = false := by
  constructor
  · cases spelled : Token.ofChar? symbol with
    | none => rfl
    | some token =>
        rw [token_not_continue spelled] at inside
        contradiction
  · have point : symbol ≠ '.' := by
      rintro rfl
      contradiction
    simp [isLiteralChar, other, point]

/-- Letter by letter, with the blanks that stand for earlier letters in front. -/
theorem read_alike_letters {identifier : Text}
    (continued : ∀ symbol ∈ identifier, isIdentifierContinue symbol) :
    ReadAlike identifier (lettersBlanked identifier) := by
  intro front rest
  induction identifier generalizing front with
  | nil => rfl
  | cons symbol run induction =>
      obtain ⟨inside, others⟩ := List.forall_mem_cons.1 continued
      have whole : lettersBlanked (symbol :: run) =
          (if symbol.isDigit then symbol else ' ') :: lettersBlanked run := rfl
      have later (front : Text) : tokenize (front ++ run ++ rest) =
          tokenize (front ++ lettersBlanked run ++ rest) := by
        simpa using induction others front
      cases digit : symbol.isDigit with
      | true => simpa [whole, digit] using later (front ++ [symbol])
      | false =>
          have letter : IsInert [symbol] := by simpa [IsInert] using continue_inert inside digit
          have blank : IsInert [' '] := by decide
          have exchanged := tokenize_exchange letter (by simp) blank (by simp) front (run ++ rest)
          have moved := later (front ++ [' '])
          simp only [List.append_assoc, List.singleton_append] at exchanged moved
          simpa [whole, digit] using exchanged.trans moved

theorem read_alike_blank {identifier : Text} (isName : IsIdentifier identifier)
    (digitless : ∀ symbol ∈ identifier, symbol.isDigit = false) :
    ReadAlike identifier [' '] := by
  have inert : IsInert identifier := fun symbol member =>
    continue_inert (identifier_continues isName symbol member) (digitless symbol member)
  have filled : identifier ≠ [] := by
    rintro rfl
    exact isName
  exact tokenize_exchange inert filled (by decide) (by simp)

theorem blank_fills : IsFiller [' '] where
  filled := by simp
  nameless := nameless_singleton (by decide)
  outside := starts_outside_cons.2 (by decide)
  unopened := by decide

theorem letters_fill {identifier : Text} (isName : IsIdentifier identifier) :
    IsFiller (lettersBlanked identifier) := by
  have symbols : ∀ symbol ∈ lettersBlanked identifier, symbol = ' ' ∨ symbol.isDigit := by
    intro symbol member
    obtain ⟨own, -, rfl⟩ := List.mem_map.1 member
    cases digit : own.isDigit <;> simp [digit]
  match identifier, isName with
  | first :: run, ⟨start, _⟩ =>
      have letter : first.isDigit = false := by
        by_contra digit
        rw [not_start_of_digit (by simpa using digit)] at start
        contradiction
      have shape : lettersBlanked (first :: run) = ' ' :: lettersBlanked run := by
        simp [lettersBlanked, letter]
      refine ⟨by simp [shape], ?_, ?_, ?_⟩
      · intro symbol member
        rcases symbols symbol member with rfl | digit
        · decide
        · exact not_start_of_digit digit
      · rw [shape]
        exact starts_outside_cons.2 (by decide)
      · intro member
        rcases symbols '(' member with same | digit <;> contradiction

/-- A bare name that is no constant is read as blanks and the digits in it, and without digits
as nothing. -/
theorem evaluate_unknown_name {m : Type → Type} [Monad m] [LawfulMonad m]
    (calculator : Calculator m) (finite : calculator.settings.HasFiniteConstants)
    (unsigned : calculator.settings.HasUnsignedConstants) {text identifier : Text}
    {before after : List Fragment}
    (split : splitCalls text = .ok (before ++ .name identifier :: after))
    (unknown : calculator.settings.constant? identifier = none) :
    let left := before.flatMap Fragment.source
    let right := after.flatMap Fragment.source
    text = left ++ identifier ++ right ∧
      calculator.evaluateText text =
        calculator.evaluateText (left ++ lettersBlanked identifier ++ right) ∧
      ((∀ symbol ∈ identifier, symbol.isDigit = false) →
        calculator.evaluateText text = calculator.evaluateText (left ++ ' ' :: right)) := by
  intro left right
  have cut : Cuts text (before.flatMap Fragment.pieces ++
      .name identifier :: after.flatMap Fragment.pieces) := by
    rw [cuts_iff, splitPieces, split]
    simp [Except.map, Fragment.pieces]
  obtain ⟨front, rest, rfl, frontCut, restCut, apart⟩ := cuts_append_apart cut
  cases restCut with
  | @name _ rest _ isName outside uncalled restCut =>
      obtain rfl : left = front := (pieces_source before).symm.trans (cuts_whole frontCut)
      obtain rfl : right = rest := (pieces_source after).symm.trans (cuts_whole restCut)
      have replaced {filler : Text} (fills : IsFiller filler)
          (alike : ReadAlike identifier filler) :=
        evaluate_text_filled finite unsigned frontCut apart isName unknown outside uncalled restCut
          fills alike
      refine ⟨(List.append_assoc ..).symm, ?_, fun digitless => ?_⟩
      · rw [List.append_assoc]
        exact replaced (letters_fill isName) (read_alike_letters (identifier_continues isName))
      · exact replaced blank_fills (read_alike_blank isName digitless)

/-- One name has a digit behind a sign, the other has none. -/
theorem evaluate_unknown_name_between :
    splitCalls "7-x2*y".toList =
        .ok [.plain "7-".toList, .name "x2".toList, .plain "*".toList, .name "y".toList] ∧
      Settings.standard.HasFiniteConstants ∧ Settings.standard.HasUnsignedConstants ∧
      Settings.standard.constant? "x2".toList = none ∧
      Settings.standard.constant? "y".toList = none ∧
      (Calculator.standard .vanishing .standard).evaluateText "7-x2*y".toList =
        (Calculator.standard .vanishing .standard).evaluateText "7- 2*y".toList ∧
      (Calculator.standard .vanishing .standard).evaluateText "7-x2*y".toList =
        (Calculator.standard .vanishing .standard).evaluateText "7-x2* ".toList := by
  have split : splitCalls "7-x2*y".toList =
      .ok [.plain "7-".toList, .name "x2".toList, .plain "*".toList, .name "y".toList] := by
    decide +kernel
  have unknown : Settings.standard.constant? "x2".toList = none ∧
      Settings.standard.constant? "y".toList = none := by decide +kernel
  have read := @evaluate_unknown_name Id _ _ (.standard .vanishing .standard)
    standard_finite_constants standard_unsigned_constants "7-x2*y".toList
  exact ⟨split, standard_finite_constants, standard_unsigned_constants, unknown.1, unknown.2,
    (@read _ [.plain "7-".toList] _ split unknown.1).2.1,
    (@read _ [.plain "7-".toList, .name "x2".toList, .plain "*".toList] _ split unknown.2).2.2
      (by simp)⟩

/-- A name is not read whole once it is left in place: its digit is the value of the text. -/
theorem digits_of_unknown_name :
    splitCalls "x2".toList = .ok [.name "x2".toList] ∧
      Settings.standard.constant? "x2".toList = none ∧
      evaluate "x2" = .ok 2 ∧ evaluate " " = .error .empty := by
  refine ⟨by decide +kernel, by decide +kernel, ?_, ?_⟩
  · decide +kernel
  · decide +kernel

end InfixCalculator
