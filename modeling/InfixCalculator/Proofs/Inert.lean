import InfixCalculator.Proofs.Accounting

/-!
Constants that are not finite. They are written as words, which spell no token, so the
scanner reads the text as if the names still stood there. Only a sign leaves a trace: the
parentheses around the word, and the operator in front of a negative infinity.
-/

namespace InfixCalculator

open Scanner

/-- Nothing in the text spells a token or belongs to a literal. -/
def IsInert (text : Text) : Prop :=
  ∀ symbol ∈ text, Token.ofChar? symbol = none ∧ isLiteralChar symbol = false

instance : DecidablePred IsInert := fun text => List.decidableBAll _ text

theorem tokens_inert_text {text : Text} (inert : IsInert text) (previous : Option Token)
    (rest : Text) : tokens previous (text ++ rest) = tokens previous rest := by
  induction text with
  | nil => rfl
  | cons symbol text induction =>
      obtain ⟨unspelled, other⟩ := inert symbol List.mem_cons_self
      rw [List.cons_append, tokens_inert unspelled other]
      exact induction fun later member => inert later (List.mem_cons_of_mem _ member)

theorem inert_apart {text : Text} (inert : IsInert text) (filled : text ≠ []) (rest : Text) :
    literalFollows (text ++ rest) = false := by
  obtain ⟨symbol, others, rfl⟩ := List.exists_cons_of_ne_nil filled
  exact (inert symbol List.mem_cons_self).2

/-- One word may stand for another wherever both keep literals apart. -/
theorem tokenize_exchange {first second : Text} (firstInert : IsInert first)
    (firstFilled : first ≠ []) (secondInert : IsInert second) (secondFilled : second ≠ [])
    (front rest : Text) :
    tokenize (front ++ (first ++ rest)) = tokenize (front ++ (second ++ rest)) := by
  rw [tokenize, tokenize]
  rcases tokens_prefix none front with ⟨cause, failed⟩ | ⟨last, read, scanned⟩
  · rw [failed _ (inert_apart firstInert firstFilled rest),
      failed _ (inert_apart secondInert secondFilled rest)]
  · rw [scanned _ (inert_apart firstInert firstFilled rest), tokens_inert_text firstInert,
      scanned _ (inert_apart secondInert secondFilled rest), tokens_inert_text secondInert]

theorem constant_inert {settings : Settings} {identifier : Text} {value : Binary64}
    (known : settings.constant? identifier = some value) :
    IsInert identifier ∧ identifier ≠ [] := by
  unfold Settings.constant? at known
  split at known
  · rename_i named
    rcases named with rfl | rfl <;> decide
  · split at known
    · rename_i named
      rcases named with rfl | rfl <;> decide
    · contradiction

/-- The spliced forms of the floats that are not finite. A NaN shows its sign by the
parentheses only. -/
theorem splice_nonfinite_forms {value : Binary64} (infinite : Binary64.isFinite value = false) :
    splice value = " NaN ".toList ∨ splice value = " inf ".toList ∨
      splice value = " (NaN) ".toList ∨ splice value = " (-inf) ".toList := by
  have display : Binary64.display value = if Binary64.isNaN value then "NaN".toList
      else Binary64.signText value ++ "inf".toList := by
    rw [Binary64.display, infinite]
    rfl
  rw [splice, display, Binary64.signText]
  cases Binary64.isNaN value <;> cases Binary64.isNegative value <;> decide

theorem splice_nonfinite_cases {value : Binary64} (infinite : Binary64.isFinite value = false) :
    IsInert (splice value) ∨ splice value = " (NaN) ".toList ∨
      splice value = " (-inf) ".toList := by
  rcases splice_nonfinite_forms infinite with shown | shown | signed
  · rw [shown]
    exact .inl (by decide)
  · rw [shown]
    exact .inl (by decide)
  · exact .inr signed

theorem splice_filled (value : Binary64) : splice value ≠ [] := by
  rcases splice_cases value with ⟨-, form⟩ | ⟨-, form⟩ <;> simp [form]

/-- A spliced negative infinity leaves its sign as an operator. -/
theorem operator_of_infinity {left right : Text} {read : List Token}
    (scanned : tokenize (left ++ " (-inf) ".toList ++ right) = .ok read) :
    .subtract ∈ read.filterMap Token.operator? := by
  have sign : tokenize "-inf".toList = .ok [.operator .subtract] := by decide +kernel
  have blank (previous : Option Token) (rest : Text) :
      tokens previous (' ' :: rest) = tokens previous rest := tokens_inert rfl rfl previous rest
  have stands : StandsAs " (-inf) ".toList
      [.leftParen, .operator .subtract, .rightParen] := by
    intro previous rest
    have group := stands_as_group sign previous (' ' :: rest)
    rw [blank] at group
    exact (blank previous _).trans group
  obtain ⟨leftRead, rightRead, rfl⟩ := read_around stands (fun _ => rfl) scanned
  simp [Token.operator?]

/-- Text that is read behind an operand and has no operator is read alike everywhere, as
nothing in it can be a sign. -/
theorem tokens_unsigned {previous : Option Token} (settled : expectsOperand previous = false)
    {text : Text} {read : List Token} (scanned : tokens previous text = .ok read)
    (unapplied : read.filterMap Token.operator? = []) (other : Option Token) :
    tokens other text = .ok read := by
  induction previous, text using scanning_induction with
  | empty previous => rwa [tokens_empty] at scanned ⊢
  | literal previous negative run rest filled literal apart signed induction =>
      have unsigned : negative = false := by
        cases negative with
        | false => rfl
        | true => exact absurd (settled.symm.trans (signed rfl)) nofun
      subst unsigned
      have here := read_next_literal filled literal apart signed
      have there := @read_next_literal other false _ _ filled literal apart nofun
      rcases literal_reading_cases false run with ⟨value, token⟩ | ⟨text, malformed⟩
      · rwa [tokens_of_token (token ▸ here), ← tokens_of_token (token ▸ there)] at scanned
      · rw [tokens_of_malformed (malformed ▸ here)] at scanned
        contradiction
  | symbol previous symbol token rest spelled unsigned induction =>
      rw [tokens_of_token (read_next_symbol spelled unsigned)] at scanned
      have noSign : symbol ≠ '-' := by
        rintro rfl
        obtain ⟨others, -, rfl⟩ := exists_of_map_ok scanned
        obtain rfl : .operator .subtract = token := Option.some.inj spelled
        contradiction
      have there := @read_next_symbol other _ _ rest spelled fun same => absurd same noSign
      rwa [← tokens_of_token there] at scanned
  | inert previous symbol rest inert apart induction =>
      rw [tokens_inert inert apart] at scanned ⊢
      exact induction settled scanned

def HasSameParts (first second : List Token) : Prop :=
  first.filterMap Token.number? = second.filterMap Token.number? ∧
    first.filterMap Token.operator? = second.filterMap Token.operator?

/-- A spliced NaN with a sign leaves an empty group, which no operator can refer to. -/
theorem tokenize_without_group {front word rest : Text} {read : List Token}
    (inert : IsInert word) (filled : word ≠ [])
    (scanned : tokenize (front ++ (" (NaN) ".toList ++ rest)) = .ok read)
    (unapplied : read.filterMap Token.operator? = []) :
    ∃ own, tokenize (front ++ (word ++ rest)) = .ok own ∧ HasSameParts own read := by
  have group (previous : Option Token) : tokens previous (" (NaN) ".toList ++ rest) =
      (tokens (some .rightParen) rest).map ([.leftParen, .rightParen] ++ ·) := by
    have blank (previous : Option Token) (rest : Text) :
        tokens previous (' ' :: rest) = tokens previous rest := tokens_inert rfl rfl previous rest
    have stands := @stands_as_group "NaN".toList [] (by decide +kernel) previous (' ' :: rest)
    rw [blank] at stands
    exact (blank previous _).trans stands
  rw [tokenize] at scanned
  rcases tokens_prefix none front with ⟨cause, failed⟩ | ⟨last, early, split⟩
  · rw [failed _ rfl] at scanned
    contradiction
  · rw [split _ rfl, group, map_map_answer] at scanned
    obtain ⟨later, behind, rfl⟩ := exists_of_map_ok scanned
    have unappliedLater : later.filterMap Token.operator? = [] := by
      simp only [List.filterMap_append, List.append_eq_nil_iff] at unapplied
      exact unapplied.2.2
    refine ⟨early ++ later, ?_, ?_⟩
    · rw [tokenize, split _ (inert_apart inert filled rest), tokens_inert_text inert,
        tokens_unsigned rfl behind unappliedLater last]
      rfl
    · constructor <;>
      · rw [List.filterMap_append, List.filterMap_append]
        rfl

/-- If no number is finite and there is no operator once constants are in place, the
text itself has these numbers and no operator either: it named none but constants that
are not finite. -/
theorem tokenize_of_valued {settings : Settings} {text : Text} {pieces : List Fragment}
    {read : List Token} (cut : Cuts text pieces) {front : Text}
    (scanned : tokenize (front ++ valued settings pieces) = .ok read)
    (infinite : ∀ value ∈ read.filterMap Token.number?, Binary64.isFinite value = false)
    (unapplied : read.filterMap Token.operator? = []) :
    ∃ own, tokenize (front ++ text) = .ok own ∧ HasSameParts own read := by
  -- What stays as it is moves to the front, so the next name stands between two texts.
  induction cut generalizing front read with
  | empty => exact ⟨read, scanned, rfl, rfl⟩
  | @plain symbol rest pieces outside others induction =>
      rw [← List.singleton_append, ← List.append_assoc]
      apply induction _ infinite unapplied
      rwa [List.append_assoc]
  | @name identifier rest pieces isName apart uncalled others induction =>
      rw [valued_cons] at scanned
      rw [← List.append_assoc]
      cases known : settings.constant? identifier with
      | none =>
          rw [unknown_with_constants known, ← List.append_assoc] at scanned
          exact induction scanned infinite unapplied
      | some value =>
          rw [constant_with_constants known] at scanned
          obtain ⟨inert, filled⟩ := constant_inert known
          cases shown : Binary64.isFinite value with
          | true =>
              rw [← List.append_assoc] at scanned
              rw [infinite value (number_of_spliced shown scanned)] at shown
              contradiction
          | false =>
              rcases splice_nonfinite_cases shown with word | group | signed
              · rw [tokenize_exchange word (splice_filled value) inert filled,
                  ← List.append_assoc] at scanned
                exact induction scanned infinite unapplied
              · rw [group] at scanned
                obtain ⟨bare, scannedBare, numbers, operators⟩ :=
                  tokenize_without_group inert filled scanned unapplied
                rw [← List.append_assoc] at scannedBare
                obtain ⟨own, scannedOwn, sameNumbers, sameOperators⟩ :=
                  induction scannedBare (numbers ▸ infinite) (operators.trans unapplied)
                exact ⟨own, scannedOwn, sameNumbers.trans numbers, sameOperators.trans operators⟩
              · rw [signed, ← List.append_assoc] at scanned
                have applied := operator_of_infinity scanned
                rw [unapplied] at applied
                contradiction
  | @call identifier gap argument rest pieces isName blanks balanced others induction =>
      have whole : front ++ (identifier ++ gap ++ '(' :: argument ++ ')' :: rest) =
          front ++ (identifier ++ gap ++ '(' :: argument ++ [')']) ++ rest := by simp
      rw [whole]
      apply induction _ infinite unapplied
      rw [List.append_assoc, ← call_with_constants settings, ← valued_cons]
      exact scanned

end InfixCalculator
