import InfixCalculator.Numeric.RoundTrip
import InfixCalculator.Proofs.Cutting
import InfixCalculator.Scanner

/-!
Values as text. The plain form of a finite float is a sign and a numeral, so it
holds no name, and spliced it opens and closes its own group if it has one.
-/

namespace InfixCalculator

/-- No identifier starts anywhere in the text. -/
def IsNameless (text : Text) : Prop := ∀ symbol ∈ text, isIdentifierStart symbol = false

theorem nameless_nil : IsNameless [] := List.forall_mem_nil _

theorem nameless_singleton {symbol : Char} (outside : isIdentifierStart symbol = false) :
    IsNameless [symbol] := by
  simpa [IsNameless] using outside

theorem nameless_append {text rest : Text} (nameless : IsNameless text)
    (others : IsNameless rest) : IsNameless (text ++ rest) :=
  fun symbol member => (List.mem_append.1 member).elim (nameless symbol) (others symbol)

theorem nameless_not_ends {blank : Char → Bool} {text : Text} (nameless : IsNameless text) :
    ¬EndsInName blank text := by
  intro ends
  rw [← List.append_nil text] at ends
  exact not_ends_in_name_nil (ends_in_name_behind_free nameless ends)

theorem cuts_nameless {text : Text} (nameless : IsNameless text) :
    Cuts text (text.map fun symbol => .plain [symbol]) := by
  induction text with
  | nil => exact .empty
  | cons symbol text induction =>
      exact .plain (nameless symbol List.mem_cons_self)
        (induction fun other member => nameless other (List.mem_cons_of_mem _ member))

theorem identifier_balanced {identifier : Text} (isName : IsIdentifier identifier) :
    Balanced identifier := by
  apply balanced_of_free
  intro symbol member
  have inside := identifier_continues isName symbol member
  constructor <;>
  · intro same
    subst same
    contradiction

theorem gap_balanced {gap : Text} (blanks : ∀ symbol ∈ gap, isGapChar symbol) : Balanced gap := by
  apply balanced_of_free
  intro symbol member
  have blank := blanks symbol member
  constructor <;>
  · intro same
    subst same
    contradiction

theorem call_balanced {identifier gap argument : Text} (isName : IsIdentifier identifier)
    (blanks : ∀ symbol ∈ gap, isGapChar symbol) (balanced : Balanced argument) :
    Balanced (identifier ++ gap ++ '(' :: argument ++ [')']) := by
  have name := balanced_append (identifier_balanced isName) (gap_balanced blanks)
  have whole := balanced_append name (balanced_group balanced)
  rwa [List.cons_append, ← List.cons_append, ← List.append_assoc] at whole

theorem nameless_not_joins {text : Text} (nameless : IsNameless text) (rest : Text) :
    ¬Joins text rest :=
  not_joins_of_not_ends (nameless_not_ends nameless) rest

theorem literal_not_start {symbol : Char} (literal : isLiteralChar symbol) :
    isIdentifierStart symbol = false := by
  simp only [isLiteralChar, Bool.or_eq_true, beq_iff_eq] at literal
  rcases literal with digit | rfl
  · exact not_start_of_digit digit
  · decide

theorem literal_not_paren {symbol : Char} (literal : isLiteralChar symbol) :
    symbol ≠ '(' ∧ symbol ≠ ')' := by
  constructor <;>
  · intro same
    subst same
    contradiction

theorem literal_not_blank {symbol : Char} (literal : isLiteralChar symbol) :
    isGapChar symbol = false := by
  cases blank : isGapChar symbol with
  | false => rfl
  | true =>
      simp only [isGapChar, Bool.or_eq_true, beq_iff_eq] at blank
      rcases blank with (((rfl | rfl) | rfl) | rfl) | rfl <;> contradiction

theorem numeral_symbols {numeral : Text} {magnitude : Decimal}
    (read : Decimal.ofNumeral? numeral = some magnitude) :
    numeral ≠ [] ∧ ∀ symbol ∈ numeral, isLiteralChar symbol := by
  have digits : ∀ symbol ∈ numeral.takeWhile Char.isDigit, isLiteralChar symbol := by
    intro symbol member
    simp [isLiteralChar, mem_take_while member]
  have whole := @List.takeWhile_append_dropWhile Char Char.isDigit numeral
  constructor
  · intro empty
    simp [empty, Decimal.ofNumeral?] at read
  · intro symbol member
    rw [← whole] at member
    rcases List.mem_append.1 member with first | last
    · exact digits symbol first
    · simp only [Decimal.ofNumeral?] at read
      split at read
      · rename_i dropped
        rw [dropped] at last
        contradiction
      · rename_i separator fraction dropped
        rw [dropped] at last
        split at read
        · rename_i shape
          rcases shape with ⟨rfl, fractionDigits, -⟩
          rcases List.mem_cons.1 last with rfl | behind
          · rfl
          · simp [isLiteralChar, List.all_eq_true.1 fractionDigits symbol behind]
        · contradiction

/-- The plain form of a finite float is a sign and a numeral that reads as the
float. -/
theorem display_numeral {value : Binary64} (finite : Binary64.isFinite value) :
    ∃ numeral, Binary64.display value = Binary64.signText value ++ numeral ∧ numeral ≠ [] ∧
      (∀ symbol ∈ numeral, isLiteralChar symbol) ∧
      Scanner.literalReading (Binary64.isNegative value) numeral = .token (.number value) := by
  obtain ⟨numeral, magnitude, shown, read, same⟩ := Binary64.read_display finite
  obtain ⟨filled, symbols⟩ := numeral_symbols read
  refine ⟨numeral, shown, filled, symbols, ?_⟩
  simp only [Scanner.literalReading, read, same]

theorem display_symbols {value : Binary64} (finite : Binary64.isFinite value) :
    ∀ symbol ∈ Binary64.display value, symbol = '-' ∨ isLiteralChar symbol := by
  obtain ⟨numeral, shown, -, symbols, -⟩ := display_numeral finite
  intro symbol member
  rw [shown] at member
  rcases List.mem_append.1 member with sign | rest
  · unfold Binary64.signText at sign
    split at sign
    · exact .inl (List.mem_singleton.1 sign)
    · contradiction
  · exact .inr (symbols symbol rest)

theorem display_nameless {value : Binary64} (finite : Binary64.isFinite value) :
    IsNameless (Binary64.display value) := by
  intro symbol member
  rcases display_symbols finite symbol member with rfl | literal
  · decide
  · exact literal_not_start literal

theorem display_balanced (value : Binary64) : Balanced (Binary64.display value) := by
  have sign : Balanced (Binary64.signText value) := by
    unfold Binary64.signText
    split <;> rfl
  by_cases finite : Binary64.isFinite value
  · apply balanced_of_free
    intro symbol member
    rcases display_symbols finite symbol member with rfl | literal
    · decide
    · exact literal_not_paren literal
  · unfold Binary64.display
    split
    · rfl
    · exact balanced_append sign rfl

theorem splice_cases (value : Binary64) :
    (Binary64.isNegative value ∧
        splice value = [' '] ++ ('(' :: Binary64.display value ++ [')']) ++ [' ']) ∨
      (Binary64.isNegative value = false ∧
        splice value = [' '] ++ Binary64.display value ++ [' ']) := by
  unfold splice
  cases Binary64.isNegative value with
  | true => simp
  | false => simp

theorem display_visible {value : Binary64} (positive : Binary64.isNegative value = false) :
    ∃ symbol others, Binary64.display value = symbol :: others ∧ isGapChar symbol = false ∧
      symbol ≠ '(' := by
  cases finite : Binary64.isFinite value with
  | true =>
      obtain ⟨numeral, shown, filled, symbols, -⟩ := display_numeral finite
      obtain ⟨symbol, others, rfl⟩ := List.exists_cons_of_ne_nil filled
      have literal := symbols symbol List.mem_cons_self
      rw [Binary64.signText, positive] at shown
      exact ⟨symbol, others, shown, literal_not_blank literal, (literal_not_paren literal).1⟩
  | false =>
      rw [Binary64.display, finite, Binary64.signText, positive]
      cases Binary64.isNaN value with
      | true => exact ⟨'N', "aN".toList, rfl, by decide, by decide⟩
      | false => exact ⟨'i', "nf".toList, rfl, by decide, by decide⟩

theorem spliced_not_opens {value : Binary64} (positive : Binary64.isNegative value = false)
    (rest : Text) : ¬Opens (splice value ++ rest) := by
  obtain ⟨symbol, others, shown, visible, other⟩ := display_visible positive
  rw [splice, positive, shown]
  exact (opens_behind_blank (by decide) _).not.2 (not_opens_cons visible other _)

theorem splice_nameless {value : Binary64} (finite : Binary64.isFinite value) :
    IsNameless (splice value) := by
  have shown := display_nameless finite
  have blank : IsNameless [' '] := nameless_singleton (by decide)
  have opening : IsNameless ['('] := nameless_singleton (by decide)
  have closing : IsNameless [')'] := nameless_singleton (by decide)
  rcases splice_cases value with ⟨-, form⟩ | ⟨-, form⟩
  · rw [form]
    exact nameless_append (nameless_append blank
      (nameless_append (nameless_append opening shown) closing)) blank
  · rw [form]
    exact nameless_append (nameless_append blank shown) blank

theorem splice_balanced (value : Binary64) : Balanced (splice value) := by
  have shown := display_balanced value
  have blank : Balanced [' '] := rfl
  rcases splice_cases value with ⟨-, form⟩ | ⟨-, form⟩
  · rw [form]
    exact balanced_append (balanced_append blank (balanced_group shown)) blank
  · rw [form]
    exact balanced_append (balanced_append blank shown) blank

theorem splice_visible {value : Binary64} (finite : Binary64.isFinite value) :
    ∃ symbol ∈ splice value, isGapChar symbol = false := by
  obtain ⟨numeral, shown, filled, symbols, -⟩ := display_numeral finite
  obtain ⟨symbol, others, rfl⟩ := List.exists_cons_of_ne_nil filled
  refine ⟨symbol, ?_, literal_not_blank (symbols symbol List.mem_cons_self)⟩
  rcases splice_cases value with ⟨-, form⟩ | ⟨-, form⟩ <;> simp [form, shown]

end InfixCalculator
