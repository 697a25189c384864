import InfixCalculator.Proofs.JsonReading

/-!
What the reader accepts. Whatever is read was spelled by the grammar, and the lexemes of the
values on the stack, with what is still to be read, are always the lexemes of the result. So the
reader accepts exactly the documents of the grammar.
-/

namespace InfixCalculator

namespace Json

/-! Numbers -/

theorem digits_spelled {text : Text} (filled : (digitsOf text).1.isEmpty = false) :
    text = (digitsOf text).1 ++ (digitsOf text).2 ∧ AreDigits (digitsOf text).1 := by
  refine ⟨List.takeWhile_append_dropWhile.symm, by simpa using filled, fun symbol member => ?_⟩
  exact List.all_eq_true.1 List.all_takeWhile symbol member

theorem whole_part_spelled {text whole rest : Text} (found : wholePart? text = some (whole, rest)) :
    text = whole ++ rest ∧ IsWhole whole := by
  unfold wholePart? at found
  split at found
  · cases found
    exact ⟨rfl, .inl rfl⟩
  · rename_i nonzero
    simp only [Option.ite_none_left_eq_some, Option.some.injEq, Prod.mk.injEq] at found
    obtain ⟨filled, rfl, rfl⟩ := found
    obtain ⟨split, are⟩ := digits_spelled (by simpa using filled)
    refine ⟨split, .inr ⟨are, fun zero => ?_⟩⟩
    obtain ⟨others, same⟩ := List.head?_eq_some_iff.1 zero
    rw [same] at split
    exact nonzero _ split

theorem fraction_part_spelled {text fraction rest : Text}
    (found : fractionPart? text = some (fraction, rest)) :
    ∃ front, text = front ++ rest ∧ SpellsFraction front fraction := by
  unfold fractionPart? at found
  split at found
  · rename_i behind
    simp only [Option.ite_none_left_eq_some, Option.some.injEq, Prod.mk.injEq] at found
    obtain ⟨filled, rfl, rfl⟩ := found
    obtain ⟨split, are⟩ := digits_spelled (by simpa using filled)
    exact ⟨'.' :: (digitsOf behind).1, congrArg ('.' :: ·) split, .digits are⟩
  · cases found
    exact ⟨[], rfl, .absent⟩

theorem exponent_digits_spelled {negative : Bool} {text rest : Text} {exponent : Int}
    (found : exponentDigits? negative text = some (exponent, rest)) :
    ∃ digits, text = digits ++ rest ∧ AreDigits digits ∧
      exponent = if negative then -(Nat.ofDigitChars 10 digits 0 : Int)
        else Nat.ofDigitChars 10 digits 0 := by
  simp only [exponentDigits?, Option.ite_none_left_eq_some, Option.some.injEq, Prod.mk.injEq]
    at found
  obtain ⟨filled, rfl, rfl⟩ := found
  obtain ⟨split, are⟩ := digits_spelled (by simpa using filled)
  exact ⟨_, split, are, rfl⟩

theorem exponent_part_spelled {text rest : Text} {exponent : Int}
    (found : exponentPart? text = some (exponent, rest)) :
    ∃ front, text = front ++ rest ∧ SpellsExponent front exponent := by
  unfold exponentPart? at found
  split at found
  · cases found
    exact ⟨[], rfl, .absent⟩
  · rename_i mark behind
    split at found
    · rename_i isMark
      split at found
      · obtain ⟨digits, rfl, are, rfl⟩ := exponent_digits_spelled found
        exact ⟨_, rfl, .negative isMark are⟩
      · obtain ⟨digits, rfl, are, rfl⟩ := exponent_digits_spelled found
        exact ⟨_, rfl, .positive isMark are⟩
      · obtain ⟨digits, rfl, are, rfl⟩ := exponent_digits_spelled found
        exact ⟨_, rfl, .unsigned isMark are⟩
    · cases found
      exact ⟨[], rfl, .absent⟩

theorem number_spelled {negative : Bool} {text rest : Text} {lexeme : Lexeme}
    (found : number? negative text = some (lexeme, rest)) :
    ∃ front, (if negative then ['-'] else []) ++ text = front ++ rest ∧
      SpellsLexeme front lexeme := by
  simp only [number?, bind, Option.bind_eq_some_iff] at found
  obtain ⟨⟨whole, _⟩, wholeFound, ⟨fraction, _⟩, fractionFound, ⟨exponent, _⟩, exponentFound,
    same⟩ := found
  cases same
  obtain ⟨rfl, isWhole⟩ := whole_part_spelled wholeFound
  obtain ⟨fractionText, rfl, fractioned⟩ := fraction_part_spelled fractionFound
  obtain ⟨exponentText, rfl, exponented⟩ := exponent_part_spelled exponentFound
  have spelled := @SpellsNumber.parts negative _ _ _ _ _ isWhole fractioned exponented
  exact ⟨_, by simp only [List.append_assoc], .number spelled⟩

/-! Strings -/

theorem hex_digit_of_value {symbol : Char} {value : Nat} (found : hexValue? symbol = some value) :
    IsHexDigit symbol value := by
  have table : ∀ code < 128, ∀ value ∈ hexValue? (Char.ofNat code), value < 16 ∧
      (Char.ofNat code = Nat.digitChar value ∨
        Char.ofNat code = (Nat.digitChar value).toUpper) := by
    decide +kernel
  have bound : symbol.toNat < 128 := by
    unfold hexValue? at found
    split at found
    · rename_i digit
      exact Nat.lt_of_le_of_lt digit.2 (by decide)
    · split at found
      · rename_i letter
        exact Nat.lt_of_le_of_lt letter.2 (by decide)
      · split at found
        · rename_i letter
          exact Nat.lt_of_le_of_lt letter.2 (by decide)
        · contradiction
  have digit := table symbol.toNat bound value
  rw [Char.ofNat_toNat] at digit
  exact digit found

theorem short_escape_listed {letter symbol : Char} (found : shortEscape? letter = some symbol) :
    (letter, symbol) ∈ shortEscapes := by
  unfold shortEscape? at found
  split at found <;> first | contradiction | (cases found; decide)

theorem string_units_spelled {text rest : Text} {units : List StringUnit}
    (found : stringUnits? text = some (units, rest)) :
    ∃ inner, text = inner ++ '"' :: rest ∧ SpellsUnits inner units := by
  induction text using stringUnits?.induct generalizing units with
  | case1 => contradiction
  | case2 behind =>
      rw [stringUnits?] at found
      cases found
      exact ⟨[], rfl, .empty⟩
  | case3 first second third fourth behind induction =>
      simp only [stringUnits?, bind, Option.bind_eq_some_iff] at found
      obtain ⟨bits, code, ⟨later, _⟩, laterFound, same⟩ := found
      cases same
      simp only [hexCode?, bind, Option.bind_eq_some_iff] at code
      obtain ⟨high, one, upper, two, lower, three, low, four, same⟩ := code
      cases same
      obtain ⟨inner, rfl, spelled⟩ := induction laterFound
      have unit := SpellsUnit.code (hex_digit_of_value one) (hex_digit_of_value two)
        (hex_digit_of_value three) (hex_digit_of_value four)
      exact ⟨_, rfl, .unit unit spelled⟩
  | case4 letter behind other induction =>
      rw [stringUnits?.eq_4 _ _ other] at found
      simp only [bind, Option.bind_eq_some_iff] at found
      obtain ⟨symbol, escape, ⟨later, _⟩, laterFound, same⟩ := found
      cases same
      obtain ⟨inner, rfl, spelled⟩ := induction laterFound
      exact ⟨_, rfl, .unit (.short (short_escape_listed escape)) spelled⟩
  | case5 symbol behind unquoted code short refused =>
      rw [stringUnits?.eq_5 _ _ unquoted code short, if_pos refused] at found
      contradiction
  | case6 symbol behind unquoted code short kept induction =>
      rw [stringUnits?.eq_5 _ _ unquoted code short, if_neg kept] at found
      simp only [bind, Option.bind_eq_some_iff] at found
      obtain ⟨⟨later, _⟩, laterFound, same⟩ := found
      cases same
      obtain ⟨printed, unescaped⟩ := not_or.1 kept
      obtain ⟨inner, rfl, spelled⟩ := induction laterFound
      exact ⟨_, rfl, .unit (.plain (Nat.not_lt.1 printed) unquoted unescaped) spelled⟩

theorem content_of_is_content {inner : Text} {units : List StringUnit}
    (spelled : SpellsUnits inner units) : IsContent units (contentOf units) := by
  cases read : contentOf units with
  | some content => exact standing_of_content (units_within_range spelled) read
  | none =>
      intro content stands
      rw [content_of_standing stands] at read
      contradiction

/-! Lexemes -/

theorem lexeme_spelled {text rest : Text} {lexeme : Lexeme}
    (found : lexeme? text = some (lexeme, rest)) :
    ∃ front, text = front ++ rest ∧ SpellsLexeme front lexeme := by
  have mark {symbol : Char} {behind : Text} {kind : Lexeme} (spelled : SpellsLexeme [symbol] kind) :
      ∃ front, symbol :: behind = front ++ behind ∧ SpellsLexeme front kind :=
    ⟨_, rfl, spelled⟩
  unfold lexeme? at found
  split at found
  case h_7 behind =>
      obtain ⟨⟨units, _⟩, unitsFound, same⟩ := Option.map_eq_some_iff.1 found
      cases same
      obtain ⟨inner, rfl, spelled⟩ := string_units_spelled unitsFound
      exact ⟨_, by simp, .string spelled (content_of_is_content spelled)⟩
  case h_8 =>
      cases found
      exact ⟨['n', 'u', 'l', 'l'], rfl, .null⟩
  case h_9 =>
      cases found
      exact ⟨_, rfl, .bool true⟩
  case h_10 =>
      cases found
      exact ⟨_, rfl, .bool false⟩
  case h_11 behind => exact number_spelled found
  case h_12 => exact number_spelled found
  all_goals
    cases found
    exact mark (by constructor)

theorem lexemes_spelled {text : Text} {lexemes : List Lexeme}
    (found : lexemes? text = some lexemes) :
    SpellsLexemes text lexemes := by
  have whole (text : Text) : text.takeWhile isBlank ++ text.dropWhile isBlank = text :=
    List.takeWhile_append_dropWhile
  have blank (text : Text) : ∀ symbol ∈ text.takeWhile isBlank, isBlank symbol :=
    List.all_eq_true.1 List.all_takeWhile
  induction text using lexemes?.induct generalizing lexemes with
  | case1 text trimmed =>
      have blanks := List.dropWhile_eq_nil_iff.1 trimmed
      rw [lexemes_of_blanks blanks] at found
      cases found
      exact .blank blanks
  | case2 text symbol rest front missing =>
      rw [lexemes?] at found
      split at found
      · rename_i trimmed
        rw [trimmed] at front
        contradiction
      · rename_i other behind same
        rw [front] at same
        cases same
        split at found
        · contradiction
        · rename_i read
          rw [missing] at read
          contradiction
  | case3 text symbol rest front first behind firstFound induction =>
      rw [← whole text, front] at found ⊢
      rw [lexemes_of_front (blank text) firstFound] at found
      obtain ⟨others, othersFound, rfl⟩ := Option.map_eq_some_iff.1 found
      obtain ⟨spelling, same, spelled⟩ := lexeme_spelled firstFound
      rw [same]
      exact .lexeme (blank text) spelled (induction othersFound)

/-! Values -/

def openedLexemes : List Frame → List Lexeme
  | [] => []
  | .array items :: outer =>
      openedLexemes outer ++ .openBracket :: items.flatMap fun item => lexemes item ++ [.comma]
  | .object members key :: outer =>
      openedLexemes outer ++ .openBrace ::
        (members.flatMap fun (key, value) => .string key :: .colon :: lexemes value ++ [.comma]) ++
          [.string key, .colon]

theorem item_lexemes_last (items : List Json) (value : Json) :
    itemLexemes (items ++ [value]) =
      (items.flatMap fun item => lexemes item ++ [.comma]) ++ lexemes value := by
  induction items with
  | nil => rfl
  | cons item others induction =>
      rw [List.cons_append, itemLexemes.eq_3 _ _ (by simp), induction]
      simp

theorem member_lexemes_last (members : List (StringContent × Json)) (key : StringContent)
    (value : Json) :
    memberLexemes (members ++ [(key, value)]) =
      (members.flatMap fun (key, value) => .string key :: .colon :: lexemes value ++ [.comma]) ++
        .string key :: .colon :: lexemes value := by
  induction members with
  | nil => rfl
  | cons member others induction =>
      obtain ⟨first, second⟩ := member
      rw [List.cons_append, memberLexemes.eq_3 _ _ _ (by simp), induction]
      simp

/-- The lexemes of a result are those of the open values and those that are still to be read. -/
theorem read_lexemes :
    (∀ frames behind, ∀ result, readValue? frames behind = some result →
      lexemes result = openedLexemes frames ++ behind) ∧
    ∀ frames value behind, ∀ result, readOn? frames value behind = some result →
      lexemes result = openedLexemes frames ++ (lexemes value ++ behind) := by
  apply readValue?.mutual_induct
  case case1 | case2 | case3 | case4 | case5 | case7 =>
    intros
    rename_i induction result found
    rw [readValue?] at found
    simpa [lexemes, itemLexemes, memberLexemes] using induction result found
  case case6 =>
    intro frames rest opened induction result found
    rw [readValue?.eq_6 _ _ opened] at found
    simpa [openedLexemes] using induction result found
  case case8 =>
    intro frames key rest induction result found
    rw [readValue?] at found
    simpa [openedLexemes] using induction result found
  case case9 =>
    intro behind frames null bool number string emptyArray array emptyObject object result found
    rw [readValue?.eq_9 _ _ null bool number string emptyArray array emptyObject object] at found
    contradiction
  case case10 =>
    intro value result found
    rw [readOn?] at found
    cases found
    simp [openedLexemes]
  case case11 =>
    intro value frame outer result found
    rw [readOn?] at found
    contradiction
  case case12 =>
    intro value items outer rest induction result found
    rw [readOn?] at found
    simpa [openedLexemes] using induction result found
  case case13 =>
    intro value members key outer next rest induction result found
    rw [readOn?] at found
    simpa [openedLexemes] using induction result found
  case case14 =>
    intro frames value rest notArray notObject result found
    rw [readOn?.eq_5 _ _ _ notArray notObject] at found
    contradiction
  case case15 =>
    intro value rest items outer induction result found
    rw [readOn?] at found
    simpa [openedLexemes, lexemes, item_lexemes_last] using induction result found
  case case16 =>
    intro frames value rest notArray result found
    rw [readOn?.eq_7 _ _ _ notArray] at found
    contradiction
  case case17 =>
    intro value rest members key outer induction result found
    rw [readOn?] at found
    simpa [openedLexemes, lexemes, member_lexemes_last] using induction result found
  case case18 =>
    intro frames value rest notObject result found
    rw [readOn?.eq_9 _ _ _ notObject] at found
    contradiction
  case case19 =>
    intro behind frames value filled comma closeBracket closeBrace result found
    rw [readOn?.eq_10 _ _ _ filled comma closeBracket closeBrace] at found
    contradiction

/-- The reader accepts exactly the documents of the grammar, with their values. -/
theorem read_iff {text : Text} {value : Json} :
    read? text = some value ↔ IsDocument text value := by
  constructor
  · intro found
    obtain ⟨written, lexemesFound, valueFound⟩ := Option.bind_eq_some_iff.1 found
    have same := read_lexemes.1 [] written value valueFound
    rw [openedLexemes, List.nil_append] at same
    rw [IsDocument, same]
    exact lexemes_spelled lexemesFound
  · exact read_of_document

end Json

end InfixCalculator
