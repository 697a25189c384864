import InfixCalculator.Json.Reader
import Mathlib.Data.List.TakeWhile

/-!
The grammar of the interchange format, apart from the reader. A value has one sequence of
lexemes, a lexeme has many spellings, and blanks may stand between lexemes. Numbers and
strings are read as what they spell.
-/

namespace InfixCalculator

namespace Json

/-! Numbers -/

def AreDigits (digits : Text) : Prop := digits ≠ [] ∧ ∀ symbol ∈ digits, symbol.isDigit

def IsWhole (digits : Text) : Prop :=
  digits = ['0'] ∨ (AreDigits digits ∧ digits.head? ≠ some '0')

inductive SpellsFraction : Text → Text → Prop where
  | absent : SpellsFraction [] []
  | digits {digits : Text} (are : AreDigits digits) : SpellsFraction ('.' :: digits) digits

inductive SpellsExponent : Text → Int → Prop where
  | absent : SpellsExponent [] 0
  | unsigned {mark : Char} {digits : Text} (isMark : mark = 'e' ∨ mark = 'E')
      (are : AreDigits digits) :
      SpellsExponent (mark :: digits) (Nat.ofDigitChars 10 digits 0 : Nat)
  | positive {mark : Char} {digits : Text} (isMark : mark = 'e' ∨ mark = 'E')
      (are : AreDigits digits) :
      SpellsExponent (mark :: '+' :: digits) (Nat.ofDigitChars 10 digits 0 : Nat)
  | negative {mark : Char} {digits : Text} (isMark : mark = 'e' ∨ mark = 'E')
      (are : AreDigits digits) :
      SpellsExponent (mark :: '-' :: digits) (-(Nat.ofDigitChars 10 digits 0 : Nat))

inductive SpellsNumber : Text → NumberLiteral → Prop where
  | parts {negative : Bool} {whole fraction fractionText exponentText : Text} {exponent : Int}
      (isWhole : IsWhole whole) (fractioned : SpellsFraction fractionText fraction)
      (exponented : SpellsExponent exponentText exponent) :
      SpellsNumber ((if negative then ['-'] else []) ++ (whole ++ (fractionText ++ exponentText)))
        ⟨negative, whole, fraction, exponent⟩

/-! Strings -/

/-- A hexadecimal digit, small or capital, and its value. -/
def IsHexDigit (symbol : Char) (value : Nat) : Prop :=
  value < 16 ∧ (symbol = Nat.digitChar value ∨ symbol = (Nat.digitChar value).toUpper)

def shortEscapes : List (Char × Char) :=
  [('"', '"'), ('\\', '\\'), ('/', '/'), ('b', '\x08'), ('f', '\x0c'), ('n', '\n'), ('r', '\r'),
    ('t', '\t')]

inductive SpellsUnit : Text → StringUnit → Prop where
  | plain {symbol : Char} (printed : 32 ≤ symbol.toNat) (unquoted : symbol ≠ '"')
      (unescaped : symbol ≠ '\\') : SpellsUnit [symbol] (.symbol symbol)
  | short {letter symbol : Char} (listed : (letter, symbol) ∈ shortEscapes) :
      SpellsUnit ['\\', letter] (.symbol symbol)
  | code {first second third fourth : Char} {high upper lower low : Nat}
      (one : IsHexDigit first high) (two : IsHexDigit second upper)
      (three : IsHexDigit third lower) (four : IsHexDigit fourth low) :
      SpellsUnit ['\\', 'u', first, second, third, fourth]
        (.code (high * 4096 + upper * 256 + lower * 16 + low))

inductive SpellsUnits : Text → List StringUnit → Prop where
  | empty : SpellsUnits [] []
  | unit {first rest : Text} {unit : StringUnit} {units : List StringUnit}
      (spelled : SpellsUnit first unit) (others : SpellsUnits rest units) :
      SpellsUnits (first ++ rest) (unit :: units)

/-- The units stand for the text: a numeric escape for the character with this code, and
two surrogates for one character beyond sixteen bits. -/
inductive StandsFor : List StringUnit → Text → Prop where
  | empty : StandsFor [] []
  | symbol (symbol : Char) {units : List StringUnit} {text : Text} (others : StandsFor units text) :
      StandsFor (.symbol symbol :: units) (symbol :: text)
  | code {symbol : Char} (short : symbol.toNat < 0x10000) {units : List StringUnit} {text : Text}
      (others : StandsFor units text) : StandsFor (.code symbol.toNat :: units) (symbol :: text)
  | pair {symbol : Char} {high low : Nat} (isHigh : 0xD800 ≤ high ∧ high < 0xDC00)
      (isLow : 0xDC00 ≤ low ∧ low < 0xE000)
      (code : symbol.toNat = 0x10000 + (high - 0xD800) * 1024 + (low - 0xDC00))
      {units : List StringUnit} {text : Text} (others : StandsFor units text) :
      StandsFor (.code high :: .code low :: units) (symbol :: text)

/-- A string with an unpaired surrogate has no text. -/
def IsContent (units : List StringUnit) : StringContent → Prop
  | some content => StandsFor units content
  | none => ∀ content, ¬StandsFor units content

/-! Documents -/

inductive SpellsLexeme : Text → Lexeme → Prop where
  | openBracket : SpellsLexeme ['['] .openBracket
  | closeBracket : SpellsLexeme [']'] .closeBracket
  | openBrace : SpellsLexeme ['\x7b'] .openBrace
  | closeBrace : SpellsLexeme ['\x7d'] .closeBrace
  | comma : SpellsLexeme [','] .comma
  | colon : SpellsLexeme [':'] .colon
  | null : SpellsLexeme ['n', 'u', 'l', 'l'] .null
  | bool (truth : Bool) :
      SpellsLexeme (if truth then ['t', 'r', 'u', 'e'] else ['f', 'a', 'l', 's', 'e']) (.bool truth)
  | number {text : Text} {literal : NumberLiteral} (spelled : SpellsNumber text literal) :
      SpellsLexeme text (.number literal)
  | string {inner : Text} {units : List StringUnit} {content : StringContent}
      (spelled : SpellsUnits inner units) (isContent : IsContent units content) :
      SpellsLexeme ('"' :: inner ++ ['"']) (.string content)

/-- The text spells the lexemes, with blanks around them. -/
inductive SpellsLexemes : Text → List Lexeme → Prop where
  | blank {blanks : Text} (blank : ∀ symbol ∈ blanks, isBlank symbol) : SpellsLexemes blanks []
  | lexeme {blanks text rest : Text} {lexeme : Lexeme} {lexemes : List Lexeme}
      (blank : ∀ symbol ∈ blanks, isBlank symbol) (spelled : SpellsLexeme text lexeme)
      (others : SpellsLexemes rest lexemes) :
      SpellsLexemes (blanks ++ (text ++ rest)) (lexeme :: lexemes)

mutual

def lexemes : Json → List Lexeme
  | .null => [.null]
  | .bool truth => [.bool truth]
  | .number literal => [.number literal]
  | .string content => [.string content]
  | .array items => .openBracket :: itemLexemes items ++ [.closeBracket]
  | .object members => .openBrace :: memberLexemes members ++ [.closeBrace]

def itemLexemes : List Json → List Lexeme
  | [] => []
  | [item] => lexemes item
  | item :: others => lexemes item ++ .comma :: itemLexemes others

def memberLexemes : List (StringContent × Json) → List Lexeme
  | [] => []
  | [(key, value)] => .string key :: .colon :: lexemes value
  | (key, value) :: others =>
      .string key :: .colon :: lexemes value ++ .comma :: memberLexemes others

end

/-- The text is a document with this value. -/
def IsDocument (text : Text) (value : Json) : Prop := SpellsLexemes text (lexemes value)

/-! Reading of numbers -/

def continuesNumber (symbol : Char) : Bool :=
  symbol.isDigit || symbol == '.' || symbol == 'e' || symbol == 'E'

def StopsNumber (rest : Text) : Prop := ∀ symbol ∈ rest.head?, continuesNumber symbol = false

theorem stops_number_cons {symbol : Char} {rest : Text} :
    StopsNumber (symbol :: rest) ↔ continuesNumber symbol = false := by
  simp [StopsNumber]

def StopsDigits (rest : Text) : Prop := ∀ symbol ∈ rest.head?, symbol.isDigit = false

theorem stops_digits_of_number {rest : Text} (stops : StopsNumber rest) : StopsDigits rest := by
  intro symbol member
  have stopped := stops symbol member
  simp only [continuesNumber, Bool.or_eq_false_iff] at stopped
  exact stopped.1.1.1

theorem stops_digits_cons {symbol : Char} (other : symbol.isDigit = false) (rest : Text) :
    StopsDigits (symbol :: rest) := by
  simp [StopsDigits, other]

theorem digits_of_run {digits rest : Text} (each : ∀ symbol ∈ digits, symbol.isDigit)
    (stops : StopsDigits rest) : digitsOf (digits ++ rest) = (digits, rest) := by
  rw [digitsOf, List.takeWhile_append_of_pos each, List.dropWhile_append_of_pos each]
  cases rest with
  | nil => simp
  | cons symbol rest =>
      have other : symbol.isDigit = false := stops symbol rfl
      simp [other]

theorem whole_part_of_spelling {whole rest : Text} (isWhole : IsWhole whole)
    (stops : StopsDigits rest) : wholePart? (whole ++ rest) = some (whole, rest) := by
  rcases isWhole with rfl | ⟨⟨filled, each⟩, first⟩
  · rfl
  · have run := digits_of_run each stops
    unfold wholePart?
    split
    · rename_i others same
      cases whole with
      | nil => contradiction
      | cons symbol whole =>
          obtain rfl : symbol = '0' := (List.cons.inj same).1
          exact absurd rfl first
    · simp only [run]
      rw [if_neg (by simpa using filled)]

theorem fraction_part_of_spelling {text fraction rest : Text}
    (spelled : SpellsFraction text fraction) (stops : StopsDigits rest)
    (unpointed : rest.head? ≠ some '.') :
    fractionPart? (text ++ rest) = some (fraction, rest) := by
  cases spelled with
  | absent =>
      unfold fractionPart?
      split
      · rename_i others same
        have head : rest = '.' :: others := same
        rw [head] at unpointed
        exact absurd rfl unpointed
      · rfl
  | digits are =>
      have run := digits_of_run are.2 stops
      simp only [List.cons_append, fractionPart?, run]
      rw [if_neg (by simpa using are.1)]

theorem exponent_digits_of_run {digits rest : Text} (are : AreDigits digits)
    (stops : StopsDigits rest) (negative : Bool) :
    exponentDigits? negative (digits ++ rest) =
      some (if negative then -(Nat.ofDigitChars 10 digits 0 : Int)
        else Nat.ofDigitChars 10 digits 0, rest) := by
  simp only [exponentDigits?, digits_of_run are.2 stops]
  rw [if_neg (by simpa using are.1)]

theorem exponent_part_of_spelling {text rest : Text} {exponent : Int}
    (spelled : SpellsExponent text exponent) (stops : StopsNumber rest) :
    exponentPart? (text ++ rest) = some (exponent, rest) := by
  have run := stops_digits_of_number stops
  cases spelled with
  | absent =>
      cases rest with
      | nil => rfl
      | cons symbol rest =>
          have stopped := stops_number_cons.1 stops
          have unmarked : ¬(symbol = 'e' ∨ symbol = 'E') := by
            rintro (rfl | rfl) <;> contradiction
          simp only [List.nil_append, exponentPart?, if_neg unmarked]
  | @unsigned mark digits isMark are =>
      simp only [List.cons_append, exponentPart?, if_pos isMark]
      obtain ⟨first, others, rfl⟩ := List.exists_cons_of_ne_nil are.1
      have digit := are.2 first List.mem_cons_self
      have read := exponent_digits_of_run are run false
      rw [List.cons_append] at read ⊢
      split
      · rename_i same
        obtain rfl := (List.cons.inj same).1
        contradiction
      · rename_i same
        obtain rfl := (List.cons.inj same).1
        contradiction
      · exact read
  | positive isMark are =>
      simp only [List.cons_append, exponentPart?, if_pos isMark]
      exact exponent_digits_of_run are run false
  | negative isMark are =>
      simp only [List.cons_append, exponentPart?, if_pos isMark]
      exact exponent_digits_of_run are run true

theorem exponent_text_stops {text rest : Text} {exponent : Int}
    (spelled : SpellsExponent text exponent) (stops : StopsNumber rest) :
    StopsDigits (text ++ rest) ∧ (text ++ rest).head? ≠ some '.' := by
  have marked {mark : Char} (isMark : mark = 'e' ∨ mark = 'E') (others : Text) :
      StopsDigits (mark :: others) ∧ (mark :: others).head? ≠ some '.' := by
    rcases isMark with rfl | rfl
    · exact ⟨stops_digits_cons rfl _, by simp⟩
    · exact ⟨stops_digits_cons rfl _, by simp⟩
  cases spelled with
  | absent =>
      refine ⟨stops_digits_of_number stops, fun point => ?_⟩
      have stopped := stops '.' point
      contradiction
  | unsigned isMark are => exact marked isMark _
  | positive isMark are => exact marked isMark _
  | negative isMark are => exact marked isMark _

theorem fraction_text_stops {text fraction rest : Text} (spelled : SpellsFraction text fraction)
    (stops : StopsDigits rest) : StopsDigits (text ++ rest) := by
  cases spelled with
  | absent => exact stops
  | digits are => exact stops_digits_cons rfl _

theorem number_of_parts {negative : Bool} {whole fraction fractionText exponentText rest : Text}
    {exponent : Int} (isWhole : IsWhole whole) (fractioned : SpellsFraction fractionText fraction)
    (exponented : SpellsExponent exponentText exponent) (stops : StopsNumber rest) :
    number? negative (whole ++ (fractionText ++ (exponentText ++ rest))) =
      some (.number ⟨negative, whole, fraction, exponent⟩, rest) := by
  have exponentStops := exponent_text_stops exponented stops
  have fractionStops := fraction_text_stops fractioned exponentStops.1
  simp only [number?, whole_part_of_spelling isWhole fractionStops,
    fraction_part_of_spelling fractioned exponentStops.1 exponentStops.2,
    exponent_part_of_spelling exponented stops, bind, Option.bind_some]

theorem whole_first_digit {whole : Text} (isWhole : IsWhole whole) :
    ∃ first others, whole = first :: others ∧ first.isDigit := by
  rcases isWhole with rfl | ⟨⟨filled, each⟩, -⟩
  · exact ⟨'0', [], rfl, rfl⟩
  · obtain ⟨first, others, rfl⟩ := List.exists_cons_of_ne_nil filled
    exact ⟨first, others, rfl, each first List.mem_cons_self⟩

theorem lexeme_of_digit {first : Char} (digit : first.isDigit) (others : Text) :
    lexeme? (first :: others) = number? false (first :: others) := by
  unfold lexeme?
  split
  case h_12 => rfl
  all_goals
    rename_i same
    obtain rfl := (List.cons.inj same).1
    contradiction

theorem lexeme_of_number {text rest : Text} {literal : NumberLiteral}
    (spelled : SpellsNumber text literal) (stops : StopsNumber rest) :
    lexeme? (text ++ rest) = some (.number literal, rest) := by
  cases spelled with
  | @parts negative whole fraction fractionText exponentText exponent isWhole fractioned
      exponented =>
      have read (negative : Bool) :=
        @number_of_parts negative _ _ _ _ _ _ isWhole fractioned exponented stops
      cases negative with
      | true => simpa [lexeme?] using read true
      | false =>
          obtain ⟨first, others, rfl, digit⟩ := whole_first_digit isWhole
          simpa [lexeme_of_digit digit] using read false


/-! Reading of strings -/

theorem hex_digit_of_lt {value : Nat} (bound : value < 16) :
    IsHexDigit (Nat.digitChar value) value :=
  ⟨bound, .inl rfl⟩

theorem hex_value_of_digit {symbol : Char} {value : Nat} (digit : IsHexDigit symbol value) :
    hexValue? symbol = some value := by
  have table : ∀ value < 16, hexValue? (Nat.digitChar value) = some value ∧
      hexValue? (Nat.digitChar value).toUpper = some value := by decide
  rcases digit with ⟨bound, rfl | rfl⟩
  · exact (table value bound).1
  · exact (table value bound).2

theorem string_units_of_unit {first : Text} {unit : StringUnit} (spelled : SpellsUnit first unit)
    (rest : Text) :
    stringUnits? (first ++ rest) =
      (stringUnits? rest).map fun (units, behind) => (unit :: units, behind) := by
  cases spelled with
  | plain printed unquoted unescaped =>
      have kept : ¬(_ < 32 ∨ _ = '\\') := not_or.2 ⟨Nat.not_lt.2 printed, unescaped⟩
      rw [List.singleton_append, stringUnits?.eq_5 _ _ unquoted
        (fun _ _ _ _ _ same _ => unescaped same) (fun _ _ same _ => unescaped same), if_neg kept]
      cases stringUnits? rest <;> rfl
  | @short letter symbol listed =>
      have escape : ∀ pair ∈ shortEscapes, pair.1 ≠ 'u' ∧ shortEscape? pair.1 = some pair.2 := by
        decide
      -- No letter of the list is the mark of a numeric escape.
      have found := escape _ listed
      simp only [List.cons_append, List.nil_append]
      rw [stringUnits?.eq_4 _ _ (fun _ _ _ _ _ same _ => found.1 same), found.2]
      cases stringUnits? rest <;> rfl
  | code one two three four =>
      simp only [List.cons_append, List.nil_append, stringUnits?, hexCode?, hex_value_of_digit one,
        hex_value_of_digit two, hex_value_of_digit three, hex_value_of_digit four]
      cases stringUnits? rest <;> rfl

theorem string_units_of_spelling {inner : Text} {units : List StringUnit}
    (spelled : SpellsUnits inner units) (rest : Text) :
    stringUnits? (inner ++ '"' :: rest) = some (units, rest) := by
  induction spelled with
  | empty => simp [stringUnits?]
  | unit spelled others induction =>
      rw [List.append_assoc, string_units_of_unit spelled, induction]
      rfl

theorem content_of_code {bits : Nat} (notHigh : isHighSurrogate bits = false)
    (notLow : isLowSurrogate bits = false) (rest : List StringUnit) :
    contentOf (.code bits :: rest) = (contentOf rest).map (Char.ofNat bits :: ·) := by
  cases rest with
  | nil => simp [contentOf, notHigh, notLow]
  | cons unit rest => cases unit <;> simp [contentOf, notHigh, notLow]

theorem surrogate_free (symbol : Char) :
    isHighSurrogate symbol.toNat = false ∧ isLowSurrogate symbol.toNat = false := by
  have valid : symbol.toNat < 0xD800 ∨ 0xDFFF < symbol.toNat ∧ symbol.toNat < 0x110000 :=
    symbol.valid
  simp only [isHighSurrogate, isLowSurrogate, Bool.and_eq_false_iff, decide_eq_false_iff_not]
  omega

theorem content_of_standing {units : List StringUnit} {content : Text}
    (stands : StandsFor units content) : contentOf units = some content := by
  induction stands with
  | empty => rfl
  | symbol symbol others induction => simp only [contentOf, induction, Option.map_some]
  | @code symbol short units text others induction =>
      have free := surrogate_free symbol
      rw [content_of_code free.1 free.2, induction, Option.map_some, Char.ofNat_toNat]
  | @pair symbol high low isHigh isLow code units text others induction =>
      have high : isHighSurrogate high := by simp [isHighSurrogate, isHigh]
      have low : isLowSurrogate low := by simp [isLowSurrogate, isLow]
      rw [contentOf, if_pos high, if_pos low, induction, Option.map_some, pairedCharacter, ← code,
        Char.ofNat_toNat]

def StringUnit.WithinRange : StringUnit → Prop
  | .symbol _ => True
  | .code bits => bits < 0x10000

theorem units_within_range {inner : Text} {units : List StringUnit}
    (spelled : SpellsUnits inner units) : ∀ unit ∈ units, unit.WithinRange := by
  induction spelled with
  | empty => simp
  | unit spelled others induction =>
      rw [List.forall_mem_cons]
      refine ⟨?_, induction⟩
      cases spelled with
      | plain printed unquoted unescaped => trivial
      | short listed => trivial
      | code one two three four =>
          have high := one.1
          have upper := two.1
          have lower := three.1
          have low := four.1
          simp only [StringUnit.WithinRange]
          omega

theorem to_nat_of_nat {code : Nat} (valid : code.isValidChar) : (Char.ofNat code).toNat = code := by
  rw [Char.ofNat, dif_pos valid]
  rfl

theorem to_nat_of_bits {bits : Nat} (within : bits < 0x10000)
    (notHigh : isHighSurrogate bits = false) (notLow : isLowSurrogate bits = false) :
    (Char.ofNat bits).toNat = bits := by
  simp only [isHighSurrogate, isLowSurrogate, Bool.and_eq_false_iff, decide_eq_false_iff_not]
    at notHigh notLow
  apply to_nat_of_nat
  unfold Nat.isValidChar
  omega

theorem code_standing {bits : Nat} (within : bits < 0x10000)
    (notHigh : isHighSurrogate bits = false) (notLow : isLowSurrogate bits = false)
    {units : List StringUnit} {content : Text} (others : StandsFor units content) :
    StandsFor (.code bits :: units) (Char.ofNat bits :: content) := by
  have same := to_nat_of_bits within notHigh notLow
  have stands := @StandsFor.code (Char.ofNat bits) (by rwa [same]) _ _ others
  rwa [same] at stands

theorem pair_standing {high low : Nat} (isHigh : isHighSurrogate high) (isLow : isLowSurrogate low)
    {units : List StringUnit} {content : Text} (others : StandsFor units content) :
    StandsFor (.code high :: .code low :: units) (pairedCharacter high low :: content) := by
  simp only [isHighSurrogate, isLowSurrogate, Bool.and_eq_true, decide_eq_true_eq] at isHigh isLow
  apply StandsFor.pair isHigh isLow
  · apply to_nat_of_nat
    unfold Nat.isValidChar
    omega
  · exact others

theorem standing_of_content {units : List StringUnit} {content : Text}
    (within : ∀ unit ∈ units, unit.WithinRange) (read : contentOf units = some content) :
    StandsFor units content := by
  induction units using contentOf.induct generalizing content with
  | case1 =>
      cases read
      exact .empty
  | case2 symbol rest induction =>
      obtain ⟨later, found, rfl⟩ := Option.map_eq_some_iff.1 read
      exact .symbol symbol (induction (List.forall_mem_cons.1 within).2 found)
  | case3 high low rest isHigh isLow induction =>
      rw [contentOf, if_pos isHigh, if_pos isLow] at read
      obtain ⟨later, found, rfl⟩ := Option.map_eq_some_iff.1 read
      have others := (List.forall_mem_cons.1 (List.forall_mem_cons.1 within).2).2
      exact pair_standing isHigh isLow (induction others found)
  | case4 high low rest isHigh notLow =>
      rw [contentOf, if_pos isHigh, if_neg notLow] at read
      contradiction
  | case5 high low rest notHigh isLow =>
      rw [contentOf, if_neg notHigh, if_pos isLow] at read
      contradiction
  | case6 high low rest notHigh notLow induction =>
      rw [contentOf, if_neg notHigh, if_neg notLow] at read
      obtain ⟨later, found, rfl⟩ := Option.map_eq_some_iff.1 read
      obtain ⟨bound, others⟩ := List.forall_mem_cons.1 within
      exact code_standing bound (by simpa using notHigh) (by simpa using notLow)
        (induction others found)
  | case7 bits rest last surrogate =>
      rw [contentOf.eq_4 _ _ last, if_pos surrogate] at read
      contradiction
  | case8 bits rest last free induction =>
      rw [contentOf.eq_4 _ _ last, if_neg free] at read
      obtain ⟨later, found, rfl⟩ := Option.map_eq_some_iff.1 read
      obtain ⟨bound, others⟩ := List.forall_mem_cons.1 within
      simp only [Bool.not_eq_true, Bool.or_eq_false_iff] at free
      exact code_standing bound free.1 free.2 (induction others found)

theorem content_of_spelling {inner : Text} {units : List StringUnit} {content : StringContent}
    (spelled : SpellsUnits inner units) (isContent : IsContent units content) :
    contentOf units = content := by
  cases content with
  | some content => exact content_of_standing isContent
  | none =>
      rw [Option.eq_none_iff_forall_ne_some]
      intro content read
      exact isContent content (standing_of_content (units_within_range spelled) read)

end Json

end InfixCalculator
