import InfixCalculator.Json.Layout
import InfixCalculator.Proofs.JsonGrammar
import Mathlib.Data.List.Forall2

/-!
What is written is spelled by the grammar: strings, since every character is escaped where it has
to be, numbers, as far as their literals are spelled, and layouts of parts that are documents
themselves.
-/

namespace InfixCalculator

namespace Json

/-! Strings -/

def StandsForSymbol (unit : StringUnit) (symbol : Char) : Prop :=
  ∀ units content, StandsFor units content → StandsFor (unit :: units) (symbol :: content)

theorem control_escape_spells {symbol : Char} (control : symbol.toNat < 32) :
    SpellsUnit (controlEscape symbol) (.code symbol.toNat) := by
  have zero : IsHexDigit '0' 0 := hex_digit_of_lt (by decide)
  have high : symbol.toNat / 16 < 16 := by omega
  have low : symbol.toNat % 16 < 16 := by omega
  have spelled := SpellsUnit.code zero zero (hex_digit_of_lt high) (hex_digit_of_lt low)
  have value : 0 * 4096 + 0 * 256 + symbol.toNat / 16 * 16 + symbol.toNat % 16 = symbol.toNat := by
    omega
  rwa [value] at spelled

theorem escape_spells (symbol : Char) :
    ∃ unit, SpellsUnit (escape symbol) unit ∧ StandsForSymbol unit symbol := by
  have short {letter : Char} (listed : (letter, symbol) ∈ shortEscapes) :
      ∃ unit, SpellsUnit ['\\', letter] unit ∧ StandsForSymbol unit symbol :=
    ⟨.symbol symbol, .short listed, fun _ _ => .symbol symbol⟩
  unfold escape
  iterate 7
    split
    · subst symbol
      exact short (by decide)
  split
  · rename_i control
    exact ⟨.code symbol.toNat, control_escape_spells control, fun _ _ => .code (by omega)⟩
  · rename_i unquoted unescaped _ _ _ _ _ printed
    exact ⟨.symbol symbol, .plain (Nat.not_lt.1 printed) unquoted unescaped,
      fun _ _ => .symbol symbol⟩

theorem escaped_spells (content : Text) :
    ∃ units, SpellsUnits (content.flatMap escape) units ∧ StandsFor units content := by
  induction content with
  | nil => exact ⟨[], .empty, .empty⟩
  | cons symbol content induction =>
      obtain ⟨unit, spelled, standing⟩ := escape_spells symbol
      obtain ⟨units, others, stands⟩ := induction
      exact ⟨unit :: units, .unit spelled others, standing _ _ stands⟩

theorem quote_spells (content : Text) : SpellsLexeme (quote content) (.string (some content)) := by
  obtain ⟨units, spelled, stands⟩ := escaped_spells content
  exact .string spelled stands

/-- Characters that stand for themselves in a string. -/
def IsPlainSymbol (symbol : Char) : Prop := 32 ≤ symbol.toNat ∧ symbol ≠ '"' ∧ symbol ≠ '\\'

instance (symbol : Char) : Decidable (IsPlainSymbol symbol) :=
  inferInstanceAs (Decidable (_ ∧ _ ∧ _))

def IsPlain (name : String) : Prop := ∀ symbol ∈ name.toList, IsPlainSymbol symbol

instance (name : String) : Decidable (IsPlain name) :=
  List.decidableBAll IsPlainSymbol name.toList

theorem plain_spells {content : Text} (plain : ∀ symbol ∈ content, IsPlainSymbol symbol) :
    SpellsUnits content (content.map StringUnit.symbol) ∧
      StandsFor (content.map StringUnit.symbol) content := by
  induction content with
  | nil => exact ⟨.empty, .empty⟩
  | cons symbol content induction =>
      obtain ⟨⟨printed, unquoted, unescaped⟩, others⟩ := List.forall_mem_cons.1 plain
      obtain ⟨spelled, stands⟩ := induction others
      exact ⟨.unit (.plain printed unquoted unescaped) spelled, .symbol symbol stands⟩

theorem quoted_name_spells {name : String} (plain : IsPlain name) :
    SpellsLexeme (quotedName name) (.string (some name.toList)) :=
  .string (plain_spells plain).1 (plain_spells plain).2

/-! Numbers -/

theorem fraction_spells {fraction : Text} (digits : ∀ symbol ∈ fraction, symbol.isDigit) :
    SpellsFraction (if fraction.isEmpty then [] else '.' :: fraction) fraction := by
  cases fraction with
  | nil => exact .absent
  | cons symbol fraction => exact .digits ⟨List.cons_ne_nil symbol fraction, digits⟩

theorem exponent_spells (exponent : Int) :
    SpellsExponent (NumberLiteral.exponentText exponent) exponent := by
  have are : AreDigits (Nat.toDigits 10 exponent.natAbs) :=
    ⟨Nat.toDigits_ne_nil, fun symbol => Nat.isDigit_of_mem_toDigits (by decide) (by decide)⟩
  have value : Nat.ofDigitChars 10 (Nat.toDigits 10 exponent.natAbs) 0 = exponent.natAbs :=
    Nat.ofDigitChars_ten_toDigits
  unfold NumberLiteral.exponentText
  by_cases zero : exponent = 0
  · rw [if_pos zero, zero]
    exact .absent
  · rw [if_neg zero]
    by_cases negative : exponent < 0
    · have spelled := @SpellsExponent.negative 'e' _ (.inl rfl) are
      rw [value] at spelled
      rw [if_pos negative]
      convert spelled using 1
      omega
    · have spelled := @SpellsExponent.positive 'e' _ (.inl rfl) are
      rw [value] at spelled
      rw [if_neg negative]
      convert spelled using 1
      omega

theorem literal_spells {literal : NumberLiteral} (isWhole : IsWhole literal.whole)
    (digits : ∀ symbol ∈ literal.fraction, symbol.isDigit) :
    SpellsNumber literal.text literal := by
  have spelled := @SpellsNumber.parts literal.negative _ _ _ _ _ isWhole (fraction_spells digits)
    (exponent_spells literal.exponent)
  simpa only [NumberLiteral.text, Decimal.joinParts, List.append_assoc] using spelled

/-! Lexemes -/

theorem lexemes_spelled_cons {text rest : Text} {lexeme : Lexeme} {lexemes : List Lexeme}
    (spelled : SpellsLexeme text lexeme) (others : SpellsLexemes rest lexemes) :
    SpellsLexemes (text ++ rest) (lexeme :: lexemes) :=
  @SpellsLexemes.lexeme [] text rest lexeme lexemes (by simp) spelled others

theorem lexeme_spelled_alone {text : Text} {lexeme : Lexeme} (spelled : SpellsLexeme text lexeme) :
    SpellsLexemes text [lexeme] := by
  have alone := lexemes_spelled_cons spelled (@SpellsLexemes.blank [] (by simp))
  rwa [List.append_nil] at alone

theorem lexemes_spelled_behind {blanks text : Text} {lexemes : List Lexeme}
    (blank : ∀ symbol ∈ blanks, isBlank symbol) (spelled : SpellsLexemes text lexemes) :
    SpellsLexemes (blanks ++ text) lexemes := by
  cases spelled with
  | blank others => exact .blank (List.forall_mem_append.2 ⟨blank, others⟩)
  | lexeme later spelled others =>
      rw [← List.append_assoc]
      exact .lexeme (List.forall_mem_append.2 ⟨blank, later⟩) spelled others

theorem lexemes_spelled_append {text rest : Text} {lexemes others : List Lexeme}
    (spelled : SpellsLexemes text lexemes) (behind : SpellsLexemes rest others) :
    SpellsLexemes (text ++ rest) (lexemes ++ others) := by
  induction spelled with
  | blank blank => exact lexemes_spelled_behind blank behind
  | lexeme blank spelled others induction =>
      rw [List.append_assoc, List.append_assoc]
      exact .lexeme blank spelled induction

/-! Lists with commas -/

theorem lexemes_spelled_joined {texts : List Text} {parts : List (List Lexeme)}
    (each : List.Forall₂ SpellsLexemes texts parts) :
    SpellsLexemes (List.intercalate [','] texts) (List.intercalate [.comma] parts) := by
  induction each with
  | nil => exact .blank (by simp)
  | cons first later induction =>
      cases later with
      | nil => simpa using first
      | cons second others =>
          have joined := lexemes_spelled_append first (lexemes_spelled_cons .comma induction)
          simpa [List.intercalate_cons_cons] using joined

theorem item_lexemes_joined (items : List Json) :
    itemLexemes items = List.intercalate [.comma] (items.map lexemes) := by
  induction items with
  | nil => rfl
  | cons item others induction =>
      cases others with
      | nil => simp [itemLexemes]
      | cons second others =>
          rw [itemLexemes.eq_3 _ _ (by simp), induction]
          simp [List.intercalate_cons_cons]

def memberPart (member : StringContent × Json) : List Lexeme :=
  .string member.1 :: .colon :: lexemes member.2

theorem member_lexemes_joined (members : List (StringContent × Json)) :
    memberLexemes members = List.intercalate [.comma] (members.map memberPart) := by
  induction members with
  | nil => rfl
  | cons member others induction =>
      cases others with
      | nil => simp [memberLexemes, memberPart]
      | cons second others =>
          rw [memberLexemes.eq_3 _ _ _ (by simp), induction]
          simp [List.intercalate_cons_cons, memberPart]

/-! Layouts -/

theorem compact_array_document {texts : List Text} {values : List Json}
    (each : List.Forall₂ IsDocument texts values) :
    IsDocument (compactArray texts) (.array values) := by
  have joined := lexemes_spelled_joined (List.forall₂_map_right_iff.2 each)
  have closed := lexemes_spelled_append joined (lexeme_spelled_alone .closeBracket)
  have whole := lexemes_spelled_cons .openBracket closed
  simpa [IsDocument, compactArray, lexemes, item_lexemes_joined] using whole

/-- The text is a document of the member under the same name. -/
structure IsMember (written : String × Text) (member : String × Json) : Prop where
  named : written.1 = member.1
  plain : IsPlain written.1
  document : IsDocument written.2 member.2

theorem member_of_document {name : String} (plain : IsPlain name) {text : Text} {value : Json}
    (document : IsDocument text value) : IsMember (name, text) (name, value) :=
  ⟨rfl, plain, document⟩

theorem members_joined {write : String × Text → Text} {written : List (String × Text)}
    {members : List (String × Json)} (each : List.Forall₂ IsMember written members)
    (spelled : ∀ first second, IsMember first second →
      SpellsLexemes (write first) (memberPart (some second.1.toList, second.2))) :
    SpellsLexemes (List.intercalate [','] (written.map write))
      (memberLexemes (members.map fun (name, value) => (some name.toList, value))) := by
  rw [member_lexemes_joined, List.map_map]
  apply lexemes_spelled_joined
  rw [List.forall₂_map_left_iff, List.forall₂_map_right_iff]
  exact each.imp spelled

theorem compact_member_spelled {written : String × Text} {member : String × Json}
    (isMember : IsMember written member) :
    SpellsLexemes (compactMember written) (memberPart (some member.1.toList, member.2)) := by
  rw [compactMember, ← isMember.named]
  exact lexemes_spelled_cons (quoted_name_spells isMember.plain)
    (lexemes_spelled_cons .colon isMember.document)

theorem pretty_member_spelled {written : String × Text} {member : String × Json}
    (isMember : IsMember written member) :
    SpellsLexemes (prettyMember written) (memberPart (some member.1.toList, member.2)) := by
  have spaced := @lexemes_spelled_behind [' '] _ _ (by simp [isBlank]) isMember.document
  rw [prettyMember, ← isMember.named]
  apply lexemes_spelled_behind (by simp [isBlank])
  exact lexemes_spelled_cons (quoted_name_spells isMember.plain)
    (lexemes_spelled_cons .colon spaced)

theorem compact_object_document {written : List (String × Text)} {members : List (String × Json)}
    (each : List.Forall₂ IsMember written members) :
    IsDocument (compactObject written) (.ofMembers members) := by
  have joined := members_joined each fun _ _ => compact_member_spelled
  have closed := lexemes_spelled_append joined (lexeme_spelled_alone .closeBrace)
  have whole := lexemes_spelled_cons .openBrace closed
  simpa [IsDocument, compactObject, lexemes, ofMembers] using whole

theorem pretty_object_document {written : List (String × Text)} {members : List (String × Json)}
    (each : List.Forall₂ IsMember written members) :
    IsDocument (prettyObject written) (.ofMembers members) := by
  cases each with
  | nil => exact lexemes_spelled_cons .openBrace (lexeme_spelled_alone .closeBrace)
  | cons first others =>
      have joined := members_joined (.cons first others) fun _ _ => pretty_member_spelled
      have newLine : ∀ symbol ∈ ['\n'], isBlank symbol := by simp [isBlank]
      have closed := lexemes_spelled_append joined
        (lexemes_spelled_behind newLine (lexeme_spelled_alone .closeBrace))
      have whole := lexemes_spelled_cons .openBrace closed
      simpa [IsDocument, prettyObject, lexemes, ofMembers] using whole

end Json

end InfixCalculator
