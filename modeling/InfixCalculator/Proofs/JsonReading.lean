import InfixCalculator.Proofs.JsonGrammar
import Mathlib.Data.List.Chain

/-!
Reading back what the grammar of the interchange format spells. Lexemes are found one by
one, since no number is followed by a symbol that could go on with it, and the stack of
open values turns the lexemes of a value into the value.
-/

namespace InfixCalculator

namespace Json

/-! Reading of lexemes -/

namespace Lexeme

def isNumber : Lexeme → Bool
  | .number _ => true
  | _ => false

def followsValue : Lexeme → Bool
  | .comma | .closeBracket | .closeBrace => true
  | _ => false

end Lexeme

theorem lexeme_of_spelling {text rest : Text} {lexeme : Lexeme} (spelled : SpellsLexeme text lexeme)
    (stops : lexeme.isNumber → StopsNumber rest) :
    lexeme? (text ++ rest) = some (lexeme, rest) := by
  cases spelled with
  | bool truth => cases truth <;> simp [lexeme?]
  | number spelled => exact lexeme_of_number spelled (stops rfl)
  | string spelled isContent =>
      have read := string_units_of_spelling spelled rest
      simp [lexeme?, read, content_of_spelling spelled isContent]
  | _ => simp [lexeme?]

theorem not_blank_of_lexeme {symbol : Char} {rest : Text}
    (found : (lexeme? (symbol :: rest)).isSome) : isBlank symbol = false := by
  rw [Bool.eq_false_iff]
  intro blank
  simp only [isBlank, Bool.or_eq_true, beq_iff_eq] at blank
  rcases blank with ((rfl | rfl) | rfl) | rfl <;>
    simp [lexeme?, number?, wholePart?, digitsOf] at found

theorem lexemes_of_blanks {blanks : Text} (blank : ∀ symbol ∈ blanks, isBlank symbol) :
    lexemes? blanks = some [] := by
  have trimmed : blanks.dropWhile isBlank = [] := List.dropWhile_eq_nil_iff.2 blank
  rw [lexemes?]
  split
  · rfl
  · rename_i same
    rw [trimmed] at same
    contradiction

theorem lexemes_of_front {blanks text behind : Text} {lexeme : Lexeme}
    (blank : ∀ symbol ∈ blanks, isBlank symbol) (found : lexeme? text = some (lexeme, behind)) :
    lexemes? (blanks ++ text) = (lexemes? behind).map (lexeme :: ·) := by
  cases text with
  | nil => simp [lexeme?, number?, wholePart?, digitsOf] at found
  | cons symbol rest =>
      have front := not_blank_of_lexeme (Option.isSome_iff_exists.2 ⟨_, found⟩)
      have trimmed : (blanks ++ symbol :: rest).dropWhile isBlank = symbol :: rest := by
        rw [List.dropWhile_append_of_pos blank, List.dropWhile_cons_of_neg (by simp [front])]
      rw [lexemes?]
      split
      · rename_i same
        rw [trimmed] at same
        contradiction
      · rename_i first others same
        rw [trimmed] at same
        cases same
        split
        · rename_i missing
          rw [found] at missing
          contradiction
        · rename_i other
          rw [found] at other
          cases other
          rfl

theorem stops_number_of_lexemes {text : Text} {lexemes : List Lexeme}
    (spelled : SpellsLexemes text lexemes)
    (next : ∀ lexeme ∈ lexemes.head?, lexeme.followsValue) : StopsNumber text := by
  have unread (symbol : Char) (blank : isBlank symbol) : continuesNumber symbol = false := by
    simp only [isBlank, Bool.or_eq_true, beq_iff_eq] at blank
    rcases blank with ((rfl | rfl) | rfl) | rfl <;> rfl
  cases spelled with
  | blank blank =>
      intro symbol member
      exact unread symbol (blank symbol (List.mem_of_mem_head? member))
  | @lexeme blanks text rest lexeme lexemes blank spelled others =>
      cases blanks with
      | cons symbol blanks =>
          exact stops_number_cons.2 (unread symbol (blank symbol List.mem_cons_self))
      | nil =>
          have follows := next lexeme rfl
          cases spelled with
          | closeBracket => exact stops_number_cons.2 rfl
          | closeBrace => exact stops_number_cons.2 rfl
          | comma => exact stops_number_cons.2 rfl
          | _ => exact absurd follows Bool.false_ne_true

/-- A number is not followed by what could go on with it. -/
def NumbersApart : List Lexeme → Prop :=
  List.IsChain fun first second => first.isNumber → second.followsValue

theorem lexemes_of_spelling {text : Text} {lexemes : List Lexeme}
    (spelled : SpellsLexemes text lexemes) (apart : NumbersApart lexemes) :
    lexemes? text = some lexemes := by
  induction spelled with
  | blank blank => exact lexemes_of_blanks blank
  | @lexeme blanks text rest lexeme lexemes blank spelled others induction =>
      have next : lexeme.isNumber → StopsNumber rest := by
        intro number
        apply stops_number_of_lexemes others
        intro second member
        exact (List.isChain_cons.1 apart).1 second member number
      rw [lexemes_of_front blank (lexeme_of_spelling spelled next),
        induction (List.isChain_cons.1 apart).2, Option.map_some]

theorem numbers_apart_cons {lexeme : Lexeme} {rest : List Lexeme} (other : lexeme.isNumber = false)
    (apart : NumbersApart rest) : NumbersApart (lexeme :: rest) := by
  apply List.isChain_cons.2
  refine ⟨fun second member number => ?_, apart⟩
  rw [other] at number
  contradiction

theorem numbers_apart_of_number (literal : NumberLiteral) {rest : List Lexeme}
    (next : ∀ lexeme ∈ rest.head?, lexeme.followsValue) (apart : NumbersApart rest) :
    NumbersApart (.number literal :: rest) :=
  List.isChain_cons.2 ⟨fun second member _ => next second member, apart⟩

mutual

theorem numbers_apart_of_value (value : Json) (rest : List Lexeme)
    (next : ∀ lexeme ∈ rest.head?, lexeme.followsValue) (apart : NumbersApart rest) :
    NumbersApart (lexemes value ++ rest) := by
  match value with
  | .null | .bool _ | .string _ => exact numbers_apart_cons rfl apart
  | .number literal => exact numbers_apart_of_number literal next apart
  | .array items =>
      simp only [lexemes, List.cons_append, List.append_assoc]
      apply numbers_apart_cons rfl
      exact numbers_apart_of_items items _ (by simp [Lexeme.followsValue])
        (numbers_apart_cons rfl apart)
  | .object members =>
      simp only [lexemes, List.cons_append, List.append_assoc]
      apply numbers_apart_cons rfl
      exact numbers_apart_of_members members _ (by simp [Lexeme.followsValue])
        (numbers_apart_cons rfl apart)

theorem numbers_apart_of_items (items : List Json) (rest : List Lexeme)
    (next : ∀ lexeme ∈ rest.head?, lexeme.followsValue) (apart : NumbersApart rest) :
    NumbersApart (itemLexemes items ++ rest) := by
  match items with
  | [] => exact apart
  | [item] => exact numbers_apart_of_value item rest next apart
  | item :: second :: others =>
      have later := numbers_apart_of_items (second :: others) rest next apart
      rw [itemLexemes.eq_3 _ _ (by simp), List.append_assoc]
      exact numbers_apart_of_value item _ (by simp [Lexeme.followsValue])
        (numbers_apart_cons rfl later)

theorem numbers_apart_of_members (members : List (StringContent × Json)) (rest : List Lexeme)
    (next : ∀ lexeme ∈ rest.head?, lexeme.followsValue) (apart : NumbersApart rest) :
    NumbersApart (memberLexemes members ++ rest) := by
  match members with
  | [] => exact apart
  | [(key, value)] =>
      have written := numbers_apart_of_value value rest next apart
      exact numbers_apart_cons rfl (numbers_apart_cons rfl written)
  | (key, value) :: second :: others =>
      have later := numbers_apart_of_members (second :: others) rest next apart
      have written := numbers_apart_of_value value
        (.comma :: (memberLexemes (second :: others) ++ rest)) (by simp [Lexeme.followsValue])
        (numbers_apart_cons rfl later)
      rw [memberLexemes.eq_3 _ _ _ (by simp)]
      simp only [List.cons_append, List.append_assoc]
      exact numbers_apart_cons rfl (numbers_apart_cons rfl written)

end

/-! Reading of values -/

theorem lexemes_opening (value : Json) :
    ∃ first tail, lexemes value = first :: tail ∧ first ≠ .closeBracket := by
  cases value <;> simp [lexemes]

theorem item_lexemes_opening (item : Json) (others : List Json) :
    ∃ first tail, itemLexemes (item :: others) = first :: tail ∧ first ≠ .closeBracket := by
  obtain ⟨first, tail, same, opening⟩ := lexemes_opening item
  cases others with
  | nil => exact ⟨first, tail, same, opening⟩
  | cons second others =>
      refine ⟨first, tail ++ .comma :: itemLexemes (second :: others), ?_, opening⟩
      rw [itemLexemes.eq_3 _ _ (by simp), same]
      rfl

theorem member_lexemes_opening (member : StringContent × Json)
    (others : List (StringContent × Json)) :
    ∃ tail, memberLexemes (member :: others) = .string member.1 :: .colon :: tail := by
  cases others with
  | nil => exact ⟨_, rfl⟩
  | cons second others => exact ⟨_, memberLexemes.eq_3 _ _ _ (by simp)⟩

mutual

theorem read_value (frames : List Frame) (value : Json) (rest : List Lexeme) :
    readValue? frames (lexemes value ++ rest) = readOn? frames value rest := by
  match value with
  | .null | .bool _ | .string _ | .number _ => rfl
  | .array [] | .object [] => rfl
  | .array (item :: others) =>
      have items := read_items frames [] (item :: others) (by simp) rest
      obtain ⟨first, tail, same, notBracket⟩ := item_lexemes_opening item others
      rw [same] at items
      rw [lexemes, same]
      simp only [List.cons_append, List.append_assoc, List.nil_append] at items ⊢
      rw [readValue?.eq_6 _ _ (fun _ closed => notBracket (List.cons.inj closed).1), items]
  | .object (member :: others) =>
      obtain ⟨tail, same⟩ := member_lexemes_opening member others
      have members := read_members frames [] (member :: others) rest same
      rw [lexemes, same]
      simp only [List.cons_append, List.append_assoc, List.nil_append] at members ⊢
      rw [readValue?, members]

theorem read_items (frames : List Frame) (before items : List Json) (filled : items ≠ [])
    (rest : List Lexeme) :
    readValue? (.array before :: frames) (itemLexemes items ++ .closeBracket :: rest) =
      readOn? frames (.array (before ++ items)) rest := by
  match items with
  | [item] =>
      rw [itemLexemes, read_value]
      rfl
  | item :: second :: others =>
      have later := read_items frames (before ++ [item]) (second :: others) (by simp) rest
      rw [itemLexemes.eq_3 _ _ (by simp), List.append_assoc, read_value]
      simpa [readOn?] using later

theorem read_members (frames : List Frame) (before members : List (StringContent × Json))
    (rest : List Lexeme) {key : StringContent} {tail : List Lexeme}
    (opening : memberLexemes members = .string key :: .colon :: tail) :
    readValue? (.object before key :: frames) (tail ++ .closeBrace :: rest) =
      readOn? frames (.object (before ++ members)) rest := by
  match members with
  | [(key, value)] =>
      cases opening
      rw [read_value]
      rfl
  | (key, value) :: second :: others =>
      obtain ⟨later, same⟩ := member_lexemes_opening second others
      have behind := read_members frames (before ++ [(key, value)]) (second :: others) rest same
      rw [memberLexemes.eq_3 _ _ _ (by simp), same, List.cons_append, List.cons_append] at opening
      cases opening
      simp only [List.cons_append, List.append_assoc, List.nil_append] at behind ⊢
      rw [read_value, readOn?, behind]

end

theorem read_of_document {text : Text} {value : Json} (document : IsDocument text value) :
    read? text = some value := by
  -- Two numbers in a row could run into one, but no value has such lexemes.
  have apart := numbers_apart_of_value value [] (by simp) .nil
  have read := read_value [] value []
  rw [List.append_nil] at apart read
  rw [read?, lexemes_of_spelling document apart]
  exact read

theorem document_unique {text : Text} {first second : Json} (one : IsDocument text first)
    (other : IsDocument text second) : first = second :=
  Option.some.inj ((read_of_document one).symm.trans (read_of_document other))

end Json

end InfixCalculator
