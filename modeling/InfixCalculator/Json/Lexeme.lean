import InfixCalculator.Json.Quoted

/-!
The lexemes of a JSON document. Blanks between lexemes are dropped.
-/

namespace InfixCalculator

namespace Json

inductive Lexeme where
  | openBracket
  | closeBracket
  | openBrace
  | closeBrace
  | comma
  | colon
  | null
  | bool (truth : Bool)
  | number (literal : NumberLiteral)
  | string (content : StringContent)
  deriving DecidableEq, Repr

def isBlank (symbol : Char) : Bool :=
  symbol == ' ' || symbol == '\t' || symbol == '\n' || symbol == '\r'

def digitsOf (text : Text) : Text × Text :=
  (text.takeWhile Char.isDigit, text.dropWhile Char.isDigit)

/-- A whole part is a single zero or starts with another digit. -/
def wholePart? (text : Text) : Option (Text × Text) :=
  match text with
  | '0' :: rest => some (['0'], rest)
  | _ =>
      let (digits, rest) := digitsOf text
      if digits.isEmpty then none else some (digits, rest)

def fractionPart? : Text → Option (Text × Text)
  | '.' :: rest =>
      let (digits, behind) := digitsOf rest
      if digits.isEmpty then none else some (digits, behind)
  | text => some ([], text)

def exponentDigits? (negative : Bool) (text : Text) : Option (Int × Text) :=
  let (digits, behind) := digitsOf text
  if digits.isEmpty then none
  else
    let size : Int := Nat.ofDigitChars 10 digits 0
    some (if negative then -size else size, behind)

def exponentPart? : Text → Option (Int × Text)
  | [] => some (0, [])
  | mark :: rest =>
      if mark = 'e' ∨ mark = 'E' then
        match rest with
        | '-' :: digits => exponentDigits? true digits
        | '+' :: digits => exponentDigits? false digits
        | digits => exponentDigits? false digits
      else some (0, mark :: rest)

def number? (negative : Bool) (text : Text) : Option (Lexeme × Text) := do
  let (whole, afterWhole) ← wholePart? text
  let (fraction, afterFraction) ← fractionPart? afterWhole
  let (exponent, behind) ← exponentPart? afterFraction
  some (.number ⟨negative, whole, fraction, exponent⟩, behind)

def lexeme? : Text → Option (Lexeme × Text)
  | '[' :: rest => some (.openBracket, rest)
  | ']' :: rest => some (.closeBracket, rest)
  | '\x7b' :: rest => some (.openBrace, rest)
  | '\x7d' :: rest => some (.closeBrace, rest)
  | ',' :: rest => some (.comma, rest)
  | ':' :: rest => some (.colon, rest)
  | '"' :: rest =>
      (stringUnits? rest).map fun (units, behind) => (.string (contentOf units), behind)
  | 'n' :: 'u' :: 'l' :: 'l' :: rest => some (.null, rest)
  | 't' :: 'r' :: 'u' :: 'e' :: rest => some (.bool true, rest)
  | 'f' :: 'a' :: 'l' :: 's' :: 'e' :: rest => some (.bool false, rest)
  | '-' :: rest => number? true rest
  | text => number? false text

theorem digits_of_length_le (text : Text) : (digitsOf text).2.length ≤ text.length :=
  (List.dropWhile_suffix _).length_le

theorem digits_of_shorter {text : Text} (found : (digitsOf text).1.isEmpty = false) :
    (digitsOf text).2.length < text.length := by
  have whole := congrArg List.length
    (List.takeWhile_append_dropWhile : text.takeWhile Char.isDigit ++ _ = text)
  have positive : 0 < (digitsOf text).1.length := List.length_pos_iff.2 (by simpa using found)
  simp only [digitsOf, List.length_append] at whole positive ⊢
  omega

theorem whole_part_shorter {text digits behind : Text}
    (found : wholePart? text = some (digits, behind)) : behind.length < text.length := by
  unfold wholePart? at found
  split at found
  · cases found
    exact Nat.lt_succ_self _
  · simp only at found
    split at found
    · contradiction
    · rename_i filled
      cases found
      exact digits_of_shorter (by simpa using filled)

theorem fraction_part_length_le {text digits behind : Text}
    (found : fractionPart? text = some (digits, behind)) : behind.length ≤ text.length := by
  unfold fractionPart? at found
  split at found
  · simp only at found
    split at found
    · contradiction
    · cases found
      exact Nat.le_succ_of_le (digits_of_length_le _)
  · cases found
    exact Nat.le_refl _

theorem exponent_digits_length_le {negative : Bool} {text behind : Text} {exponent : Int}
    (found : exponentDigits? negative text = some (exponent, behind)) :
    behind.length ≤ text.length := by
  unfold exponentDigits? at found
  simp only at found
  split at found
  · contradiction
  · cases found
    exact digits_of_length_le _

theorem exponent_part_length_le {text behind : Text} {exponent : Int}
    (found : exponentPart? text = some (exponent, behind)) : behind.length ≤ text.length := by
  unfold exponentPart? at found
  split at found
  · cases found
    exact Nat.le_refl _
  · split at found
    · split at found <;>
      · have shorter := exponent_digits_length_le found
        simp only [List.length_cons] at shorter ⊢
        omega
    · cases found
      exact Nat.le_refl _

theorem number_shorter {negative : Bool} {text behind : Text} {lexeme : Lexeme}
    (found : number? negative text = some (lexeme, behind)) : behind.length < text.length := by
  simp only [number?, bind, Option.bind_eq_some_iff] at found
  obtain ⟨⟨_, _⟩, whole, ⟨_, _⟩, fraction, ⟨_, _⟩, exponent, same⟩ := found
  cases same
  exact Nat.lt_of_le_of_lt (exponent_part_length_le exponent)
    (Nat.lt_of_le_of_lt (fraction_part_length_le fraction) (whole_part_shorter whole))

theorem string_units_length_le (text : Text) (units : List StringUnit) (behind : Text)
    (found : stringUnits? text = some (units, behind)) : behind.length ≤ text.length := by
  fun_induction stringUnits? text generalizing units behind with
  | case1 => contradiction
  | case2 rest =>
      cases found
      exact Nat.le_succ _
  | case3 first second third fourth rest induction =>
      simp only [bind, Option.bind_eq_some_iff] at found
      obtain ⟨_, _, ⟨_, _⟩, later, same⟩ := found
      cases same
      have shorter := induction _ _ later
      simp only [List.length_cons]
      omega
  | case4 letter rest _ induction =>
      simp only [bind, Option.bind_eq_some_iff] at found
      obtain ⟨_, _, ⟨_, _⟩, later, same⟩ := found
      cases same
      have shorter := induction _ _ later
      simp only [List.length_cons]
      omega
  | case5 => contradiction
  | case6 symbol rest _ _ _ _ induction =>
      simp only [bind, Option.bind_eq_some_iff] at found
      obtain ⟨⟨_, _⟩, later, same⟩ := found
      cases same
      have shorter := induction _ _ later
      simp only [List.length_cons]
      omega

theorem lexeme_shorter {text behind : Text} {lexeme : Lexeme}
    (found : lexeme? text = some (lexeme, behind)) : behind.length < text.length := by
  unfold lexeme? at found
  split at found
  case h_7 rest =>
      obtain ⟨⟨units, rest⟩, later, same⟩ := Option.map_eq_some_iff.1 found
      cases same
      exact Nat.lt_succ_of_le (string_units_length_le _ _ _ later)
  case h_11 rest => exact Nat.lt_succ_of_lt (number_shorter found)
  case h_12 => exact number_shorter found
  all_goals
    cases found
    simp only [List.length_cons]
    omega

def lexemes? (text : Text) : Option (List Lexeme) :=
  match _ : text.dropWhile isBlank with
  | [] => some []
  | symbol :: rest =>
      match _ : lexeme? (symbol :: rest) with
      | none => none
      | some (first, behind) => (lexemes? behind).map (first :: ·)
  termination_by text.length
  decreasing_by
    rename_i trimmed found
    have suffix := (List.dropWhile_suffix (l := text) isBlank).length_le
    rw [trimmed] at suffix
    exact Nat.lt_of_lt_of_le (lexeme_shorter found) suffix

end Json

end InfixCalculator
