import InfixCalculator.Proofs.Scanning

/-!
Which token lists a scanner can return, and how they are spelled. Every token has a
spelling, but not every list of tokens: a negative number can only stand where no
operand stands directly before it. Spelled side by side, a list that breaks this is
read as another list, in which each such sign is a subtraction.
-/

namespace InfixCalculator

open Scanner

/-- Every number with a sign is the first token or stands directly behind an
operator or an opening parenthesis. -/
def SignsInPlace (tokens : List Token) : Prop :=
  ∀ front value behind, tokens = front ++ .number value :: behind → Binary64.isNegative value →
    front = [] ∨ (∃ kind, front.getLast? = some (.operator kind)) ∨
      front.getLast? = some .leftParen

/-- A token that may stand behind `previous`. -/
def Token.mayFollow (previous : Option Token) : Token → Bool
  | .number value => !Binary64.isNegative value || expectsOperand previous
  | _ => true

def signsFrom : Option Token → List Token → Bool
  | _, [] => true
  | previous, token :: rest => token.mayFollow previous && signsFrom (some token) rest

/-- What a spelled token is read as. A sign that is out of place becomes a
subtraction of its own. -/
def Token.asRead (previous : Option Token) : Token → List Token
  | .number value =>
      if Token.mayFollow previous (.number value) then [.number value]
      else [.operator .subtract, .number (Binary64.ofIndex false (Binary64.indexOf value))]
  | token => [token]

def readBack : Option Token → List Token → List Token
  | _, [] => []
  | previous, token :: rest => token.asRead previous ++ readBack (some token) rest

/-- The text is a spelling of the token, in case of a number its sign and a numeral
that is nearest to it. -/
def IsSpelling (shown : Text) : Token → Prop
  | .number value => ∃ run magnitude, shown = signSymbols (Binary64.isNegative value) ++ run ∧
      Decimal.ofNumeral? run = some magnitude ∧
      Binary64.nearestIndex magnitude.value = Binary64.indexOf value
  | token => shown = token.display

theorem expects_operand_iff (previous : Option Token) :
    expectsOperand previous ↔
      previous = none ∨ (∃ kind, previous = some (.operator kind)) ∨
        previous = some .leftParen := by
  cases previous with
  | none => simp [expectsOperand]
  | some token => cases token <;> simp [expectsOperand]

theorem signs_from_iff {previous : Option Token} {tokens : List Token} :
    signsFrom previous tokens ↔ ∀ front value behind, tokens = front ++ .number value :: behind →
      Binary64.isNegative value → expectsOperand (front.getLast?.or previous) := by
  induction tokens generalizing previous with
  | nil => simp [signsFrom]
  | cons token rest induction =>
      rw [signsFrom, Bool.and_eq_true, induction]
      constructor
      · rintro ⟨head, tail⟩ front value behind same negative
        cases front with
        | nil =>
            obtain ⟨rfl, rfl⟩ := List.cons.inj same
            simpa [Token.mayFollow, negative] using head
        | cons first front =>
            obtain ⟨rfl, rfl⟩ := List.cons.inj same
            have expected := tail front value behind rfl negative
            rw [List.getLast?_cons]
            cases last : front.getLast? <;> simpa [last] using expected
      · intro placed
        constructor
        · cases token with
          | number value =>
              cases negative : Binary64.isNegative value with
              | false => simp [Token.mayFollow, negative]
              | true =>
                  have expected := placed [] value rest rfl negative
                  simpa [Token.mayFollow, negative] using expected
          | operator kind => rfl
          | leftParen => rfl
          | rightParen => rfl
        · intro front value behind same negative
          have expected := placed (token :: front) value behind (by rw [same]; rfl) negative
          rw [List.getLast?_cons] at expected
          cases last : front.getLast? <;> simpa [last] using expected

theorem signs_in_place_iff {tokens : List Token} : SignsInPlace tokens ↔ signsFrom none tokens := by
  rw [signs_from_iff, SignsInPlace]
  simp only [Option.or_none, expects_operand_iff, List.getLast?_eq_none_iff]

instance : DecidablePred SignsInPlace := fun _ => decidable_of_iff _ signs_in_place_iff.symm

theorem as_read_length (previous : Option Token) (token : Token) :
    (token.asRead previous).length = if token.mayFollow previous then 1 else 2 := by
  cases token with
  | number value =>
      rw [Token.asRead]
      split <;> rfl
  | operator kind => rfl
  | leftParen => rfl
  | rightParen => rfl

theorem as_read_eq_iff {previous : Option Token} {token : Token} :
    token.asRead previous = [token] ↔ token.mayFollow previous := by
  constructor
  · intro same
    by_contra misplaced
    have length := as_read_length previous token
    rw [same, if_neg misplaced] at length
    simp at length
  · intro placed
    cases token with
    | number value => rw [Token.asRead, if_pos placed]
    | operator kind => rfl
    | leftParen => rfl
    | rightParen => rfl

theorem read_back_length (previous : Option Token) (list : List Token) :
    list.length ≤ (readBack previous list).length := by
  induction list generalizing previous with
  | nil => exact Nat.le_refl 0
  | cons token rest induction =>
      have behind := induction (some token)
      have first := as_read_length previous token
      rw [readBack, List.length_append, List.length_cons]
      split at first <;> omega

theorem read_back_eq_iff {previous : Option Token} {list : List Token} :
    readBack previous list = list ↔ signsFrom previous list := by
  induction list generalizing previous with
  | nil => exact iff_of_true rfl rfl
  | cons token rest induction =>
      rw [readBack, signsFrom, Bool.and_eq_true, ← induction]
      by_cases placed : token.mayFollow previous
      · rw [as_read_eq_iff.2 placed]
        simp [placed]
      · -- One token more than before, so the lists cannot be the same.
        refine iff_of_false (fun same => ?_) fun both => placed both.1
        have longer := congrArg List.length same
        have first := as_read_length previous token
        have behind := read_back_length (some token) rest
        rw [if_neg placed] at first
        rw [List.length_append, List.length_cons] at longer
        omega

theorem reading_of_nearest {run : Text} {magnitude : Decimal} {index : Nat}
    (read : Decimal.ofNumeral? run = some magnitude)
    (near : Binary64.nearestIndex magnitude.value = index) (negative : Bool) :
    literalReading negative run = .token (.number (Binary64.ofIndex negative index)) := by
  simp only [literalReading, read, Decimal.toBinary64, Binary64.nearest, near]

/-- A spelled number is read as itself where its sign may stand. Elsewhere the sign
is read as a subtraction. -/
theorem tokens_number {shown behind : Text} {value : Binary64}
    (spelling : IsSpelling shown (.number value)) (apart : literalFollows behind = false)
    (previous : Option Token) :
    tokens previous (shown ++ behind) =
      (tokens (some (.number value)) behind).map
        (Token.asRead previous (.number value) ++ ·) := by
  obtain ⟨run, magnitude, rfl, read, near⟩ := spelling
  obtain ⟨filled, literal⟩ := numeral_symbols read
  have reading := reading_of_nearest read near
  rw [Token.asRead]
  split
  · rename_i placed
    have signed : Binary64.isNegative value → expectsOperand previous := by
      simpa [Token.mayFollow, or_iff_not_imp_left] using placed
    have whole := reading (Binary64.isNegative value)
    rw [Binary64.of_index_index_of] at whole
    exact tokens_of_token (whole ▸ read_next_literal filled literal apart signed)
  · rename_i misplaced
    obtain ⟨negative, complete⟩ : Binary64.isNegative value ∧ expectsOperand previous = false := by
      simpa [Token.mayFollow] using misplaced
    have unsigned : readNext (some (.operator .subtract)) (run ++ behind) = _ :=
      read_next_literal filled literal apart (show false → _ from nofun)
    rw [reading false] at unsigned
    have same : expectsOperand (some (.number (Binary64.ofIndex false (Binary64.indexOf value)))) =
        expectsOperand (some (.number value)) := rfl
    have subtraction := tokens_operator .subtract complete (run ++ behind)
    rw [tokens_of_token unsigned, map_map_answer, tokens_congr same] at subtraction
    rw [negative]
    exact subtraction

theorem symbol_spelled {shown : Text} {token : Token} (spelling : IsSpelling shown token)
    (other : ∀ value, token ≠ .number value) :
    ∃ symbol, shown = [symbol] ∧ Token.ofChar? symbol = some token := by
  cases token with
  | number value => exact absurd rfl (other value)
  | operator kind => exact ⟨kind.symbol, spelling, by cases kind <;> rfl⟩
  | leftParen => exact ⟨'(', spelling, rfl⟩
  | rightParen => exact ⟨')', spelling, rfl⟩

theorem tokens_token {shown behind : Text} {token : Token} (spelling : IsSpelling shown token)
    (apart : literalFollows behind = false) (previous : Option Token) :
    tokens previous (shown ++ behind) =
      (tokens (some token) behind).map (token.asRead previous ++ ·) := by
  by_cases other : ∀ value, token ≠ .number value
  · obtain ⟨symbol, rfl, spelled⟩ := symbol_spelled spelling other
    have alone : token.asRead previous = [token] := by
      cases token with
      | number value => exact absurd rfl (other value)
      | _ => rfl
    rw [alone]
    exact tokens_of_token (read_next_symbol spelled fun _ _ => apart)
  · obtain ⟨value, rfl⟩ : ∃ value, token = .number value := by simpa using other
    exact tokens_number spelling apart previous

theorem spaced_cons (shown : Text) (others : List Text) :
    ∃ behind, [' '].intercalate (shown :: others) = shown ++ behind ∧
      literalFollows behind = false ∧
      ∀ previous, tokens previous behind = tokens previous ([' '].intercalate others) := by
  cases others with
  | nil => exact ⟨[], by simp [List.intercalate], rfl, fun _ => rfl⟩
  | cons next others =>
      refine ⟨' ' :: [' '].intercalate (next :: others), ?_, rfl, fun previous => ?_⟩
      · simp [List.intercalate]
      · exact tokens_inert rfl rfl previous _

theorem tokens_spelled {shown : List Text} {list : List Token}
    (spelled : List.Forall₂ IsSpelling shown list) (previous : Option Token) :
    tokens previous ([' '].intercalate shown) = .ok (readBack previous list) := by
  induction spelled generalizing previous with
  | nil => exact tokens_empty previous
  | @cons first token others rest spelling _ induction =>
      obtain ⟨behind, whole, apart, follows⟩ := spaced_cons first others
      rw [whole, tokens_token spelling apart, follows, induction]
      rfl

/-- What a token shows is a spelling of it, unless it is a number that is not finite. -/
theorem display_spelling {token : Token}
    (finite : ∀ value, token = .number value → Binary64.isFinite value) :
    IsSpelling token.display token := by
  cases token with
  | number value =>
      obtain ⟨run, magnitude, shown, read, same⟩ := Binary64.read_display (finite value rfl)
      refine ⟨run, magnitude, shown, read, ?_⟩
      have index := congrArg Binary64.indexOf same
      rwa [Decimal.toBinary64, Binary64.nearest,
        Binary64.index_of_of_index _ (Binary64.nearest_index_lt _)] at index
  | operator kind => rfl
  | leftParen => rfl
  | rightParen => rfl

def overflowingNumeral : Text := '1' :: List.replicate 309 '0'

theorem overflowing_numeral_read :
    ∃ magnitude, Decimal.ofNumeral? overflowingNumeral = some magnitude ∧
      Binary64.nearestIndex magnitude.value = Binary64.infinityIndex :=
  ⟨Decimal.ofDigits overflowingNumeral [], by decide +kernel, by decide +kernel⟩

theorem exists_spelling {token : Token}
    (number : ∀ value, token = .number value → Binary64.isNaN value = false) :
    ∃ shown, IsSpelling shown token := by
  by_cases finite : ∀ value, token = .number value → Binary64.isFinite value
  · exact ⟨token.display, display_spelling finite⟩
  · obtain ⟨value, rfl, infinite⟩ :
        ∃ value, token = .number value ∧ Binary64.isFinite value = false := by simpa using finite
    obtain ⟨magnitude, read, near⟩ := overflowing_numeral_read
    refine ⟨_, overflowingNumeral, magnitude, rfl, read, near.trans ?_⟩
    have known := number value rfl
    simp only [Binary64.isNaN, Binary64.isFinite, decide_eq_false_iff_not] at known infinite
    omega

theorem exists_spellings {list : List Token}
    (number : ∀ value, .number value ∈ list → Binary64.isNaN value = false) :
    ∃ shown, List.Forall₂ IsSpelling shown list := by
  induction list with
  | nil => exact ⟨[], .nil⟩
  | cons token rest induction =>
      obtain ⟨first, spelling⟩ := @exists_spelling token fun value same =>
        number value (List.mem_cons.2 (.inl same.symm))
      obtain ⟨others, spelled⟩ := induction fun value member =>
        number value (List.mem_cons_of_mem _ member)
      exact ⟨first :: others, .cons spelling spelled⟩

theorem tokens_signs {previous : Option Token} {text : Text} {read : List Token}
    (scanned : tokens previous text = .ok read) :
    (∀ value, .number value ∈ read → Binary64.isNaN value = false) ∧ signsFrom previous read := by
  induction previous, text using scanning_induction generalizing read with
  | empty previous =>
      rw [tokens_empty] at scanned
      cases scanned
      exact ⟨nofun, rfl⟩
  | literal previous negative run rest filled literal apart signed induction =>
      have reading := read_next_literal filled literal apart signed
      cases found : Decimal.ofNumeral? run with
      | none =>
          simp only [literalReading, found] at reading
          rw [tokens_of_malformed reading] at scanned
          contradiction
      | some magnitude =>
          have bound := Binary64.nearest_index_le magnitude.value
          have small := Binary64.nearest_index_lt magnitude.value
          rw [reading_of_nearest found rfl] at reading
          rw [tokens_of_token reading] at scanned
          obtain ⟨others, behind, rfl⟩ := exists_of_map_ok scanned
          obtain ⟨numbers, signs⟩ := induction _ behind
          constructor
          · intro value member
            rcases List.mem_cons.1 member with same | later
            · obtain rfl := Token.number.inj same
              rw [Binary64.isNaN, Binary64.index_of_of_index _ small]
              exact decide_eq_false (Nat.not_lt.2 bound)
            · exact numbers value later
          · rw [signsFrom, Token.mayFollow, Binary64.is_negative_of_index _ small, signs]
            cases negative with
            | false => rfl
            | true => simpa using signed rfl
  | symbol previous symbol token rest spelled unsigned induction =>
      rw [tokens_of_token (read_next_symbol spelled unsigned)] at scanned
      obtain ⟨others, behind, rfl⟩ := exists_of_map_ok scanned
      obtain ⟨numbers, signs⟩ := induction behind
      rcases token_of_char_cases spelled with ⟨-, rfl⟩ | ⟨-, rfl⟩ | ⟨-, kind, rfl⟩ <;>
      · refine ⟨fun value member => ?_, signs⟩
        rcases List.mem_cons.1 member with same | later
        · contradiction
        · exact numbers value later
  | inert previous symbol rest inert other induction =>
      rw [tokens_of_read_next (read_next_inert inert other)] at scanned
      exact induction scanned

/-- The lists that a scanner can return are those without NaN and with all signs in
place. The tokens of such a list, shown with blanks between them, are read back as
they are, and those of any other list are not. -/
theorem tokenize_image (list : List Token) :
    ((∃ text, tokenize text = .ok list) ↔
        (∀ value, .number value ∈ list → Binary64.isNaN value = false) ∧ SignsInPlace list) ∧
      ((∀ value, .number value ∈ list → Binary64.isFinite value) →
        (SignsInPlace list → tokenize ([' '].intercalate (list.map Token.display)) = .ok list) ∧
          (¬SignsInPlace list → ∃ other,
            tokenize ([' '].intercalate (list.map Token.display)) = .ok other ∧ other ≠ list)) := by
  rw [signs_in_place_iff]
  constructor
  · constructor
    · rintro ⟨text, scanned⟩
      exact tokens_signs scanned
    · rintro ⟨number, placed⟩
      obtain ⟨shown, spelled⟩ := exists_spellings number
      refine ⟨_, (tokens_spelled spelled none).trans ?_⟩
      rw [read_back_eq_iff.2 placed]
  · intro finite
    have spelled : List.Forall₂ IsSpelling (list.map Token.display) list := by
      rw [List.forall₂_map_left_iff, List.forall₂_same]
      intro token member
      exact display_spelling fun value same => finite value (same ▸ member)
    have back := tokens_spelled spelled none
    constructor
    · intro placed
      rw [tokenize, back, read_back_eq_iff.2 placed]
    · intro misplaced
      exact ⟨_, back, fun same => misplaced (read_back_eq_iff.1 same)⟩

/-- `2 - -3` keeps its sign, and `2 -3` is a subtraction. -/
theorem tokenize_image_signs :
    SignsInPlace [.number 2, .operator .subtract, .number (-3)] ∧
      (∃ text, tokenize text = .ok [.number 2, .operator .subtract, .number (-3)]) ∧
      tokenize ['2', ' ', '-', ' ', '-', '3'] =
        .ok [.number 2, .operator .subtract, .number (-3)] ∧
      ¬SignsInPlace [.number 2, .number (-3)] ∧
      ∃ other, tokenize ['2', ' ', '-', '3'] = .ok other ∧ other ≠ [.number 2, .number (-3)] := by
  have placed : SignsInPlace [.number 2, .operator .subtract, .number (-3)] := by decide +kernel
  have misplaced : ¬SignsInPlace [.number 2, .number (-3)] := by decide +kernel
  have two : Binary64.isFinite 2 := by decide +kernel
  have three : Binary64.isFinite (-3) := by decide +kernel
  have known (value : Binary64) (finite : Binary64.isFinite value) :
      Binary64.isNaN value = false := by
    simp only [Binary64.isNaN, Binary64.isFinite, decide_eq_true_eq, decide_eq_false_iff_not] at *
    omega
  have image := tokenize_image [.number 2, .operator .subtract, .number (-3)]
  have shown : [' '].intercalate
      ([.number 2, .operator .subtract, .number (-3)].map Token.display) =
      ['2', ' ', '-', ' ', '-', '3'] := by decide +kernel
  have other : [' '].intercalate ([.number 2, .number (-3)].map Token.display) =
      ['2', ' ', '-', '3'] := by decide +kernel
  refine ⟨placed, image.1.2 ⟨?_, placed⟩, shown ▸ (image.2 ?_).1 placed, misplaced,
    other ▸ ((tokenize_image [.number 2, .number (-3)]).2 ?_).2 misplaced⟩
  · simpa using ⟨known 2 two, known (-3) three⟩
  · simpa using ⟨two, three⟩
  · simpa using ⟨two, three⟩

end InfixCalculator

