import InfixCalculator.Proofs.Conservation
import InfixCalculator.Proofs.Splicing

/-!
Scanning of text that is put together from parts. What a scanner does behind a
part depends on the part only by whether an operand is expected, so parts can be
scanned one after the other wherever no literal reaches over the seam.
-/

namespace InfixCalculator

namespace Scanner

theorem read_next_congr {first second : Option Token}
    (same : expectsOperand first = expectsOperand second) (text : Text) :
    readNext first text = readNext second text := by
  induction text with
  | nil => rfl
  | cons symbol rest induction => simp only [readNext, same, induction]

theorem tokens_congr {first second : Option Token}
    (same : expectsOperand first = expectsOperand second) (text : Text) :
    tokens first text = tokens second text := by
  rw [tokens, tokens, read_next_congr same]

theorem tokens_empty (previous : Option Token) : tokens previous [] = .ok [] := by
  rw [tokens]
  rfl

theorem tokens_of_token {previous : Option Token} {text rest : Text} {token : Token}
    (reading : readNext previous text = (.token token, rest)) :
    tokens previous text = (tokens (some token) rest).map (token :: ·) := by
  rw [tokens]
  split <;> simp_all

theorem tokens_of_malformed {previous : Option Token} {text rest literal : Text}
    (reading : readNext previous text = (.malformed literal, rest)) :
    tokens previous text = .error (.malformedNumber literal) := by
  rw [tokens]
  split <;> simp_all

theorem tokens_of_read_next {previous : Option Token} {first second : Text}
    (same : readNext previous first = readNext previous second) :
    tokens previous first = tokens previous second := by
  rw [tokens, tokens, same]

def signSymbols (negative : Bool) : Text := if negative then ['-'] else []

theorem take_literal_run {run rest : Text} (literal : ∀ symbol ∈ run, isLiteralChar symbol)
    (apart : literalFollows rest = false) (negative : Bool) :
    takeLiteral negative (run ++ rest) = (literalReading negative run, rest) := by
  rw [takeLiteral, List.takeWhile_append_of_pos literal, List.dropWhile_append_of_pos literal]
  cases rest with
  | nil => simp
  | cons symbol rest =>
      rw [literalFollows] at apart
      simp [apart]

theorem read_next_literal {previous : Option Token} {negative : Bool} {run rest : Text}
    (filled : run ≠ []) (literal : ∀ symbol ∈ run, isLiteralChar symbol)
    (apart : literalFollows rest = false)
    (signed : negative → expectsOperand previous) :
    readNext previous (signSymbols negative ++ run ++ rest) =
      (literalReading negative run, rest) := by
  obtain ⟨symbol, others, rfl⟩ := List.exists_cons_of_ne_nil filled
  have first := literal symbol List.mem_cons_self
  cases negative with
  | false =>
      rw [signSymbols, if_neg (by simp), List.nil_append, List.cons_append, readNext, if_pos first,
        ← List.cons_append]
      exact take_literal_run literal apart false
  | true =>
      have follows : literalFollows (symbol :: others ++ rest) := first
      change readNext previous ('-' :: (symbol :: others ++ rest)) = _
      rw [readNext, if_neg (by decide), if_pos ⟨rfl, signed rfl, follows⟩]
      exact take_literal_run literal apart true

theorem literal_not_token {symbol : Char} (literal : isLiteralChar symbol) :
    Token.ofChar? symbol = none := by
  obtain ⟨opening, closing⟩ := literal_not_paren literal
  rw [Token.ofChar?, if_neg opening, if_neg closing]
  unfold Operator.ofChar?
  split <;> first | contradiction | rfl

theorem token_not_literal {symbol : Char} {token : Token}
    (spelled : Token.ofChar? symbol = some token) : isLiteralChar symbol = false := by
  by_contra literal
  rw [literal_not_token (by simpa using literal)] at spelled
  contradiction

theorem inert_ne {symbol other : Char} (inert : Token.ofChar? symbol = none)
    (spelled : (Token.ofChar? other).isSome) : symbol ≠ other := by
  rintro rfl
  rw [inert] at spelled
  contradiction

theorem read_next_symbol {previous : Option Token} {symbol : Char} {token : Token} {rest : Text}
    (spelled : Token.ofChar? symbol = some token)
    (unsigned : symbol = '-' → expectsOperand previous → literalFollows rest = false) :
    readNext previous (symbol :: rest) = (.token token, rest) := by
  have other := token_not_literal spelled
  have minus : ¬(symbol = '-' ∧ expectsOperand previous ∧ literalFollows rest) := by
    intro sign
    rcases sign with ⟨same, expected, follows⟩
    rw [unsigned same expected] at follows
    contradiction
  rw [readNext, if_neg (by simp [other]), if_neg minus, spelled]

theorem read_next_inert {previous : Option Token} {symbol : Char} {rest : Text}
    (inert : Token.ofChar? symbol = none) (other : isLiteralChar symbol = false) :
    readNext previous (symbol :: rest) = readNext previous rest := by
  have minus : symbol ≠ '-' := inert_ne inert rfl
  simp only [readNext, other, minus, inert, false_and, if_false]
  rfl

theorem literal_run_filled {text : Text} (follows : literalFollows text) :
    text.takeWhile isLiteralChar ≠ [] := by
  cases text with
  | nil => contradiction
  | cons symbol rest =>
      rw [literalFollows] at follows
      simp [follows]

theorem literal_run_apart (text : Text) :
    literalFollows (text.dropWhile isLiteralChar) = false := by
  have stopped := List.head?_dropWhile_not isLiteralChar text
  cases dropped : text.dropWhile isLiteralChar with
  | nil => rfl
  | cons symbol rest =>
      rw [dropped] at stopped
      exact stopped

/-- Induction along the tokens of a text, literals with their signs, and the
symbols between them that spell nothing. -/
theorem scanning_induction {motive : Option Token → Text → Prop}
    (empty : ∀ previous, motive previous [])
    (literal : ∀ previous (negative : Bool) run rest, run ≠ [] →
      (∀ symbol ∈ run, isLiteralChar symbol) → literalFollows rest = false →
      (negative → expectsOperand previous) → (∀ next, motive next rest) →
      motive previous (signSymbols negative ++ run ++ rest))
    (symbol : ∀ previous symbol token rest, Token.ofChar? symbol = some token →
      (symbol = '-' → expectsOperand previous → literalFollows rest = false) →
      motive (some token) rest → motive previous (symbol :: rest))
    (inert : ∀ previous symbol rest, Token.ofChar? symbol = none → isLiteralChar symbol = false →
      motive previous rest → motive previous (symbol :: rest))
    (previous : Option Token) (text : Text) : motive previous text := by
  induction length : text.length using Nat.strong_induction_on generalizing previous text with
  | _ size induction =>
      subst length
      -- A literal and its sign, in a text that starts with a run of literal symbols.
      have take (negative : Bool) (run : Text) (follows : literalFollows run)
          (signed : negative → expectsOperand previous)
          (within : run.length ≤ text.length) :
          motive previous (signSymbols negative ++ run) := by
        have shorter : (run.dropWhile isLiteralChar).length < text.length := by
          have whole := congrArg List.length (@List.takeWhile_append_dropWhile _ isLiteralChar run)
          have filled := List.length_pos_of_ne_nil (literal_run_filled follows)
          rw [List.length_append] at whole
          omega
        have taken := literal previous negative _ _ (literal_run_filled follows)
          (fun symbol member => mem_take_while member) (literal_run_apart run) signed
          fun next => induction _ shorter next _ rfl
        rwa [List.append_assoc, List.takeWhile_append_dropWhile] at taken
      match text with
      | [] => exact empty previous
      | first :: rest =>
          by_cases digit : isLiteralChar first
          · exact take false (first :: rest) digit nofun (Nat.le_refl _)
          · by_cases minus : first = '-' ∧ expectsOperand previous ∧ literalFollows rest
            · rcases minus with ⟨rfl, expected, follows⟩
              exact take true rest follows (fun _ => expected) (Nat.le_succ _)
            · cases spelled : Token.ofChar? first with
              | none =>
                  exact inert previous first rest spelled (by simpa using digit)
                    (induction _ (Nat.lt_succ_self _) previous rest rfl)
              | some token =>
                  have unsigned : first = '-' → expectsOperand previous →
                      literalFollows rest = false := by
                    intro same expected
                    by_contra follows
                    exact minus ⟨same, expected, by simpa using follows⟩
                  exact symbol previous first token rest spelled unsigned
                    (induction _ (Nat.lt_succ_self _) (some token) rest rfl)

theorem literal_follows_append {text rest : Text} (apart : literalFollows text = false)
    (behind : literalFollows rest = false) : literalFollows (text ++ rest) = false := by
  cases text with
  | nil => exact behind
  | cons symbol text => exact apart

/-- In front of texts that do not go on with a literal, the text is scanned as on
its own. Either it fails whatever follows, or its tokens stand in front of those
of the rest. -/
def ScansInFront (previous : Option Token) (text : Text) : Prop :=
  (∃ cause, ∀ rest, literalFollows rest = false →
      tokens previous (text ++ rest) = .error cause) ∨
    ∃ last read, ∀ rest, literalFollows rest = false →
      tokens previous (text ++ rest) = (tokens last rest).map (read ++ ·)

theorem scans_in_front_step {previous next : Option Token} {text later : Text}
    {first : List Token} (step : ∀ rest, literalFollows rest = false →
      tokens previous (text ++ rest) = (tokens next (later ++ rest)).map (first ++ ·))
    (induction : ScansInFront next later) : ScansInFront previous text := by
  rcases induction with ⟨cause, failed⟩ | ⟨last, read, scanned⟩
  · refine .inl ⟨cause, fun rest apart => ?_⟩
    rw [step rest apart, failed rest apart]
    rfl
  · refine .inr ⟨last, first ++ read, fun rest apart => ?_⟩
    rw [step rest apart, scanned rest apart, map_map_answer]
    simp only [List.append_assoc]

theorem literal_reading_cases (negative : Bool) (run : Text) :
    (∃ value, literalReading negative run = .token (.number value)) ∨
      ∃ literal, literalReading negative run = .malformed literal := by
  unfold literalReading
  cases Decimal.ofNumeral? run with
  | none => exact .inr ⟨_, rfl⟩
  | some magnitude => exact .inl ⟨_, rfl⟩

theorem tokens_prefix (previous : Option Token) (front : Text) : ScansInFront previous front := by
  induction previous, front using scanning_induction with
  | empty previous => exact .inr ⟨previous, [], fun rest _ => (map_id_answer _).symm⟩
  | literal previous negative run front filled literal apart signed induction =>
      have reading (rest : Text) (behind : literalFollows rest = false) :
          readNext previous (signSymbols negative ++ run ++ front ++ rest) =
            (literalReading negative run, front ++ rest) := by
        rw [List.append_assoc]
        exact read_next_literal filled literal (literal_follows_append apart behind) signed
      rcases literal_reading_cases negative run with ⟨value, token⟩ | ⟨text, malformed⟩
      · apply @scans_in_front_step _ _ _ _ [.number value] _ (induction (some (.number value)))
        intro rest behind
        exact tokens_of_token (token ▸ reading rest behind)
      · refine .inl ⟨.malformedNumber text, fun rest behind => ?_⟩
        exact tokens_of_malformed (malformed ▸ reading rest behind)
  | symbol previous symbol token front spelled unsigned induction =>
      apply @scans_in_front_step _ _ _ _ [token] _ induction
      intro rest behind
      apply tokens_of_token
      apply read_next_symbol spelled
      intro same expected
      exact literal_follows_append (unsigned same expected) behind
  | inert previous symbol front inert other induction =>
      apply @scans_in_front_step _ _ _ _ [] _ induction
      intro rest behind
      simp only [List.nil_append, map_id_answer]
      exact tokens_of_read_next (read_next_inert inert other)

theorem token_of_char_cases {symbol : Char} {token : Token}
    (spelled : Token.ofChar? symbol = some token) :
    (symbol = '(' ∧ token = .leftParen) ∨ (symbol = ')' ∧ token = .rightParen) ∨
      ((symbol ≠ '(' ∧ symbol ≠ ')') ∧ ∃ kind, token = .operator kind) := by
  unfold Token.ofChar? at spelled
  split at spelled
  · exact .inl ⟨‹_›, (Option.some.inj spelled).symm⟩
  · split at spelled
    · exact .inr (.inl ⟨‹_›, (Option.some.inj spelled).symm⟩)
    · obtain ⟨kind, -, same⟩ := Option.map_eq_some_iff.1 spelled
      exact .inr (.inr ⟨⟨‹_›, ‹_›⟩, kind, same.symm⟩)

def tokenSymbols : Text := ['(', ')', '+', '-', '*', '/', '^', '%']

theorem token_symbol_listed {symbol : Char} {token : Token}
    (spelled : Token.ofChar? symbol = some token) : symbol ∈ tokenSymbols := by
  rcases token_of_char_cases spelled with ⟨rfl, -⟩ | ⟨rfl, -⟩ | ⟨⟨opening, closing⟩, -⟩
  · decide
  · decide
  · rw [Token.ofChar?, if_neg opening, if_neg closing] at spelled
    unfold Operator.ofChar? at spelled
    split at spelled <;> first | decide | contradiction

theorem sign_balanced (negative : Bool) : Balanced (signSymbols negative) := by
  cases negative <;> rfl

theorem run_balanced {run : Text} (literal : ∀ symbol ∈ run, isLiteralChar symbol) :
    Balanced run :=
  balanced_of_free fun symbol member => literal_not_paren (literal symbol member)

theorem tokens_depth {previous : Option Token} {text : Text} {read : List Token}
    (scanned : tokens previous text = .ok read) (depth : Nat) :
    groupDepth depth read = parenDepth depth text := by
  induction previous, text using scanning_induction generalizing read depth with
  | empty previous =>
      rw [tokens_empty] at scanned
      cases scanned
      rfl
  | literal previous negative run front filled literal apart signed induction =>
      have reading := read_next_literal filled literal apart signed
      have balanced := balanced_append (sign_balanced negative) (run_balanced literal)
      rw [paren_depth_append, paren_depth_balanced balanced]
      rcases literal_reading_cases negative run with ⟨value, token⟩ | ⟨text, malformed⟩
      · rw [tokens_of_token (token ▸ reading)] at scanned
        obtain ⟨others, found, rfl⟩ := exists_of_map_ok scanned
        rw [groupDepth]
        exact induction (some (.number value)) found depth
      · rw [tokens_of_malformed (malformed ▸ reading)] at scanned
        contradiction
  | symbol previous symbol token front spelled unsigned induction =>
      rw [tokens_of_token (read_next_symbol spelled unsigned)] at scanned
      obtain ⟨others, found, rfl⟩ := exists_of_map_ok scanned
      rcases token_of_char_cases spelled with ⟨rfl, rfl⟩ | ⟨rfl, rfl⟩ |
        ⟨⟨opening, closing⟩, kind, rfl⟩
      · exact induction found (depth + 1)
      · cases depth with
        | zero => rfl
        | succ outer => exact induction found outer
      · rw [groupDepth, paren_depth_other opening closing]
        exact induction found depth
  | inert previous symbol front inert other induction =>
      have opening : symbol ≠ '(' := inert_ne inert rfl
      have closing : symbol ≠ ')' := inert_ne inert rfl
      rw [tokens_of_read_next (read_next_inert inert other)] at scanned
      rw [paren_depth_other opening closing]
      exact induction scanned depth

theorem tokens_inert {symbol : Char} (inert : Token.ofChar? symbol = none)
    (other : isLiteralChar symbol = false) (previous : Option Token) (rest : Text) :
    tokens previous (symbol :: rest) = tokens previous rest :=
  tokens_of_read_next (read_next_inert inert other)

theorem tokens_opening (previous : Option Token) (rest : Text) :
    tokens previous ('(' :: rest) = (tokens (some .leftParen) rest).map (.leftParen :: ·) :=
  tokens_of_token (read_next_symbol rfl nofun)

theorem tokens_closing (previous : Option Token) (rest : Text) :
    tokens previous (')' :: rest) = (tokens (some .rightParen) rest).map (.rightParen :: ·) :=
  tokens_of_token (read_next_symbol rfl nofun)

/-- Behind an operand every operator is one, a minus included. -/
theorem tokens_operator (operator : Operator) {previous : Option Token}
    (complete : expectsOperand previous = false) (rest : Text) :
    tokens previous (operator.symbol :: rest) =
      (tokens (some (.operator operator)) rest).map (.operator operator :: ·) := by
  have spelled : Token.ofChar? operator.symbol = some (.operator operator) := by
    cases operator <;> rfl
  apply tokens_of_token
  apply read_next_symbol spelled
  intro _ expected
  rw [complete] at expected
  contradiction

theorem tokens_display {value : Binary64} (finite : Binary64.isFinite value)
    {previous : Option Token} (signed : Binary64.isNegative value → expectsOperand previous)
    {rest : Text} (apart : literalFollows rest = false) :
    tokens previous (Binary64.display value ++ rest) =
      (tokens (some .rightParen) rest).map (.number value :: ·) := by
  obtain ⟨numeral, shown, filled, literal, reads⟩ := display_numeral finite
  have reading := read_next_literal filled literal apart signed
  rw [reads] at reading
  have same : expectsOperand (some (.number value)) = expectsOperand (some .rightParen) := rfl
  rw [shown, ← tokens_congr same]
  exact tokens_of_token reading

theorem tokens_failure {previous : Option Token} {text : Text} {cause : TextFailure}
    (failed : tokens previous text = .error cause) :
    ∃ literal, cause = .malformedNumber literal := by
  induction previous, text using scanning_induction with
  | empty previous =>
      rw [tokens_empty] at failed
      contradiction
  | literal previous negative run rest filled literal apart signed induction =>
      have reading := read_next_literal filled literal apart signed
      rcases literal_reading_cases negative run with ⟨value, token⟩ | ⟨shown, malformed⟩
      · rw [tokens_of_token (token ▸ reading)] at failed
        exact induction (some (.number value)) (error_of_map_error failed)
      · rw [tokens_of_malformed (malformed ▸ reading)] at failed
        exact ⟨shown, (Except.error.inj failed).symm⟩
  | symbol previous symbol token rest spelled unsigned induction =>
      rw [tokens_of_token (read_next_symbol spelled unsigned)] at failed
      exact induction (error_of_map_error failed)
  | inert previous symbol rest inert other induction =>
      rw [tokens_of_read_next (read_next_inert inert other)] at failed
      exact induction failed

end Scanner

open Scanner

/-- Where an operand is expected the text is read as these tokens, and no operand
is expected behind it. -/
def ReadsAs (text : Text) (read : List Token) : Prop :=
  ∀ previous rest, expectsOperand previous → literalFollows rest = false →
    tokens previous (text ++ rest) = (tokens (some .rightParen) rest).map (read ++ ·)

/-- The text is read as these tokens wherever it stands. -/
def StandsAs (text : Text) (read : List Token) : Prop :=
  ∀ previous rest, tokens previous (text ++ rest) = (tokens (some .rightParen) rest).map (read ++ ·)

theorem reads_as_display {value : Binary64} (finite : Binary64.isFinite value) :
    ReadsAs (Binary64.display value) [.number value] :=
  fun _ _ expected apart => tokens_display finite (fun _ => expected) apart

theorem reads_as_group {text : Text} {read : List Token} (reads : ReadsAs text read) :
    ReadsAs ('(' :: text ++ [')']) (.leftParen :: read ++ [.rightParen]) := by
  intro previous rest expected apart
  rw [List.cons_append, List.cons_append, List.append_assoc, tokens_opening,
    reads _ _ rfl rfl, List.singleton_append, tokens_closing]
  simp only [map_map_answer, List.cons_append, List.append_assoc, List.nil_append]

/-- What a whole text is read as, it is read as in parentheses anywhere. -/
theorem stands_as_group {text : Text} {read : List Token} (scanned : tokenize text = .ok read) :
    StandsAs ('(' :: text ++ [')']) (.leftParen :: read ++ [.rightParen]) := by
  intro previous rest
  have closing (rest : Text) : literalFollows (')' :: rest) = false := rfl
  have start : expectsOperand none = expectsOperand (some .leftParen) := rfl
  rw [tokenize, tokens_congr start] at scanned
  rw [List.cons_append, List.cons_append, List.append_assoc, tokens_opening,
    List.singleton_append]
  rcases tokens_prefix (some .leftParen) text with ⟨cause, failed⟩ | ⟨last, found, prefixed⟩
  · have alone := failed [] rfl
    rw [List.append_nil, scanned] at alone
    contradiction
  · have alone := prefixed [] rfl
    rw [List.append_nil, scanned, tokens_empty] at alone
    obtain rfl : read = found := by simpa [Except.map] using alone
    rw [prefixed _ (closing rest), tokens_closing]
    simp only [map_map_answer, List.cons_append, List.append_assoc, List.nil_append]

def splicedTokens (value : Binary64) : List Token :=
  if Binary64.isNegative value then [.leftParen, .number value, .rightParen] else [.number value]

theorem stands_as_splice {value : Binary64} (finite : Binary64.isFinite value) :
    StandsAs (splice value) (splicedTokens value) := by
  intro previous rest
  have blank (previous : Option Token) (rest : Text) :
      tokens previous (' ' :: rest) = tokens previous rest := tokens_inert rfl rfl previous rest
  have blankApart (rest : Text) : literalFollows (' ' :: rest) = false := rfl
  rcases splice_cases value with ⟨negative, form⟩ | ⟨positive, form⟩
  · have group := reads_as_group (reads_as_display finite) none (' ' :: rest) rfl (blankApart rest)
    have start (previous : Option Token) (rest : Text) :
        tokens previous ('(' :: rest) = tokens none ('(' :: rest) := by
      rw [tokens_opening, tokens_opening]
    rw [splicedTokens, if_pos negative, form]
    simp only [List.append_assoc, List.cons_append, List.nil_append, blank] at group ⊢
    rw [start, group]
  · have signed : Binary64.isNegative value → expectsOperand previous := by
      rw [positive]
      nofun
    rw [splicedTokens, if_neg (by simp [positive]), form]
    simp only [List.append_assoc, List.cons_append, List.nil_append, blank]
    rw [tokens_display finite signed (blankApart rest), blank]

/-- Between two texts, a text that reads the same everywhere keeps their tokens
apart. A failure on its left comes first. -/
theorem tokens_around {middle : Text} {read : List Token} (stands : StandsAs middle read)
    (apart : ∀ rest, literalFollows (middle ++ rest) = false) (previous : Option Token)
    (left right : Text) :
    tokens previous (left ++ middle ++ right) =
      (tokens previous left).bind fun leftRead =>
        (tokens (some .rightParen) right).map fun rightRead => leftRead ++ read ++ rightRead := by
  rw [List.append_assoc]
  rcases tokens_prefix previous left with ⟨cause, failed⟩ | ⟨last, leftRead, scanned⟩
  · have alone := failed [] rfl
    rw [List.append_nil] at alone
    rw [failed _ (apart right), alone]
    rfl
  · have alone := scanned [] rfl
    rw [List.append_nil, tokens_empty] at alone
    rw [scanned _ (apart right), stands, map_map_answer, alone]
    simp only [Except.map, Except.bind, List.append_assoc, List.append_nil]

theorem read_around {left middle right : Text} {own read : List Token}
    (stands : StandsAs middle own) (apart : ∀ rest, literalFollows (middle ++ rest) = false)
    (scanned : tokenize (left ++ middle ++ right) = .ok read) :
    ∃ leftRead rightRead, read = leftRead ++ own ++ rightRead := by
  rw [tokenize, tokens_around stands apart] at scanned
  cases front : tokens none left with
  | error cause =>
      rw [front] at scanned
      contradiction
  | ok leftRead =>
      rw [front] at scanned
      obtain ⟨rightRead, -, rfl⟩ := exists_of_map_ok scanned
      exact ⟨leftRead, rightRead, rfl⟩

theorem splice_apart (value : Binary64) (rest : Text) :
    literalFollows (splice value ++ rest) = false := by
  rcases splice_cases value with ⟨-, form⟩ | ⟨-, form⟩ <;>
  · rw [form]
    rfl

theorem tokenize_behind_zero (right : Text) :
    tokenize ('0' :: ' ' :: right) =
      (tokens (some .rightParen) right).map (.number 0 :: ·) := by
  have shown : Binary64.display 0 = ['0'] := by decide +kernel
  have unsigned : Binary64.isNegative 0 → expectsOperand none := fun _ => rfl
  have blankApart : literalFollows (' ' :: right) = false := rfl
  have blank : tokens (some .rightParen) (' ' :: right) = tokens (some .rightParen) right :=
    tokens_inert rfl rfl _ _
  have reading := tokens_display (by decide +kernel) unsigned blankApart
  rwa [shown, blank] at reading

/-- A spliced value is read as its own tokens wherever it stands. It joins no
literal, takes no sign and gives none, and what follows it is read as behind an
operand. -/
theorem tokenize_spliced {value : Binary64} (finite : Binary64.isFinite value) (left right : Text) :
    (∀ leftRead rightRead, tokenize left = .ok leftRead →
      tokenize ('0' :: ' ' :: right) = .ok (.number 0 :: rightRead) →
      tokenize (left ++ splice value ++ right) =
        .ok (leftRead ++ splicedTokens value ++ rightRead)) ∧
      (∀ cause, tokenize left = .error cause →
        (∃ literal, cause = .malformedNumber literal) ∧
          tokenize (left ++ splice value ++ right) = .error cause) ∧
      (∀ leftRead cause, tokenize left = .ok leftRead →
        tokenize ('0' :: ' ' :: right) = .error cause →
        tokenize (left ++ splice value ++ right) = .error cause) ∧
      ∀ read, tokenize ('0' :: ' ' :: right) = .ok read →
        ∃ rightRead, read = .number 0 :: rightRead := by
  have around := tokens_around (stands_as_splice finite) (splice_apart value) none left right
  rw [tokenize, tokenize_behind_zero, tokenize, around]
  refine ⟨?_, ?_, ?_, ?_⟩
  · intro leftRead rightRead leftScanned rightScanned
    obtain ⟨found, behind, same⟩ := exists_of_map_ok rightScanned
    obtain rfl : found = rightRead := (List.cons.inj same).2
    rw [leftScanned, behind]
    rfl
  · intro cause failed
    refine ⟨tokens_failure failed, ?_⟩
    rw [failed]
    rfl
  · intro leftRead cause leftScanned failed
    rw [leftScanned, error_of_map_error failed]
    rfl
  · intro read scanned
    obtain ⟨rightRead, -, same⟩ := exists_of_map_ok scanned
    exact ⟨rightRead, same.symm⟩

/-- Negative zero between `2-` and `-.5`, and between texts with a malformed literal. -/
theorem tokenize_spliced_negative_zero :
    Binary64.isFinite (-0) ∧
      tokenize ['2', '-'] = .ok [.number 2, .operator .subtract] ∧
      tokenize ['0', ' ', '-', '.', '5'] =
        .ok [.number 0, .operator .subtract, .number 0.5] ∧
      tokenize (['2', '-'] ++ splice (-0) ++ ['-', '.', '5']) =
        .ok [.number 2, .operator .subtract, .leftParen, .number (-0), .rightParen,
          .operator .subtract, .number 0.5] ∧
      tokenize (['-', '.'] ++ splice (-0) ++ ['1', '.', '.']) =
        .error (.malformedNumber ['-', '.']) ∧
      tokenize (['2', '-'] ++ splice (-0) ++ ['1', '.', '.']) =
        .error (.malformedNumber ['1', '.', '.']) := by
  have finite : Binary64.isFinite (-0) := by decide +kernel
  have left : tokenize ['2', '-'] = .ok [.number 2, .operator .subtract] := by decide +kernel
  have right : tokenize ['0', ' ', '-', '.', '5'] =
      .ok [.number 0, .operator .subtract, .number 0.5] := by decide +kernel
  have spliced := tokenize_spliced finite ['2', '-']
  exact ⟨finite, left, right, (spliced ['-', '.', '5']).1 _ _ left right,
    ((tokenize_spliced finite ['-', '.'] ['1', '.', '.']).2.1 _ (by decide +kernel)).2,
    (spliced ['1', '.', '.']).2.2.1 _ _ left (by decide +kernel)⟩

end InfixCalculator
