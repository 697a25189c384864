import InfixCalculator.Failure

/-!
Scanning text into tokens. Literals are maximal runs of digits and points. A
minus directly in front of a literal is its sign where no operand precedes it.
Characters that spell nothing are dropped. A scanner goes on after a malformed
literal and keeps answering `finished` at the end.
-/

namespace InfixCalculator

def isLiteralChar (symbol : Char) : Bool := symbol.isDigit || symbol == '.'

inductive Reading where
  | token (token : Token)
  | malformed (literal : Text)
  | finished
  deriving DecidableEq

/-- A scanner remembers the last token that it handed out. -/
structure Scanner where
  previous : Option Token
  rest : Text

namespace Scanner

def start (text : Text) : Scanner := ⟨none, text⟩

/-- No operand stands directly before: at the start, after an operator, and
after an opening parenthesis. -/
def expectsOperand : Option Token → Bool
  | none => true
  | some (.operator _) => true
  | some .leftParen => true
  | some (.number _) => false
  | some .rightParen => false

def literalFollows : Text → Bool
  | [] => false
  | symbol :: _ => isLiteralChar symbol

def literalReading (negative : Bool) (run : Text) : Reading :=
  match Decimal.ofNumeral? run with
  | some magnitude => .token (.number (magnitude.toBinary64 negative))
  | none => .malformed (if negative then '-' :: run else run)

def takeLiteral (negative : Bool) (text : Text) : Reading × Text :=
  (literalReading negative (text.takeWhile isLiteralChar), text.dropWhile isLiteralChar)

def readNext (previous : Option Token) : Text → Reading × Text
  | [] => (.finished, [])
  | symbol :: rest =>
      if isLiteralChar symbol then takeLiteral false (symbol :: rest)
      else if symbol = '-' ∧ expectsOperand previous ∧ literalFollows rest then
        takeLiteral true rest
      else match Token.ofChar? symbol with
        | some token => (.token token, rest)
        | none => readNext previous rest

def poll (scanner : Scanner) : Reading × Scanner :=
  match readNext scanner.previous scanner.rest with
  | (.token token, rest) => (.token token, ⟨some token, rest⟩)
  | (reading, rest) => (reading, ⟨scanner.previous, rest⟩)

def polls : Nat → Scanner → List Reading
  | 0, _ => []
  | count + 1, scanner => scanner.poll.1 :: polls count scanner.poll.2

theorem drop_while_length_le {predicate : Char → Bool} (text : Text) :
    (text.dropWhile predicate).length ≤ text.length :=
  (List.dropWhile_suffix predicate).length_le

/-- A reading other than the end uses up at least one character. -/
theorem read_next_shorter (previous : Option Token) (text : Text) :
    (readNext previous text).1 = .finished ∨ (readNext previous text).2.length < text.length := by
  induction text with
  | nil => exact .inl rfl
  | cons symbol rest induction =>
      rw [readNext]
      split
      · rename_i literal
        refine .inr ?_
        simp only [takeLiteral, List.dropWhile_cons, literal, if_true, List.length_cons]
        exact Nat.lt_succ_of_le (drop_while_length_le rest)
      · split
        · exact .inr (Nat.lt_succ_of_le (drop_while_length_le rest))
        · split
          · exact .inr (Nat.lt_succ_self _)
          · exact induction.imp id fun shorter => Nat.lt_succ_of_lt shorter

def tokens (previous : Option Token) (text : Text) : Except TextFailure (List Token) :=
  match _ : readNext previous text with
  | (.finished, _) => .ok []
  | (.malformed literal, _) => .error (.malformedNumber literal)
  | (.token token, rest) => (tokens (some token) rest).map (token :: ·)
  termination_by text.length
  decreasing_by
    rename_i reading
    have shorter := read_next_shorter previous text
    rw [reading] at shorter
    exact shorter.resolve_left nofun

end Scanner

def tokenize (text : Text) : Except TextFailure (List Token) := Scanner.tokens none text

end InfixCalculator
