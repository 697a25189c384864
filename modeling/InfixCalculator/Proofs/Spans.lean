import InfixCalculator.Proofs.Scanning

/-!
The scanner against a reading in separate passes. Text is first cut into maximal
literals and single marks, then marks that spell nothing are dropped and signs are
given to literals, and only then the literals are read. A scanner does all of it in
one pass with the last token as its only memory.
-/

namespace InfixCalculator

open Scanner

/-- A run of digits and points, or any other character on its own. -/
inductive Span where
  | literal (run : Text)
  | mark (symbol : Char)
  deriving DecidableEq, Repr

namespace Span

def source : Span → Text
  | .literal run => run
  | .mark symbol => [symbol]

def isLiteral : Span → Bool
  | .literal _ => true
  | .mark _ => false

/-- All other marks are dropped. -/
def isKept : Span → Bool
  | .literal _ => true
  | .mark symbol => decide (symbol ∈ ['+', '-', '*', '/', '^', '%', '(', ')'])

end Span

/-- The spans make up the text, and literals are maximal in it. -/
structure CutsIntoSpans (text : Text) (spans : List Span) : Prop where
  whole : spans.flatMap Span.source = text
  literals : ∀ run, .literal run ∈ spans → run ≠ [] ∧ ∀ symbol ∈ run, isLiteralChar symbol
  marks : ∀ symbol, .mark symbol ∈ spans → isLiteralChar symbol = false
  maximal : spans.IsChain fun first second => ¬(first.isLiteral ∧ second.isLiteral)

def joinLiteral (symbol : Char) : List Span → List Span
  | .literal run :: behind => .literal (symbol :: run) :: behind
  | spans => .literal [symbol] :: spans

def spansOf : Text → List Span
  | [] => []
  | symbol :: rest =>
      if isLiteralChar symbol then joinLiteral symbol (spansOf rest)
      else .mark symbol :: spansOf rest

theorem spans_of_mark {symbol : Char} (other : isLiteralChar symbol = false) (rest : Text) :
    spansOf (symbol :: rest) = .mark symbol :: spansOf rest := by
  rw [spansOf, if_neg (by simp [other])]

theorem spans_of_apart (text : Text) :
    (spansOf text).head?.any Span.isLiteral = literalFollows text := by
  cases text with
  | nil => rfl
  | cons symbol rest =>
      rw [spansOf, literalFollows]
      split
      · rename_i literal
        rw [literal]
        cases spansOf rest with
        | nil => rfl
        | cons span behind => cases span <;> rfl
      · rename_i other
        simpa [Span.isLiteral] using other

theorem join_literal_apart {spans : List Span}
    (apart : spans.head?.any Span.isLiteral = false) (symbol : Char) :
    joinLiteral symbol spans = .literal [symbol] :: spans := by
  cases spans with
  | nil => rfl
  | cons span behind =>
      cases span with
      | literal run => contradiction
      | mark other => rfl

theorem spans_of_literal {run : Text} (filled : run ≠ [])
    (literal : ∀ symbol ∈ run, isLiteralChar symbol) {rest : Text}
    (apart : literalFollows rest = false) :
    spansOf (run ++ rest) = .literal run :: spansOf rest := by
  induction run with
  | nil => contradiction
  | cons symbol run induction =>
      rw [List.cons_append, spansOf, if_pos (literal symbol List.mem_cons_self)]
      by_cases single : run = []
      · rw [single, List.nil_append, join_literal_apart (by rwa [spans_of_apart])]
      · rw [induction single fun other member => literal other (List.mem_cons_of_mem _ member)]
        rfl

theorem cuts_into_spans_cons {span : Span} {rest : Text} {spans : List Span}
    (cut : CutsIntoSpans rest spans)
    (shape : CutsIntoSpans span.source [span])
    (apart : ¬(span.isLiteral ∧ spans.head?.any Span.isLiteral)) :
    CutsIntoSpans (span.source ++ rest) (span :: spans) where
  whole := by rw [List.flatMap_cons, cut.whole]
  literals run member := (List.mem_cons.1 member).elim
    (fun same => shape.literals run (List.mem_singleton.2 same)) (cut.literals run)
  marks symbol member := (List.mem_cons.1 member).elim
    (fun same => shape.marks symbol (List.mem_singleton.2 same)) (cut.marks symbol)
  maximal := by
    cases spans with
    | nil => exact .singleton span
    | cons second behind => exact .cons_cons apart cut.maximal

theorem mark_span {symbol : Char} (other : isLiteralChar symbol = false) :
    CutsIntoSpans (Span.source (.mark symbol)) [.mark symbol] where
  whole := rfl
  literals := by simp
  marks := by simpa using other
  maximal := .singleton _

theorem literal_span {run : Text} (filled : run ≠ [])
    (literal : ∀ symbol ∈ run, isLiteralChar symbol) :
    CutsIntoSpans (Span.source (.literal run)) [.literal run] where
  whole := List.append_nil run
  literals := by simpa using ⟨filled, literal⟩
  marks := by simp
  maximal := .singleton _

theorem spans_induction {motive : Text → Prop} (empty : motive [])
    (literal : ∀ run rest, run ≠ [] → (∀ symbol ∈ run, isLiteralChar symbol) →
      literalFollows rest = false → motive rest → motive (run ++ rest))
    (mark : ∀ symbol rest, isLiteralChar symbol = false → motive rest → motive (symbol :: rest))
    (text : Text) : motive text := by
  apply @scanning_induction (fun _ text => motive text)
  case previous => exact none
  case empty => exact fun _ => empty
  case literal =>
      intro _ negative run rest filled symbols apart _ induction
      have unsigned := literal run rest filled symbols apart (induction none)
      cases negative with
      | false => exact unsigned
      | true => exact mark '-' (run ++ rest) rfl unsigned
  case symbol =>
      exact fun _ symbol token rest spelled _ induction =>
        mark symbol rest (token_not_literal spelled) induction
  case inert => exact fun _ symbol rest _ other induction => mark symbol rest other induction

theorem cuts_into_spans_of (text : Text) : CutsIntoSpans text (spansOf text) := by
  induction text using spans_induction with
  | empty => exact ⟨rfl, nofun, nofun, .nil⟩
  | literal run rest filled literal apart induction =>
      rw [spans_of_literal filled literal apart]
      apply cuts_into_spans_cons induction (literal_span filled literal)
      rw [spans_of_apart, apart]
      exact fun both => Bool.noConfusion both.2
  | mark symbol rest other induction =>
      rw [spans_of_mark other]
      exact cuts_into_spans_cons induction (mark_span other) fun both => Bool.noConfusion both.1

theorem cuts_into_spans_tail {text : Text} {span : Span} {spans : List Span}
    (cut : CutsIntoSpans text (span :: spans)) :
    CutsIntoSpans (spans.flatMap Span.source) spans where
  whole := rfl
  literals run member := cut.literals run (List.mem_cons_of_mem _ member)
  marks symbol member := cut.marks symbol (List.mem_cons_of_mem _ member)
  maximal := cut.maximal.tail

theorem cuts_into_spans_iff {text : Text} {spans : List Span} :
    CutsIntoSpans text spans ↔ spans = spansOf text := by
  constructor
  · intro cut
    induction spans generalizing text with
    | nil =>
        rw [← cut.whole]
        rfl
    | cons span spans induction =>
        have rest := induction (cuts_into_spans_tail cut)
        rw [← cut.whole, List.flatMap_cons]
        cases span with
        | mark symbol =>
            rw [Span.source, List.singleton_append,
              spans_of_mark (cut.marks symbol List.mem_cons_self), ← rest]
        | literal run =>
            obtain ⟨filled, literal⟩ := cut.literals run List.mem_cons_self
            have apart : literalFollows (spans.flatMap Span.source) = false := by
              rw [← spans_of_apart, ← rest]
              cases spans with
              | nil => rfl
              | cons second behind =>
                  have neighbours := (List.isChain_cons_cons.1 cut.maximal).1
                  simpa [Span.isLiteral] using neighbours
            rw [Span.source, spans_of_literal filled literal apart, ← rest]
  · intro same
    rw [same]
    exact cuts_into_spans_of text

/-- What is left of the spans once signs are given: literals with their signs, and
the other tokens. -/
inductive Item where
  | literal (negative : Bool) (run : Text)
  | symbol (token : Token)
  deriving DecidableEq

/-- No operand was kept last: nothing at all, an operator or an opening parenthesis. -/
def lacksOperand (before : List Span) : Bool :=
  match (before.filter Span.isKept).getLast? with
  | none => true
  | some (.literal _) => false
  | some (.mark symbol) => symbol != ')'

/-- A minus between these spans is the sign of the literal directly behind it. -/
def isSign (before behind : List Span) : Bool :=
  lacksOperand before && behind.head?.any Span.isLiteral

/-- A literal directly behind these spans has a sign. -/
def hasSign (before : List Span) : Bool :=
  before.getLast? == some (.mark '-') && lacksOperand before.dropLast

def itemsAt (before : List Span) (span : Span) (behind : List Span) : List Item :=
  match span with
  | .literal run => [.literal (hasSign before) run]
  | .mark symbol =>
      if symbol = '-' ∧ isSign before behind then []
      else (Token.ofChar? symbol).toList.map .symbol

def itemsFrom (before : List Span) : List Span → List Item
  | [] => []
  | span :: behind => itemsAt before span behind ++ itemsFrom (before ++ [span]) behind

def itemsOf (text : Text) : List Item := itemsFrom [] (spansOf text)

/-- A numeral has a digit and no second point. -/
def IsNumeral (run : Text) : Prop := (∃ symbol ∈ run, symbol.isDigit) ∧ run.count '.' ≤ 1

instance : DecidablePred IsNumeral := fun _ => instDecidableAnd

namespace Item

def token? : Item → Option Token
  | .literal negative run =>
      (Decimal.ofNumeral? run).map fun magnitude => .number (magnitude.toBinary64 negative)
  | .symbol token => some token

def source : Item → Text
  | .literal negative run => signSymbols negative ++ run
  | .symbol token => token.display

end Item

def readItems : List Item → Except TextFailure (List Token)
  | [] => .ok []
  | item :: behind =>
      match item.token? with
      | some token => (readItems behind).map (token :: ·)
      | none => .error (.malformedNumber item.source)

theorem last_kept_append (before : List Span) {span : Span} (kept : span.isKept) :
    ((before ++ [span]).filter Span.isKept).getLast? = some span := by
  rw [List.filter_append, List.filter_singleton, kept, cond_true, List.getLast?_concat]

theorem lacks_operand_literal (before : List Span) (run : Text) :
    lacksOperand (before ++ [.literal run]) = false := by
  rw [lacksOperand, last_kept_append before rfl]

theorem lacks_operand_kept (before : List Span) {symbol : Char}
    (kept : Span.isKept (.mark symbol)) :
    lacksOperand (before ++ [.mark symbol]) = (symbol != ')') := by
  rw [lacksOperand, last_kept_append before kept]

theorem lacks_operand_dropped (before : List Span) {span : Span} (dropped : span.isKept = false) :
    lacksOperand (before ++ [span]) = lacksOperand before := by
  rw [lacksOperand, List.filter_append, List.filter_singleton, dropped, cond_false,
    List.append_nil, lacksOperand]

theorem has_sign_append (before : List Span) (span : Span) :
    hasSign (before ++ [span]) = (span == .mark '-' && lacksOperand before) := by
  rw [hasSign, List.getLast?_concat, List.dropLast_concat]
  rfl

theorem kept_mark_iff (symbol : Char) :
    Span.isKept (.mark symbol) = (Token.ofChar? symbol).isSome := by
  rw [Span.isKept, Token.ofChar?]
  split
  · simp [*]
  · split
    · simp [*]
    · unfold Operator.ofChar?
      split <;> simp_all

/-- The spans in front of a text, as far as a scanner remembers them: an operand is
expected exactly where none was kept last, and no sign stands waiting. -/
structure Remembers (previous : Option Token) (before : List Span) (text : Text) : Prop where
  expected : expectsOperand previous = lacksOperand before
  unsigned : literalFollows text → hasSign before = false

theorem remembers_start (text : Text) : Remembers none [] text := ⟨rfl, fun _ => rfl⟩

theorem remembers_literal (value : Binary64) (before : List Span) (run text : Text) :
    Remembers (some (.number value)) (before ++ [.literal run]) text where
  expected := (lacks_operand_literal before run).symm
  unsigned _ := by
    rw [has_sign_append]
    rfl

theorem remembers_symbol {previous : Option Token} {before : List Span} {symbol : Char}
    {token : Token} {rest : Text} (remembered : Remembers previous before (symbol :: rest))
    (spelled : Token.ofChar? symbol = some token)
    (unsigned : symbol = '-' → expectsOperand previous → literalFollows rest = false) :
    Remembers (some token) (before ++ [.mark symbol]) rest where
  expected := by
    rw [lacks_operand_kept before (by rw [kept_mark_iff, spelled]; rfl)]
    rcases token_of_char_cases spelled with ⟨rfl, rfl⟩ | ⟨rfl, rfl⟩ | ⟨⟨-, closing⟩, kind, rfl⟩
    · rfl
    · rfl
    · simpa [expectsOperand] using closing
  unsigned follows := by
    rw [has_sign_append, ← remembered.expected]
    by_contra sign
    obtain ⟨same, expected⟩ : symbol = '-' ∧ expectsOperand previous := by simpa using sign
    rw [unsigned same expected] at follows
    contradiction

theorem remembers_inert {previous : Option Token} {before : List Span} {symbol : Char}
    {rest : Text} (remembered : Remembers previous before (symbol :: rest))
    (inert : Token.ofChar? symbol = none) : Remembers previous (before ++ [.mark symbol]) rest where
  expected := by
    rw [lacks_operand_dropped before (by rw [kept_mark_iff, inert]; rfl)]
    exact remembered.expected
  unsigned _ := by
    have other : symbol ≠ '-' := inert_ne inert rfl
    rw [has_sign_append]
    simp [other]

theorem items_literal {previous : Option Token} {before : List Span} {negative : Bool}
    {run rest : Text}
    (remembered : Remembers previous before (signSymbols negative ++ run ++ rest))
    (filled : run ≠ []) (literal : ∀ symbol ∈ run, isLiteralChar symbol)
    (apart : literalFollows rest = false) (signed : negative → expectsOperand previous) :
    ∃ front, itemsFrom before (spansOf (signSymbols negative ++ run ++ rest)) =
      .literal negative run :: itemsFrom (front ++ [.literal run]) (spansOf rest) := by
  cases negative with
  | false =>
      have follows : literalFollows (run ++ rest) := by
        obtain ⟨symbol, others, rfl⟩ := List.exists_cons_of_ne_nil filled
        exact literal symbol List.mem_cons_self
      have unsigned := remembered.unsigned follows
      refine ⟨before, ?_⟩
      rw [signSymbols, if_neg (by simp), List.nil_append, spans_of_literal filled literal apart,
        itemsFrom, itemsAt, unsigned]
      rfl
  | true =>
      have expected : lacksOperand before := remembered.expected ▸ signed rfl
      have sign (behind : List Span) : isSign before (.literal run :: behind) := by
        rw [isSign, expected]
        rfl
      have last : hasSign (before ++ [.mark '-']) := by
        rw [has_sign_append, expected]
        rfl
      refine ⟨before ++ [.mark '-'], ?_⟩
      rw [signSymbols, if_pos rfl, List.append_assoc, List.singleton_append, spans_of_mark rfl,
        spans_of_literal filled literal apart, itemsFrom, itemsAt, if_pos ⟨rfl, sign _⟩, itemsFrom,
        itemsAt, last]
      rfl

theorem tokens_items {previous : Option Token} {before : List Span} {text : Text}
    (remembered : Remembers previous before text) :
    tokens previous text = readItems (itemsFrom before (spansOf text)) := by
  induction previous, text using scanning_induction generalizing before with
  | empty previous =>
      rw [tokens_empty]
      rfl
  | literal previous negative run rest filled literal apart signed induction =>
      have reading := read_next_literal filled literal apart signed
      obtain ⟨front, items⟩ := items_literal remembered filled literal apart signed
      rw [items, readItems, Item.token?]
      unfold literalReading at reading
      cases found : Decimal.ofNumeral? run with
      | none =>
          rw [found] at reading
          rw [tokens_of_malformed reading]
          cases negative <;> rfl
      | some magnitude =>
          rw [found] at reading
          rw [tokens_of_token reading, induction _ (remembers_literal _ front run rest)]
          rfl
  | symbol previous symbol token rest spelled unsigned induction =>
      have operator : ¬(symbol = '-' ∧ isSign before (spansOf rest)) := by
        rw [isSign, spans_of_apart, ← remembered.expected]
        intro sign
        obtain ⟨same, expected, follows⟩ : symbol = '-' ∧ expectsOperand previous ∧
            literalFollows rest := by simpa using sign
        rw [unsigned same expected] at follows
        contradiction
      rw [tokens_of_token (read_next_symbol spelled unsigned),
        induction (remembers_symbol remembered spelled unsigned),
        spans_of_mark (token_not_literal spelled), itemsFrom, itemsAt, if_neg operator, spelled]
      rfl
  | inert previous symbol rest inert other induction =>
      have operator : ¬(symbol = '-' ∧ isSign before (spansOf rest)) :=
        fun sign => inert_ne inert rfl sign.1
      rw [tokens_of_read_next (read_next_inert inert other),
        induction (remembers_inert remembered inert), spans_of_mark other, itemsFrom, itemsAt,
        if_neg operator, inert]
      rfl

theorem tokenize_items (text : Text) : tokenize text = readItems (itemsOf text) :=
  tokens_items (remembers_start text)

theorem literal_cases {symbol : Char} (literal : isLiteralChar symbol) :
    symbol.isDigit ∨ symbol = '.' := by
  simpa [isLiteralChar] using literal

theorem count_point_iff {run : Text} (literal : ∀ symbol ∈ run, isLiteralChar symbol) :
    run.count '.' = 0 ↔ ∀ symbol ∈ run, symbol.isDigit := by
  rw [List.count_eq_zero]
  constructor
  · intro pointless symbol member
    rcases literal_cases (literal symbol member) with digit | rfl
    · exact digit
    · exact absurd member pointless
  · intro digits point
    exact absurd (digits '.' point) (by decide)

theorem digit_beside_point {front fraction : Text}
    (digits : ∀ symbol ∈ front, symbol.isDigit) (others : ∀ symbol ∈ fraction, symbol.isDigit) :
    (∃ symbol ∈ front ++ '.' :: fraction, symbol.isDigit) ↔
      (front ++ fraction).isEmpty = false := by
  rw [List.isEmpty_eq_false_iff_exists_mem]
  constructor
  · rintro ⟨symbol, member, digit⟩
    refine ⟨symbol, ?_⟩
    rcases List.mem_append.1 member with early | late
    · exact List.mem_append_left _ early
    · rcases List.mem_cons.1 late with rfl | late
      · contradiction
      · exact List.mem_append_right _ late
  · rintro ⟨symbol, member⟩
    rcases List.mem_append.1 member with early | late
    · exact ⟨symbol, List.mem_append_left _ early, digits symbol early⟩
    · exact ⟨symbol, by simp [late], others symbol late⟩

/-- Of the runs of digits and points, the numerals are those that can be read. -/
theorem numeral_iff {run : Text} (literal : ∀ symbol ∈ run, isLiteralChar symbol) :
    (Decimal.ofNumeral? run).isSome ↔ IsNumeral run := by
  have whole := @List.takeWhile_append_dropWhile _ Char.isDigit run
  have digits : ∀ symbol ∈ run.takeWhile Char.isDigit, symbol.isDigit :=
    fun symbol member => mem_take_while member
  have stopped := List.head?_dropWhile_not Char.isDigit run
  rw [Decimal.ofNumeral?]
  cases behind : run.dropWhile Char.isDigit with
  | nil =>
      rw [behind, List.append_nil] at whole
      rw [whole] at digits ⊢
      rw [IsNumeral, (count_point_iff literal).2 digits]
      cases run with
      | nil => simp
      | cons symbol run => simpa using .inl (digits symbol List.mem_cons_self)
  | cons point fraction =>
      rw [behind] at whole stopped
      generalize run.takeWhile Char.isDigit = front at whole digits ⊢
      subst whole
      have frontLiteral : ∀ symbol ∈ front, isLiteralChar symbol :=
        fun symbol member => literal symbol (List.mem_append_left _ member)
      have fractionLiteral : ∀ symbol ∈ fraction, isLiteralChar symbol :=
        fun symbol member =>
          literal symbol (List.mem_append_right _ (List.mem_cons_of_mem _ member))
      obtain rfl : point = '.' := by
        have other : point.isDigit = false := by simpa using stopped
        rcases literal_cases (literal point (by simp)) with digit | same
        · rw [other] at digit
          contradiction
        · exact same
      have points : (front ++ '.' :: fraction).count '.' ≤ 1 ↔
          ∀ symbol ∈ fraction, symbol.isDigit := by
        rw [List.count_append, (count_point_iff frontLiteral).2 digits, List.count_cons_self,
          ← count_point_iff fractionLiteral]
        omega
      rw [IsNumeral, points]
      by_cases all : ∀ symbol ∈ fraction, symbol.isDigit
      · rw [digit_beside_point digits all]
        simp only [List.all_eq_true.2 all, true_and, and_iff_left all]
        split <;> simp_all
      · have mixed : fraction.all Char.isDigit = false := by
          simpa [List.all_eq_false] using all
        simp only [mixed, all, and_false]
        simp

theorem read_items_ok_iff {items : List Item} {read : List Token} :
    readItems items = .ok read ↔ items.map Item.token? = read.map some := by
  induction items generalizing read with
  | nil => cases read <;> simp [readItems]
  | cons item items induction =>
      rw [readItems, List.map_cons]
      cases item.token? with
      | none => cases read <;> simp
      | some token =>
          constructor
          · intro finished
            obtain ⟨others, found, rfl⟩ := exists_of_map_ok finished
            rw [induction.1 found, List.map_cons]
          · intro same
            cases read with
            | nil => contradiction
            | cons first others =>
                obtain ⟨head, tail⟩ := List.cons.inj same
                simp only [induction.2 tail, Except.map, Option.some.inj head]

example : itemsOf ['(', '2', '-', 'x', '-', '.', '5'] =
    [.symbol .leftParen, .literal false ['2'], .symbol (.operator .subtract),
      .literal true ['.', '5']] := by decide

end InfixCalculator
