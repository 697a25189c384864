import InfixCalculator.Proofs.Spans

/-!
What a scanner does behind malformed literals. A malformed literal takes a sign as
any other literal does but hands out no token, so the last token in front of it
decides over the sign behind it as well. A scanner that is polled to the end reports
every malformed literal and reads the rest as if there were blanks in their places.
-/

namespace InfixCalculator

open Scanner

namespace Reading

def token? : Reading → Option Token
  | .token read => some read
  | .malformed _ => none
  | .finished => none

def malformed? : Reading → Option Text
  | .token _ => none
  | .malformed literal => some literal
  | .finished => none

end Reading

/-- A literal with the sign that it takes, or any other character on its own. -/
inductive Part where
  | literal (negative : Bool) (run : Text)
  | mark (symbol : Char)
  deriving DecidableEq, Repr

namespace Part

def spans : Part → List Span
  | .literal negative run => (signSymbols negative).map .mark ++ [.literal run]
  | .mark symbol => [.mark symbol]

def source (part : Part) : Text := part.spans.flatMap Span.source

def isMalformed : Part → Bool
  | .literal _ run => decide ¬IsNumeral run
  | .mark _ => false

def token? : Part → Option Token
  | .literal negative run => (Item.literal negative run).token?
  | .mark symbol => Token.ofChar? symbol

/-- A malformed literal is reported with its sign. Marks that spell nothing are not
noticed. -/
def reading? (part : Part) : Option Reading :=
  if part.isMalformed then some (.malformed part.source) else part.token?.map .token

/-- A malformed literal and its sign give way to one blank. -/
def blanked (part : Part) : Text := if part.isMalformed then [' '] else part.source

end Part

def lastToken (previous : Option Token) (parts : List Part) : Option Token :=
  (parts.filterMap Part.token?).getLast?.or previous

/-- A minus directly in front of a literal is its sign exactly where the last token
before it leaves an operand expected. -/
structure SignsTaken (previous : Option Token) (parts : List Part) : Prop where
  signed : ∀ front run behind, parts = front ++ .literal true run :: behind →
    expectsOperand (lastToken previous front)
  unsigned : ∀ front run behind, parts = front ++ .mark '-' :: .literal false run :: behind →
    expectsOperand (lastToken previous front) = false

/-- The parts of a text. Their literals are maximal, and its signs are taken. -/
structure CutsIntoParts (text : Text) (parts : List Part) : Prop where
  spans : CutsIntoSpans text (parts.flatMap Part.spans)
  signs : SignsTaken none parts

theorem last_token_cons (previous : Option Token) (part : Part) (parts : List Part) :
    lastToken previous (part :: parts) = lastToken (part.token?.or previous) parts := by
  rw [lastToken, lastToken, List.filterMap_cons]
  cases part.token? with
  | none => rfl
  | some token =>
      rw [List.getLast?_cons]
      cases (parts.filterMap Part.token?).getLast? <;> rfl

theorem signs_taken_nil (previous : Option Token) : SignsTaken previous [] where
  signed front run behind same := absurd same (by simp)
  unsigned front run behind same := absurd same (by simp)

theorem signs_taken_tail {previous : Option Token} {part : Part} {parts : List Part}
    (taken : SignsTaken previous (part :: parts)) :
    SignsTaken (part.token?.or previous) parts where
  signed front run behind same := by
    rw [← last_token_cons]
    exact taken.signed (part :: front) run behind (by rw [same, List.cons_append])
  unsigned front run behind same := by
    rw [← last_token_cons]
    exact taken.unsigned (part :: front) run behind (by rw [same, List.cons_append])

theorem signs_taken_cons {previous : Option Token} {part : Part} {parts : List Part}
    (signed : ∀ run, part = .literal true run → expectsOperand previous)
    (unsigned : ∀ run behind, part = .mark '-' → parts = .literal false run :: behind →
      expectsOperand previous = false)
    (taken : SignsTaken (part.token?.or previous) parts) :
    SignsTaken previous (part :: parts) where
  signed front run behind same := by
    cases front with
    | nil => exact signed run (List.cons.inj same).1
    | cons first front =>
        obtain ⟨rfl, rest⟩ := List.cons.inj same
        rw [last_token_cons]
        exact taken.signed front run behind rest
  unsigned front run behind same := by
    cases front with
    | nil => exact unsigned run behind (List.cons.inj same).1 (List.cons.inj same).2
    | cons first front =>
        obtain ⟨rfl, rest⟩ := List.cons.inj same
        rw [last_token_cons]
        exact taken.unsigned front run behind rest

/-- Behind the same token a minus cannot be a mark and also the sign of a literal. -/
theorem mark_spans_apart {previous : Option Token} {symbol : Char} {negative : Bool} {run : Text}
    {parts others : List Part} (marked : SignsTaken previous (.mark symbol :: parts))
    (taken : SignsTaken previous (.literal negative run :: others)) :
    (Part.mark symbol :: parts).flatMap Part.spans ≠
      (Part.literal negative run :: others).flatMap Part.spans := by
  intro same
  cases negative with
  | false => simp [Part.spans, signSymbols] at same
  | true =>
      obtain ⟨rfl, behind⟩ : symbol = '-' ∧
          parts.flatMap Part.spans = .literal run :: others.flatMap Part.spans := by
        simpa [Part.spans, signSymbols] using same
      have expected := taken.signed [] run others rfl
      cases parts with
      | nil => contradiction
      | cons part parts =>
          cases part with
          | mark symbol => simp [Part.spans] at behind
          | literal negative other =>
              cases negative with
              | true => simp [Part.spans, signSymbols] at behind
              | false =>
                  rw [marked.unsigned [] other parts rfl] at expected
                  contradiction

theorem parts_unique {previous : Option Token} {parts others : List Part}
    (taken : SignsTaken previous parts) (otherTaken : SignsTaken previous others)
    (same : parts.flatMap Part.spans = others.flatMap Part.spans) : parts = others := by
  induction parts generalizing previous others with
  | nil =>
      cases others with
      | nil => rfl
      | cons other others => cases other <;> simp [Part.spans] at same
  | cons part parts induction =>
      cases others with
      | nil => cases part <;> simp [Part.spans] at same
      | cons other others =>
          -- The first spans are the same, and a minus among them is taken or it is not.
          have heads : part = other ∧
              parts.flatMap Part.spans = others.flatMap Part.spans := by
            cases part with
            | mark symbol =>
                cases other with
                | mark symbol => simpa [Part.spans] using same
                | literal negative run =>
                    exact absurd same (mark_spans_apart taken otherTaken)
            | literal negative run =>
                cases other with
                | mark symbol => exact absurd same.symm (mark_spans_apart otherTaken taken)
                | literal otherNegative otherRun =>
                    cases negative <;> cases otherNegative <;>
                      simp_all [Part.spans, signSymbols]
          obtain ⟨rfl, behind⟩ := heads
          rw [induction (signs_taken_tail taken) (signs_taken_tail otherTaken) behind]

/-- The parts that a scanner finds in a text behind a token. -/
inductive FindsParts : Option Token → Text → List Part → Prop where
  | done (previous : Option Token) : FindsParts previous [] []
  | literal {previous : Option Token} {negative : Bool} {run rest : Text} {parts : List Part}
      (filled : run ≠ []) (literal : ∀ symbol ∈ run, isLiteralChar symbol)
      (apart : literalFollows rest = false) (signed : negative → expectsOperand previous)
      (behind : FindsParts ((Part.literal negative run).token?.or previous) rest parts) :
      FindsParts previous (signSymbols negative ++ run ++ rest) (.literal negative run :: parts)
  | mark {previous : Option Token} {symbol : Char} {rest : Text} {parts : List Part}
      (other : isLiteralChar symbol = false)
      (unsigned : symbol = '-' → expectsOperand previous → literalFollows rest = false)
      (behind : FindsParts ((Part.mark symbol).token?.or previous) rest parts) :
      FindsParts previous (symbol :: rest) (.mark symbol :: parts)

theorem exists_parts (previous : Option Token) (text : Text) :
    ∃ parts, FindsParts previous text parts := by
  induction previous, text using scanning_induction with
  | empty previous => exact ⟨[], .done previous⟩
  | literal previous negative run rest filled literal apart signed induction =>
      obtain ⟨parts, behind⟩ := induction ((Part.literal negative run).token?.or previous)
      exact ⟨_, .literal filled literal apart signed behind⟩
  | symbol previous symbol token rest spelled unsigned induction =>
      obtain ⟨parts, behind⟩ := induction
      have next : (Part.mark symbol).token?.or previous = some token := by
        rw [Part.token?, spelled, Option.some_or]
      exact ⟨_, .mark (token_not_literal spelled) unsigned (next.symm ▸ behind)⟩
  | inert previous symbol rest inert other induction =>
      obtain ⟨parts, behind⟩ := induction
      have next : (Part.mark symbol).token?.or previous = previous := by
        rw [Part.token?, inert, Option.none_or]
      exact ⟨_, .mark other (fun minus => absurd minus (inert_ne inert rfl)) (next.symm ▸ behind)⟩

section

variable {previous : Option Token} {text : Text} {parts : List Part}

theorem source_literal (negative : Bool) (run : Text) :
    (Part.literal negative run).source = signSymbols negative ++ run := by
  cases negative <;> simp [Part.source, Part.spans, Span.source, signSymbols]

theorem literal_follows_parts {negative : Bool} {run : Text}
    (found : FindsParts previous text (.literal negative run :: parts)) :
    literalFollows text = !negative := by
  cases found with
  | literal filled literal apart signed behind =>
      obtain ⟨symbol, others, rfl⟩ := List.exists_cons_of_ne_nil filled
      cases negative with
      | true => rfl
      | false => exact literal symbol List.mem_cons_self

theorem spans_found (found : FindsParts previous text parts) :
    parts.flatMap Part.spans = spansOf text := by
  induction found with
  | done previous => rfl
  | @literal previous negative run rest parts filled literal apart signed behind induction =>
      rw [List.flatMap_cons, induction, Part.spans]
      cases negative with
      | false =>
          change _ = spansOf (run ++ rest)
          rw [spans_of_literal filled literal apart]
          rfl
      | true =>
          change _ = spansOf ('-' :: (run ++ rest))
          rw [spans_of_mark rfl, spans_of_literal filled literal apart]
          rfl
  | mark other unsigned behind induction =>
      rw [List.flatMap_cons, induction, spans_of_mark other]
      rfl

theorem signs_found (found : FindsParts previous text parts) : SignsTaken previous parts := by
  induction found with
  | done previous => exact signs_taken_nil previous
  | literal filled literal apart signed behind induction =>
      refine signs_taken_cons ?_ nofun induction
      intro run same
      exact signed (Part.literal.inj same).1
  | @mark previous symbol rest parts other unsigned behind induction =>
      refine signs_taken_cons nofun ?_ induction
      intro run others same parts
      subst parts
      by_contra expected
      have apart := unsigned (Part.mark.inj same) (by simpa using expected)
      rw [literal_follows_parts behind] at apart
      contradiction

theorem cuts_into_parts_iff {others : List Part} (found : FindsParts none text parts) :
    CutsIntoParts text others ↔ others = parts := by
  have cut : CutsIntoParts text parts :=
    ⟨cuts_into_spans_iff.2 (spans_found found), signs_found found⟩
  constructor
  · intro other
    refine parts_unique other.signs cut.signs ?_
    rw [cuts_into_spans_iff.1 other.spans, spans_found found]
  · rintro rfl
    exact cut

theorem literal_part_cases (negative : Bool) {run : Text}
    (literal : ∀ symbol ∈ run, isLiteralChar symbol) :
    ((Part.literal negative run).isMalformed ∧ (Part.literal negative run).token? = none ∧
        literalReading negative run = .malformed (Part.literal negative run).source) ∨
      ((Part.literal negative run).isMalformed = false ∧
        ∃ value, (Part.literal negative run).token? = some (.number value) ∧
          literalReading negative run = .token (.number value)) := by
  have sound := numeral_iff literal
  rw [Part.isMalformed, Part.token?, Item.token?, literalReading, source_literal]
  cases found : Decimal.ofNumeral? run with
  | none =>
      rw [found] at sound
      refine .inl ⟨decide_eq_true fun numeral => ?_, rfl, ?_⟩
      · have read := sound.2 numeral
        contradiction
      · cases negative <;> rfl
  | some magnitude =>
      rw [found] at sound
      exact .inr ⟨decide_eq_false (not_not_intro (sound.1 rfl)), _, rfl, rfl⟩

theorem literal_report (negative : Bool) {run : Text}
    (literal : ∀ symbol ∈ run, isLiteralChar symbol) :
    (Part.literal negative run).reading? = some (literalReading negative run) ∧
      (literalReading negative run).token? = (Part.literal negative run).token? := by
  rw [Part.reading?]
  rcases literal_part_cases negative literal with ⟨malformed, token, reading⟩ |
    ⟨sound, value, token, reading⟩
  · rw [if_pos malformed, token, reading]
    exact ⟨rfl, rfl⟩
  · rw [if_neg (by simp [sound]), token, reading]
    exact ⟨rfl, rfl⟩

theorem mark_report (symbol : Char) :
    (Part.mark symbol).reading? = (Token.ofChar? symbol).map .token := rfl

theorem poll_of_read_next {previous : Option Token} {text rest : Text} {reading : Reading}
    (read : readNext previous text = (reading, rest)) :
    (Scanner.mk previous text).poll = (reading, ⟨reading.token?.or previous, rest⟩) := by
  rw [poll, read]
  cases reading <;> rfl

theorem polls_of_read_next {previous : Option Token} {first second : Text}
    (same : readNext previous first = readNext previous second) (count : Nat) :
    polls count ⟨previous, first⟩ = polls count ⟨previous, second⟩ := by
  cases count with
  | zero => rfl
  | succ count => simp only [polls, poll, same]

theorem polls_finished (previous : Option Token) (count : Nat) :
    polls count ⟨previous, []⟩ = List.replicate count .finished := by
  induction count with
  | zero => rfl
  | succ count induction =>
      rw [polls, poll_of_read_next rfl, List.replicate_succ]
      exact congrArg _ induction

/-- Polled to the end and beyond, a scanner reports its parts in their order. -/
theorem polls_found (found : FindsParts previous text parts) (count : Nat) :
    polls ((parts.filterMap Part.reading?).length + count) ⟨previous, text⟩ =
      parts.filterMap Part.reading? ++ List.replicate count .finished := by
  induction found with
  | done previous => simpa using polls_finished previous count
  | @literal previous negative run rest parts filled literal apart signed behind induction =>
      have read := poll_of_read_next (read_next_literal filled literal apart signed)
      obtain ⟨report, token⟩ := literal_report negative literal
      rw [List.filterMap_cons_some report, List.length_cons, Nat.succ_add, polls, read, token,
        induction, List.cons_append]
  | @mark previous symbol rest parts other unsigned behind induction =>
      cases spelled : Token.ofChar? symbol with
      | some token =>
          have read := poll_of_read_next (read_next_symbol spelled unsigned)
          have report : (Part.mark symbol).reading? = some (.token token) := by
            rw [mark_report, spelled, Option.map_some]
          rw [Part.token?, spelled] at induction
          rw [List.filterMap_cons_some report, List.length_cons, Nat.succ_add, polls, read]
          exact congrArg _ induction
      | none =>
          have report : (Part.mark symbol).reading? = none := by
            rw [mark_report, spelled, Option.map_none]
          rw [Part.token?, spelled] at induction
          rw [List.filterMap_cons_none report, polls_of_read_next (read_next_inert spelled other)]
          exact induction

theorem blanked_apart (found : FindsParts previous text parts)
    (apart : literalFollows text = false) :
    literalFollows (parts.flatMap Part.blanked) = false := by
  cases parts with
  | nil => rfl
  | cons part parts =>
      rw [List.flatMap_cons, Part.blanked]
      split
      · rfl
      · cases part with
        | mark symbol =>
            cases found with
            | mark other => exact other
        | literal negative run =>
            rw [literal_follows_parts found] at apart
            obtain rfl : negative = true := by simpa using apart
            rfl

/-- With blanks for its malformed literals a text is read whole. The token that is
remembered at each part is the same as before. -/
theorem tokens_blanked (found : FindsParts previous text parts) :
    tokens previous (parts.flatMap Part.blanked) = .ok (parts.filterMap Part.token?) := by
  induction found with
  | done previous => exact tokens_empty previous
  | @literal previous negative run rest parts filled literal apart signed behind induction =>
      rw [List.flatMap_cons, Part.blanked]
      rcases literal_part_cases negative literal with ⟨malformed, token, -⟩ |
        ⟨sound, value, token, reading⟩
      · -- The literal hands out nothing, so what is remembered stays.
        rw [token] at induction
        rw [if_pos malformed, List.singleton_append, tokens_inert rfl rfl,
          List.filterMap_cons_none token]
        exact induction
      · have read := read_next_literal filled literal (blanked_apart behind apart) signed
        rw [token] at induction
        rw [reading] at read
        rw [if_neg (by simp [sound]), source_literal, tokens_of_token read,
          List.filterMap_cons_some token]
        exact congrArg (Except.map _) induction
  | @mark previous symbol rest parts other unsigned behind induction =>
      rw [List.flatMap_cons]
      change tokens previous (symbol :: parts.flatMap Part.blanked) = _
      cases spelled : Token.ofChar? symbol with
      | none =>
          rw [Part.token?, spelled] at induction
          have unspelled : (Part.mark symbol).token? = none := spelled
          rw [tokens_inert spelled other, List.filterMap_cons_none unspelled]
          exact induction
      | some token =>
          have alone : symbol = '-' → expectsOperand previous →
              literalFollows (parts.flatMap Part.blanked) = false :=
            fun minus expected => blanked_apart behind (unsigned minus expected)
          rw [Part.token?, spelled] at induction
          have own : (Part.mark symbol).token? = some token := spelled
          rw [tokens_of_token (read_next_symbol spelled alone), List.filterMap_cons_some own]
          exact congrArg (Except.map _) induction

theorem malformed_reports (parts : List Part) :
    (parts.filterMap Part.reading?).filterMap Reading.malformed? =
      (parts.filter Part.isMalformed).map Part.source := by
  induction parts with
  | nil => rfl
  | cons part parts induction =>
      cases malformed : part.isMalformed with
      | true =>
          have report : part.reading? = some (.malformed part.source) := if_pos malformed
          rw [List.filterMap_cons_some report, List.filter_cons_of_pos malformed, List.map_cons,
            ← induction]
          rfl
      | false =>
          have report : part.reading? = part.token?.map .token := if_neg (by simp [malformed])
          rw [List.filter_cons_of_neg (by simp [malformed]), ← induction, List.filterMap_cons,
            report]
          cases part.token? <;> rfl

theorem token_reports (found : FindsParts previous text parts) :
    (parts.filterMap Part.reading?).filterMap Reading.token? = parts.filterMap Part.token? := by
  induction found with
  | done previous => rfl
  | @literal previous negative run rest parts filled literal apart signed behind induction =>
      obtain ⟨report, token⟩ := literal_report negative literal
      rw [List.filterMap_cons_some report, List.filterMap_cons, List.filterMap_cons, token,
        induction]
  | @mark previous symbol rest parts other unsigned behind induction =>
      rw [List.filterMap_cons, List.filterMap_cons, mark_report, Part.token?, ← induction]
      cases Token.ofChar? symbol <;> rfl

theorem not_finished (parts : List Part) : .finished ∉ parts.filterMap Part.reading? := by
  intro member
  obtain ⟨part, -, reading⟩ := List.mem_filterMap.1 member
  rw [Part.reading?] at reading
  split at reading
  · exact nomatch reading
  · obtain ⟨token, -, same⟩ := Option.map_eq_some_iff.1 reading
    exact nomatch same

theorem parts_length_le (found : FindsParts previous text parts) : parts.length ≤ text.length := by
  induction found with
  | done previous => exact Nat.le_refl _
  | literal filled literal apart signed behind induction =>
      have positive := List.length_pos_of_ne_nil filled
      simp only [List.length_cons, List.length_append]
      omega
  | mark other unsigned behind induction => exact Nat.succ_le_succ induction

end

/-- A scanner that is polled on and on answers at most once for each symbol of the
text before it stays at the end. It reports every malformed literal of the text, with
the sign that it takes, where it stands. The tokens among the reports are those of
the text with blanks in place of these literals and signs. -/
theorem scanner_recovers (text : Text) :
    ∃ parts readings, (∀ others, CutsIntoParts text others ↔ others = parts) ∧
      readings = parts.filterMap Part.reading? ∧
      readings.length ≤ text.length ∧ .finished ∉ readings ∧
      (∀ count, polls (readings.length + count) (start text) =
        readings ++ List.replicate count .finished) ∧
      readings.filterMap Reading.malformed? = (parts.filter Part.isMalformed).map Part.source ∧
      tokenize (parts.flatMap Part.blanked) = .ok (readings.filterMap Reading.token?) := by
  obtain ⟨parts, found⟩ := exists_parts none text
  refine ⟨parts, _, fun others => cuts_into_parts_iff found, rfl, ?_, not_finished parts,
    polls_found found, malformed_reports parts, ?_⟩
  · exact (List.length_filterMap_le _ _).trans (parts_length_le found)
  · rw [token_reports found]
    exact tokens_blanked found

example : polls 6 (start ['*', '-', '.', '-', '.', '.', ')']) =
    [.token (.operator .multiply), .malformed ['-', '.'], .malformed ['-', '.', '.'],
      .token .rightParen, .finished, .finished] := by decide

end InfixCalculator
