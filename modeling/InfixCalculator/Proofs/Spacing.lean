import InfixCalculator.Proofs.Decomposition
import InfixCalculator.Proofs.Rendering
import InfixCalculator.Proofs.Replacement

/-!
Spacing between the parts of a text. A symbol without a meaning of its own may stand
anywhere but inside of what is read as one part: a literal, an identifier, a sign with its
literal, and a name with its parenthesis. Values in place of constants and calls stand
between blanks, so a place that parts nothing in the text parts nothing later on either.
A place inside a call is a place in the argument, which is a text of its own.
-/

namespace InfixCalculator

open Scanner

/-- White space, and any other symbol that is no letter, digit, underscore, point,
operator or parenthesis. -/
def IsSpacing (symbol : Char) : Prop :=
  isWhiteSpace symbol ∨
    (isIdentifierContinue symbol = false ∧ isLiteralChar symbol = false ∧
      Token.ofChar? symbol = none)

/-- Put between the texts, the symbol parts nothing that is read as one. -/
structure IsSeam (symbol : Char) (left right : Text) : Prop where
  literal : ¬((∃ last ∈ left.getLast?, isLiteralChar last) ∧ literalFollows right)
  identifier : ¬(EndsInName (fun _ => false) left ∧ ¬StartsOutside right)
  sign : ¬(left.getLast? = some '-' ∧ literalFollows right)
  call : ¬(EndsInName isGapChar left ∧ Opens right ∧ isGapChar symbol = false)

/-- Spliced in parentheses a constant could become the argument of a name. -/
structure Settings.HasUnsignedConstants (settings : Settings) : Prop where
  pi : Binary64.isNegative settings.pi = false
  e : Binary64.isNegative settings.e = false

theorem spacing_inert {symbol : Char} (spacing : IsSpacing symbol) :
    isIdentifierContinue symbol = false ∧ isLiteralChar symbol = false ∧
      Token.ofChar? symbol = none := by
  rcases spacing with white | other
  · have inert := white_space_inert white
    exact ⟨inert.1, inert.2.1, inert.2.2.1⟩
  · exact other

theorem spacing_not_paren {symbol : Char} (spacing : IsSpacing symbol) :
    symbol ≠ '(' ∧ symbol ≠ ')' :=
  have unspelled := (spacing_inert spacing).2.2
  ⟨inert_ne unspelled rfl, inert_ne unspelled rfl⟩

theorem IsSeam.inside {symbol : Char} {front inner argument behind : Text}
    (seam : IsSeam symbol (front ++ inner) (argument ++ behind)) :
    IsSeam symbol inner argument := by
  have last {symbol : Char} (member : symbol ∈ inner.getLast?) :
      symbol ∈ (front ++ inner).getLast? := by
    rw [Option.mem_def] at member ⊢
    rw [List.getLast?_append, member]
    rfl
  have follows (first : literalFollows argument) : literalFollows (argument ++ behind) := by
    cases argument with
    | nil => contradiction
    | cons symbol argument => exact first
  constructor
  · rintro ⟨⟨symbol, member, literal⟩, first⟩
    exact seam.literal ⟨⟨symbol, last member, literal⟩, follows first⟩
  · rintro ⟨ends, inside⟩
    apply seam.identifier
    exact ⟨ends_in_name_append front ends, fun outside => inside (starts_outside_front outside)⟩
  · rintro ⟨minus, first⟩
    exact seam.sign ⟨last minus, follows first⟩
  · rintro ⟨ends, opening, visible⟩
    exact seam.call ⟨ends_in_name_append front ends, opens_front opening behind, visible⟩

/-- A text and what it is rewritten to begin alike and end alike, or with a blank. -/
structure KeepsEnds (text result : Text) : Prop where
  filled : result = [] → text = []
  first : ∀ symbol ∈ result.head?, symbol = ' ' ∨ symbol ∈ text.head?
  last : ∀ symbol ∈ result.getLast?, symbol = ' ' ∨ symbol ∈ text.getLast?

theorem keeps_ends_refl (text : Text) : KeepsEnds text text :=
  ⟨id, fun _ => .inr, fun _ => .inr⟩

theorem KeepsEnds.trans {text middle result : Text} (one : KeepsEnds text middle)
    (other : KeepsEnds middle result) : KeepsEnds text result where
  filled empty := one.filled (other.filled empty)
  first symbol member := (other.first symbol member).elim .inl (one.first symbol)
  last symbol member := (other.last symbol member).elim .inl (one.last symbol)

theorem KeepsEnds.append {text result rest others : Text} (one : KeepsEnds text result)
    (other : KeepsEnds rest others) : KeepsEnds (text ++ rest) (result ++ others) where
  filled empty := by
    rw [List.append_eq_nil_iff] at empty
    rw [one.filled empty.1, other.filled empty.2, List.append_nil]
  first symbol member := by
    cases result with
    | nil =>
        rw [one.filled rfl]
        exact other.first symbol member
    | cons head result =>
        apply (one.first symbol member).imp id
        intro shown
        rw [Option.mem_def] at shown ⊢
        rw [List.head?_append, shown]
        rfl
  last symbol member := by
    rcases List.eq_nil_or_concat others with rfl | ⟨front, end', rfl⟩
    · rw [other.filled rfl, List.append_nil]
      rw [List.append_nil] at member
      exact one.last symbol member
    · rw [List.concat_eq_append, ← List.append_assoc, List.getLast?_append] at member
      have shown := other.last symbol (by
        rw [List.concat_eq_append, List.getLast?_append]
        exact member)
      apply shown.imp id
      intro shown
      rw [Option.mem_def] at shown ⊢
      rw [List.getLast?_append, shown]
      rfl

theorem keeps_ends_splice (source : Text) (value : Binary64) : KeepsEnds source (splice value) := by
  rcases splice_cases value with ⟨-, form⟩ | ⟨-, form⟩ <;>
  · rw [form]
    constructor
    · simp
    · intro symbol member
      have first : some ' ' = some symbol := member
      exact .inl (Option.some.inj first).symm
    · intro symbol member
      rw [List.getLast?_append] at member
      simp only [List.getLast?_singleton, Option.some_or, Option.mem_some_iff] at member
      exact .inl member.symm

theorem valued_keeps_ends (settings : Settings) (pieces : List Fragment) :
    KeepsEnds (pieces.flatMap Fragment.source) (valued settings pieces) := by
  induction pieces with
  | nil => exact keeps_ends_refl []
  | cons piece pieces induction =>
      rw [valued_cons, List.flatMap_cons]
      apply KeepsEnds.append _ induction
      cases piece with
      | plain source => exact keeps_ends_refl source
      | call identifier gap argument => exact keeps_ends_refl _
      | name identifier =>
          cases known : settings.constant? identifier with
          | none =>
              rw [unknown_with_constants known]
              exact keeps_ends_refl identifier
          | some value =>
              rw [constant_with_constants known]
              exact keeps_ends_splice _ value

theorem resolved_keeps_ends {arithmetic : Arithmetic Id} {evaluate : Text → Evaluation Id Binary64}
    {pieces : List Fragment} {resolved : Text}
    (results : resolvePieces arithmetic evaluate pieces = pure resolved) :
    KeepsEnds (pieces.flatMap Fragment.source) resolved := by
  induction pieces generalizing resolved with
  | nil =>
      obtain rfl := pure_answer_inj results
      exact keeps_ends_refl []
  | cons piece pieces induction =>
      obtain ⟨front, own, later⟩ := exists_of_bind_pure results
      obtain ⟨behind, others, whole⟩ := exists_of_bind_pure later
      obtain rfl := pure_answer_inj whole
      rw [List.flatMap_cons]
      apply KeepsEnds.append _ (induction others)
      cases piece with
      | plain source =>
          obtain rfl := pure_answer_inj own
          exact keeps_ends_refl source
      | name identifier =>
          obtain rfl := pure_answer_inj own
          exact keeps_ends_refl identifier
      | call identifier gap argument =>
          obtain ⟨value, -, spliced⟩ := exists_of_bind_pure own
          obtain rfl := pure_answer_inj spliced
          exact keeps_ends_splice _ value

section

variable {symbol : Char}

/-- Nothing at the end of the text goes on with a literal behind it. -/
def EndsApart (left right : Text) : Prop :=
  ∀ last ∈ left.getLast?, isLiteralChar last ∨ last = '-' → literalFollows right = false

theorem IsSeam.ends_apart {left right : Text} (seam : IsSeam symbol left right) :
    EndsApart left right := by
  intro last member kind
  by_contra follows
  rw [Bool.not_eq_false] at follows
  rcases kind with literal | rfl
  · exact seam.literal ⟨⟨last, member, literal⟩, follows⟩
  · exact seam.sign ⟨member, follows⟩

theorem EndsApart.rewritten {left right leftResult rightResult : Text}
    (apart : EndsApart left right) (front : KeepsEnds left leftResult)
    (behind : KeepsEnds right rightResult) : EndsApart leftResult rightResult := by
  intro last member kind
  rcases front.last last member with rfl | before
  · rcases kind with literal | same <;> contradiction
  · have unfollowed := apart last before kind
    cases rightResult with
    | nil => rfl
    | cons first rest =>
        rcases behind.first first rfl with rfl | shown
        · rfl
        · cases right with
          | nil => contradiction
          | cons other right =>
              obtain rfl : other = first := by simpa using shown
              exact unfollowed

theorem tokens_spaced (inert : Token.ofChar? symbol = none) (other : isLiteralChar symbol = false)
    {left right : Text} (apart : EndsApart left right) (previous : Option Token) :
    tokens previous (left ++ symbol :: right) = tokens previous (left ++ right) := by
  have spaced : literalFollows (symbol :: right) = false := other
  cases follows : literalFollows right with
  | false =>
      rcases tokens_prefix previous left with ⟨cause, failed⟩ | ⟨last, read, scanned⟩
      · rw [failed _ spaced, failed _ follows]
      · rw [scanned _ spaced, scanned _ follows, tokens_inert inert other]
  | true =>
      rcases List.eq_nil_or_concat left with rfl | ⟨front, last, rfl⟩
      · exact tokens_inert inert other previous right
      · rw [List.concat_eq_append] at apart ⊢
        have kind : ¬(isLiteralChar last ∨ last = '-') := by
          intro kind
          have unfollowed := apart last (by simp) kind
          rw [follows] at unfollowed
          contradiction
        rw [not_or, Bool.not_eq_true] at kind
        have stops (rest : Text) : literalFollows (last :: rest) = false := kind.1
        have same (before : Option Token) :
            tokens before (last :: symbol :: right) = tokens before (last :: right) := by
          cases spelled : Token.ofChar? last with
          | none => simp only [tokens_inert spelled kind.1, tokens_inert inert other]
          | some token =>
              have reading (rest : Text) : readNext before (last :: rest) = (.token token, rest) :=
                read_next_symbol spelled fun minus => absurd minus kind.2
              rw [tokens_of_token (reading _), tokens_of_token (reading _),
                tokens_inert inert other]
        rw [List.append_assoc, List.append_assoc, List.singleton_append, List.singleton_append]
        rcases tokens_prefix previous front with ⟨cause, failed⟩ | ⟨before, read, scanned⟩
        · rw [failed _ (stops _), failed _ (stops _)]
        · rw [scanned _ (stops _), scanned _ (stops _), same]

theorem evaluate_infix_spaced (calculator : Calculator Id) (inert : Token.ofChar? symbol = none)
    (other : isLiteralChar symbol = false) {left right : Text} (apart : EndsApart left right) :
    calculator.evaluateInfix (left ++ symbol :: right) =
      calculator.evaluateInfix (left ++ right) := by
  simp only [Calculator.evaluateInfix, tokenize, tokens_spaced inert other apart]

end

section

variable {settings : Settings} {text : Text} {pieces : List Fragment}

theorem unsigned_constant (unsigned : settings.HasUnsignedConstants) {name : Text}
    {value : Binary64}
    (known : settings.constant? name = some value) : Binary64.isNegative value = false := by
  unfold Settings.constant? at known
  split at known
  · exact Option.some.inj known ▸ unsigned.pi
  · split at known
    · exact Option.some.inj known ▸ unsigned.e
    · contradiction

theorem unsigned_uncaptured (unsigned : settings.HasUnsignedConstants) (identifier gap : Text)
    (pieces : List Fragment) : capturedCall? settings identifier gap pieces = none := by
  induction pieces generalizing gap with
  | nil => rfl
  | cons piece pieces induction =>
      cases piece with
      | call _ _ _ => rfl
      | plain source =>
          rw [capturedCall?]
          split
          · exact induction _
          · rfl
      | name constant =>
          rw [capturedCall?]
          cases known : settings.constant? constant with
          | none => rfl
          | some value => simp [unsigned_constant unsigned known]

theorem valued_not_opens (finite : settings.HasFiniteConstants)
    (unsigned : settings.HasUnsignedConstants) (cut : Cuts text pieces) (closed : ¬Opens text) :
    ¬Opens (valued settings pieces) := by
  rcases (valued_calls finite cut).2 closed with nothing | ⟨_, _, _, _, _, _, _, _, _, called⟩
  · exact nothing.closed
  · have captured := called [] []
    rw [unsigned_uncaptured unsigned] at captured
    contradiction

theorem valued_not_joins (finite : settings.HasFiniteConstants)
    (unsigned : settings.HasUnsignedConstants) (cut : Cuts text pieces) {left : Text}
    (apart : ¬Joins left text) : ¬Joins left (valued settings pieces) := by
  intro joined
  rcases joined with ⟨ends, inside⟩ | ⟨ends, opening⟩
  · apply inside
    apply valued_starts_outside cut
    by_contra continued
    exact apart (.inl ⟨ends, continued⟩)
  · apply valued_not_opens finite unsigned cut _ opening
    exact fun opened => apart (.inr ⟨ends, opened⟩)

end

theorem not_joins_spaced {symbol : Char} (outside : isIdentifierContinue symbol = false)
    (other : symbol ≠ '(') {left right : Text} (apart : ¬Joins left right) :
    ¬Joins left (symbol :: right) := by
  intro joined
  rcases joined with ⟨ends, inside⟩ | ⟨ends, opening⟩
  · exact inside (starts_outside_cons.2 outside)
  · by_cases blank : isGapChar symbol
    · exact apart (.inr ⟨ends, (opens_behind_blank blank right).1 opening⟩)
    · exact not_opens_cons (by simpa using blank) other right opening

theorem identifier_append {front run : Text} (isName : IsIdentifier front)
    (continued : ∀ symbol ∈ run, isIdentifierContinue symbol) : IsIdentifier (front ++ run) := by
  match front, isName with
  | symbol :: others, ⟨start, whole⟩ =>
      exact ⟨start, fun other member => (List.mem_append.1 member).elim (whole other)
        (continued other)⟩

theorem ends_in_whole_name {blank : Char → Bool} {text : Text} (ends : EndsInName blank text) :
    ∃ front identifier gap, text = front ++ identifier ++ gap ∧ IsIdentifier identifier ∧
      (∀ symbol ∈ gap, blank symbol) ∧ ¬EndsInName (fun _ => false) front := by
  rcases ends with ⟨front, identifier, gap, rfl, isName, blanks⟩
  induction length : front.length using Nat.strong_induction_on generalizing front identifier with
  | _ size induction =>
      subst length
      by_cases longer : EndsInName (fun _ => false) front
      · rcases longer with ⟨before, start, none, rfl, isStart, nothing⟩
        obtain rfl : none = [] := List.eq_nil_iff_forall_not_mem.2 fun symbol member =>
          absurd (nothing symbol member) (by simp)
        have whole := identifier_append isStart (identifier_continues isName)
        have shorter : before.length < (before ++ start ++ []).length := by
          have filled : 0 < start.length := by
            apply List.length_pos_of_ne_nil
            rintro rfl
            exact isStart
          simp only [List.length_append, List.length_nil]
          omega
        have found := induction _ shorter before (start ++ identifier) whole rfl
        simpa only [List.append_nil, List.append_assoc] using found
      · exact ⟨front, identifier, gap, rfl, isName, blanks, longer⟩

theorem cuts_front_of_name {front identifier gap : Text} {pieces : List Fragment}
    (cut : Cuts (front ++ identifier ++ gap) pieces) (isName : IsIdentifier identifier)
    (blanks : ∀ symbol ∈ gap, isGapChar symbol) : ∃ others, Cuts front others := by
  rcases cuts_or_unclosed front with found |
    ⟨before, own, name, rest, rfl, frontCut, apart, unclosed⟩
  · exact found
  · cases unclosed with
    | @call blank inner isStart gapBlanks open' =>
        have balanced := balanced_append (identifier_balanced isName) (gap_balanced blanks)
        obtain ⟨depth, nested⟩ := exists_depth_of_unclosed open'
        have still : splitAtClosing? 0 (inner ++ (identifier ++ gap)) = none := by
          have stepped := split_at_closing_over (paren_depth_balanced balanced depth) []
          rw [List.append_nil] at stepped
          rw [split_at_closing_over nested, stepped]
          rfl
        have longer := Unclosed.call isStart gapBlanks still
        have filled : name ++ blank ++ '(' :: (inner ++ (identifier ++ gap)) ≠ [] := by simp
        have shape : before ++ (name ++ blank ++ '(' :: inner) ++ identifier ++ gap =
            before ++ (name ++ blank ++ '(' :: (inner ++ (identifier ++ gap))) := by simp
        have closed :
            ¬Unclosed name (name ++ blank ++ '(' :: (inner ++ (identifier ++ gap)) ++ []) :=
          cuts_not_unclosed cut (not_joins_nil _) shape filled
        rw [List.append_nil] at closed
        exact absurd longer closed

section

variable {calculator : Calculator Id} {symbol : Char} {left right : Text}

/-- Where the texts do not grow together, the symbol is a piece of its own. -/
theorem evaluate_text_spaced_apart (finite : calculator.settings.HasFiniteConstants)
    (unsigned : calculator.settings.HasUnsignedConstants) (spacing : IsSpacing symbol)
    (seam : IsSeam symbol left right) {pieces : List Fragment} (cut : Cuts left pieces)
    (apart : ¬Joins left right) :
    calculator.evaluateText (left ++ symbol :: right) =
      calculator.evaluateText (left ++ right) := by
  obtain ⟨outside, other, inert⟩ := spacing_inert spacing
  have unopened := (spacing_not_paren spacing).1
  have start := not_start_of_not_continue outside
  cases split : splitPieces right with
  | error cause =>
      have spaced : splitPieces (left ++ symbol :: right) = .error cause := by
        rw [split_pieces_front cut (not_joins_spaced outside unopened apart),
          split_pieces_plain start, split]
        rfl
      have whole : splitPieces (left ++ right) = .error cause := by
        rw [split_pieces_front cut apart, split]
        rfl
      rw [calculator.evaluate_text_of_error spaced, calculator.evaluate_text_of_error whole]
  | ok behind =>
      have rightCut := cuts_iff.2 split
      obtain ⟨leftOthers, leftPasses⟩ := exists_passes finite cut
      obtain ⟨rightOthers, rightPasses⟩ := exists_passes finite rightCut
      have apartValued := valued_not_joins finite unsigned rightCut apart
      have whole := leftPasses.append finite rightPasses apart apartValued
      have spaced := leftPasses.append finite (rightPasses.plain start)
        (not_joins_spaced outside unopened apart)
        (not_joins_spaced outside unopened apartValued)
      rw [calculator.evaluate_text_of_passes spaced, calculator.evaluate_text_of_passes whole]
      simp only [resolve_pieces_append, resolve_pieces_symbol, bind_assoc, pure_bind]
      rcases answer_cases (resolvePieces calculator.arithmetic calculator.evaluateText leftOthers)
        with ⟨before, leftResults⟩ | ⟨cause, failed⟩
      · rcases answer_cases
          (resolvePieces calculator.arithmetic calculator.evaluateText rightOthers)
          with ⟨after, rightResults⟩ | ⟨cause, failed⟩
        · simp only [leftResults, rightResults, pure_bind]
          have leftEnds := (valued_keeps_ends calculator.settings pieces).trans
            (cuts_whole leftPasses.again ▸ resolved_keeps_ends leftResults)
          have rightEnds := (valued_keeps_ends calculator.settings behind).trans
            (cuts_whole rightPasses.again ▸ resolved_keeps_ends rightResults)
          rw [cuts_whole cut] at leftEnds
          rw [cuts_whole rightCut] at rightEnds
          exact evaluate_infix_spaced calculator inert other
            (seam.ends_apart.rewritten leftEnds rightEnds)
        · simp only [leftResults, failed, pure_bind, throw_evaluation_bind]
      · simp only [failed, throw_evaluation_bind]

/-- Between a name and its parenthesis the symbol is a blank, and the call stays one. -/
theorem evaluate_text_spaced_call (finite : calculator.settings.HasFiniteConstants)
    (blank : isGapChar symbol) {pieces : List Fragment} (cut : Cuts left pieces)
    (ends : EndsInName isGapChar left) (opening : Opens right) :
    calculator.evaluateText (left ++ symbol :: right) =
      calculator.evaluateText (left ++ right) := by
  obtain ⟨front, identifier, gap, rfl, isName, blanks, separate⟩ := ends_in_whole_name ends
  obtain ⟨others, frontCut⟩ := cuts_front_of_name cut isName blanks
  obtain ⟨inner, dropped⟩ := List.head?_eq_some_iff.1 opening
  have rightShape : right = right.takeWhile isGapChar ++ '(' :: inner := by
    rw [← dropped, List.takeWhile_append_dropWhile]
  have more : ∀ other ∈ right.takeWhile isGapChar, isGapChar other :=
    fun _ member => mem_take_while member
  have spacedGap : ∀ other ∈ gap ++ symbol :: right.takeWhile isGapChar, isGapChar other := by
    intro other member
    rcases List.mem_append.1 member with before | behind
    · exact blanks other before
    · rcases List.mem_cons.1 behind with rfl | later
      · exact blank
      · exact more other later
  have wholeGap : ∀ other ∈ gap ++ right.takeWhile isGapChar, isGapChar other := fun other member =>
    (List.mem_append.1 member).elim (blanks other) (more other)
  have spaced : front ++ identifier ++ gap ++ symbol :: right =
      front ++ (identifier ++ (gap ++ symbol :: right.takeWhile isGapChar) ++ '(' :: inner) := by
    conv => lhs; rw [rightShape]
    simp
  have whole : front ++ identifier ++ gap ++ right =
      front ++ (identifier ++ (gap ++ right.takeWhile isGapChar) ++ '(' :: inner) := by
    conv => lhs; rw [rightShape]
    simp
  rw [spaced, whole]
  cases found : splitAtClosing? 0 inner with
  | none =>
      rw [evaluate_text_unclosed frontCut separate isName spacedGap found,
        evaluate_text_unclosed frontCut separate isName wholeGap found]
  | some parts =>
      have balanced : Balanced parts.1 := inside_depth found
      have same := evaluate_text_congr_call finite frontCut separate isName spacedGap wholeGap
        balanced balanced rfl parts.2
      rw [split_at_closing_append found]
      simp only [List.append_assoc, List.cons_append] at same ⊢
      exact same

/-- Spacing at a seam changes nothing, by induction on the text in front of it. -/
theorem evaluate_text_spaced (finite : calculator.settings.HasFiniteConstants)
    (unsigned : calculator.settings.HasUnsignedConstants) (spacing : IsSpacing symbol)
    (seam : IsSeam symbol left right) :
    calculator.evaluateText (left ++ symbol :: right) =
      calculator.evaluateText (left ++ right) := by
  induction length : left.length using Nat.strong_induction_on generalizing left right with
  | _ size induction =>
      subst length
      rcases cuts_or_unclosed left with ⟨pieces, cut⟩ |
        ⟨front, pieces, identifier, rest, rfl, cut, apart, unclosed⟩
      · by_cases opened : EndsInName isGapChar left ∧ Opens right
        · apply evaluate_text_spaced_call finite _ cut opened.1 opened.2
          by_contra visible
          exact seam.call ⟨opened.1, opened.2, by simpa using visible⟩
        · apply evaluate_text_spaced_apart finite unsigned spacing seam cut
          rintro (inside | called)
          · exact seam.identifier inside
          · exact opened called
      · cases unclosed with
        | @call gap inner isName blanks unclosed =>
            have separate : ¬EndsInName (fun _ => false) front := by
              rwa [List.append_assoc, joins_identifier_iff isName] at apart
            have shorter :
                inner.length < (front ++ (identifier ++ gap ++ '(' :: inner)).length := by
              simp only [List.length_append, List.length_cons]
              omega
            have shape : front ++ (identifier ++ gap ++ '(' :: inner) =
                front ++ (identifier ++ gap ++ ['(']) ++ inner := by simp
            have balanced : Balanced [symbol] := balanced_of_free fun other member => by
              obtain rfl := List.mem_singleton.1 member
              exact spacing_not_paren spacing
            have nothing : Balanced [] := rfl
            have same : ∀ argument behind, right = argument ++ ')' :: behind →
                calculator.evaluateText (inner ++ ([symbol] ++ argument)) =
                  calculator.evaluateText (inner ++ ([] ++ argument)) := by
              rintro argument behind rfl
              rw [shape] at seam
              exact induction _ shorter seam.inside rfl
            have whole := evaluate_text_congr_enclosed finite balanced nothing cut separate
              isName blanks unclosed right same
            simp only [List.append_assoc, List.cons_append, List.nil_append] at whole ⊢
            exact whole

end

/-- Anywhere in a text but inside of a part that is read as one, spacing changes neither
the value nor the failure of its evaluation. -/
theorem evaluate_spaced (elementary : Elementary) (tolerance : Binary64) (settings : Settings)
    (finite : settings.HasFiniteConstants) (unsigned : settings.HasUnsignedConstants)
    {symbol : Char} (spacing : IsSpacing symbol) {left right : String}
    (seam : IsSeam symbol left.toList right.toList) :
    (Calculator.checked elementary tolerance settings).evaluate
        (left ++ String.ofList [symbol] ++ right) =
      (Calculator.checked elementary tolerance settings).evaluate (left ++ right) := by
  have spaced := @evaluate_text_spaced (Calculator.checked elementary tolerance settings) symbol
    left.toList right.toList finite unsigned spacing seam
  simpa [Calculator.evaluate] using spaced

theorem standard_unsigned_constants : Settings.standard.HasUnsignedConstants :=
  ⟨by decide +kernel, by decide +kernel⟩

/-- A no-break space behind a literal in an argument, and a form feed between a name and
its parenthesis. -/
theorem evaluate_spaced_in_call :
    IsSpacing '\xa0' ∧ IsSeam '\xa0' "abs(e-abs(3".toList ")*2)".toList ∧
      IsSpacing '\x0c' ∧ IsSeam '\x0c' "abs".toList "(e-abs(3)*2)".toList ∧
      (Calculator.checked .vanishing 0 .standard).evaluate
          ("abs(e-abs(3" ++ String.ofList ['\xa0'] ++ ")*2)") = pure 3.281718171540955 ∧
      (Calculator.checked .vanishing 0 .standard).evaluate
          ("abs" ++ String.ofList ['\x0c'] ++ "(e-abs(3)*2)") = pure 3.281718171540955 := by
  have result : (Calculator.checked .vanishing 0 .standard).evaluate "abs(e-abs(3)*2)" =
      pure 3.281718171540955 := by
    change @Eq (Except EvaluationFailure Binary64) _ (.ok 3.281718171540955)
    decide +kernel
  have noBreak : IsSpacing '\xa0' := .inl (by decide)
  have formFeed : IsSpacing '\x0c' := .inl (by decide)
  have behindLiteral : IsSeam '\xa0' "abs(e-abs(3".toList ")*2)".toList := by
    have outside : StartsOutside ")*2)".toList := starts_outside_cons.2 (by decide)
    have closed : ¬Opens ")*2)".toList := not_opens_cons (by decide) (by decide) _
    exact ⟨fun both => absurd both.2 (by decide), fun both => both.2 outside,
      fun both => absurd both.2 (by decide), fun all => closed all.2.1⟩
  have behindName : IsSeam '\x0c' "abs".toList "(e-abs(3)*2)".toList := by
    have outside : StartsOutside "(e-abs(3)*2)".toList := starts_outside_cons.2 (by decide)
    exact ⟨fun both => absurd both.2 (by decide), fun both => both.2 outside,
      fun both => absurd both.2 (by decide), fun all => absurd all.2.2 (by decide)⟩
  have spaced := @evaluate_spaced .vanishing 0 .standard standard_finite_constants
    standard_unsigned_constants
  exact ⟨noBreak, behindLiteral, formFeed, behindName, (spaced noBreak behindLiteral).trans result,
    (spaced formFeed behindName).trans result⟩

end InfixCalculator
