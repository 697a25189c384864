import InfixCalculator.Proofs.Calls
import InfixCalculator.Proofs.Machine
import InfixCalculator.Proofs.Scanning
import InfixCalculator.Proofs.ShuntingYard

/-!
A part of an expression can be replaced by its value. Every pass treats such a
part, a group or a call with its argument, as a unit: it is cut, resolved, scanned
and arranged alike wherever it stands, and the machine pushes its value. What
surrounds it need not be an expression, so failures stay the same as well.
-/

namespace InfixCalculator

open Scanner

/-- Scanned, arranged and run anywhere, the text pushes the value. -/
structure InfixUnit (calculator : Calculator Id) (text : Text) (value : Binary64) : Prop where
  apart : ∀ rest, literalFollows (text ++ rest) = false
  pushes : ∃ read arranged, StandsAs text read ∧
    (∀ stack rest, Postfix.arrange calculator.settings.powerAssociativity stack (read ++ rest) =
      (Postfix.arrange calculator.settings.powerAssociativity stack rest).map (arranged ++ ·)) ∧
    ∀ stack rest, StackMachine.run calculator.arithmetic stack (arranged ++ rest) =
      StackMachine.run calculator.arithmetic (value :: stack) rest

/-- The text passes every stage as a unit with this value. -/
structure Denotes (calculator : Calculator Id) (text : Text) (value : Binary64) : Prop where
  unnamed : ¬EndsInName isGapChar text
  balanced : Balanced text
  resolves : ∃ pieces others resolved, Passes calculator.settings text pieces others ∧
    resolvePieces calculator.arithmetic calculator.evaluateText others = pure resolved ∧
    InfixUnit calculator resolved value

variable {calculator : Calculator Id}

/-- Tokens in front of a unit and behind it meet the same stack and the same
machine, whichever unit of that value it is. -/
theorem evaluate_infix_unit_congr {first second : Text} {value : Binary64}
    (one : InfixUnit calculator first value) (other : InfixUnit calculator second value)
    (left right : Text) :
    calculator.evaluateInfix (left ++ (first ++ right)) =
      calculator.evaluateInfix (left ++ (second ++ right)) := by
  rcases one.pushes with ⟨oneRead, oneArranged, oneStands, oneArrange, oneRun⟩
  rcases other.pushes with ⟨otherRead, otherArranged, otherStands, otherArrange, otherRun⟩
  simp only [Calculator.evaluateInfix, tokenize]
  rcases tokens_prefix none left with ⟨cause, failed⟩ | ⟨last, read, scanned⟩
  · rw [failed _ (one.apart right), failed _ (other.apart right)]
  · rw [scanned _ (one.apart right), scanned _ (other.apart right), oneStands, otherStands]
    cases behind : tokens (some .rightParen) right with
    | error cause => rfl
    | ok tokens =>
        simp only [Except.map]
        rw [lift_text_ok_bind, lift_text_ok_bind]
        simp only [toPostfix]
        rcases Postfix.arrange_prefix calculator.settings.powerAssociativity [] read with
          ⟨cause, failed⟩ | ⟨released, kept, arranged⟩
        · rw [failed, failed]
        · rw [arranged, arranged, oneArrange, otherArrange]
          cases rest : Postfix.arrange calculator.settings.powerAssociativity kept tokens with
          | error cause => rfl
          | ok tail =>
              simp only [Except.map]
              rw [lift_text_ok_bind, lift_text_ok_bind]
              apply StackMachine.run_congr
              intro stack
              rw [oneRun, otherRun]

theorem evaluate_infix_stages {text : Text} {value : Binary64}
    (evaluated : calculator.evaluateInfix text = pure value) :
    ∃ read arranged, tokenize text = .ok read ∧
      toPostfix calculator.settings.powerAssociativity read = .ok arranged ∧
      evaluatePostfix calculator.arithmetic arranged = pure value := by
  obtain ⟨read, scanned, later⟩ := exists_of_bind_pure evaluated
  obtain ⟨arranged, arrangement, finished⟩ := exists_of_bind_pure later
  exact ⟨read, arranged, lift_text_eq_pure scanned, lift_text_eq_pure arrangement, finished⟩

theorem infix_unit_group {text : Text} {value : Binary64}
    (evaluated : calculator.evaluateInfix text = pure value) :
    InfixUnit calculator ('(' :: text ++ [')']) value where
  apart _ := rfl
  pushes := by
    obtain ⟨read, arranged, scanned, arrangement, finished⟩ := evaluate_infix_stages evaluated
    refine ⟨_, arranged, stands_as_group scanned, ?_, ?_⟩
    · intro stack rest
      have group := Postfix.arrange_group arrangement stack rest
      simpa only [List.append_assoc, List.cons_append, List.nil_append] using group
    · intro stack rest
      exact @StackMachine.run_alone calculator.arithmetic [] arranged value finished stack rest

theorem infix_unit_splice {value : Binary64} (finite : Binary64.isFinite value) :
    InfixUnit calculator (splice value) value where
  apart rest := by
    rcases splice_cases value with ⟨-, form⟩ | ⟨-, form⟩ <;>
    · rw [form]
      rfl
  pushes := by
    refine ⟨_, [.number value], stands_as_splice finite, fun stack rest => ?_, fun _ _ => rfl⟩
    unfold splicedTokens
    split
    · have alone : toPostfix calculator.settings.powerAssociativity [.number value] =
          .ok [.number value] := rfl
      exact Postfix.arrange_group alone stack rest
    · rfl

theorem evaluate_text_stages (finite : calculator.settings.HasFiniteConstants) {text : Text}
    {value : Binary64} (evaluated : calculator.evaluateText text = pure value) :
    ∃ pieces others resolved, Passes calculator.settings text pieces others ∧
      resolvePieces calculator.arithmetic calculator.evaluateText others = pure resolved ∧
      calculator.evaluateInfix resolved = pure value := by
  cases split : splitPieces text with
  | error cause =>
      rw [calculator.evaluate_text_of_error split] at evaluated
      exact absurd evaluated (throw_ne_pure _ _)
  | ok pieces =>
      obtain ⟨others, passes⟩ := exists_passes finite (cuts_iff.2 split)
      rw [calculator.evaluate_text_of_passes passes] at evaluated
      obtain ⟨resolved, results, finished⟩ := exists_of_bind_pure evaluated
      exact ⟨pieces, others, resolved, passes, results, finished⟩

theorem resolved_depth {arithmetic : Arithmetic Id} {evaluate : Text → Evaluation Id Binary64}
    {text resolved : Text} {pieces : List Fragment} (cut : Cuts text pieces)
    (results : resolvePieces arithmetic evaluate pieces = pure resolved) (depth : Nat) :
    parenDepth depth resolved = parenDepth depth text := by
  induction cut generalizing resolved depth with
  | empty =>
      obtain rfl := pure_answer_inj results
      rfl
  | @plain symbol _ _ outside others induction =>
      obtain ⟨front, first, later⟩ := exists_of_bind_pure results
      obtain ⟨behind, second, whole⟩ := exists_of_bind_pure later
      obtain rfl := pure_answer_inj whole
      obtain rfl := pure_answer_inj first
      exact paren_depth_congr (fun depth => induction second depth) [symbol] depth
  | @name identifier _ _ isName apart uncalled others induction =>
      obtain ⟨front, first, later⟩ := exists_of_bind_pure results
      obtain ⟨behind, second, whole⟩ := exists_of_bind_pure later
      obtain rfl := pure_answer_inj whole
      obtain rfl := pure_answer_inj first
      exact paren_depth_congr (fun depth => induction second depth) identifier depth
  | @call identifier gap argument rest _ isName blanks balanced others induction =>
      obtain ⟨front, first, later⟩ := exists_of_bind_pure results
      obtain ⟨behind, second, whole⟩ := exists_of_bind_pure later
      obtain rfl := pure_answer_inj whole
      obtain ⟨value, -, spliced⟩ := exists_of_bind_pure first
      obtain rfl := pure_answer_inj spliced
      have source := call_balanced isName blanks balanced
      have shape : identifier ++ gap ++ '(' :: argument ++ ')' :: rest =
          identifier ++ gap ++ '(' :: argument ++ [')'] ++ rest := by
        simp only [List.append_assoc, List.cons_append, List.nil_append]
      rw [shape, paren_depth_append, paren_depth_append, paren_depth_balanced source,
        paren_depth_balanced (splice_balanced value)]
      exact induction second depth

theorem balanced_of_evaluated (finite : calculator.settings.HasFiniteConstants) {text : Text}
    {value : Binary64} (evaluated : calculator.evaluateText text = pure value) : Balanced text := by
  obtain ⟨pieces, others, resolved, passes, results, finished⟩ :=
    evaluate_text_stages finite evaluated
  obtain ⟨read, arranged, scanned, arrangement, -⟩ := evaluate_infix_stages finished
  have closed := (to_postfix_ok_iff _ read).1 ⟨arranged, arrangement⟩
  rw [tokens_depth scanned, resolved_depth passes.again results, valued_depth finite passes.cut]
    at closed
  exact closed

theorem denotes_group (finite : calculator.settings.HasFiniteConstants) {text : Text}
    {value : Binary64} (evaluated : calculator.evaluateText text = pure value) :
    Denotes calculator ('(' :: text ++ [')']) value := by
  obtain ⟨pieces, others, resolved, passes, results, finished⟩ :=
    evaluate_text_stages finite evaluated
  constructor
  · exact group_not_ends_in_name ('(' :: text)
  · exact balanced_group (balanced_of_evaluated finite evaluated)
  · refine ⟨_, _, '(' :: resolved ++ [')'], passes.group finite, ?_, infix_unit_group finished⟩
    rw [resolve_pieces_group, results, pure_bind]

theorem denotes_splice {value : Binary64} (finite : Binary64.isFinite value) :
    Denotes calculator (splice value) value where
  unnamed := nameless_not_ends (splice_nameless finite)
  balanced := splice_balanced value
  resolves := ⟨_, _, splice value, passes_nameless _ (splice_nameless finite),
    resolve_pieces_plain _ _ _, infix_unit_splice finite⟩

theorem denotes_call (settings : calculator.settings.HasFiniteConstants) {name text : Text}
    {function : NamedFunction} {operand value : Binary64}
    (known : NamedFunction.ofName? name = some function)
    (evaluated : calculator.evaluateText text = pure operand)
    (result : calculator.arithmetic.perform (.unary function operand) = pure value)
    (finite : Binary64.isFinite value) :
    Denotes calculator (name ++ '(' :: text ++ [')']) value := by
  have isName := function_name_identifier known
  have balanced := balanced_of_evaluated settings evaluated
  have noBlanks : ∀ symbol ∈ ([] : Text), isGapChar symbol := by simp
  have called := (passes_empty calculator.settings).call isName noBlanks balanced
  rw [List.append_nil] at called
  have source := call_balanced isName noBlanks balanced
  rw [List.append_nil] at source
  constructor
  · exact group_not_ends_in_name (name ++ '(' :: text)
  · exact source
  · refine ⟨_, _, splice value, called, ?_, infix_unit_splice finite⟩
    rw [resolve_pieces_call, call_value_known _ _ known, evaluated, pure_bind, result, pure_bind]

/-- Behind text that is cut, with no name at its end, a unit may be replaced. -/
theorem evaluate_text_congr_cut (settings : calculator.settings.HasFiniteConstants)
    {first second : Text} {value : Binary64} (one : Denotes calculator first value)
    (other : Denotes calculator second value) {left : Text} {pieces : List Fragment}
    (cut : Cuts left pieces) (unnamed : ¬EndsInName isGapChar left) (right : Text) :
    calculator.evaluateText (left ++ (first ++ right)) =
      calculator.evaluateText (left ++ (second ++ right)) := by
  rcases one.resolves with ⟨oneOwn, oneOthers, oneResolved, onePasses, oneResults, oneUnit⟩
  rcases other.resolves with ⟨own, others, resolved, passes, results, unit⟩
  obtain ⟨leftOthers, leftPasses⟩ := exists_passes settings cut
  cases split : splitPieces right with
  | error cause =>
      have failed {text : Text} {pieces : List Fragment} (cut : Cuts text pieces)
          (closed : ¬EndsInName isGapChar text) :
          splitPieces (left ++ (text ++ right)) = .error cause := by
        rw [split_pieces_front leftPasses.cut (not_joins_of_not_ends unnamed _),
          split_pieces_front cut (not_joins_of_not_ends closed _), split]
        rfl
      rw [calculator.evaluate_text_of_error (failed onePasses.cut one.unnamed),
        calculator.evaluate_text_of_error (failed passes.cut other.unnamed)]
  | ok behind =>
      obtain ⟨rightOthers, rightPasses⟩ := exists_passes settings (cuts_iff.2 split)
      rw [calculator.evaluate_text_of_passes (leftPasses.append_unnamed settings unnamed
          (onePasses.append_unnamed settings one.unnamed rightPasses)),
        calculator.evaluate_text_of_passes (leftPasses.append_unnamed settings unnamed
          (passes.append_unnamed settings other.unnamed rightPasses))]
      simp only [resolve_pieces_append, oneResults, results, bind_assoc, pure_bind]
      congr 1
      funext before
      congr 1
      funext after
      exact evaluate_infix_unit_congr oneUnit unit before after

section

variable {front identifier gap : Text} {pieces : List Fragment}

/-- Of a call only its name and the value or failure of its argument are seen outside. -/
theorem evaluate_text_congr_call (settings : calculator.settings.HasFiniteConstants)
    (cut : Cuts front pieces) (separate : ¬EndsInName (fun _ => false) front)
    (isName : IsIdentifier identifier) {otherGap : Text} (blanks : ∀ symbol ∈ gap, isGapChar symbol)
    (otherBlanks : ∀ symbol ∈ otherGap, isGapChar symbol) {first second : Text}
    (firstBalanced : Balanced first) (secondBalanced : Balanced second)
    (same : calculator.evaluateText first = calculator.evaluateText second) (behind : Text) :
    calculator.evaluateText (front ++ (identifier ++ gap ++ '(' :: first ++ ')' :: behind)) =
      calculator.evaluateText
        (front ++ (identifier ++ otherGap ++ '(' :: second ++ ')' :: behind)) := by
  have apart (rest : Text) : ¬Joins front (identifier ++ rest) := by
    rw [joins_identifier_iff isName]
    exact separate
  simp only [List.append_assoc, List.cons_append]
  cases split : splitPieces behind with
  | error cause =>
      have failed {gap argument : Text} (blanks : ∀ symbol ∈ gap, isGapChar symbol)
          (balanced : Balanced argument) :
          splitPieces (front ++ (identifier ++ (gap ++ '(' :: (argument ++ ')' :: behind)))) =
            .error cause := by
        have unnamed := group_not_ends_in_name (identifier ++ gap ++ '(' :: argument)
        have called := split_pieces_front (Cuts.call isName blanks balanced .empty)
          (not_joins_of_not_ends unnamed behind)
        simp only [List.append_assoc, List.cons_append, List.nil_append] at called
        rw [split_pieces_front cut (apart _), called, split]
        rfl
      rw [calculator.evaluate_text_of_error (failed blanks firstBalanced),
        calculator.evaluate_text_of_error (failed otherBlanks secondBalanced)]
  | ok behindPieces =>
      obtain ⟨frontOthers, frontPasses⟩ := exists_passes settings cut
      obtain ⟨behindOthers, behindPasses⟩ := exists_passes settings (cuts_iff.2 split)
      have passes {gap argument : Text} (blanks : ∀ symbol ∈ gap, isGapChar symbol)
          (balanced : Balanced argument) :
          Passes calculator.settings
            (front ++ (identifier ++ (gap ++ '(' :: (argument ++ ')' :: behind))))
            (pieces ++ .call identifier gap argument :: behindPieces)
            (frontOthers ++ .call identifier gap argument :: behindOthers) := by
        have called := behindPasses.call isName blanks balanced
        simp only [List.append_assoc, List.cons_append] at called
        apply frontPasses.append settings called (apart _)
        rw [valued_cons, call_with_constants]
        simp only [List.append_assoc]
        exact apart _
      rw [calculator.evaluate_text_of_passes (passes blanks firstBalanced),
        calculator.evaluate_text_of_passes (passes otherBlanks secondBalanced)]
      simp only [resolve_pieces_append, resolvePieces, resolvePiece, callValue, same]

theorem evaluate_text_unclosed (cut : Cuts front pieces)
    (separate : ¬EndsInName (fun _ => false) front) (isName : IsIdentifier identifier)
    (blanks : ∀ symbol ∈ gap, isGapChar symbol) {inner : Text}
    (unclosed : splitAtClosing? 0 inner = none) :
    calculator.evaluateText (front ++ (identifier ++ gap ++ '(' :: inner)) =
      throw (.text (.unclosedCall identifier)) := by
  apply calculator.evaluate_text_of_error
  have apart : ¬Joins front (identifier ++ gap ++ '(' :: inner) := by
    rw [List.append_assoc, joins_identifier_iff isName]
    exact separate
  rw [split_pieces_front cut apart, split_pieces_unclosed (.call isName blanks unclosed)]
  rfl

theorem evaluate_text_congr_enclosed (settings : calculator.settings.HasFiniteConstants)
    {first second : Text} (firstBalanced : Balanced first) (secondBalanced : Balanced second)
    (cut : Cuts front pieces) (separate : ¬EndsInName (fun _ => false) front)
    (isName : IsIdentifier identifier) (blanks : ∀ symbol ∈ gap, isGapChar symbol) {inner : Text}
    (unclosed : splitAtClosing? 0 inner = none)
    (right : Text) (same : ∀ argument behind, right = argument ++ ')' :: behind →
      calculator.evaluateText (inner ++ (first ++ argument)) =
        calculator.evaluateText (inner ++ (second ++ argument))) :
    calculator.evaluateText (front ++ (identifier ++ gap ++ '(' :: (inner ++ (first ++ right)))) =
      calculator.evaluateText
        (front ++ (identifier ++ gap ++ '(' :: (inner ++ (second ++ right)))) := by
  obtain ⟨depth, nested⟩ := exists_depth_of_unclosed unclosed
  have closing {text : Text} (own : Balanced text) :
      splitAtClosing? 0 (inner ++ (text ++ right)) = (splitAtClosing? depth right).map
        fun parts => (inner ++ (text ++ parts.1), parts.2) := by
    rw [split_at_closing_over nested, split_at_closing_over (paren_depth_balanced own depth),
      Option.map_map]
    rfl
  cases found : splitAtClosing? depth right with
  | none =>
      have failed {text : Text} (own : Balanced text) :
          splitAtClosing? 0 (inner ++ (text ++ right)) = none := by
        rw [closing own, found]
        rfl
      rw [evaluate_text_unclosed cut separate isName blanks (failed firstBalanced),
        evaluate_text_unclosed cut separate isName blanks (failed secondBalanced)]
  | some parts =>
      rcases parts with ⟨argument, behind⟩
      have balanced {text : Text} (own : Balanced text) :
          Balanced (inner ++ (text ++ argument)) := by
        rw [Balanced, paren_depth_append, nested, Option.bind_some, paren_depth_append,
          paren_depth_balanced own, Option.bind_some]
        exact inside_depth found
      have parts := split_at_closing_append found
      have whole := evaluate_text_congr_call settings cut separate isName blanks blanks
        (balanced firstBalanced) (balanced secondBalanced) (same argument behind parts) behind
      rw [parts]
      simp only [List.append_assoc, List.cons_append] at whole ⊢
      exact whole

end

/-- Units of one value may be replaced by each other behind any text that has no
name at its end. A unit inside an open call is part of the argument, which is an
expression of its own behind a shorter text. -/
theorem evaluate_text_congr (settings : calculator.settings.HasFiniteConstants)
    {first second : Text} {value : Binary64} (one : Denotes calculator first value)
    (other : Denotes calculator second value) {left : Text}
    (unnamed : ¬EndsInName isGapChar left) (right : Text) :
    calculator.evaluateText (left ++ (first ++ right)) =
      calculator.evaluateText (left ++ (second ++ right)) := by
  induction length : left.length using Nat.strong_induction_on generalizing left right with
  | _ size induction =>
      subst length
      rcases cuts_or_unclosed left with ⟨pieces, cut⟩ |
        ⟨front, pieces, identifier, rest, rfl, cut, apart, unclosed⟩
      · exact evaluate_text_congr_cut settings one other cut unnamed right
      · cases unclosed with
        | @call gap inner isName blanks unclosed =>
            have separate : ¬EndsInName (fun _ => false) front := by
              rwa [List.append_assoc, joins_identifier_iff isName] at apart
            have unnamedInner : ¬EndsInName isGapChar inner := by
              intro ends
              have whole := ends_in_name_append (front ++ (identifier ++ gap ++ ['('])) ends
              simp only [List.append_assoc, List.singleton_append] at whole unnamed
              exact unnamed whole
            have shorter :
                inner.length < (front ++ (identifier ++ gap ++ '(' :: inner)).length := by
              simp only [List.length_append, List.length_cons]
              omega
            have same (right : Text) := induction _ shorter unnamedInner right rfl
            have whole := evaluate_text_congr_enclosed settings one.balanced other.balanced cut
              separate isName blanks unclosed right fun argument _ _ => same argument
            simp only [List.append_assoc, List.cons_append] at whole ⊢
            exact whole

/-- Anywhere in a text, however malformed the text may be, a group or a call may
be replaced by its value as it would be spliced, and evaluation ends alike. Only
a name in front of it could take the group as its argument. -/
theorem evaluate_replaced (elementary : Elementary) (tolerance : Binary64) (settings : Settings)
    (finite : settings.HasFiniteConstants) (left inner right : String)
    (unnamed : ¬EndsInName isGapChar left.toList) :
    (∀ value, (Calculator.checked elementary tolerance settings).evaluate inner = pure value →
      Binary64.isFinite value →
      (Calculator.checked elementary tolerance settings).evaluate
          (left ++ "(" ++ inner ++ ")" ++ right) =
        (Calculator.checked elementary tolerance settings).evaluate
          (left ++ String.ofList (splice value) ++ right)) ∧
      ∀ (name : String) (function : NamedFunction) (operand value : Binary64),
        elementary.IsFiniteOnDomain → NamedFunction.ofName? name.toList = some function →
        (Calculator.checked elementary tolerance settings).evaluate inner = pure operand →
        standardArithmetic elementary tolerance (.unary function operand) = pure value →
        (Calculator.checked elementary tolerance settings).evaluate
            (left ++ name ++ "(" ++ inner ++ ")" ++ right) =
          (Calculator.checked elementary tolerance settings).evaluate
            (left ++ String.ofList (splice value) ++ right) := by
  constructor
  · intro value evaluated shown
    have replaced := evaluate_text_congr finite (denotes_group finite evaluated)
      (denotes_splice shown) unnamed right.toList
    simpa [Calculator.evaluate] using replaced
  · intro name function operand value assured known evaluated answered
    have shown := standard_result_finite assured answered
    have replaced := evaluate_text_congr finite
      (denotes_call finite known evaluated (perform_eq_pure answered) shown)
      (denotes_splice shown) unnamed right.toList
    simpa [Calculator.evaluate] using replaced

/-- `2-5` in parentheses and as an argument, between `1+` and `*2`. -/
theorem evaluate_replaced_difference :
    ¬EndsInName isGapChar "1+".toList ∧
      (Calculator.checked .vanishing 0 .standard).evaluate "2-5" = pure (-3) ∧
      Binary64.isFinite (-3) ∧
      NamedFunction.ofName? "abs".toList = some .absoluteValue ∧
      standardArithmetic .vanishing 0 (.unary .absoluteValue (-3)) = pure 3 ∧
      (Calculator.checked .vanishing 0 .standard).evaluate ("1+" ++ "(" ++ "2-5" ++ ")" ++ "*2") =
        (Calculator.checked .vanishing 0 .standard).evaluate
          ("1+" ++ String.ofList (splice (-3)) ++ "*2") ∧
      (Calculator.checked .vanishing 0 .standard).evaluate
          ("1+" ++ "abs" ++ "(" ++ "2-5" ++ ")" ++ "*2") =
        (Calculator.checked .vanishing 0 .standard).evaluate
          ("1+" ++ String.ofList (splice 3) ++ "*2") := by
  have unnamed : ¬EndsInName isGapChar "1+".toList := nameless_not_ends
    (nameless_append (nameless_singleton (by decide)) (nameless_singleton (by decide)) :
      IsNameless (['1'] ++ ['+']))
  have evaluated : (Calculator.checked .vanishing 0 .standard).evaluate "2-5" = pure (-3) := by
    change @Eq (Except EvaluationFailure Binary64) _ (.ok (-3))
    decide +kernel
  have answered : standardArithmetic .vanishing 0 (.unary .absoluteValue (-3)) = pure 3 := by
    change @Eq (Except ArithmeticFailure Binary64) _ (.ok 3)
    decide +kernel
  have shown : Binary64.isFinite (-3) := by decide +kernel
  have known : NamedFunction.ofName? "abs".toList = some .absoluteValue := by decide
  have replaced := evaluate_replaced .vanishing 0 .standard standard_finite_constants "1+" "2-5"
    "*2" unnamed
  exact ⟨unnamed, evaluated, shown, known, answered, replaced.1 _ evaluated shown,
    replaced.2 "abs" _ _ _ vanishing_finite_on_domain known evaluated answered⟩

end InfixCalculator
