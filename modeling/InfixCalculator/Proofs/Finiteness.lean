import InfixCalculator.Proofs.Inert
import InfixCalculator.Proofs.Spans
import InfixCalculator.Proofs.Spelling

/-!
Where the value of a text comes from. It is the answer of an operation, or the one
number of a text without operators and calls. Answers of the standard arithmetic are
finite, so a value that is not finite has been read from a literal that overflows, and
nothing was asked on the way. No literal is read as a NaN.
-/

namespace InfixCalculator

open Scanner

/-- The value takes the place of a call, in the text or at any depth in an argument. -/
inductive ReplacesCall (calculator : Calculator Id) : Text → Binary64 → Prop where
  | call {text replaced identifier gap argument : Text} {fragments : List Fragment}
      {value : Binary64}
      (substituted : substituteConstants calculator.settings text = .ok replaced)
      (cut : splitCalls replaced = .ok fragments)
      (member : .call identifier gap argument ∈ fragments)
      (called : callValue calculator.arithmetic calculator.evaluateText identifier argument =
        pure value) : ReplacesCall calculator text value
  | argument {text replaced identifier gap argument : Text} {fragments : List Fragment}
      {value : Binary64} (substituted : substituteConstants calculator.settings text = .ok replaced)
      (cut : splitCalls replaced = .ok fragments)
      (member : .call identifier gap argument ∈ fragments)
      (inner : ReplacesCall calculator argument value) : ReplacesCall calculator text value

/-- The one number among the tokens of the text, which have no operator, is a literal
that overflows to this value. Both passes leave this number and add no operator. -/
structure IsOverflowAlone (calculator : Calculator Id) (text : Text) (value : Binary64)
    (read : List Token) : Prop where
  scanned : tokenize text = .ok read
  passed : ∃ replaced kept, substituteConstants calculator.settings text = .ok replaced ∧
    substituteFunctions calculator.arithmetic calculator.evaluateText replaced = pure replaced ∧
    tokenize replaced = .ok kept ∧ HasSameParts read kept
  alone : read.filterMap Token.number? = [value]
  unapplied : read.filterMap Token.operator? = []
  overflows : ∃ negative run magnitude, .literal negative run ∈ itemsOf text ∧
    Decimal.ofNumeral? run = some magnitude ∧ magnitude.toBinary64 negative = value ∧
    value = Binary64.infinity negative

theorem symbol_items {before spans : List Span} {token : Token}
    (member : .symbol token ∈ itemsFrom before spans) :
    ∃ symbol, Token.ofChar? symbol = some token := by
  induction spans generalizing before with
  | nil => contradiction
  | cons span spans induction =>
      rcases List.mem_append.1 member with first | later
      · cases span with
        | literal run => simp [itemsAt] at first
        | mark symbol =>
            rw [itemsAt] at first
            split at first
            · contradiction
            · exact ⟨symbol, by simpa using first⟩
      · exact induction later

theorem literal_of_number {text : Text} {read : List Token} {value : Binary64}
    (scanned : tokenize text = .ok read) (member : value ∈ read.filterMap Token.number?) :
    ∃ negative run magnitude, .literal negative run ∈ itemsOf text ∧
      Decimal.ofNumeral? run = some magnitude ∧ magnitude.toBinary64 negative = value := by
  rw [tokenize_items, read_items_ok_iff] at scanned
  obtain ⟨token, held, number⟩ := List.mem_filterMap.1 member
  have among : some token ∈ (itemsOf text).map Item.token? :=
    scanned ▸ List.mem_map_of_mem held
  obtain ⟨item, placed, spelled⟩ := List.mem_map.1 among
  cases item with
  | literal negative run =>
      obtain ⟨magnitude, found, rfl⟩ := Option.map_eq_some_iff.1 spelled
      exact ⟨negative, run, magnitude, placed, found, Option.some.inj number⟩
  | symbol other =>
      obtain rfl := Option.some.inj spelled
      obtain ⟨symbol, known⟩ := symbol_items placed
      rcases token_of_char_cases known with ⟨-, rfl⟩ | ⟨-, rfl⟩ | ⟨-, kind, rfl⟩ <;> contradiction

def AreAnswers (arithmetic : Arithmetic Id) (added : List Record) : Prop :=
  ∀ record ∈ added, ∃ operation : Operation,
    record = operation.record (.ofAnswer (arithmetic operation).run)

/-- A recorded evaluation ends as the plain one and adds nothing but answers. -/
def answering (arithmetic : Arithmetic Id) : EvaluationRelation (StateT Journal Id) Id where
  Related recorded plain := ∃ added, Adds recorded plain.run added ∧ AreAnswers arithmetic added
  value result := ⟨[], adds_value result, nofun⟩
  failure {_ cause} _ := ⟨[], adds_failure cause, nofun⟩
  sequence {_ _ first second firstNext secondNext} related others := by
    rcases related with ⟨early, adds, answers⟩
    rcases answer_cases second with ⟨value, rfl⟩ | ⟨cause, rfl⟩
    · obtain ⟨later, addsLater, answersLater⟩ := others value
      exact ⟨early ++ later, adds_sequence adds addsLater,
        List.forall_mem_append.2 ⟨answers, answersLater⟩⟩
    · exact ⟨early, adds_stopped adds, answers⟩

theorem answering_perform (arithmetic : Arithmetic Id) (operation : Operation) :
    (answering arithmetic).Related ((recording arithmetic).perform operation)
      (arithmetic.perform operation) :=
  ⟨_, adds_perform arithmetic operation,
    fun _ member => ⟨operation, List.mem_singleton.1 member⟩⟩

theorem answered_of_record {arithmetic : Arithmetic Id} {added : List Record}
    (answers : AreAnswers arithmetic added) {record : Record} (member : record ∈ added)
    {value : Binary64} (valued : record.outcome = .value value) :
    ∃ operation, arithmetic operation = pure value := by
  obtain ⟨operation, rfl⟩ := answers record member
  refine ⟨operation, ?_⟩
  rcases answer_cases (arithmetic operation) with ⟨result, answered⟩ | ⟨cause, failed⟩
  · rw [answered] at valued ⊢
    exact congrArg pure (Outcome.value.inj valued)
  · rw [failed] at valued
    contradiction

theorem call_value_answered {arithmetic : Arithmetic Id} {evaluate : Text → Evaluation Id Binary64}
    {identifier argument : Text} {value : Binary64}
    (called : callValue arithmetic evaluate identifier argument = pure value) :
    ∃ operation, arithmetic operation = pure value := by
  obtain ⟨function, -, evaluated⟩ := exists_of_bind_pure called
  obtain ⟨operand, -, performed⟩ := exists_of_bind_pure evaluated
  exact ⟨_, answered_of_performed performed⟩

theorem replaces_call_answered {calculator : Calculator Id} {text : Text} {value : Binary64}
    (replaces : ReplacesCall calculator text value) :
    ∃ operation, calculator.arithmetic operation = pure value := by
  induction replaces with
  | call substituted cut member called => exact call_value_answered called
  | argument substituted cut member inner induction => exact induction

namespace Calculator

variable {calculator : Calculator Id} {text : Text} {value : Binary64}
  (finite : ∀ operation value, calculator.arithmetic operation = pure value →
    Binary64.isFinite value)
  (evaluated : calculator.evaluateText text = pure value)

include finite evaluated

theorem evaluate_text_value {added : List Record}
    (adds : Adds (calculator.recorded.evaluateText text) (.ok value) added)
    (answers : AreAnswers calculator.arithmetic added) :
    (∃ operation, calculator.arithmetic operation = pure value) ∨ added = [] ∧
      ∃ replaced read, substituteConstants calculator.settings text = .ok replaced ∧
        substituteFunctions calculator.arithmetic calculator.evaluateText replaced =
          pure replaced ∧
        tokenize replaced = .ok read ∧ read.filterMap Token.number? = [value] ∧
        read.filterMap Token.operator? = [] := by
  obtain ⟨others, addsAgain, last⟩ := evaluate_text_adds_cases finite evaluated
  obtain ⟨-, rfl⟩ := adds_unique adds addsAgain
  refine last.imp_left fun ends => ?_
  obtain ⟨earlier, operation, rfl⟩ := ends
  have member : operation.record (.value value) ∈ earlier ++ [operation.record (.value value)] :=
    List.mem_append_right _ (List.mem_singleton_self _)
  exact answered_of_record answers member rfl

/-- If all answers are finite, a value that is not finite was read from the text, which
named no other constants than such that are not finite. -/
theorem evaluate_text_overflow (infinite : Binary64.isFinite value = false) :
    ∃ read, IsOverflowAlone calculator text value read := by
  obtain ⟨added, adds, answers⟩ := (answering _).evaluate_text
    (answering_perform calculator.arithmetic) calculator.settings text
  rw [evaluated] at adds
  have origin := evaluate_text_value finite evaluated adds answers
  rcases origin with ⟨operation, answered⟩ |
    ⟨-, replaced, read, substituted, functions, scanned, alone, unapplied⟩
  · rw [finite operation value answered] at infinite
    contradiction
  · have passed := substituted
    rw [substitute_constants_pieces] at passed
    obtain ⟨pieces, split, rfl⟩ := exists_of_map_ok passed
    have infiniteNumbers : ∀ number ∈ read.filterMap Token.number?,
        Binary64.isFinite number = false := by
      simpa [alone] using infinite
    obtain ⟨own, ownScanned, numbers, operators⟩ :=
      @tokenize_of_valued _ _ _ _ (cuts_iff.2 split) [] scanned infiniteNumbers unapplied
    have ownAlone := numbers.trans alone
    obtain ⟨negative, run, magnitude, placed, found, same⟩ :=
      literal_of_number ownScanned (ownAlone ▸ List.mem_singleton_self value)
    refine ⟨own, ownScanned, ⟨_, read, substituted, functions, scanned, numbers, operators⟩,
      ownAlone, operators.trans unapplied, negative, run, magnitude, placed, found, same, ?_⟩
    rw [← same] at infinite ⊢
    exact Binary64.nearest_infinite infinite

end Calculator

/-- An evaluation with any constants, tolerance and journal. All values that operations
answer are finite, and so are all values that take the place of calls. The result is no
NaN, it is finite if any operation was asked for, and it is infinite only if it is the
one number of the text, a literal that overflows. -/
theorem evaluation_finite {elementary : Elementary} (assured : elementary.IsFiniteOnDomain)
    (tolerance : Binary64) (settings : Settings) (expression : String) (journal : Journal) :
    ∃ result added counts,
      ((Calculator.checked elementary tolerance settings).evaluate expression).run = result ∧
      (((Calculator.checked elementary tolerance settings).recorded.evaluate expression).run.run
        journal).run = (result, ⟨journal.history ++ added, counts⟩) ∧
      (∀ record ∈ added, ∀ value, record.outcome = .value value → Binary64.isFinite value) ∧
      (∀ value, ReplacesCall (.checked elementary tolerance settings) expression.toList value →
        Binary64.isFinite value) ∧
      ∀ value, result = .ok value → Binary64.isNaN value = false ∧
        (added ≠ [] → Binary64.isFinite value) ∧
        (Binary64.isFinite value = false → ∃ read, IsOverflowAlone
          (.checked elementary tolerance settings) expression.toList value read) := by
  have finite (operation : Operation) (value : Binary64)
      (answered : standardArithmetic elementary tolerance operation = pure value) :
      Binary64.isFinite value := standard_result_finite assured answered
  obtain ⟨added, adds, answers⟩ := (answering _).evaluate_text
    (answering_perform (standardArithmetic elementary tolerance)) settings expression.toList
  obtain ⟨counts, ran⟩ := adds journal
  refine ⟨_, added, counts, rfl, ran, ?_, ?_, ?_⟩
  · intro record member value valued
    obtain ⟨operation, answered⟩ := answered_of_record answers member valued
    exact finite operation value answered
  · intro value replaces
    obtain ⟨operation, answered⟩ := replaces_call_answered replaces
    exact finite operation value answered
  · intro value ended
    have overflow (infinite : Binary64.isFinite value = false) :
        ∃ read, IsOverflowAlone (.checked elementary tolerance settings) expression.toList value
          read := Calculator.evaluate_text_overflow finite ended infinite
    refine ⟨?_, fun asked => ?_, overflow⟩
    · cases shown : Binary64.isFinite value with
      | true => exact Binary64.not_nan_of_finite shown
      | false =>
          obtain ⟨read, alone⟩ := overflow shown
          obtain ⟨negative, -, -, -, -, -, rfl⟩ := alone.overflows
          cases negative <;> decide +kernel
    · have origin := @Calculator.evaluate_text_value (.checked elementary tolerance settings)
        expression.toList value finite ended added (ended ▸ adds) answers
      rcases origin with ⟨operation, answered⟩ | ⟨unasked, -⟩
      · exact finite operation value answered
      · exact absurd unasked asked

/-- A call inside of a call, and a literal that overflows beside a constant that is a
negative NaN. The constant adds an empty group to the tokens. -/
theorem evaluation_finite_of_overflow :
    Elementary.vanishing.IsFiniteOnDomain ∧
      (∃ added counts, (((Calculator.checked .vanishing 0 .standard).recorded.evaluate
          "abs(abs(1-4)-5)*2").run.run .empty).run = (.ok 4, ⟨added, counts⟩) ∧ added ≠ [] ∧
        Binary64.isFinite 4) ∧
      ReplacesCall (.checked .vanishing 0 .standard) "abs(abs(1-4)-5)*2".toList 3 ∧
      Binary64.isFinite 3 ∧
      ∃ read, IsOverflowAlone
        (.checked .vanishing 0 { Settings.standard with pi := Binary64.notANumber true })
        ('(' :: overflowingNumeral ++ [')', 'p', 'i']) (Binary64.infinity false) read := by
  have replaces : ReplacesCall (.checked .vanishing 0 .standard) "abs(abs(1-4)-5)*2".toList 3 := by
    apply @ReplacesCall.argument _ _ "abs(abs(1-4)-5)*2".toList "abs".toList [] "abs(1-4)-5".toList
      [.call "abs".toList [] "abs(1-4)-5".toList, .plain "*2".toList]
    · decide +kernel
    · decide +kernel
    · exact List.mem_cons_self
    · apply @ReplacesCall.call _ _ "abs(1-4)-5".toList "abs".toList [] "1-4".toList
        [.call "abs".toList [] "1-4".toList, .plain "-5".toList]
      · decide +kernel
      · decide +kernel
      · exact List.mem_cons_self
      · change @Eq (Except EvaluationFailure Binary64) _ (.ok 3)
        decide +kernel
  refine ⟨vanishing_finite_on_domain, ?_, replaces, ?_, ?_⟩
  · obtain ⟨result, added, counts, ended, ran, -, -, finite⟩ := evaluation_finite
      vanishing_finite_on_domain 0 .standard "abs(abs(1-4)-5)*2" .empty
    obtain rfl : result = .ok 4 := (congrArg Prod.fst ran).symm.trans (by decide +kernel)
    have asked : added ≠ [] := by
      rintro rfl
      have unasked := congrArg (fun outcome => outcome.2.history) ran
      change _ = ([] : List Record) at unasked
      exact absurd unasked (by decide +kernel)
    exact ⟨added, counts, ran, asked, (finite 4 rfl).2.1 asked⟩
  · obtain ⟨-, -, -, -, -, -, finite, -⟩ := evaluation_finite vanishing_finite_on_domain 0 .standard
      "abs(abs(1-4)-5)*2" .empty
    exact finite 3 replaces
  · have evaluated : (Calculator.checked .vanishing 0
        { Settings.standard with pi := Binary64.notANumber true }).evaluateText
          ('(' :: overflowingNumeral ++ [')', 'p', 'i']) = pure (Binary64.infinity false) := by
      change @Eq (Except EvaluationFailure Binary64) _ (.ok _)
      decide +kernel
    obtain ⟨result, added, counts, ended, -, -, -, finite⟩ := evaluation_finite
      vanishing_finite_on_domain 0 { Settings.standard with pi := Binary64.notANumber true }
      (String.ofList ('(' :: overflowingNumeral ++ [')', 'p', 'i'])) .empty
    rw [Calculator.evaluate, String.toList_ofList, evaluated] at ended
    obtain rfl : result = .ok (Binary64.infinity false) := ended.symm
    have overflow := (finite _ rfl).2.2 (by decide +kernel)
    rwa [String.toList_ofList] at overflow

end InfixCalculator
