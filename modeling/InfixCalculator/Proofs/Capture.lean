import InfixCalculator.Proofs.Calls
import InfixCalculator.Proofs.Decomposition

/-!
The calls of a text before and after constants are written in place. No call is lost
and each keeps its argument. A call is made where a negative constant follows a name
that is no constant, with nothing but blanks between them: the parentheses that keep
the sign of the value are then those of a call, and the function is applied to it.
-/

namespace InfixCalculator

variable (settings : Settings)

theorem captured_call_pieces (identifier gap : Text) (fragments : List Fragment) :
    capturedCall? settings identifier gap (fragments.flatMap Fragment.pieces) =
      capturedCall? settings identifier gap fragments := by
  induction fragments generalizing gap with
  | nil => rfl
  | cons fragment fragments induction =>
      cases fragment with
      | name constant => rfl
      | call other blanks argument => rfl
      | plain source =>
          -- Symbol by symbol the gap grows as it does by the whole source.
          have symbols (gap : Text) : capturedCall? settings identifier gap
              ((source.map fun symbol => .plain [symbol]) ++ fragments.flatMap Fragment.pieces) =
                capturedCall? settings identifier gap (.plain source :: fragments) := by
            induction source generalizing gap with
            | nil => simp [capturedCall?, induction]
            | cons symbol source further =>
                rw [List.map_cons, List.cons_append, capturedCall?, further]
                cases blank : isGapChar symbol <;> simp [capturedCall?, blank]
          exact symbols gap

theorem calls_left_plain (source : Text) (rest : List Fragment) :
    callsLeft settings ((source.map fun symbol => .plain [symbol]) ++ rest) =
      callsLeft settings rest := by
  induction source with
  | nil => rfl
  | cons symbol source induction => exact induction

theorem calls_left_pieces (fragments : List Fragment) :
    callsLeft settings (fragments.flatMap Fragment.pieces) = callsLeft settings fragments := by
  induction fragments with
  | nil => rfl
  | cons fragment fragments induction =>
      rw [List.flatMap_cons]
      cases fragment with
      | plain source => rw [Fragment.pieces, calls_left_plain, induction, callsLeft]
      | name identifier =>
          simp only [Fragment.pieces, List.singleton_append, callsLeft, captured_call_pieces,
            induction]
      | call identifier gap argument =>
          simp only [Fragment.pieces, List.singleton_append, callsLeft, induction]

theorem calls_of_pieces (fragments : List Fragment) :
    (fragments.flatMap Fragment.pieces).filter Fragment.isCall =
      fragments.filter Fragment.isCall := by
  induction fragments with
  | nil => rfl
  | cons fragment fragments induction =>
      rw [List.flatMap_cons, List.filter_append, induction]
      cases fragment with
      | plain source =>
          rw [Fragment.pieces, nameless_calls]
          rfl
      | name identifier => rfl
      | call identifier gap argument => rfl

def NegativeBehindName (fragments : List Fragment) : Prop :=
  ∃ identifier gap constant value,
    [.name identifier, .plain gap, .name constant] <:+: fragments ∧
      settings.constant? identifier = none ∧ (∀ symbol ∈ gap, isGapChar symbol) ∧
      settings.constant? constant = some value ∧ Binary64.isNegative value

variable {settings}

theorem calls_left_sublist (fragments : List Fragment) :
    (fragments.filter Fragment.isCall).Sublist (callsLeft settings fragments) := by
  induction fragments with
  | nil => exact .slnil
  | cons fragment fragments induction =>
      cases fragment with
      | plain source => exact induction
      | name identifier =>
          rw [callsLeft]
          split
          · exact induction.trans (List.sublist_append_right _ _)
          · exact induction
      | call identifier gap argument => exact induction.cons_cons _

/-- The calls stay the same where no name that is no constant makes one. -/
theorem calls_left_eq_iff {fragments : List Fragment} :
    callsLeft settings fragments = fragments.filter Fragment.isCall ↔
      ∀ identifier behind, (.name identifier :: behind) <:+ fragments →
        settings.constant? identifier = none →
        capturedCall? settings identifier [] behind = none := by
  induction fragments with
  | nil => simp [callsLeft]
  | cons fragment fragments induction =>
      simp only [List.suffix_cons_iff, or_imp, forall_and, ← induction]
      cases fragment with
      | plain source => simp [callsLeft, Fragment.isCall]
      | call identifier gap argument => simp [callsLeft, List.filter_cons, Fragment.isCall]
      | name identifier =>
          have kept := (@calls_left_sublist settings fragments).length_le
          simp only [callsLeft, Fragment.isCall, List.filter_cons, List.cons.injEq,
            Fragment.name.injEq, and_imp]
          cases known : settings.constant? identifier with
          | some value =>
              refine ⟨fun same => ⟨?_, same⟩, fun both => both.2⟩
              rintro other behind rfl rfl unknown
              rw [known] at unknown
              contradiction
          | none =>
              constructor
              · intro same
                have longer := congrArg List.length same
                have uncaptured : capturedCall? settings identifier [] fragments = none := by
                  cases captured : capturedCall? settings identifier [] fragments with
                  | none => rfl
                  | some call =>
                      simp [captured] at longer
                      omega
                rw [uncaptured] at same
                exact ⟨by rintro other behind rfl rfl -; exact uncaptured, same⟩
              · rintro ⟨uncaptured, same⟩
                rw [uncaptured identifier fragments rfl rfl known, ← same]
                rfl

theorem captured_constant {identifier front constant : Text} {rest : List Fragment}
    (captured : capturedCall? settings identifier front (.name constant :: rest) ≠ none) :
    ∃ value, settings.constant? constant = some value ∧ Binary64.isNegative value := by
  rw [capturedCall?] at captured
  cases known : settings.constant? constant with
  | none => simp [known] at captured
  | some value =>
      refine ⟨value, rfl, ?_⟩
      by_contra positive
      simp [known, positive] at captured

theorem captured_behind_name {text identifier : Text} {fragments behind : List Fragment}
    (decomposed : Decomposes text fragments) (suffix : (.name identifier :: behind) <:+ fragments)
    (captured : capturedCall? settings identifier [] behind ≠ none) :
    ∃ gap constant value rest, behind = .plain gap :: .name constant :: rest ∧
      (∀ symbol ∈ gap, isGapChar symbol) ∧ settings.constant? constant = some value ∧
      Binary64.isNegative value := by
  obtain ⟨front, rfl⟩ := suffix
  have apart := (List.isChain_append.1 decomposed.apart).2.1.tail
  rcases behind with _ | ⟨next, rest⟩
  · exact absurd rfl captured
  · cases next with
    | call _ _ _ => exact absurd rfl captured
    | name other =>
        have named := decomposed.fits (front ++ [.name identifier]) (.name other) rest (by simp)
        have outside := (decomposed.fits front (.name identifier) (.name other :: rest) rfl).2.1
        exact absurd outside (identifier_not_outside named.1 _)
    | plain gap =>
        rw [capturedCall?] at captured
        split at captured
        · rename_i blank
          rcases rest with _ | ⟨later, rest⟩
          · exact absurd rfl captured
          · cases later with
            | call _ _ _ => exact absurd rfl captured
            | plain other => exact absurd ⟨rfl, rfl⟩ (List.isChain_cons_cons.1 apart).1
            | name constant =>
                obtain ⟨value, known, negative⟩ := captured_constant captured
                exact ⟨gap, constant, value, rest, rfl, by simpa using blank, known, negative⟩
        · exact absurd rfl captured

theorem negative_behind_name_iff {text : Text} {fragments : List Fragment}
    (decomposed : Decomposes text fragments) :
    callsLeft settings fragments = fragments.filter Fragment.isCall ↔
      ¬NegativeBehindName settings fragments := by
  rw [calls_left_eq_iff]
  constructor
  · rintro uncaptured ⟨identifier, gap, constant, value, ⟨front, behind, rfl⟩, unknown, blanks,
      known, negative⟩
    have suffix : (.name identifier :: .plain gap :: .name constant :: behind) <:+
        front ++ [.name identifier, .plain gap, .name constant] ++ behind :=
      ⟨front, by simp⟩
    have none := uncaptured identifier _ suffix unknown
    have blank : gap.all isGapChar := by simpa using blanks
    simp [capturedCall?, blank, known, negative] at none
  · intro apart identifier behind suffix unknown
    by_contra captured
    obtain ⟨gap, constant, value, rest, rfl, blanks, known, negative⟩ :=
      captured_behind_name decomposed suffix captured
    refine apart ⟨identifier, gap, constant, value, ?_, unknown, blanks, known, negative⟩
    exact (List.prefix_append [_, _, _] rest).isInfix.trans suffix.isInfix

/-- With finite constants in place the text can still be cut. All of its calls are still
there, in order and with their arguments. There are more of them exactly if a negative
constant follows a name that is no constant, and then the name is what is called. -/
theorem calls_with_constants (finite : settings.HasFiniteConstants) {text replaced : Text}
    (substituted : substituteConstants settings text = .ok replaced) :
    ∃ fragments found, splitCalls text = .ok fragments ∧ splitCalls replaced = .ok found ∧
      found.filter Fragment.isCall = callsLeft settings fragments ∧
      (fragments.filter Fragment.isCall).Sublist (found.filter Fragment.isCall) ∧
      (found.filter Fragment.isCall = fragments.filter Fragment.isCall ↔
        ¬NegativeBehindName settings fragments) := by
  rw [substitute_constants_pieces] at substituted
  obtain ⟨pieces, split, rfl⟩ := exists_of_map_ok substituted
  obtain ⟨⟨others, cut, left⟩, -⟩ := valued_calls finite (cuts_iff.2 split)
  obtain ⟨fragments, fragmented, rfl⟩ := exists_of_map_ok split
  obtain ⟨found, again, rfl⟩ := exists_of_map_ok (cuts_iff.1 cut)
  rw [calls_left_pieces, calls_of_pieces] at left
  refine ⟨fragments, found, fragmented, again, left, ?_, ?_⟩
  · rw [left]
    exact calls_left_sublist fragments
  · rw [left]
    exact negative_behind_name_iff ((split_calls_ok_iff text fragments).1 fragmented)

def negativePi : Settings := { Settings.standard with pi := -3 }

/-- `abs pi` becomes a call, and inside of the call behind it nothing changes. -/
theorem calls_with_constants_negative :
    negativePi.HasFiniteConstants ∧
      substituteConstants negativePi "abs pi+ln(abs pi)".toList =
        .ok "abs  (-3) +ln(abs pi)".toList ∧
      ∃ fragments found, splitCalls "abs pi+ln(abs pi)".toList = .ok fragments ∧
        splitCalls "abs  (-3) +ln(abs pi)".toList = .ok found ∧
        fragments.filter Fragment.isCall = [.call "ln".toList [] "abs pi".toList] ∧
        found.filter Fragment.isCall =
          [.call "abs".toList [' ', ' '] "-3".toList, .call "ln".toList [] "abs pi".toList] ∧
        NegativeBehindName negativePi fragments := by
  have finite : negativePi.HasFiniteConstants := ⟨by decide +kernel, by decide +kernel⟩
  have substituted : substituteConstants negativePi "abs pi+ln(abs pi)".toList =
      .ok "abs  (-3) +ln(abs pi)".toList := by decide +kernel
  refine ⟨finite, substituted, ?_⟩
  obtain ⟨fragments, found, cut, again, left, -, same⟩ := calls_with_constants finite substituted
  obtain rfl : fragments = [.name "abs".toList, .plain [' '], .name "pi".toList, .plain ['+'],
      .call "ln".toList [] "abs pi".toList] :=
    Except.ok.inj (cut.symm.trans (by decide +kernel))
  have calls : found.filter Fragment.isCall = _ := left.trans (by decide +kernel :
    callsLeft negativePi _ = [.call "abs".toList [' ', ' '] "-3".toList,
      .call "ln".toList [] "abs pi".toList])
  refine ⟨_, found, cut, again, rfl, calls, ?_⟩
  by_contra apart
  have equal := same.2 apart
  rw [calls] at equal
  contradiction

/-- The text calls nothing and with the constant in place it does. Without the call the
value is negative, and evaluation takes its absolute value. -/
theorem call_made_by_negative_constant :
    negativePi.HasFiniteConstants ∧
      splitCalls "abs pi".toList = .ok [.name "abs".toList, .plain [' '], .name "pi".toList] ∧
      substituteConstants negativePi "abs pi".toList = .ok "abs  (-3) ".toList ∧
      splitCalls "abs  (-3) ".toList =
        .ok [.call "abs".toList [' ', ' '] "-3".toList, .plain [' ']] ∧
      (Calculator.checked .vanishing 0 negativePi).evaluateInfix "abs  (-3) ".toList =
        pure (-3) ∧
      (Calculator.checked .vanishing 0 negativePi).evaluate "abs pi" = pure 3 := by
  refine ⟨⟨by decide +kernel, by decide +kernel⟩, by decide +kernel, by decide +kernel,
    by decide +kernel, ?_, ?_⟩
  · change @Eq (Except EvaluationFailure Binary64) _ (.ok (-3))
    decide +kernel
  · change @Eq (Except EvaluationFailure Binary64) _ (.ok 3)
    decide +kernel

end InfixCalculator
