import InfixCalculator.Proofs.Calls
import InfixCalculator.Proofs.Inert

/-!
The pass for constants leaves none behind. Its text is read again, and then a value in
parentheses or a word such as `inf` may stand next to a name that was left in place. No name
grows together with what was written, and a call that it makes with it is closed. So the text
can be cut once more, has no bare name of a constant, and stays as it is under all settings.
-/

namespace InfixCalculator

def constantNames : List Text := ["pi".toList, "PI".toList, "e".toList, "E".toList]

theorem constant_unknown_iff (settings : Settings) (identifier : Text) :
    settings.constant? identifier = none ↔ identifier ∉ constantNames := by
  unfold Settings.constant?
  split
  · rename_i named
    rcases named with rfl | rfl <;> simp [constantNames]
  · split
    · rename_i named
      rcases named with rfl | rfl <;> simp [constantNames]
    · rename_i circle exponential
      rw [not_or] at circle exponential
      simp [constantNames, circle, exponential]

def NamesNoConstant (pieces : List Fragment) : Prop :=
  ∀ identifier, .name identifier ∈ pieces → identifier ∉ constantNames

theorem valued_without_constants (settings : Settings) {pieces : List Fragment}
    (free : NamesNoConstant pieces) :
    valued settings pieces = pieces.flatMap Fragment.source := by
  apply List.flatMap_congr
  intro piece member
  cases piece with
  | name identifier =>
      exact unknown_with_constants ((constant_unknown_iff settings _).2 (free identifier member))
  | _ => rfl

def CutsWithoutConstants (text : Text) : Prop :=
  ∃ pieces, Cuts text pieces ∧ NamesNoConstant pieces

/-- A name in front of the text makes no call with it, or one that is closed and has no name
of a constant behind it. -/
inductive ClosesCalls : Text → Prop where
  | bare {text : Text} (uncalled : ¬Opens text) : ClosesCalls text
  | call {gap argument behind : Text} (blanks : ∀ symbol ∈ gap, isGapChar symbol)
      (balanced : Balanced argument) (free : CutsWithoutConstants behind) :
      ClosesCalls (gap ++ '(' :: argument ++ ')' :: behind)

theorem closes_calls_blank {symbol : Char} {text : Text} (blank : isGapChar symbol)
    (closes : ClosesCalls text) : ClosesCalls (symbol :: text) := by
  cases closes with
  | bare uncalled => exact .bare ((opens_behind_blank blank text).not.2 uncalled)
  | call blanks balanced free =>
      exact ClosesCalls.call (List.forall_mem_cons.2 ⟨blank, blanks⟩) balanced free

theorem closes_calls_visible {symbol : Char} (visible : isGapChar symbol = false)
    (other : symbol ≠ '(') (text : Text) : ClosesCalls (symbol :: text) :=
  .bare (not_opens_cons visible other text)

section

variable {front rest : Text}

theorem without_constants_nameless (nameless : IsNameless front)
    (free : CutsWithoutConstants rest) : CutsWithoutConstants (front ++ rest) := by
  obtain ⟨pieces, cut, unnamed⟩ := free
  refine ⟨_, cuts_append (cuts_nameless nameless) (nameless_not_joins nameless rest) cut, ?_⟩
  intro identifier member
  rcases List.mem_append.1 member with plain | later
  · simp at plain
  · exact unnamed identifier later

theorem without_constants_call {identifier gap argument : Text} (isName : IsIdentifier identifier)
    (blanks : ∀ symbol ∈ gap, isGapChar symbol) (balanced : Balanced argument)
    (free : CutsWithoutConstants rest) :
    CutsWithoutConstants (identifier ++ gap ++ '(' :: argument ++ ')' :: rest) := by
  obtain ⟨pieces, cut, unnamed⟩ := free
  refine ⟨_, .call isName blanks balanced cut, ?_⟩
  intro other member
  exact unnamed other (by simpa using member)

/-- A name that is left in place stays bare, or it makes a closed call with what follows. -/
theorem without_constants_name {identifier : Text} (isName : IsIdentifier identifier)
    (other : identifier ∉ constantNames) (apart : StartsOutside rest)
    (free : CutsWithoutConstants rest) (closes : ClosesCalls rest) :
    CutsWithoutConstants (identifier ++ rest) := by
  cases closes with
  | bare uncalled =>
      obtain ⟨pieces, cut, unnamed⟩ := free
      refine ⟨_, .name isName apart uncalled cut, ?_⟩
      intro name member
      rcases List.mem_cons.1 member with same | later
      · cases same
        exact other
      · exact unnamed name later
  | call blanks balanced behind =>
      have called := without_constants_call isName blanks balanced behind
      simpa only [List.append_assoc, List.cons_append] using called

theorem without_constants_splice (value : Binary64) (free : CutsWithoutConstants rest)
    (closes : ClosesCalls rest) : CutsWithoutConstants (splice value ++ rest) := by
  have blank : IsNameless [' '] := nameless_singleton (by decide)
  cases finite : Binary64.isFinite value with
  | true => exact without_constants_nameless (splice_nameless finite) free
  | false =>
      have behind := without_constants_nameless blank free
      have worded (word : Text) (isName : IsIdentifier word) (other : word ∉ constantNames) :
          CutsWithoutConstants ([' '] ++ (word ++ ' ' :: rest)) :=
        without_constants_nameless blank (without_constants_name isName other
          (starts_outside_cons.2 (by decide)) behind (closes_calls_blank (by decide) closes))
      have grouped (opening word : Text) (nameless : IsNameless opening)
          (isName : IsIdentifier word) (other : word ∉ constantNames) :
          CutsWithoutConstants (opening ++ (word ++ ')' :: ' ' :: rest)) := by
        have closing : IsNameless [')'] := nameless_singleton (by decide)
        exact without_constants_nameless nameless (without_constants_name isName other
          (starts_outside_cons.2 (by decide)) (without_constants_nameless closing behind)
          (closes_calls_visible (by decide) (by decide) _))
      rcases splice_nonfinite_forms finite with form | form | form | form
      · rw [form]
        exact worded "NaN".toList (by decide) (by decide)
      · rw [form]
        exact worded "inf".toList (by decide) (by decide)
      · rw [form]
        exact grouped " (".toList "NaN".toList (by simp [IsNameless, isIdentifierStart])
          (by decide) (by decide)
      · rw [form]
        exact grouped " (-".toList "inf".toList (by simp [IsNameless, isIdentifierStart])
          (by decide) (by decide)

/-- A negative value brings the parentheses of a call along, any other value none. -/
theorem closes_calls_splice (value : Binary64) (free : CutsWithoutConstants rest) :
    ClosesCalls (splice value ++ rest) := by
  rcases splice_cases value with ⟨-, form⟩ | ⟨positive, -⟩
  · have blanks : ∀ symbol ∈ [' '], isGapChar symbol := by simp [isGapChar]
    have blank : IsNameless [' '] := nameless_singleton (by decide)
    have called := ClosesCalls.call blanks (display_balanced value)
      (without_constants_nameless blank free)
    simpa [form] using called
  · exact .bare (spliced_not_opens positive rest)

end

variable {settings : Settings} {text : Text} {pieces : List Fragment}

/-- By induction on the cut of the text. Names in front of the text are met only where the
text itself does not make a call with them. -/
theorem valued_without_names (cut : Cuts text pieces) :
    CutsWithoutConstants (valued settings pieces) ∧
      (¬Opens text → ClosesCalls (valued settings pieces)) := by
  induction cut with
  | empty => exact ⟨⟨[], .empty, nofun⟩, .bare⟩
  | @plain symbol rest pieces outside others induction =>
      obtain ⟨free, closes⟩ := induction
      rw [valued_cons, plain_with_constants]
      refine ⟨without_constants_nameless (nameless_singleton outside) free, fun uncalled => ?_⟩
      cases blank : isGapChar symbol with
      | true =>
          rw [opens_behind_blank blank] at uncalled
          exact closes_calls_blank blank (closes uncalled)
      | false =>
          apply closes_calls_visible blank
          rintro rfl
          exact uncalled rfl
  | @name identifier rest pieces isName apart uncalled others induction =>
      obtain ⟨free, closes⟩ := induction
      rw [valued_cons]
      cases known : settings.constant? identifier with
      | none =>
          rw [unknown_with_constants known]
          have outside := @valued_starts_outside settings _ _ others apart
          exact ⟨without_constants_name isName ((constant_unknown_iff settings _).1 known) outside
            free (closes uncalled), fun _ => .bare (identifier_not_opens isName _)⟩
      | some value =>
          rw [constant_with_constants known]
          exact ⟨without_constants_splice value free (closes uncalled),
            fun _ => closes_calls_splice value free⟩
  | @call identifier gap argument rest pieces isName blanks balanced others induction =>
      have called := without_constants_call isName blanks balanced induction.1
      rw [valued_cons, call_with_constants]
      simp only [List.append_assoc, List.cons_append, List.nil_append] at called ⊢
      exact ⟨called, fun _ => .bare (identifier_not_opens isName _)⟩

theorem split_calls_without_constants (free : CutsWithoutConstants text) :
    ∃ fragments, splitCalls text = .ok fragments ∧
      ∀ identifier, .name identifier ∈ fragments → identifier ∉ constantNames := by
  obtain ⟨pieces, cut, unnamed⟩ := free
  obtain ⟨fragments, split, rfl⟩ := exists_of_map_ok (split_pieces_of_cuts cut)
  refine ⟨fragments, split, fun identifier member => unnamed identifier ?_⟩
  exact List.mem_flatMap.2 ⟨.name identifier, member, List.mem_singleton_self _⟩

theorem substitute_constants_fixed (free : CutsWithoutConstants text) (settings : Settings) :
    substituteConstants settings text = .ok text := by
  obtain ⟨pieces, cut, unnamed⟩ := free
  rw [substitute_constants_pieces, split_pieces_of_cuts cut]
  exact congrArg Except.ok ((valued_without_constants settings unnamed).trans (cuts_whole cut))

/-- The constants of any text can be replaced beforehand, and once is enough. The values of the
constants need not be finite, and the settings of a second pass do not matter. -/
theorem constants_replaced_once {m : Type → Type} [Monad m] [LawfulMonad m]
    (calculator : Calculator m) {text replaced : Text}
    (substituted : substituteConstants calculator.settings text = .ok replaced) :
    (∃ fragments, splitCalls replaced = .ok fragments ∧
        ∀ identifier, .name identifier ∈ fragments → identifier ∉ constantNames) ∧
      (∀ settings, substituteConstants settings replaced = .ok replaced) ∧
      calculator.evaluateText replaced = calculator.evaluateText text := by
  have free : CutsWithoutConstants replaced := by
    rw [substitute_constants_pieces] at substituted
    obtain ⟨pieces, split, rfl⟩ := exists_of_map_ok substituted
    exact (valued_without_names (cuts_iff.2 split)).1
  have fixed := substitute_constants_fixed free
  refine ⟨split_calls_without_constants free, fixed, ?_⟩
  rw [calculator.evaluate_text_eq replaced, calculator.evaluate_text_eq text, substituted, fixed]

/-- A name that was bare becomes a call, as its NaN is negative. The word for the other NaN is
a name of its own. -/
theorem constants_replaced_once_words :
    let settings := { Settings.standard with
      pi := Binary64.notANumber true
      e := Binary64.notANumber false }
    let replaced := "abs  (NaN) + NaN ".toList
    substituteConstants settings "abs pi+e".toList = .ok replaced ∧
      splitCalls replaced =
        .ok [.call "abs".toList "  ".toList "NaN".toList, .plain " + ".toList,
          .name "NaN".toList, .plain " ".toList] ∧
      substituteConstants .standard replaced = .ok replaced ∧
      (Calculator.standard .vanishing settings).evaluateText replaced =
        (Calculator.standard .vanishing settings).evaluateText "abs pi+e".toList := by
  intro settings replaced
  have substituted : substituteConstants settings "abs pi+e".toList = .ok replaced := by
    decide +kernel
  have settled := constants_replaced_once (.standard .vanishing settings) substituted
  exact ⟨substituted, by decide +kernel, settled.2.1 .standard, settled.2.2⟩

end InfixCalculator
