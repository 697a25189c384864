import InfixCalculator.Proofs.Splicing

/-!
The pass that writes constants in place, piece by piece. It leaves the nesting of
parentheses as it is and puts no name at the end of a text that had none there.
The result can be cut again. A negative constant brings parentheses of its own,
so a bare name in front of it turns into a call, which is closed. All other calls
are those that were there before.
-/

namespace InfixCalculator

structure Settings.HasFiniteConstants (settings : Settings) : Prop where
  pi : Binary64.isFinite settings.pi
  e : Binary64.isFinite settings.e

def valued (settings : Settings) (pieces : List Fragment) : Text :=
  pieces.flatMap (Fragment.withConstants settings)

theorem valued_cons (settings : Settings) (piece : Fragment) (pieces : List Fragment) :
    valued settings (piece :: pieces) = piece.withConstants settings ++ valued settings pieces :=
  List.flatMap_cons

theorem valued_append (settings : Settings) (first second : List Fragment) :
    valued settings (first ++ second) = valued settings first ++ valued settings second :=
  List.flatMap_append

theorem pieces_with_constants (settings : Settings) (fragment : Fragment) :
    valued settings fragment.pieces = fragment.withConstants settings := by
  cases fragment with
  | plain source => induction source <;> simp_all [valued, Fragment.pieces, Fragment.withConstants,
      Fragment.source]
  | name identifier => simp [valued, Fragment.pieces]
  | call identifier gap argument => simp [valued, Fragment.pieces]

theorem substitute_constants_pieces (settings : Settings) (text : Text) :
    substituteConstants settings text = (splitPieces text).map (valued settings) := by
  rw [substituteConstants, splitPieces, map_map_answer]
  congr 1
  funext fragments
  induction fragments with
  | nil => rfl
  | cons fragment fragments induction =>
      rw [List.flatMap_cons, List.flatMap_cons, valued_append, pieces_with_constants, induction]

theorem valued_nameless (settings : Settings) (text : Text) :
    valued settings (text.map fun symbol => .plain [symbol]) = text := by
  induction text with
  | nil => rfl
  | cons symbol text induction =>
      rw [List.map_cons, valued_cons, induction]
      rfl

theorem plain_with_constants (settings : Settings) (source : Text) :
    (Fragment.plain source).withConstants settings = source := rfl

theorem call_with_constants (settings : Settings) (identifier gap argument : Text) :
    (Fragment.call identifier gap argument).withConstants settings =
      identifier ++ gap ++ '(' :: argument ++ [')'] := rfl

theorem unknown_with_constants {settings : Settings} {identifier : Text}
    (unknown : settings.constant? identifier = none) :
    (Fragment.name identifier).withConstants settings = identifier := by
  simp [Fragment.withConstants, unknown]

theorem constant_with_constants {settings : Settings} {identifier : Text} {value : Binary64}
    (known : settings.constant? identifier = some value) :
    (Fragment.name identifier).withConstants settings = splice value := by
  simp [Fragment.withConstants, known]

theorem known_constant_finite {settings : Settings} (finite : settings.HasFiniteConstants)
    {identifier : Text} {value : Binary64} (known : settings.constant? identifier = some value) :
    Binary64.isFinite value := by
  unfold Settings.constant? at known
  split at known
  · exact Option.some.inj known ▸ finite.pi
  · split at known
    · exact Option.some.inj known ▸ finite.e
    · contradiction

theorem name_with_constants {settings : Settings} (finite : settings.HasFiniteConstants)
    (identifier : Text) :
    (Fragment.name identifier).withConstants settings = identifier ∨
      ∃ value, Binary64.isFinite value ∧
        (Fragment.name identifier).withConstants settings = splice value := by
  cases known : settings.constant? identifier with
  | none => exact .inl (unknown_with_constants known)
  | some value =>
      exact .inr ⟨value, known_constant_finite finite known, constant_with_constants known⟩

def Fragment.isCall : Fragment → Bool
  | .call _ _ _ => true
  | _ => false

/-- The call that a name makes with the pieces behind it once constants are in place:
blanks, then a negative value in parentheses of its own. -/
def capturedCall? (settings : Settings) (identifier gap : Text) : List Fragment → Option Fragment
  | .plain source :: rest =>
      if source.all isGapChar then capturedCall? settings identifier (gap ++ source) rest
      else none
  | .name constant :: _ =>
      (settings.constant? constant).bind fun value =>
        if Binary64.isNegative value then
          some (.call identifier (gap ++ [' ']) (Binary64.display value))
        else none
  | _ => none

def callsLeft (settings : Settings) : List Fragment → List Fragment
  | [] => []
  | .plain _ :: rest => callsLeft settings rest
  | .name identifier :: rest =>
      match settings.constant? identifier with
      | none => (capturedCall? settings identifier [] rest).toList ++ callsLeft settings rest
      | some _ => callsLeft settings rest
  | .call identifier gap argument :: rest =>
      .call identifier gap argument :: callsLeft settings rest

section

variable {settings : Settings} {text : Text} {pieces : List Fragment}

theorem valued_starts_outside (cut : Cuts text pieces) (outside : StartsOutside text) :
    StartsOutside (valued settings pieces) := by
  cases cut with
  | empty => exact outside
  | plain => exact starts_outside_cons.2 (starts_outside_cons.1 outside)
  | name isName => exact absurd outside (identifier_not_outside isName _)
  | call isName =>
      simp only [List.append_assoc] at outside
      exact absurd outside (identifier_not_outside isName _)

/-- Where nothing but blanks is left, nothing was replaced. -/
theorem valued_blank (finite : settings.HasFiniteConstants) (cut : Cuts text pieces)
    (blanks : ∀ symbol ∈ valued settings pieces, isGapChar symbol) :
    valued settings pieces = text := by
  induction cut with
  | empty => rfl
  | plain outside others induction =>
      rw [valued_cons] at blanks ⊢
      rw [induction fun symbol member => blanks symbol (List.mem_append_right _ member)]
      rfl
  | @name identifier _ _ isName apart uncalled others induction =>
      have visible : ∃ symbol ∈ (Fragment.name identifier).withConstants settings,
          isGapChar symbol = false := by
        rcases name_with_constants finite identifier with kept | ⟨value, shown, replaced⟩
        · rw [kept]
          exact identifier_visible isName
        · rw [replaced]
          exact splice_visible shown
      rcases visible with ⟨symbol, member, shown⟩
      rw [blanks symbol (valued_cons settings _ _ ▸ List.mem_append_left _ member)] at shown
      contradiction
  | @call identifier gap argument _ _ isName blank balanced others induction =>
      have opening := blanks '(' (by simp [valued_cons, Fragment.withConstants, Fragment.source])
      contradiction

theorem valued_ends_in_name {blank : Char → Bool}
    (within : ∀ symbol, blank symbol → isGapChar symbol) (finite : settings.HasFiniteConstants)
    (cut : Cuts text pieces) (ends : EndsInName blank (valued settings pieces)) :
    EndsInName blank text := by
  induction cut with
  | empty => exact ends
  | @plain symbol _ _ outside others induction =>
      rw [valued_cons] at ends
      have later := ends_in_name_behind_free (nameless_singleton outside) ends
      exact ends_in_name_append [symbol] (induction later)
  | @name identifier rest _ isName apart uncalled others induction =>
      rw [valued_cons] at ends
      rcases name_with_constants finite identifier with kept | ⟨value, shown, replaced⟩
      · rw [kept] at ends
        have outside := @valued_starts_outside settings _ _ others apart
        rcases ends_in_name_behind_identifier isName outside ends with later | blanks
        · exact ends_in_name_append identifier (induction later)
        · rw [valued_blank finite others fun symbol member =>
            within symbol (blanks symbol member)] at blanks
          exact identifier_ends_in_name isName blanks
      · rw [replaced] at ends
        have later := ends_in_name_behind_free (splice_nameless shown) ends
        exact ends_in_name_append identifier (induction later)
  | @call identifier gap argument rest _ isName blanks balanced others induction =>
      have visible : blank ')' = false := by
        by_contra marked
        exact absurd (within ')' (by simpa using marked)) (by decide)
      rw [valued_cons, call_with_constants, List.append_assoc] at ends
      have later := ends_in_name_behind (by decide) visible ends
      have whole := ends_in_name_append (identifier ++ gap ++ '(' :: argument ++ [')'])
        (induction later)
      rwa [List.append_assoc] at whole

theorem valued_depth (finite : settings.HasFiniteConstants) (cut : Cuts text pieces)
    (depth : Nat) : parenDepth depth (valued settings pieces) = parenDepth depth text := by
  induction cut generalizing depth with
  | empty => rfl
  | @plain symbol rest _ outside others induction =>
      rw [valued_cons]
      exact paren_depth_congr induction [symbol] depth
  | @name identifier rest _ isName apart uncalled others induction =>
      have kept : Balanced ((Fragment.name identifier).withConstants settings) := by
        rcases name_with_constants finite identifier with same | ⟨value, -, replaced⟩
        · rw [same]
          exact identifier_balanced isName
        · rw [replaced]
          exact splice_balanced value
      rw [valued_cons, paren_depth_append, paren_depth_append, paren_depth_balanced kept,
        paren_depth_balanced (identifier_balanced isName)]
      exact induction depth
  | @call identifier gap argument rest _ isName blanks balanced others induction =>
      have whole :=
        paren_depth_congr induction (identifier ++ gap ++ '(' :: argument ++ [')']) depth
      rw [valued_cons, call_with_constants, whole, List.append_assoc _ [')']]
      rfl

theorem valued_joins (finite : settings.HasFiniteConstants) (cut : Cuts text pieces)
    {rest : Text} (joined : Joins (valued settings pieces) rest) : Joins text rest := by
  rcases joined with ⟨ends, inside⟩ | ⟨ends, opening⟩
  · exact .inl ⟨valued_ends_in_name nofun finite cut ends, inside⟩
  · exact .inr ⟨valued_ends_in_name (fun _ blank => blank) finite cut ends, opening⟩

/-- No name makes a call with the text that the pieces give. -/
structure CallsNothing (settings : Settings) (pieces : List Fragment) (text : Text) : Prop where
  closed : ¬Opens text
  captures : ∀ identifier front, capturedCall? settings identifier front pieces = none

/-- Every name makes a call with the text that the pieces give. It is closed, and what
follows it is cut. -/
def CallsValue (settings : Settings) (pieces : List Fragment) (text : Text) : Prop :=
  ∃ gap argument behind others, text = gap ++ '(' :: argument ++ ')' :: behind ∧
    (∀ symbol ∈ gap, isGapChar symbol) ∧ Balanced argument ∧ Cuts behind others ∧
    others.filter Fragment.isCall = callsLeft settings pieces ∧
    ∀ identifier front, capturedCall? settings identifier front pieces =
      some (.call identifier (front ++ gap) argument)

theorem unknown_name_cuts {identifier rest : Text} {found : List Fragment}
    (isName : IsIdentifier identifier) (apart : StartsOutside rest) (cut : Cuts rest found)
    (left : found.filter Fragment.isCall = callsLeft settings pieces)
    (next : CallsNothing settings pieces rest ∨ CallsValue settings pieces rest) :
    ∃ others, Cuts (identifier ++ rest) others ∧ others.filter Fragment.isCall =
      (capturedCall? settings identifier [] pieces).toList ++ callsLeft settings pieces := by
  rcases next with
    uncalled | ⟨gap, argument, behind, last, rfl, blanks, balanced, cut, left, called⟩
  · refine ⟨_, .name isName apart uncalled.closed cut, ?_⟩
    rw [uncalled.captures, ← left]
    rfl
  · have whole := Cuts.call isName blanks balanced cut
    simp only [List.append_assoc, List.cons_append] at whole ⊢
    refine ⟨_, whole, ?_⟩
    rw [called, ← left]
    rfl

theorem blank_calls {symbol : Char} (blank : isGapChar symbol)
    (next : CallsNothing settings pieces text ∨ CallsValue settings pieces text) :
    CallsNothing settings (.plain [symbol] :: pieces) (symbol :: text) ∨
      CallsValue settings (.plain [symbol] :: pieces) (symbol :: text) := by
  have captured (identifier front : Text) :
      capturedCall? settings identifier front (.plain [symbol] :: pieces) =
        capturedCall? settings identifier (front ++ [symbol]) pieces := by
    simp [capturedCall?, blank]
  rcases next with uncalled |
    ⟨before, argument, behind, others, rfl, blanks, balanced, cut, left, called⟩
  · refine .inl ⟨?_, fun identifier front => ?_⟩
    · rw [opens_behind_blank blank]
      exact uncalled.closed
    · rw [captured, uncalled.captures]
  · refine .inr ⟨symbol :: before, argument, behind, others, rfl,
      List.forall_mem_cons.2 ⟨blank, blanks⟩, balanced, cut, left, fun identifier front => ?_⟩
    rw [captured, called, List.append_assoc]
    rfl

/-- Behind a spliced value no call starts, or one that has the value alone in its
parentheses. -/
theorem spliced_value_calls {constant : Text} {value : Binary64} {rest : Text}
    {found : List Fragment}
    (known : settings.constant? constant = some value) (cut : Cuts rest found)
    (left : found.filter Fragment.isCall = callsLeft settings pieces) :
    CallsNothing settings (.name constant :: pieces) (splice value ++ rest) ∨
      CallsValue settings (.name constant :: pieces) (splice value ++ rest) := by
  have blanks : ∀ symbol ∈ [' '], isGapChar symbol := by simp [isGapChar]
  rcases splice_cases value with ⟨negative, form⟩ | ⟨positive, form⟩
  · refine .inr ⟨[' '], Binary64.display value, ' ' :: rest, _, ?_, blanks,
      display_balanced value, .plain (by decide) cut, ?_, fun identifier front => ?_⟩
    · rw [form]
      simp only [List.append_assoc, List.cons_append, List.nil_append]
    · rw [callsLeft, known, ← left]
      rfl
    · simp [capturedCall?, known, negative]
  · refine .inl ⟨spliced_not_opens positive rest, fun identifier front => ?_⟩
    simp [capturedCall?, known, positive]

theorem nameless_calls (text : Text) :
    (text.map fun symbol => Fragment.plain [symbol]).filter Fragment.isCall = [] := by
  simp [Fragment.isCall]

/-- With constants in place the text can still be cut. Its calls are those that were
there, and those of names in front of a negative constant. -/
theorem valued_calls (finite : settings.HasFiniteConstants) (cut : Cuts text pieces) :
    (∃ others, Cuts (valued settings pieces) others ∧
        others.filter Fragment.isCall = callsLeft settings pieces) ∧
      (¬Opens text → CallsNothing settings pieces (valued settings pieces) ∨
        CallsValue settings pieces (valued settings pieces)) := by
  -- The second part is about names in front of the text, which the first part meets later.
  induction cut with
  | empty => exact ⟨⟨[], .empty, rfl⟩, fun uncalled => .inl ⟨uncalled, fun _ _ => rfl⟩⟩
  | @plain symbol rest pieces outside others induction =>
      rcases induction with ⟨⟨found, cut, left⟩, opening⟩
      refine ⟨⟨_, .plain outside cut, left⟩, fun uncalled => ?_⟩
      rw [valued_cons, plain_with_constants]
      by_cases blank : isGapChar symbol
      · rw [opens_behind_blank blank] at uncalled
        exact blank_calls blank (opening uncalled)
      · have visible : isGapChar symbol = false := by simpa using blank
        have other : symbol ≠ '(' := by
          intro same
          subst same
          exact uncalled (by simp [Opens, visible])
        refine .inl ⟨not_opens_cons visible other _, fun identifier front => ?_⟩
        simp [capturedCall?, visible]
  | @name identifier rest pieces isName apart uncalled others induction =>
      rcases induction with ⟨⟨found, cut, left⟩, opening⟩
      rw [valued_cons, callsLeft]
      cases known : settings.constant? identifier with
      | none =>
          rw [unknown_with_constants known]
          have outside := @valued_starts_outside settings _ _ others apart
          refine ⟨unknown_name_cuts isName outside cut left (opening uncalled),
            fun _ => .inl ⟨identifier_not_opens isName _, fun other front => ?_⟩⟩
          rw [capturedCall?, known]
          rfl
      | some value =>
          rw [constant_with_constants known]
          have shown := known_constant_finite finite known
          have nameless := splice_nameless shown
          refine ⟨⟨_, cuts_append (cuts_nameless nameless) (nameless_not_joins nameless _) cut, ?_⟩,
            fun _ => spliced_value_calls known cut left⟩
          rw [List.filter_append, nameless_calls, left]
          rfl
  | @call identifier gap argument rest pieces isName blanks balanced others induction =>
      rcases induction with ⟨⟨found, cut, left⟩, -⟩
      have called := Cuts.call isName blanks balanced cut
      rw [valued_cons, call_with_constants]
      simp only [List.append_assoc, List.cons_append, List.nil_append] at called ⊢
      refine ⟨⟨_, called, ?_⟩, fun _ => .inl ⟨identifier_not_opens isName _, fun _ _ => rfl⟩⟩
      rw [callsLeft, ← left]
      rfl

theorem valued_cuts (finite : settings.HasFiniteConstants) (cut : Cuts text pieces) :
    ∃ others, Cuts (valued settings pieces) others :=
  (valued_calls finite cut).1.imp fun _ found => found.1

end

/-- The pieces of a text, and its pieces once constants are in place. -/
structure Passes (settings : Settings) (text : Text) (pieces others : List Fragment) : Prop where
  cut : Cuts text pieces
  again : Cuts (valued settings pieces) others

variable {settings : Settings} {text rest : Text}
  {pieces others behind behindOthers : List Fragment}

theorem exists_passes (finite : settings.HasFiniteConstants) (cut : Cuts text pieces) :
    ∃ others, Passes settings text pieces others :=
  (valued_cuts finite cut).imp fun _ again => ⟨cut, again⟩

theorem passes_nameless (settings : Settings) (nameless : IsNameless text) :
    Passes settings text (text.map fun symbol => .plain [symbol])
      (text.map fun symbol => .plain [symbol]) where
  cut := cuts_nameless nameless
  again := by
    rw [valued_nameless]
    exact cuts_nameless nameless

theorem Passes.append (finite : settings.HasFiniteConstants)
    (first : Passes settings text pieces others)
    (second : Passes settings rest behind behindOthers) (apart : ¬Joins text rest)
    (apartValued : ¬Joins text (valued settings behind)) :
    Passes settings (text ++ rest) (pieces ++ behind) (others ++ behindOthers) where
  cut := cuts_append first.cut apart second.cut
  again := by
    rw [valued_append]
    exact cuts_append first.again (fun joined => apartValued (valued_joins finite first.cut joined))
      second.again

theorem Passes.append_unnamed (finite : settings.HasFiniteConstants)
    (first : Passes settings text pieces others) (unnamed : ¬EndsInName isGapChar text)
    (second : Passes settings rest behind behindOthers) :
    Passes settings (text ++ rest) (pieces ++ behind) (others ++ behindOthers) :=
  first.append finite second (not_joins_of_not_ends unnamed _) (not_joins_of_not_ends unnamed _)

theorem Passes.plain {symbol : Char} (outside : isIdentifierStart symbol = false)
    (second : Passes settings text pieces others) :
    Passes settings (symbol :: text) (.plain [symbol] :: pieces) (.plain [symbol] :: others) where
  cut := .plain outside second.cut
  again := .plain outside second.again

theorem Passes.separator {separator : Char} (finite : settings.HasFiniteConstants)
    (first : Passes settings text pieces others)
    (outside : isIdentifierContinue separator = false) (visible : isGapChar separator = false)
    (other : separator ≠ '(') (second : Passes settings rest behind behindOthers) :
    Passes settings (text ++ separator :: rest) (pieces ++ .plain [separator] :: behind)
      (others ++ .plain [separator] :: behindOthers) :=
  first.append finite (second.plain (not_start_of_not_continue outside))
    (not_joins_separator outside visible other text rest)
    (not_joins_separator outside visible other text _)

theorem passes_empty (settings : Settings) : Passes settings [] [] [] := ⟨.empty, .empty⟩

theorem Passes.group (finite : settings.HasFiniteConstants)
    (inner : Passes settings text pieces others) :
    Passes settings ('(' :: text ++ [')']) (.plain ['('] :: (pieces ++ [.plain [')']]))
      (.plain ['('] :: (others ++ [.plain [')']])) :=
  (inner.separator finite (by decide) (by decide) (by decide) (passes_empty settings)).plain
    (by decide)

theorem Passes.call {identifier gap argument : Text} (isName : IsIdentifier identifier)
    (blanks : ∀ symbol ∈ gap, isGapChar symbol) (balanced : Balanced argument)
    (second : Passes settings rest behind behindOthers) :
    Passes settings (identifier ++ gap ++ '(' :: argument ++ ')' :: rest)
      (.call identifier gap argument :: behind)
      (.call identifier gap argument :: behindOthers) where
  cut := .call isName blanks balanced second.cut
  again := by
    have called := Cuts.call isName blanks balanced second.again
    rw [valued_cons, call_with_constants, List.append_assoc _ [')']]
    exact called

end InfixCalculator
