import InfixCalculator.Proofs.Splicing

/-!
The grammar of fragments, stated of a text and its fragments as a whole. The texts
that can be cut are those that have such a decomposition, there is only one, and a
text without one has a first call that is not closed.
-/

namespace InfixCalculator

/-- No front closes more groups than it opens, and in the end none is open. -/
def NestsEvenly (text : Text) : Prop :=
  (∀ front, front <+: text → front.count ')' ≤ front.count '(') ∧ text.count '(' = text.count ')'

def Fragment.isPlain : Fragment → Bool
  | .plain _ => true
  | _ => false

/-- What a fragment has to be in front of `behind`. Plain text holds no letter and no
underscore. A name is a whole identifier that is not called, and a call has a whole
identifier, blanks and an argument that nests evenly. -/
def Fragment.Fits (behind : Text) : Fragment → Prop
  | .plain source => source ≠ [] ∧ ∀ symbol ∈ source, isIdentifierStart symbol = false
  | .name identifier => IsIdentifier identifier ∧ StartsOutside behind ∧ ¬Opens behind
  | .call identifier gap argument =>
      IsIdentifier identifier ∧ (∀ symbol ∈ gap, isGapChar symbol) ∧ NestsEvenly argument

structure Decomposes (text : Text) (fragments : List Fragment) : Prop where
  whole : fragments.flatMap Fragment.source = text
  fits : ∀ front fragment behind, fragments = front ++ fragment :: behind →
    fragment.Fits (behind.flatMap Fragment.source)
  apart : fragments.IsChain fun first second => ¬(first.isPlain ∧ second.isPlain)

def IsUnclosedBehind (front identifier text : Text) : Prop :=
  ∃ gap inner, text = front ++ identifier ++ gap ++ '(' :: inner ∧ IsIdentifier identifier ∧
    (∀ symbol ∈ gap, isGapChar symbol) ∧
    ∀ argument behind, inner = argument ++ ')' :: behind → ¬NestsEvenly argument

/-- The first identifier of the text whose parenthesis nothing closes, behind a front
that has a decomposition. -/
def IsFirstUnclosed (identifier text : Text) : Prop :=
  ∃ front fragments, Decomposes front fragments ∧ IsUnclosedBehind front identifier text ∧
    ∀ other name, IsUnclosedBehind other name text → front.length ≤ other.length

/-- From `depth` no front of the text brings the balance of parentheses below zero, and
the whole text brings it to `deeper`. -/
def CountsTo (depth deeper : Nat) (text : Text) : Prop :=
  (∀ front, front <+: text → front.count ')' ≤ depth + front.count '(') ∧
    deeper + text.count ')' = depth + text.count '('

theorem counts_to_cons {depth next deeper : Nat} {symbol : Char}
    (step : next + [symbol].count ')' = depth + [symbol].count '(') (rest : Text) :
    CountsTo depth deeper (symbol :: rest) ↔ CountsTo next deeper rest := by
  have opens (text : Text) : (symbol :: text).count '(' = [symbol].count '(' + text.count '(' := by
    rw [← List.singleton_append, List.count_append]
  have closes (text : Text) : (symbol :: text).count ')' = [symbol].count ')' + text.count ')' := by
    rw [← List.singleton_append, List.count_append]
  rw [CountsTo, CountsTo, opens rest, closes rest]
  refine and_congr ⟨fun nested front start => ?_, fun nested front start => ?_⟩ (by omega)
  · have whole := nested (symbol :: front) (List.cons_prefix_cons.2 ⟨rfl, start⟩)
    rw [opens front, closes front] at whole
    omega
  · rcases List.prefix_cons_iff.1 start with rfl | ⟨others, rfl, behind⟩
    · exact Nat.zero_le _
    · have behind := nested others behind
      rw [opens others, closes others]
      omega

theorem paren_depth_count {depth deeper : Nat} {text : Text} :
    parenDepth depth text = some deeper ↔ CountsTo depth deeper text := by
  fun_induction parenDepth depth text with
  | case1 depth => simp [CountsTo, eq_comm]
  | case2 rest =>
      refine iff_of_false (by simp) fun counted => ?_
      have first := counted.1 [')'] (List.cons_prefix_cons.2 ⟨rfl, List.nil_prefix⟩)
      exact absurd first (by decide)
  | case3 rest outer induction => exact induction.trans (counts_to_cons (by simp) rest).symm
  | case4 depth rest closing induction =>
      exact induction.trans (counts_to_cons (by simp) rest).symm
  | case5 depth symbol rest closing opening induction =>
      exact induction.trans (counts_to_cons (by simp [closing, opening]) rest).symm

theorem balanced_iff {text : Text} : Balanced text ↔ NestsEvenly text := by
  rw [Balanced, paren_depth_count, NestsEvenly, CountsTo]
  simp only [Nat.zero_add]
  exact and_congr_right fun _ => eq_comm

theorem decomposes_cons {fragment : Fragment} {fragments : List Fragment} {text : Text} :
    Decomposes text (fragment :: fragments) ↔ ∃ behind, text = fragment.source ++ behind ∧
      Decomposes behind fragments ∧ fragment.Fits behind ∧
      ¬(fragment.isPlain ∧ fragments.head?.any Fragment.isPlain) := by
  constructor
  · intro decomposed
    refine ⟨fragments.flatMap Fragment.source, decomposed.whole.symm, ⟨rfl, ?_, ?_⟩,
      decomposed.fits [] fragment fragments rfl, ?_⟩
    · intro front other behind same
      exact decomposed.fits (fragment :: front) other behind (by rw [same]; rfl)
    · exact decomposed.apart.tail
    · cases fragments with
      | nil => simp
      | cons second fragments => exact (List.isChain_cons_cons.1 decomposed.apart).1
  · rintro ⟨behind, rfl, decomposed, fits, apart⟩
    refine ⟨by rw [List.flatMap_cons, decomposed.whole], fun front other rest same => ?_, ?_⟩
    · cases front with
      | nil =>
          obtain ⟨rfl, rfl⟩ := List.cons.inj same
          rwa [decomposed.whole]
      | cons first front => exact decomposed.fits front other rest (List.cons.inj same).2
    · cases fragments with
      | nil => exact .singleton fragment
      | cons second fragments => exact .cons_cons apart decomposed.apart

theorem decomposes_nil {text : Text} : Decomposes text [] ↔ text = [] := by
  constructor
  · exact fun decomposed => decomposed.whole.symm
  · rintro rfl
    exact ⟨rfl, by simp, .nil⟩

theorem identifier_head {identifier : Text} (isName : IsIdentifier identifier) (rest : Text) :
    (identifier ++ rest).head?.any (!isIdentifierStart ·) = false := by
  match identifier, isName with
  | symbol :: run, ⟨start, _⟩ => simp [start]

/-- The first symbol of a text tells whether its first fragment is plain. -/
theorem decomposes_head {text : Text} {fragments : List Fragment}
    (decomposed : Decomposes text fragments) :
    fragments.head?.any Fragment.isPlain = text.head?.any (!isIdentifierStart ·) := by
  cases fragments with
  | nil => rw [decomposes_nil.1 decomposed]; rfl
  | cons fragment fragments =>
      obtain ⟨behind, rfl, -, fits, -⟩ := decomposes_cons.1 decomposed
      cases fragment with
      | plain source =>
          obtain ⟨symbol, others, rfl⟩ := List.exists_cons_of_ne_nil fits.1
          simpa [Fragment.isPlain, Fragment.source] using fits.2 symbol List.mem_cons_self
      | name identifier => exact (identifier_head fits.1 behind).symm
      | call identifier gap argument =>
          have head := identifier_head fits.1 (gap ++ '(' :: argument ++ [')'] ++ behind)
          simpa [Fragment.isPlain, Fragment.source] using head

theorem split_calls_plain {source rest : Text} (filled : source ≠ [])
    (nameless : ∀ symbol ∈ source, isIdentifierStart symbol = false)
    (apart : rest.head?.any (!isIdentifierStart ·) = false) :
    splitCalls (source ++ rest) = (splitCalls rest).map (.plain source :: ·) := by
  obtain ⟨symbol, others, rfl⟩ := List.exists_cons_of_ne_nil filled
  have start := nameless symbol List.mem_cons_self
  have free : ∀ other ∈ others, (!isIdentifierStart other) = true :=
    fun other member => by simp [nameless other (List.mem_cons_of_mem _ member)]
  have stopped : rest.takeWhile (!isIdentifierStart ·) = [] ∧
      rest.dropWhile (!isIdentifierStart ·) = rest := by
    cases rest with
    | nil => exact ⟨rfl, rfl⟩
    | cons next rest =>
        have other : (!isIdentifierStart next) = false := apart
        simp [other]
  rw [List.cons_append, splitCalls, if_neg (by simp [start]), List.takeWhile_append_of_pos free,
    List.dropWhile_append_of_pos free, stopped.1, stopped.2, List.append_nil]

theorem split_calls_of_decomposes {text : Text} {fragments : List Fragment}
    (decomposed : Decomposes text fragments) : splitCalls text = .ok fragments := by
  induction fragments generalizing text with
  | nil =>
      rw [decomposes_nil.1 decomposed]
      simp [splitCalls]
  | cons fragment fragments induction =>
      obtain ⟨behind, rfl, rest, fits, apart⟩ := decomposes_cons.1 decomposed
      have cut := induction rest
      cases fragment with
      | plain source =>
          have head : behind.head?.any (!isIdentifierStart ·) = false := by
            rw [← decomposes_head rest]
            simpa [Fragment.isPlain] using apart
          rw [Fragment.source, split_calls_plain fits.1 fits.2 head, cut]
          rfl
      | name identifier =>
          obtain ⟨isName, outside, uncalled⟩ := fits
          rw [Fragment.source, split_calls_identifier isName outside, continuation_bare uncalled]
          simp only [cut]
          rfl
      | call identifier gap argument =>
          obtain ⟨isName, blanks, nested⟩ := fits
          have whole : Fragment.source (.call identifier gap argument) ++ behind =
              identifier ++ (gap ++ '(' :: argument ++ ')' :: behind) := by
            simp [Fragment.source]
          have outside := starts_outside_call blanks argument behind
          rw [whole, split_calls_identifier isName outside,
            continuation_closed blanks (balanced_iff.2 nested)]
          simp only [cut]
          rfl

theorem continuation_sound (text : Text) :
    match continuation text with
    | .bare => ¬Opens text
    | .unclosed => True
    | .call gap argument behind => text = gap ++ '(' :: argument ++ ')' :: behind ∧
        (∀ symbol ∈ gap, isGapChar symbol) ∧ Balanced argument := by
  rcases continuation_cases text with uncalled | ⟨gap, inner, rfl, blanks, unclosed⟩ |
    ⟨gap, argument, behind, rfl, blanks, balanced⟩
  · rw [continuation_bare uncalled]
    exact uncalled
  · rw [continuation_unclosed blanks unclosed]
    trivial
  · rw [continuation_closed blanks balanced]
    exact ⟨rfl, blanks, balanced⟩

theorem decomposes_of_split_calls (text : Text) (fragments : List Fragment)
    (cut : splitCalls text = .ok fragments) : Decomposes text fragments := by
  fun_induction splitCalls text generalizing fragments with
  | case1 =>
      cases cut
      exact decomposes_nil.2 rfl
  | case2 symbol others start identifier after bare induction =>
      obtain ⟨rest, found, rfl⟩ := exists_of_map_ok cut
      have sound := continuation_sound after
      rw [bare] at sound
      refine decomposes_cons.2 ⟨after, ?_, induction rest found, ⟨⟨start, ?_⟩, ?_, sound⟩, ?_⟩
      · simp [Fragment.source, identifier, after]
      · exact fun other member => mem_take_while member
      · exact starts_outside_drop others
      · simp [Fragment.isPlain]
  | case3 => contradiction
  | case4 symbol others start identifier after gap argument behind called induction =>
      obtain ⟨rest, found, rfl⟩ := exists_of_map_ok cut
      have sound := continuation_sound after
      rw [called] at sound
      obtain ⟨whole, blanks, balanced⟩ := sound
      refine decomposes_cons.2 ⟨behind, ?_, induction rest found,
        ⟨⟨start, ?_⟩, blanks, balanced_iff.1 balanced⟩, ?_⟩
      · calc symbol :: others = identifier ++ after := by simp [identifier, after]
          _ = _ := by rw [whole]; simp [Fragment.source]
      · exact fun other member => mem_take_while member
      · simp [Fragment.isPlain]
  | case5 symbol others start induction =>
      obtain ⟨rest, found, rfl⟩ := exists_of_map_ok cut
      have decomposed := induction rest found
      refine decomposes_cons.2 ⟨_, ?_, decomposed, ⟨by simp, ?_⟩, ?_⟩
      · simp [Fragment.source]
      · intro other member
        rcases List.mem_cons.1 member with rfl | later
        · simpa using start
        · simpa using mem_take_while later
      · rw [decomposes_head decomposed]
        have stopped := List.head?_dropWhile_not (!isIdentifierStart ·) others
        cases head : (others.dropWhile (!isIdentifierStart ·)).head? with
        | none => simp
        | some next =>
            rw [head] at stopped
            simpa using fun _ => stopped

theorem split_calls_ok_iff (text : Text) (fragments : List Fragment) :
    splitCalls text = .ok fragments ↔ Decomposes text fragments :=
  ⟨decomposes_of_split_calls text fragments, split_calls_of_decomposes⟩

theorem decomposes_of_cuts {text : Text} {pieces : List Fragment} (cut : Cuts text pieces) :
    ∃ fragments, Decomposes text fragments := by
  obtain ⟨fragments, found, -⟩ := exists_of_map_ok (cuts_iff.1 cut)
  exact ⟨fragments, decomposes_of_split_calls text fragments found⟩

theorem cuts_of_decomposes {text : Text} {fragments : List Fragment}
    (decomposed : Decomposes text fragments) : ∃ pieces, Cuts text pieces := by
  refine ⟨fragments.flatMap Fragment.pieces, cuts_iff.2 ?_⟩
  rw [splitPieces, split_calls_of_decomposes decomposed]
  rfl

/-- A parenthesis is not closed if no argument in front of a closing one nests evenly. -/
theorem not_closing_iff {inner : Text} :
    splitAtClosing? 0 inner = none ↔
      ∀ argument behind, inner = argument ++ ')' :: behind → ¬NestsEvenly argument := by
  constructor
  · rintro unclosed argument behind rfl nested
    rw [split_at_closing_balanced (balanced_iff.2 nested)] at unclosed
    contradiction
  · intro open'
    cases found : splitAtClosing? 0 inner with
    | none => rfl
    | some parts =>
        have balanced : Balanced parts.1 := inside_depth found
        exact absurd (balanced_iff.1 balanced) (open' _ _ (split_at_closing_append found))

theorem unclosed_behind_iff {front identifier text : Text} :
    IsUnclosedBehind front identifier text ↔
      ∃ rest, text = front ++ rest ∧ Unclosed identifier rest := by
  constructor
  · rintro ⟨gap, inner, rfl, isName, blanks, open'⟩
    exact ⟨_, by simp only [List.append_assoc], .call isName blanks (not_closing_iff.2 open')⟩
  · rintro ⟨rest, rfl, ⟨isName, blanks, unclosed⟩⟩
    exact ⟨_, _, by simp only [List.append_assoc], isName, blanks, not_closing_iff.1 unclosed⟩

theorem closing_of_balanced {front behind : Text} (balanced : Balanced (front ++ '(' :: behind))
    (rest : Text) : splitAtClosing? 0 (behind ++ rest) ≠ none := by
  intro unclosed
  obtain ⟨deeper, nested⟩ := exists_depth_of_unclosed unclosed
  rw [paren_depth_append, Option.bind_eq_some_iff] at nested
  obtain ⟨inside, own, -⟩ := nested
  rw [Balanced, paren_depth_append, Option.bind_eq_some_iff] at balanced
  obtain ⟨depth, -, whole⟩ := balanced
  -- Seen from the depth at the parenthesis, the text behind it ends above that depth.
  have raised := paren_depth_raise own (depth + 1)
  rw [Nat.zero_add] at raised
  rw [paren_depth_opening, raised] at whole
  have level := Option.some.inj whole
  omega

theorem exists_of_unclosed {identifier text : Text} (unclosed : Unclosed identifier text) :
    ∃ gap inner, text = identifier ++ (gap ++ '(' :: inner) ∧ IsIdentifier identifier ∧
      (∀ symbol ∈ gap, isGapChar symbol) ∧ splitAtClosing? 0 inner = none := by
  cases unclosed with
  | call isName blanks open' => exact ⟨_, _, List.append_assoc .., isName, blanks, open'⟩

theorem drop_while_outside {text : Text} (outside : StartsOutside text) :
    text.dropWhile isIdentifierContinue = text := by
  cases text with
  | nil => rfl
  | cons symbol rest => simp [starts_outside_cons.1 outside]

theorem take_identifier {identifier after : Text} (isName : IsIdentifier identifier)
    (outside : StartsOutside after) :
    (identifier ++ after).takeWhile isIdentifierContinue = identifier := by
  have whole := @List.takeWhile_append_dropWhile _ isIdentifierContinue after
  rw [drop_while_outside outside] at whole
  rw [List.takeWhile_append_of_pos (identifier_continues isName), List.append_left_eq_self.1 whole,
    List.append_nil]

theorem drop_identifier {identifier after : Text} (isName : IsIdentifier identifier)
    (outside : StartsOutside after) :
    (identifier ++ after).dropWhile isIdentifierContinue = after := by
  rw [List.dropWhile_append_of_pos (identifier_continues isName), drop_while_outside outside]

theorem unclosed_opens {identifier text : Text} (unclosed : Unclosed identifier text) :
    Opens (text.dropWhile isIdentifierContinue) := by
  obtain ⟨gap, inner, rfl, isName, blanks, -⟩ := exists_of_unclosed unclosed
  rw [drop_identifier isName (starts_outside_gap blanks inner), opens_behind_gap blanks]
  rfl

theorem unclosed_start {identifier rest : Text} {symbol : Char}
    (unclosed : Unclosed identifier (symbol :: rest)) : isIdentifierStart symbol := by
  obtain ⟨gap, inner, same, isName, -⟩ := exists_of_unclosed unclosed
  have head := identifier_head isName (gap ++ '(' :: inner)
  rw [← same] at head
  simpa using head

theorem balanced_not_unclosed {front inside : Text} (balanced : Balanced (front ++ inside ++ [')']))
    (identifier rest : Text) : ¬Unclosed identifier (inside ++ ')' :: rest) := by
  intro unclosed
  obtain ⟨gap, inner, same, isName, blanks, open'⟩ := exists_of_unclosed unclosed
  have parenless : ∀ symbol ∈ identifier ++ gap, symbol ≠ ')' := by
    intro symbol member same
    subst same
    rcases List.mem_append.1 member with inName | inGap
    · exact absurd (identifier_continues isName _ inName) (by decide)
    · exact absurd (blanks _ inGap) (by decide)
  rw [← List.append_assoc] at same
  rcases List.append_eq_append_iff.1 same with ⟨between, whole, tail⟩ | ⟨opened, rfl, tail⟩
  · cases between with
    | nil => exact absurd (List.cons.inj tail).1 (by decide)
    | cons symbol between =>
        obtain ⟨rfl, -⟩ := List.cons.inj tail
        exact parenless ')' (whole ▸ by simp) rfl
  · cases opened with
    | nil => exact absurd (List.cons.inj tail).1 (by decide)
    | cons symbol opened =>
        obtain ⟨rfl, rfl⟩ := List.cons.inj tail
        have shape : front ++ (identifier ++ gap ++ '(' :: opened) ++ [')'] =
            front ++ identifier ++ gap ++ '(' :: (opened ++ [')']) := by simp
        rw [shape] at balanced
        apply closing_of_balanced balanced rest
        simpa using open'

/-- Where a text is cut to its end, no call that is not closed starts inside of it. -/
theorem cuts_not_unclosed {text rest : Text} {pieces : List Fragment} (cut : Cuts text pieces)
    (apart : ¬Joins text rest) {front behind identifier : Text} (same : text = front ++ behind)
    (filled : behind ≠ []) : ¬Unclosed identifier (behind ++ rest) := by
  induction cut generalizing front with
  | empty => exact absurd (List.append_eq_nil_iff.1 same.symm).2 filled
  | @plain symbol text pieces outside others induction =>
      cases front with
      | nil =>
          rw [List.nil_append] at same
          subst same
          intro unclosed
          rw [unclosed_start unclosed] at outside
          contradiction
      | cons first front =>
          exact induction (fun joined => apart (joins_append [symbol] joined))
            (List.cons.inj same).2
  | @name name text pieces isName outside uncalled others induction =>
      rcases List.append_eq_append_iff.1 same with ⟨later, -, tail⟩ | ⟨run, parts, rfl⟩
      · exact induction (fun joined => apart (joins_append name joined)) tail
      · obtain ⟨outsideBoth, uncalledBoth⟩ := identifier_apart isName outside uncalled apart
        intro unclosed
        have opening := unclosed_opens unclosed
        have continued : ∀ symbol ∈ run, isIdentifierContinue symbol := fun symbol member =>
          identifier_continues isName symbol (by rw [parts]; exact List.mem_append_right _ member)
        rw [List.append_assoc, List.dropWhile_append_of_pos continued,
          drop_while_outside outsideBoth] at opening
        exact uncalledBoth opening
  | @call name gap argument text pieces isName blanks balanced others induction =>
      have kept : ¬Joins text rest := by
        intro joined
        have whole := joins_append (name ++ gap ++ '(' :: argument ++ [')']) joined
        simp only [List.append_assoc, List.cons_append, List.nil_append] at whole apart
        exact apart whole
      have segment := call_balanced isName blanks balanced
      have shape : name ++ gap ++ '(' :: argument ++ ')' :: text =
          (name ++ gap ++ '(' :: argument ++ [')']) ++ text := by simp
      rw [shape] at same
      rcases List.append_eq_append_iff.1 same with ⟨later, -, tail⟩ | ⟨own, parts, rfl⟩
      · exact induction kept tail
      · rcases List.eq_nil_or_concat own with rfl | ⟨inside, last, rfl⟩
        · exact @induction kept [] (by simp)
        · rw [List.concat_eq_append, ← List.append_assoc] at parts
          obtain rfl : ')' = last := by simpa using (List.append_inj' parts rfl).2
          rw [parts] at segment
          have closed := balanced_not_unclosed segment identifier (text ++ rest)
          simpa using closed

/-- Of a text that cannot be cut, the first call that is not closed is the one that
the cut ends in. -/
theorem unclosed_first {front rest identifier : Text} {pieces : List Fragment}
    (cut : Cuts front pieces) (apart : ¬Joins front rest) (unclosed : Unclosed identifier rest) :
    IsFirstUnclosed identifier (front ++ rest) := by
  obtain ⟨fragments, decomposed⟩ := decomposes_of_cuts cut
  refine ⟨front, fragments, decomposed, unclosed_behind_iff.2 ⟨rest, rfl, unclosed⟩, ?_⟩
  intro other name behind
  obtain ⟨later, same, open'⟩ := unclosed_behind_iff.1 behind
  by_contra shorter
  rcases List.append_eq_append_iff.1 same with ⟨between, longer, -⟩ | ⟨between, whole, rfl⟩
  · rw [longer, List.length_append] at shorter
    omega
  · have filled : between ≠ [] := by
      rintro rfl
      rw [List.append_nil] at whole
      exact shorter (by rw [whole])
    exact cuts_not_unclosed cut apart whole filled open'

theorem decomposes_not_unclosed {front text identifier : Text} {fragments : List Fragment}
    (decomposed : Decomposes text fragments) : ¬IsUnclosedBehind front identifier text := by
  intro behind
  obtain ⟨pieces, cut⟩ := cuts_of_decomposes decomposed
  obtain ⟨rest, same, unclosed⟩ := unclosed_behind_iff.1 behind
  have filled : rest ≠ [] := by
    obtain ⟨gap, inner, rfl, -⟩ := exists_of_unclosed unclosed
    simp
  apply cuts_not_unclosed cut (not_joins_nil text) same filled
  rwa [List.append_nil]

theorem unclosed_identifier {identifier text : Text} (unclosed : Unclosed identifier text) :
    text.takeWhile isIdentifierContinue = identifier := by
  obtain ⟨gap, inner, rfl, isName, blanks, -⟩ := exists_of_unclosed unclosed
  exact take_identifier isName (starts_outside_gap blanks inner)

theorem first_unclosed_unique {first second text : Text} (one : IsFirstUnclosed first text)
    (other : IsFirstUnclosed second text) : first = second := by
  obtain ⟨front, -, -, unclosed, least⟩ := one
  obtain ⟨front', -, -, unclosed', least'⟩ := other
  have length := Nat.le_antisymm (least _ _ unclosed') (least' _ _ unclosed)
  obtain ⟨rest, whole, call⟩ := unclosed_behind_iff.1 unclosed
  obtain ⟨rest', whole', call'⟩ := unclosed_behind_iff.1 unclosed'
  obtain ⟨-, rfl⟩ := List.append_inj (whole.symm.trans whole') length
  exact (unclosed_identifier call).symm.trans (unclosed_identifier call')

theorem exists_first_unclosed (text : Text) (cause : TextFailure)
    (failed : splitCalls text = .error cause) :
    ∃ identifier, cause = .unclosedCall identifier ∧ IsFirstUnclosed identifier text := by
  rcases cuts_or_unclosed text with ⟨pieces, cut⟩ |
    ⟨front, pieces, identifier, rest, rfl, cut, apart, unclosed⟩
  · obtain ⟨fragments, decomposed⟩ := decomposes_of_cuts cut
    rw [split_calls_of_decomposes decomposed] at failed
    contradiction
  · have pieces := split_pieces_front cut apart
    rw [split_pieces_unclosed unclosed, splitPieces, failed] at pieces
    exact ⟨identifier, Except.error.inj pieces, unclosed_first cut apart unclosed⟩

theorem split_calls_error_iff (text : Text) (cause : TextFailure) :
    splitCalls text = .error cause ↔
      ∃ identifier, cause = .unclosedCall identifier ∧ IsFirstUnclosed identifier text := by
  constructor
  · exact exists_first_unclosed text cause
  · rintro ⟨identifier, rfl, first⟩
    cases outcome : splitCalls text with
    | ok fragments =>
        obtain ⟨front, -, -, behind, -⟩ := first
        exact absurd behind (decomposes_not_unclosed (decomposes_of_split_calls text _ outcome))
    | error cause =>
        obtain ⟨name, rfl, own⟩ := exists_first_unclosed text cause outcome
        rw [first_unclosed_unique own first]

end InfixCalculator
