import InfixCalculator.Substitution

/-!
The number of identifiers in a text, read left to right. The argument of a call
holds fewer identifiers than the text of the call, and writing values over
constants adds none. Evaluation of nested calls ends for that reason.
-/

namespace InfixCalculator

/-- `inside` tells whether the character before belongs to an identifier. -/
def countIdentifiers (inside : Bool) : Text → Nat
  | [] => 0
  | symbol :: rest =>
      if inside && isIdentifierContinue symbol then countIdentifiers true rest
      else if isIdentifierStart symbol then countIdentifiers true rest + 1
      else countIdentifiers false rest

def identifierCount (text : Text) : Nat := countIdentifiers false text

def Fragment.identifierCount : Fragment → Nat
  | .plain _ => 0
  | .name _ => 1
  | .call _ _ argument => InfixCalculator.identifierCount argument + 1

def fragmentsIdentifierCount : List Fragment → Nat
  | [] => 0
  | fragment :: rest => fragment.identifierCount + fragmentsIdentifierCount rest

theorem continue_of_start {symbol : Char} (start : isIdentifierStart symbol) :
    isIdentifierContinue symbol := by
  simp only [isIdentifierStart, isIdentifierContinue, Char.isAlphanum, Bool.or_eq_true] at *
  exact start.imp .inl id

theorem not_start_of_not_continue {symbol : Char} (outside : isIdentifierContinue symbol = false) :
    isIdentifierStart symbol = false := by
  cases start : isIdentifierStart symbol with
  | false => rfl
  | true => rw [continue_of_start start] at outside; contradiction

theorem count_separator {inside : Bool} {separator : Char} {rest : Text}
    (outside : isIdentifierContinue separator = false) :
    countIdentifiers inside (separator :: rest) = countIdentifiers false rest := by
  simp [countIdentifiers, outside, not_start_of_not_continue outside]

theorem count_append_separator {inside : Bool} {text rest : Text} {separator : Char}
    (outside : isIdentifierContinue separator = false) :
    countIdentifiers inside (text ++ separator :: rest) =
      countIdentifiers inside text + countIdentifiers false rest := by
  induction text generalizing inside with
  | nil => simp [count_separator outside, countIdentifiers]
  | cons symbol text induction =>
      simp only [List.cons_append, countIdentifiers]
      split
      · exact induction
      · split
        · rw [induction]; omega
        · exact induction

theorem count_plain_append {plain rest : Text}
    (free : ∀ symbol ∈ plain, isIdentifierStart symbol = false) :
    countIdentifiers false (plain ++ rest) = countIdentifiers false rest := by
  induction plain with
  | nil => rfl
  | cons symbol plain induction =>
      have head := free symbol List.mem_cons_self
      have tail := induction fun other member => free other (List.mem_cons_of_mem _ member)
      simp [countIdentifiers, head, tail]

theorem count_run_append {run rest : Text}
    (whole : ∀ symbol ∈ run, isIdentifierContinue symbol) :
    countIdentifiers true (run ++ rest) = countIdentifiers true rest := by
  induction run with
  | nil => rfl
  | cons symbol run induction =>
      have head := whole symbol List.mem_cons_self
      have tail := induction fun other member => whole other (List.mem_cons_of_mem _ member)
      simp [countIdentifiers, head, tail]

/-- Nothing at the front of the text would lengthen an identifier before it. -/
def StartsOutside (text : Text) : Prop :=
  ∀ symbol ∈ text.head?, isIdentifierContinue symbol = false

theorem starts_outside_cons {symbol : Char} {rest : Text} :
    StartsOutside (symbol :: rest) ↔ isIdentifierContinue symbol = false := by
  simp [StartsOutside]

theorem starts_outside_drop (text : Text) :
    StartsOutside (text.dropWhile isIdentifierContinue) := by
  intro symbol head
  have first := List.head?_dropWhile_not isIdentifierContinue text
  rw [Option.mem_def.1 head] at first
  exact first

theorem count_inside {text : Text} (outside : StartsOutside text) :
    countIdentifiers true text = countIdentifiers false text := by
  cases text with
  | nil => rfl
  | cons symbol rest =>
      have separator := starts_outside_cons.1 outside
      rw [count_separator separator, count_separator separator]

theorem count_name {symbol : Char} {run rest : Text} (start : isIdentifierStart symbol)
    (whole : ∀ other ∈ run, isIdentifierContinue other) :
    countIdentifiers false (symbol :: run ++ rest) = countIdentifiers true rest + 1 := by
  simp [countIdentifiers, start, count_run_append whole]

theorem gap_not_continue {symbol : Char} (gap : isGapChar symbol) :
    isIdentifierContinue symbol = false := by
  simp only [isGapChar, Bool.or_eq_true, beq_iff_eq] at gap
  rcases gap with (((rfl | rfl) | rfl) | rfl) | rfl <;> decide

theorem count_gap_append {inside : Bool} {gap rest : Text} {separator : Char}
    (blank : ∀ symbol ∈ gap, isGapChar symbol)
    (outside : isIdentifierContinue separator = false) :
    countIdentifiers inside (gap ++ separator :: rest) = countIdentifiers false rest := by
  induction gap generalizing inside with
  | nil => exact count_separator outside
  | cons symbol gap induction =>
      rw [List.cons_append, count_separator (gap_not_continue (blank symbol List.mem_cons_self))]
      exact induction fun other member => blank other (List.mem_cons_of_mem _ member)

theorem mem_take_while {predicate : Char → Bool} {symbol : Char} {text : Text}
    (member : symbol ∈ text.takeWhile predicate) : predicate symbol :=
  List.all_eq_true.1 List.all_takeWhile symbol member

theorem count_call {symbol : Char} {run gap argument rest : Text}
    (start : isIdentifierStart symbol) (whole : ∀ other ∈ run, isIdentifierContinue other)
    (blank : ∀ other ∈ gap, isGapChar other) :
    countIdentifiers false (symbol :: run ++ gap ++ '(' :: argument ++ ')' :: rest) =
      identifierCount argument + 1 + countIdentifiers false rest := by
  rw [List.append_assoc, List.append_assoc, count_name start whole, List.cons_append,
    count_gap_append blank (by decide), count_append_separator (by decide), identifierCount]
  omega

/-- Cutting a text into fragments keeps the number of its identifiers. -/
theorem split_calls_count (text : Text) (fragments : List Fragment)
    (cut : splitCalls text = .ok fragments) :
    fragmentsIdentifierCount fragments = identifierCount text := by
  simp only [identifierCount]
  fun_induction splitCalls text generalizing fragments with
  | case1 =>
      cases cut
      rfl
  | case2 symbol others start identifier after bare induction =>
      obtain ⟨rest, found, rfl⟩ := exists_of_map_ok cut
      have whole : symbol :: others = identifier ++ after := by
        simp [identifier, after]
      have counted := induction rest found
      rw [whole, count_name start fun _ member => mem_take_while member,
        count_inside (starts_outside_drop others), ← counted]
      simp [fragmentsIdentifierCount, Fragment.identifierCount, Nat.add_comm]
  | case3 => contradiction
  | case4 symbol others start identifier after gap argument behind called induction =>
      obtain ⟨rest, found, rfl⟩ := exists_of_map_ok cut
      obtain ⟨continued, blank⟩ := continuation_call called
      have whole : symbol :: others =
          identifier ++ gap ++ '(' :: argument ++ ')' :: behind := by
        calc symbol :: others = identifier ++ after := by simp [identifier, after]
          _ = _ := by rw [continued]; simp
      have counted := induction rest found
      rw [whole, count_call start (fun _ member => mem_take_while member)
        (fun _ member => mem_take_while (blank ▸ member)), ← counted]
      simp [fragmentsIdentifierCount, Fragment.identifierCount]
  | case5 symbol others start induction =>
      obtain ⟨rest, found, rfl⟩ := exists_of_map_ok cut
      have counted := induction rest found
      have free : ∀ other ∈ symbol :: others.takeWhile (fun other => !isIdentifierStart other),
          isIdentifierStart other = false := by
        intro other member
        rcases List.mem_cons.1 member with rfl | later
        · simpa using start
        · simpa using mem_take_while later
      have whole : symbol :: others =
          symbol :: others.takeWhile (fun other => !isIdentifierStart other) ++
            others.dropWhile (fun other => !isIdentifierStart other) := by simp
      rw [whole, count_plain_append free, ← counted]
      simp [fragmentsIdentifierCount, Fragment.identifierCount]

theorem not_start_of_digit {symbol : Char} (digit : symbol.isDigit) :
    isIdentifierStart symbol = false := by
  simp only [Char.isDigit, Bool.and_eq_true, decide_eq_true_eq, UInt32.le_iff_toNat_le,
    ge_iff_le] at digit
  have nine : ('9'.val).toNat = 57 := rfl
  have upper : ('A'.val).toNat = 65 := rfl
  have lower : ('a'.val).toNat = 97 := rfl
  have underscore : ('_'.val).toNat = 95 := rfl
  cases start : isIdentifierStart symbol with
  | false => rfl
  | true =>
      have classes : (decide (symbol.val ≥ 'A'.val ∧ symbol.val ≤ 'Z'.val) ||
          (decide (symbol.val ≥ 'a'.val) && decide (symbol.val ≤ 'z'.val)) ||
          symbol == '_') = true := start
      simp only [Bool.or_eq_true, Bool.and_eq_true, decide_eq_true_eq, beq_iff_eq,
        UInt32.le_iff_toNat_le, ge_iff_le] at classes
      rcases classes with (capital | small) | rfl <;> omega

theorem positional_free (magnitude : Decimal) :
    ∀ symbol ∈ magnitude.positional, isIdentifierStart symbol = false := by
  intro symbol member
  rcases Decimal.mem_positional member with digit | rfl
  · exact not_start_of_digit digit
  · decide

theorem display_count_le (value : Binary64) :
    countIdentifiers false (Binary64.display value) ≤ 1 := by
  have signFree : ∀ symbol ∈ Binary64.signText value, isIdentifierStart symbol = false := by
    intro symbol member
    unfold Binary64.signText at member
    split at member
    · rw [List.mem_singleton.1 member]
      decide
    · contradiction
  unfold Binary64.display
  split
  · decide
  · split
    · rw [count_plain_append signFree]
      have free := @count_plain_append _ []
        (positional_free (Binary64.shortest .upward (Binary64.indexOf value)))
      rw [List.append_nil] at free
      rw [free]
      exact Nat.zero_le 1
    · rw [count_plain_append signFree]
      decide

theorem splice_count_le (inside : Bool) (value : Binary64) (rest : Text) :
    countIdentifiers inside (splice value ++ rest) ≤ countIdentifiers false rest + 1 := by
  have shown := display_count_le value
  unfold splice
  split
  · simp only [List.cons_append, List.append_assoc, List.nil_append]
    rw [count_separator (by decide), count_separator (by decide),
      count_append_separator (by decide), count_separator (by decide)]
    omega
  · simp only [List.cons_append, List.append_assoc, List.nil_append]
    rw [count_separator (by decide), count_append_separator (by decide)]
    omega

/-- Writing values over constants adds no identifier. -/
theorem with_constants_count_le (settings : Settings) (text : Text) (fragments : List Fragment)
    (cut : splitCalls text = .ok fragments) :
    identifierCount (fragments.flatMap (Fragment.withConstants settings)) ≤ identifierCount text ∧
      (StartsOutside text →
        StartsOutside (fragments.flatMap (Fragment.withConstants settings))) := by
  simp only [identifierCount]
  fun_induction splitCalls text generalizing fragments with
  | case1 =>
      cases cut
      exact ⟨Nat.le_refl _, id⟩
  | case2 symbol others start identifier after bare induction =>
      obtain ⟨rest, found, rfl⟩ := exists_of_map_ok cut
      obtain ⟨counted, outside⟩ := induction rest found
      have whole : symbol :: others = identifier ++ after := by simp [identifier, after]
      refine ⟨?_, fun opening => ?_⟩
      · have total :
            countIdentifiers false (symbol :: others) = countIdentifiers false after + 1 := by
          rw [whole, count_name start fun _ member => mem_take_while member,
            count_inside (starts_outside_drop others)]
        rw [total]
        simp only [List.flatMap_cons, Fragment.withConstants]
        cases settings.constant? identifier with
        | none =>
            simp only [Option.map_none, Option.getD_none, identifier]
            rw [count_name start fun _ member => mem_take_while member,
              count_inside (outside (starts_outside_drop others))]
            omega
        | some value =>
            simp only [Option.map_some, Option.getD_some]
            have spliced := splice_count_le false value
              (rest.flatMap (Fragment.withConstants settings))
            omega
      · have closed := starts_outside_cons.1 opening
        rw [continue_of_start start] at closed
        contradiction
  | case3 => contradiction
  | case4 symbol others start identifier after gap argument behind called induction =>
      obtain ⟨rest, found, rfl⟩ := exists_of_map_ok cut
      obtain ⟨counted, _⟩ := induction rest found
      obtain ⟨continued, blank⟩ := continuation_call called
      have whole : symbol :: others =
          identifier ++ gap ++ '(' :: argument ++ ')' :: behind := by
        calc symbol :: others = identifier ++ after := by simp [identifier, after]
          _ = _ := by rw [continued]; simp
      have blankGap : ∀ other ∈ gap, isGapChar other := by
        rw [blank]
        exact fun _ member => mem_take_while member
      have total (remainder : Text) := @count_call symbol (others.takeWhile isIdentifierContinue)
        gap argument remainder start (fun _ member => mem_take_while member) blankGap
      refine ⟨?_, fun opening => ?_⟩
      · have kept := total (rest.flatMap (Fragment.withConstants settings))
        have given := total behind
        rw [whole, given]
        simp only [List.flatMap_cons, Fragment.withConstants, Fragment.source]
        simp only [identifier, List.append_assoc, List.cons_append, List.nil_append] at kept ⊢
        omega
      · have closed := starts_outside_cons.1 opening
        rw [continue_of_start start] at closed
        contradiction
  | case5 symbol others start induction =>
      obtain ⟨rest, found, rfl⟩ := exists_of_map_ok cut
      obtain ⟨counted, _⟩ := induction rest found
      have free : ∀ other ∈ symbol :: others.takeWhile (fun other => !isIdentifierStart other),
          isIdentifierStart other = false := by
        intro other member
        rcases List.mem_cons.1 member with rfl | later
        · simpa using start
        · simpa using mem_take_while later
      have whole : symbol :: others =
          symbol :: others.takeWhile (fun other => !isIdentifierStart other) ++
            others.dropWhile (fun other => !isIdentifierStart other) := by simp
      refine ⟨?_, fun opening => ?_⟩
      · rw [whole, count_plain_append free]
        simp only [List.flatMap_cons, Fragment.withConstants, Fragment.source]
        rw [count_plain_append free]
        exact counted
      · exact starts_outside_cons.2 (starts_outside_cons.1 opening)

theorem substitute_constants_count_le {settings : Settings} {text replaced : Text}
    (substituted : substituteConstants settings text = .ok replaced) :
    identifierCount replaced ≤ identifierCount text := by
  obtain ⟨fragments, cut, rfl⟩ := exists_of_map_ok substituted
  exact (with_constants_count_le settings text fragments cut).1

theorem argument_count_lt {fragments : List Fragment} {identifier gap argument : Text}
    (member : .call identifier gap argument ∈ fragments) :
    identifierCount argument < fragmentsIdentifierCount fragments := by
  induction fragments with
  | nil => contradiction
  | cons fragment rest induction =>
      rcases List.mem_cons.1 member with rfl | later
      · simp only [fragmentsIdentifierCount, Fragment.identifierCount]
        omega
      · exact Nat.lt_of_lt_of_le (induction later) (Nat.le_add_left ..)

end InfixCalculator
