import InfixCalculator.IdentifierCount
import Mathlib.Data.List.TakeWhile

/-!
Where one text may be put behind another without changing how either is cut. Two
texts grow together at the seam in two ways only: an identifier at the end of the
first goes on in the second, or a name at the end of the first becomes a call
because the second opens a parenthesis.
-/

namespace InfixCalculator

def IsIdentifier : Text → Prop
  | [] => False
  | symbol :: run => isIdentifierStart symbol ∧ ∀ other ∈ run, isIdentifierContinue other

instance : DecidablePred IsIdentifier
  | [] => isFalse id
  | symbol :: run =>
      @instDecidableAnd (isIdentifierStart symbol) (∀ other ∈ run, isIdentifierContinue other)
        inferInstance (List.decidableBAll _ run)

/-- The text ends with an identifier and any number of blanks behind it. -/
def EndsInName (blank : Char → Bool) (text : Text) : Prop :=
  ∃ front identifier gap, text = front ++ identifier ++ gap ∧ IsIdentifier identifier ∧
    ∀ symbol ∈ gap, blank symbol

/-- A name directly in front of the text would be called. -/
def Opens (text : Text) : Prop := (text.dropWhile isGapChar).head? = some '('

/-- The texts grow together where the second is put behind the first. -/
def Joins (text rest : Text) : Prop :=
  (EndsInName (fun _ => false) text ∧ ¬StartsOutside rest) ∨
    (EndsInName isGapChar text ∧ Opens rest)

variable {blank : Char → Bool}

theorem identifier_continues {identifier : Text} (isName : IsIdentifier identifier) :
    ∀ symbol ∈ identifier, isIdentifierContinue symbol := by
  match identifier, isName with
  | symbol :: run, ⟨start, whole⟩ =>
      intro other member
      rcases List.mem_cons.1 member with rfl | later
      · exact continue_of_start start
      · exact whole other later

theorem identifier_not_outside {identifier : Text} (isName : IsIdentifier identifier)
    (rest : Text) : ¬StartsOutside (identifier ++ rest) := by
  match identifier, isName with
  | symbol :: run, ⟨start, _⟩ =>
      intro outside
      have separator := starts_outside_cons.1 outside
      rw [continue_of_start start] at separator
      contradiction

theorem continue_not_blank {symbol : Char} (inside : isIdentifierContinue symbol) :
    isGapChar symbol = false := by
  cases blank : isGapChar symbol with
  | false => rfl
  | true =>
      rw [gap_not_continue blank] at inside
      contradiction

theorem identifier_visible {identifier : Text} (isName : IsIdentifier identifier) :
    ∃ symbol ∈ identifier, isGapChar symbol = false := by
  match identifier, isName with
  | symbol :: run, ⟨start, _⟩ =>
      exact ⟨symbol, List.mem_cons_self, continue_not_blank (continue_of_start start)⟩

theorem identifier_not_opens {identifier : Text} (isName : IsIdentifier identifier)
    (rest : Text) : ¬Opens (identifier ++ rest) := by
  match identifier, isName with
  | symbol :: run, ⟨start, _⟩ =>
      have visible := continue_not_blank (continue_of_start start)
      have other : symbol ≠ '(' := by
        intro same
        subst same
        contradiction
      simp [Opens, visible, other]

theorem ends_in_name_append {text : Text} (front : Text) (ends : EndsInName blank text) :
    EndsInName blank (front ++ text) := by
  rcases ends with ⟨before, identifier, gap, rfl, isName, blanks⟩
  exact ⟨front ++ before, identifier, gap, by simp only [List.append_assoc], isName, blanks⟩

theorem identifier_ends_in_name {identifier gap : Text} (isName : IsIdentifier identifier)
    (blanks : ∀ symbol ∈ gap, blank symbol) : EndsInName blank (identifier ++ gap) :=
  ⟨[], identifier, gap, rfl, isName, blanks⟩

theorem drop_while_subset {text : Text} (predicate : Char → Bool) :
    ∀ symbol ∈ text.dropWhile predicate, symbol ∈ text :=
  fun _ member => (List.dropWhile_suffix predicate).subset member

theorem ends_in_name_cons {symbol : Char} {rest : Text} :
    EndsInName blank (symbol :: rest) ↔
      (isIdentifierStart symbol ∧ ∀ other ∈ rest.dropWhile isIdentifierContinue, blank other) ∨
        EndsInName blank rest := by
  constructor
  · intro ends
    rcases ends with ⟨front, identifier, gap, whole, isName, blanks⟩
    match front, identifier, isName with
    | [], first :: run, ⟨start, continued⟩ =>
        have tail : rest = run ++ gap := (List.cons.inj whole).2
        obtain rfl : symbol = first := (List.cons.inj whole).1
        refine .inl ⟨start, fun other member => ?_⟩
        rw [tail, List.dropWhile_append_of_pos continued] at member
        exact blanks other (drop_while_subset _ other member)
    | first :: front, identifier, isName =>
        obtain ⟨rfl, rfl⟩ := List.cons.inj whole
        exact .inr ⟨front, identifier, gap, rfl, isName, blanks⟩
  · intro parts
    rcases parts with ⟨start, blanks⟩ | ends
    · refine ⟨[], symbol :: rest.takeWhile isIdentifierContinue,
        rest.dropWhile isIdentifierContinue, by simp, ⟨start, ?_⟩, blanks⟩
      exact fun other member => mem_take_while member
    · exact ends_in_name_append [symbol] ends

theorem not_ends_in_name_nil : ¬EndsInName blank [] := by
  intro ends
  rcases ends with ⟨front, identifier, gap, whole, isName, -⟩
  simp only [List.nil_eq, List.append_eq_nil_iff] at whole
  rw [whole.1.2] at isName
  exact isName

theorem ends_in_name_behind_free {front rest : Text}
    (free : ∀ symbol ∈ front, isIdentifierStart symbol = false)
    (ends : EndsInName blank (front ++ rest)) : EndsInName blank rest := by
  induction front with
  | nil => exact ends
  | cons symbol front induction =>
      rcases ends_in_name_cons.1 ends with ⟨start, -⟩ | later
      · rw [free symbol List.mem_cons_self] at start
        contradiction
      · exact induction (fun other member => free other (List.mem_cons_of_mem _ member)) later

/-- No name reaches over a symbol that is neither part of one nor blank. -/
theorem ends_in_name_behind {front rest : Text} {separator : Char}
    (outside : isIdentifierContinue separator = false) (visible : blank separator = false)
    (ends : EndsInName blank (front ++ separator :: rest)) : EndsInName blank rest := by
  induction front with
  | nil =>
      rcases ends_in_name_cons.1 ends with ⟨start, -⟩ | later
      · rw [not_start_of_not_continue outside] at start
        contradiction
      · exact later
  | cons symbol front induction =>
      rcases ends_in_name_cons.1 ends with ⟨-, blanks⟩ | later
      · have kept : separator ∈ (front ++ separator :: rest).dropWhile isIdentifierContinue := by
          rw [List.dropWhile_append]
          split
          · simp [outside]
          · exact List.mem_append_right _ List.mem_cons_self
        have blankSeparator := blanks separator kept
        rw [visible] at blankSeparator
        contradiction
      · exact induction later

theorem group_not_ends_in_name (front : Text) : ¬EndsInName isGapChar (front ++ [')']) := by
  intro ends
  exact not_ends_in_name_nil (ends_in_name_behind (by decide) (by decide) ends)

/-- Behind an identifier that does not go on, a name at the end lies in the rest,
or else the rest is blank. -/
theorem ends_in_name_behind_identifier {identifier rest : Text}
    (isName : IsIdentifier identifier) (outside : StartsOutside rest)
    (ends : EndsInName blank (identifier ++ rest)) :
    EndsInName blank rest ∨ ∀ symbol ∈ rest, blank symbol := by
  have continued := identifier_continues isName
  clear isName
  induction identifier with
  | nil => exact .inl ends
  | cons symbol run induction =>
      have others := fun other member => continued other (List.mem_cons_of_mem symbol member)
      rw [List.cons_append] at ends
      rcases ends_in_name_cons.1 ends with ⟨-, blanks⟩ | later
      · rw [List.dropWhile_append_of_pos others] at blanks
        have kept : rest.dropWhile isIdentifierContinue = rest := by
          cases rest with
          | nil => rfl
          | cons separator rest => simp [starts_outside_cons.1 outside]
        rw [kept] at blanks
        exact .inr blanks
      · exact induction later others

theorem starts_outside_nil : StartsOutside [] := by simp [StartsOutside]

theorem not_opens_nil : ¬Opens [] := by simp [Opens]

theorem opens_behind_gap {gap text : Text} (blanks : ∀ symbol ∈ gap, isGapChar symbol) :
    Opens (gap ++ text) ↔ Opens text := by
  rw [Opens, Opens, List.dropWhile_append_of_pos blanks]

theorem not_opens_cons {symbol : Char} (visible : isGapChar symbol = false)
    (other : symbol ≠ '(') (rest : Text) : ¬Opens (symbol :: rest) := by
  simp [Opens, visible, other]

theorem opens_behind_blank {symbol : Char} (blank : isGapChar symbol) (rest : Text) :
    Opens (symbol :: rest) ↔ Opens rest := by
  simp [Opens, blank]

theorem opens_append {text rest : Text} (visible : ¬∀ symbol ∈ text, isGapChar symbol) :
    Opens (text ++ rest) ↔ Opens text := by
  have filled : text.dropWhile isGapChar ≠ [] := by
    intro dropped
    exact visible (List.dropWhile_eq_nil_iff.1 dropped)
  rw [Opens, Opens, List.dropWhile_append, if_neg (by simpa using filled)]
  obtain ⟨symbol, others, shown⟩ := List.exists_cons_of_ne_nil filled
  rw [shown]
  rfl

theorem starts_outside_append {text rest : Text} (filled : text ≠ []) :
    StartsOutside (text ++ rest) ↔ StartsOutside text := by
  obtain ⟨symbol, others, rfl⟩ := List.exists_cons_of_ne_nil filled
  rw [List.cons_append, starts_outside_cons, starts_outside_cons]

theorem starts_outside_front {text rest : Text} (outside : StartsOutside (text ++ rest)) :
    StartsOutside text := by
  by_cases filled : text = []
  · exact filled ▸ starts_outside_nil
  · exact (starts_outside_append filled).1 outside

theorem opens_front {text : Text} (opening : Opens text) (rest : Text) : Opens (text ++ rest) := by
  have visible : ¬∀ symbol ∈ text, isGapChar symbol := by
    intro blanks
    rw [Opens, List.dropWhile_eq_nil_iff.2 blanks] at opening
    contradiction
  exact (opens_append visible).2 opening

theorem starts_outside_gap {gap : Text} (blanks : ∀ symbol ∈ gap, isGapChar symbol)
    (inner : Text) : StartsOutside (gap ++ '(' :: inner) := by
  cases gap with
  | nil => exact starts_outside_cons.2 (by decide)
  | cons symbol gap =>
      exact starts_outside_cons.2 (gap_not_continue (blanks symbol List.mem_cons_self))

theorem starts_outside_call {gap : Text} (blanks : ∀ symbol ∈ gap, isGapChar symbol)
    (argument behind : Text) : StartsOutside (gap ++ '(' :: argument ++ ')' :: behind) := by
  rw [List.append_assoc]
  exact starts_outside_gap blanks _

theorem not_joins_of_not_ends {text : Text} (unnamed : ¬EndsInName isGapChar text)
    (rest : Text) : ¬Joins text rest := by
  intro joined
  rcases joined with ⟨ends, -⟩ | ⟨ends, -⟩
  · rcases ends with ⟨front, identifier, gap, rfl, isName, blanks⟩
    exact unnamed ⟨front, identifier, gap, rfl, isName, fun symbol member =>
      absurd (blanks symbol member) (by simp)⟩
  · exact unnamed ends

theorem not_joins_of_apart {rest : Text} (outside : StartsOutside rest) (closed : ¬Opens rest)
    (text : Text) : ¬Joins text rest := by
  intro joined
  rcases joined with ⟨-, inside⟩ | ⟨-, opening⟩
  · exact inside outside
  · exact closed opening

theorem not_joins_nil (text : Text) : ¬Joins text [] :=
  not_joins_of_apart starts_outside_nil not_opens_nil text

/-- A symbol that is neither blank nor part of a name nor an opening parenthesis
keeps the texts on both sides apart. -/
theorem not_joins_separator {separator : Char} (outside : isIdentifierContinue separator = false)
    (visible : isGapChar separator = false) (other : separator ≠ '(') (text rest : Text) :
    ¬Joins text (separator :: rest) :=
  not_joins_of_apart (starts_outside_cons.2 outside) (not_opens_cons visible other rest) text

theorem joins_append {text rest : Text} (front : Text) (joined : Joins text rest) :
    Joins (front ++ text) rest := by
  rcases joined with ⟨ends, inside⟩ | ⟨ends, opening⟩
  · exact .inl ⟨ends_in_name_append front ends, inside⟩
  · exact .inr ⟨ends_in_name_append front ends, opening⟩

theorem joins_identifier_iff {identifier : Text} (isName : IsIdentifier identifier)
    (text rest : Text) :
    Joins text (identifier ++ rest) ↔ EndsInName (fun _ => false) text := by
  constructor
  · intro joined
    rcases joined with ⟨ends, -⟩ | ⟨-, opening⟩
    · exact ends
    · exact absurd opening (identifier_not_opens isName rest)
  · intro ends
    exact .inl ⟨ends, identifier_not_outside isName rest⟩

theorem joins_behind_free {symbol : Char} (outside : isIdentifierStart symbol = false)
    {text rest : Text} (joined : Joins (symbol :: text) rest) : Joins text rest := by
  have free : ∀ other ∈ [symbol], isIdentifierStart other = false := by simpa using outside
  rcases joined with ⟨ends, inside⟩ | ⟨ends, opening⟩
  · exact .inl ⟨ends_in_name_behind_free free ends, inside⟩
  · exact .inr ⟨ends_in_name_behind_free free ends, opening⟩

theorem joins_behind_separator {separator : Char}
    (outside : isIdentifierContinue separator = false) (visible : isGapChar separator = false)
    {front text rest : Text} (joined : Joins (front ++ separator :: text) rest) :
    Joins text rest := by
  rcases joined with ⟨ends, inside⟩ | ⟨ends, opening⟩
  · exact .inl ⟨ends_in_name_behind outside rfl ends, inside⟩
  · exact .inr ⟨ends_in_name_behind outside visible ends, opening⟩

/-- An identifier that is cut off in front of some text takes no part in what
happens at the end of the text. -/
theorem joins_behind_identifier {identifier text rest : Text} (isName : IsIdentifier identifier)
    (outside : StartsOutside (text ++ rest)) (uncalled : ¬Opens (text ++ rest))
    (joined : Joins (identifier ++ text) rest) : Joins text rest := by
  have outsideText := starts_outside_front outside
  rcases joined with ⟨ends, inside⟩ | ⟨ends, opening⟩
  · rcases ends_in_name_behind_identifier isName outsideText ends with later | nothing
    · exact .inl ⟨later, inside⟩
    · have empty : text = [] := by
        apply List.eq_nil_iff_forall_not_mem.2
        intro symbol member
        exact absurd (nothing symbol member) (by simp)
      rw [empty] at outside
      exact absurd outside inside
  · rcases ends_in_name_behind_identifier isName outsideText ends with later | blanks
    · exact .inr ⟨later, opening⟩
    · exact absurd ((opens_behind_gap blanks).2 opening) uncalled

/-- A bare identifier at the end of a text stays bare in front of what the text does
not grow together with. -/
theorem identifier_apart {identifier text rest : Text} (isName : IsIdentifier identifier)
    (outside : StartsOutside text) (uncalled : ¬Opens text)
    (apart : ¬Joins (identifier ++ text) rest) :
    StartsOutside (text ++ rest) ∧ ¬Opens (text ++ rest) := by
  constructor
  · by_cases filled : text = []
    · subst filled
      rw [List.append_nil] at apart
      by_contra inside
      have ends := @identifier_ends_in_name (fun _ => false) identifier [] isName nofun
      rw [List.append_nil] at ends
      exact apart (.inl ⟨ends, inside⟩)
    · exact (starts_outside_append filled).2 outside
  · intro opening
    by_cases blanks : ∀ symbol ∈ text, isGapChar symbol
    · rw [opens_behind_gap blanks] at opening
      exact apart (.inr ⟨identifier_ends_in_name isName blanks, opening⟩)
    · exact uncalled ((opens_append blanks).1 opening)

end InfixCalculator
