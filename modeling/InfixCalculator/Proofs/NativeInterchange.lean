import InfixCalculator.Interchange.NativeReader
import InfixCalculator.Interchange.NativeWriter
import InfixCalculator.Proofs.FloatLiterals
import InfixCalculator.Proofs.InterchangeLaws
import InfixCalculator.Proofs.JsonAcceptance

/-!
A reader and a writer that are lawful. The reader folds over the members of an object; what it has
seen is what the members name. It finds settings in documents of the grammar only.
-/

namespace InfixCalculator

open Json

/-! Values -/

theorem float_iff {reading : NumberReading} {value : Json} {number : Binary64} :
    Json.float? reading value = some number ↔ SpellsFloat reading value number := by
  constructor
  · intro read
    cases value with
    | number literal =>
        simp only [Json.float?, Option.ite_none_right_eq_some, Option.some.injEq] at read
        obtain ⟨finite, rfl⟩ := read
        exact .literal finite
    | _ => contradiction
  · rintro ⟨finite⟩
    exact if_pos finite

theorem named_iff {content : StringContent} {associativity : Associativity} :
    associativity?.named? content = some associativity ↔
      content = some associativity.name.toList := by
  have distinct : Associativity.left.name.toList ≠ Associativity.right.name.toList := by decide
  unfold associativity?.named?
  by_cases left : content = some Associativity.left.name.toList
  · subst left
    cases associativity with
    | left => simp
    | right => simpa using distinct
  · by_cases right : content = some Associativity.right.name.toList
    · subst right
      cases associativity with
      | left => simp [distinct.symm]
      | right => simp [distinct.symm]
    · cases associativity <;> simp [left, right]

theorem associativity_iff {value : Json} {associativity : Associativity} :
    Json.associativity? value = some associativity ↔ SpellsAssociativity value associativity := by
  constructor
  · intro read
    unfold Json.associativity? at read
    split at read
    · rw [named_iff] at read
      subst read
      exact .name associativity
    · rw [named_iff] at read
      subst read
      exact .tag associativity
    · contradiction
  · intro spelled
    cases spelled with
    | left => exact named_iff.2 rfl
    | right => exact named_iff.2 rfl
    | leftTag => exact named_iff.2 rfl
    | rightTag => exact named_iff.2 rfl

/-! Objects -/

theorem is_named_append {members : List (StringContent × Json)} {member : StringContent × Json}
    {field : Settings.Field} :
    IsNamed (members ++ [member]) field ↔
      IsNamed members field ∨ member.1 = some field.name.toList := by
  simp [IsNamed, eq_comm]

namespace ValueReader

variable {reader : ValueReader} {members : List (StringContent × Json)} {visited : Visited}

theorem visit_unknown {key : Text} (unknown : ∀ field : Settings.Field, field.name.toList ≠ key)
    (value : Json) : reader.visit? visited (some key, value) = some visited := by
  simp only [visit?, bind, Option.bind_some, Settings.Field.of_name_none_iff.2 unknown]

theorem visit_named (field : Settings.Field) (value : Json) :
    reader.visit? visited (some field.name.toList, value) =
      if field ∈ visited.seen then none
      else (reader.assign? field value visited.settings).map fun settings =>
        ⟨settings, field :: visited.seen⟩ := by
  simp only [visit?, bind, Option.bind_some, Settings.Field.of_name_iff.2 rfl,
    Option.map_eq_bind, Function.comp_def]

theorem seen_of_visit {member : StringContent × Json} {next : Visited}
    (found : reader.visit? visited member = some next) (field : Settings.Field) :
    field ∈ next.seen ↔ field ∈ visited.seen ∨ member.1 = some field.name.toList := by
  obtain ⟨key, value⟩ := member
  cases key with
  | none => contradiction
  | some key =>
      cases known : Settings.Field.ofName? key with
      | none =>
          have other := Settings.Field.of_name_none_iff.1 known
          rw [visit_unknown other] at found
          cases found
          have unnamed : some key ≠ some field.name.toList :=
            fun same => other field (Option.some.inj same).symm
          exact (or_iff_left unnamed).symm
      | some named =>
          obtain rfl := Settings.Field.of_name_iff.1 known
          rw [visit_named, Option.ite_none_left_eq_some] at found
          obtain ⟨settings, -, rfl⟩ := Option.map_eq_some_iff.1 found.2
          rw [List.mem_cons, Option.some.injEq, Settings.Field.name_inj]
          exact or_comm.trans (or_congr_right eq_comm)

theorem visit_append (members : List (StringContent × Json)) (member : StringContent × Json)
    (start : Visited) :
    (members ++ [member]).foldlM reader.visit? start =
      (members.foldlM reader.visit? start).bind (reader.visit? · member) := by
  rw [List.foldlM_append]
  apply Option.bind_congr
  intro visited _
  exact bind_pure (reader.visit? visited member)

/-- What was seen are the fields that the members name. -/
theorem seen_of_members (found : members.foldlM reader.visit? ⟨.standard, []⟩ = some visited)
    (field : Settings.Field) : field ∈ visited.seen ↔ IsNamed members field := by
  induction members using List.reverseRecOn generalizing visited with
  | nil =>
      cases found
      simp [IsNamed]
  | append_singleton members member induction =>
      rw [visit_append] at found
      obtain ⟨before, earlier, last⟩ := Option.bind_eq_some_iff.1 found
      rw [is_named_append, seen_of_visit last, induction earlier]

theorem settings_append (members : List (StringContent × Json)) (member : StringContent × Json) :
    reader.settings? (.object (members ++ [member])) =
      (members.foldlM reader.visit? ⟨.standard, []⟩).bind fun visited =>
        (reader.visit? visited member).map Visited.settings := by
  rw [settings?, visit_append, Option.map_bind]
  rfl

theorem settings_unknown {key : Text} (unknown : ∀ field : Settings.Field, field.name.toList ≠ key)
    (members : List (StringContent × Json)) (value : Json) :
    reader.settings? (.object (members ++ [(some key, value)])) =
      reader.settings? (.object members) := by
  rw [settings_append, settings?, Option.map_eq_bind]
  simp only [visit_unknown unknown, Option.map_some, Function.comp_def]

theorem settings_first {field : Settings.Field} (absent : ¬IsNamed members field) (value : Json) :
    reader.settings? (.object (members ++ [(some field.name.toList, value)])) =
      (reader.settings? (.object members)).bind (reader.assign? field value) := by
  rw [settings_append, settings?]
  cases found : members.foldlM reader.visit? ⟨.standard, []⟩ with
  | none => rfl
  | some visited =>
      have unseen : field ∉ visited.seen :=
        fun seen => absent ((seen_of_members found field).1 seen)
      simp only [visit_named, if_neg unseen, Option.bind_some, Option.map_some, Option.map_map,
        Function.comp_def, Option.map_id']

theorem settings_again {field : Settings.Field} (present : IsNamed members field) (value : Json) :
    reader.settings? (.object (members ++ [(some field.name.toList, value)])) = none := by
  rw [settings_append]
  cases found : members.foldlM reader.visit? ⟨.standard, []⟩ with
  | none => rfl
  | some visited =>
      have seen : field ∈ visited.seen := (seen_of_members found field).2 present
      simp only [visit_named, if_pos seen, Option.bind_some, Option.map_none]

theorem visit_items_append {fields : List Settings.Field} {values : List Json}
    {field : Settings.Field} (next : fields[values.length]? = some field) (value : Json)
    (settings : Settings) :
    reader.visitItems? fields (values ++ [value]) settings =
      (reader.visitItems? fields values settings).bind (reader.assign? field value) := by
  induction values generalizing fields settings with
  | nil =>
      obtain ⟨others, rfl⟩ : ∃ others, fields = field :: others := by
        cases fields with
        | nil => contradiction
        | cons first others => exact ⟨others, by simpa using next⟩
      simp [visitItems?, bind]
  | cons first values induction =>
      cases fields with
      | nil => contradiction
      | cons top fields =>
          have later := induction (by simpa using next)
          simp only [List.cons_append, visitItems?, bind, later, Option.bind_assoc]

end ValueReader

theorem native_reader_lawful (reading : NumberReading) :
    (DocumentReader.native reading).IsLawful where
  document {text value} document := by
    have read := read_of_document document
    simp only [DocumentReader.native, read, bind, Option.bind_some]
    cases (ValueReader.native reading).settings? value <;> rfl
  float := float_iff
  associativity := associativity_iff
  noMembers := rfl
  unreadable members value := by
    change (ValueReader.native reading).settings? (.object (members ++ [(none, value)])) = none
    rw [ValueReader.settings_append]
    cases members.foldlM (ValueReader.native reading).visit? ⟨.standard, []⟩ <;> rfl
  unknown := ValueReader.settings_unknown
  first := ValueReader.settings_first
  again := ValueReader.settings_again
  noItems := rfl
  item next value := ValueReader.visit_items_append next value .standard

theorem native_document_iff {reading : NumberReading} {text : Text} {settings : Settings} :
    (DocumentReader.native reading).document text = .ok settings ↔
      ∃ value, IsDocument text value ∧
        (DocumentReader.native reading).settings? value = some settings := by
  constructor
  · intro found
    simp only [DocumentReader.native] at found
    split at found
    · contradiction
    · rename_i read
      cases found
      obtain ⟨value, valueFound, settingsFound⟩ := Option.bind_eq_some_iff.1 read
      exact ⟨value, read_iff.1 valueFound, settingsFound⟩
  · rintro ⟨value, document, found⟩
    have same := (native_reader_lawful reading).document document
    rw [found] at same
    cases answer : (DocumentReader.native reading).document text with
    | error cause =>
        rw [answer] at same
        contradiction
    | ok other =>
        rw [answer] at same
        cases same
        rfl

/-! The writer -/

theorem map_of_written {Value : Type} {write : Value → Text} {values : List Value}
    {texts : List Text}
    (written : List.Forall₂ (fun value text => Except.ok (write value) = .ok (ε := String) text)
      values texts) : texts = values.map write := by
  induction written with
  | nil => rfl
  | cons first others induction => rw [induction, List.map_cons, ← Except.ok.inj first]

theorem native_writer_lawful : DocumentWriter.native.IsLawful where
  finite number finite :=
    ⟨_, _, congrArg Except.ok (if_pos finite), NumberLiteral.of_float_spelled number,
      NumberLiteral.of_float_value finite⟩
  nonfinite number nonfinite := congrArg Except.ok (if_neg (by simp [nonfinite]))
  string content := by
    obtain ⟨units, spelled, stands⟩ := escaped_spells content.toList
    exact ⟨_, units, rfl, spelled, stands⟩
  left := rfl
  right := rfl
  settings := by
    rintro settings _ _ _ _ ⟨⟩ ⟨⟩ ⟨⟩ ⟨⟩
    rfl
  value := by
    rintro result _ ⟨⟩
    rfl
  refusal := by
    rintro message _ ⟨⟩
    rfl
  record := by
    rintro record _ _ operands ⟨⟩ written ⟨⟩
    rw [map_of_written written]
    rfl
  history written := by
    rw [map_of_written written]
    rfl

end InfixCalculator
