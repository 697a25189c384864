import InfixCalculator.Proofs.JsonWriting
import InfixCalculator.Proofs.NativeInterchange
import InfixCalculator.Settings.Document
import Mathlib.Data.List.Nodup

/-!
What a document says about the settings, for any lawful reader. Only members with the name of a
field count, wherever they stand and however their keys are spelled; a field without a member
keeps its standard value, and a field with two members spoils the document.
-/

namespace InfixCalculator

namespace Settings

open Json

def occurrences (members : List (StringContent × Json)) (field : Field) : Nat :=
  members.countP fun member => member.1 = some field.name.toList

/-- A field is what the member with its name spells, or the standard value where no member
has the name. -/
structure IsField (reading : NumberReading) (members : List (StringContent × Json)) (field : Field)
    (standardValue value : field.Value) : Prop where
  spelled : ∀ json, (some field.name.toList, json) ∈ members → field.Spells reading json value
  missing : (∀ json, (some field.name.toList, json) ∉ members) → value = standardValue

structure Describes (reading : NumberReading) (members : List (StringContent × Json))
    (settings : Settings) : Prop where
  pi : IsField reading members .pi standard.pi settings.pi
  e : IsField reading members .e standard.e settings.e
  powerAssociativity : IsField reading members .powerAssociativity standard.powerAssociativity
    settings.powerAssociativity
  tangentTolerance : IsField reading members .tangentTolerance standard.tangentTolerance
    settings.tangentTolerance

theorem describes_iff {reading : NumberReading} {members : List (StringContent × Json)}
    {settings : Settings} :
    Describes reading members settings ↔
      ∀ field, IsField reading members field (standard.get field) (settings.get field) := by
  constructor
  · intro describes field
    cases field with
    | pi => exact describes.pi
    | e => exact describes.e
    | powerAssociativity => exact describes.powerAssociativity
    | tangentTolerance => exact describes.tangentTolerance
  · intro each
    exact ⟨each .pi, each .e, each .powerAssociativity, each .tangentTolerance⟩

/-- All keys are text and none of them names a field for a second time. -/
structure IsRegular (members : List (StringContent × Json)) : Prop where
  text : ∀ member ∈ members, member.1.isSome
  once : ∀ field, occurrences members field ≤ 1

/-- Members of an object that may be settings, among any others. -/
structure WellTyped (reading : NumberReading) (members : List (StringContent × Json)) : Prop
    extends IsRegular members where
  typed : ∀ (field : Field) (json : Json), (some field.name.toList, json) ∈ members →
    ∃ value, field.Spells reading json value

/-! One more member -/

section

variable {reading : NumberReading} {members : List (StringContent × Json)} {field : Field}
  {key : StringContent} {json : Json}

theorem is_named_iff :
    IsNamed members field ↔ ∃ json, (some field.name.toList, json) ∈ members := by
  simp [IsNamed]

theorem occurrences_zero_iff : occurrences members field = 0 ↔ ¬IsNamed members field := by
  rw [occurrences, List.countP_eq_zero, IsNamed, List.mem_map]
  simp only [decide_eq_true_eq, not_exists, not_and]

theorem member_unique (once : occurrences members field ≤ 1) {first second : Json}
    (one : (some field.name.toList, first) ∈ members)
    (other : (some field.name.toList, second) ∈ members) : first = second := by
  rw [occurrences, List.countP_eq_length_filter] at once
  have listed {json : Json} (member : (some field.name.toList, json) ∈ members) :
      (some field.name.toList, json) ∈
        members.filter fun member => member.1 = some field.name.toList :=
    List.mem_filter.2 ⟨member, by simp⟩
  match found : members.filter fun member => member.1 = some field.name.toList with
  | [] => simpa [found] using listed one
  | [only] =>
      have first := listed one
      have second := listed other
      rw [found, List.mem_singleton] at first second
      exact (Prod.mk.inj (first.trans second.symm)).2
  | _ :: _ :: _ =>
      rw [found] at once
      simp at once

theorem is_regular_nil : IsRegular [] := ⟨by simp, by simp [occurrences]⟩

theorem is_regular_append :
    IsRegular (members ++ [(key, json)]) ↔ IsRegular members ∧ key.isSome ∧
      ∀ field : Field, key = some field.name.toList → ¬IsNamed members field := by
  have counted (field : Field) : occurrences (members ++ [(key, json)]) field =
      occurrences members field + if key = some field.name.toList then 1 else 0 := by
    simp [occurrences, List.countP_append, List.countP_singleton]
  constructor
  · intro regular
    obtain ⟨text, last⟩ := List.forall_mem_append.1 regular.text
    refine ⟨⟨text, fun field => ?_⟩, last _ (List.mem_singleton_self _), fun field named => ?_⟩
    · have once := regular.once field
      rw [counted] at once
      omega
    · have once := regular.once field
      rw [counted, if_pos named] at once
      exact occurrences_zero_iff.1 (by omega)
  · rintro ⟨regular, text, new⟩
    have last : ∀ member ∈ [(key, json)], member.1.isSome := by simpa using text
    refine ⟨List.forall_mem_append.2 ⟨regular.text, last⟩, fun field => ?_⟩
    rw [counted]
    split
    · rename_i named
      rw [occurrences_zero_iff.2 (new field named)]
    · exact regular.once field

theorem is_regular_permuted {others : List (StringContent × Json)} (permuted : members.Perm others)
    (regular : IsRegular members) : IsRegular others := by
  refine ⟨fun member listed => regular.text member (permuted.mem_iff.2 listed), fun field => ?_⟩
  rw [occurrences, ← permuted.countP_eq]
  exact regular.once field

theorem is_field_congr {others : List (StringContent × Json)} {standardValue value : field.Value}
    (same : ∀ json, (some field.name.toList, json) ∈ members ↔
      (some field.name.toList, json) ∈ others) :
    IsField reading members field standardValue value ↔
      IsField reading others field standardValue value := by
  constructor
  · rintro ⟨spelled, missing⟩
    simp only [same] at spelled missing
    exact ⟨spelled, missing⟩
  · rintro ⟨spelled, missing⟩
    simp only [← same] at spelled missing
    exact ⟨spelled, missing⟩

theorem is_field_append_other (other : key ≠ some field.name.toList)
    {standardValue value : field.Value} :
    IsField reading (members ++ [(key, json)]) field standardValue value ↔
      IsField reading members field standardValue value := by
  apply is_field_congr
  simp [other.symm]

theorem is_field_append_same (absent : ¬IsNamed members field)
    {standardValue value : field.Value} :
    IsField reading (members ++ [(some field.name.toList, json)]) field standardValue value ↔
      field.Spells reading json value := by
  rw [is_named_iff, not_exists] at absent
  have listed (found : Json) :
      (some field.name.toList, found) ∈ members ++ [(some field.name.toList, json)] ↔
        found = json := by
    simp [absent found]
  constructor
  · intro isField
    exact isField.spelled json ((listed json).2 rfl)
  · intro spelled
    refine ⟨fun found member => ?_, fun missing => absurd ((listed json).2 rfl) (missing json)⟩
    rwa [(listed found).1 member]

theorem is_field_absent (absent : ¬IsNamed members field) {standardValue value : field.Value} :
    IsField reading members field standardValue value ↔ value = standardValue := by
  rw [is_named_iff, not_exists] at absent
  exact ⟨fun isField => isField.missing absent,
    fun same => ⟨fun json member => absurd member (absent json), fun _ => same⟩⟩

theorem describes_nil {settings : Settings} :
    Describes reading [] settings ↔ standard = settings := by
  have absent (field : Field) : ¬IsNamed [] field := by simp [IsNamed]
  simp only [describes_iff, is_field_absent (absent _)]
  constructor
  · intro same
    exact (ext_get same).symm
  · rintro rfl field
    rfl

theorem describes_append_other (other : ∀ field : Field, key ≠ some field.name.toList)
    {settings : Settings} :
    Describes reading (members ++ [(key, json)]) settings ↔
      Describes reading members settings := by
  simp only [describes_iff, is_field_append_other (other _)]

/-- A first member for a field replaces the standard value in what the others describe. -/
theorem describes_append_same (absent : ¬IsNamed members field) {settings : Settings} :
    Describes reading (members ++ [(some field.name.toList, json)]) settings ↔
      ∃ before, Describes reading members before ∧
        ∃ value, field.Spells reading json value ∧ before.set field value = settings := by
  have unnamed {other : Field} (different : other ≠ field) :
      some field.name.toList ≠ some other.name.toList := by
    intro same
    exact different (Field.name_inj.1 (Option.some.inj same)).symm
  simp only [describes_iff]
  constructor
  · intro describes
    refine ⟨settings.set field (standard.get field), fun other => ?_, settings.get field,
      (is_field_append_same absent).1 (describes field), by simp⟩
    by_cases different : other = field
    · subst different
      rw [get_set, is_field_absent absent]
    · rw [get_set_other settings different]
      exact (is_field_append_other (unnamed different)).1 (describes other)
  · rintro ⟨before, describes, value, spelled, rfl⟩ other
    by_cases different : other = field
    · subst different
      rw [get_set]
      exact (is_field_append_same absent).2 spelled
    · rw [get_set_other before different]
      exact (is_field_append_other (unnamed different)).2 (describes other)

end

/-! Objects -/

section

variable {reader : DocumentReader} (lawful : reader.IsLawful)

include lawful

theorem field_iff {field : Field} {json : Json} {value : field.Value} :
    reader.field? field json = some value ↔ field.Spells reader.literal json value := by
  cases field with
  | powerAssociativity => exact lawful.associativity
  | _ => exact lawful.float

theorem settings_first_iff {members : List (StringContent × Json)} {field : Field}
    (absent : ¬IsNamed members field) {json : Json} {settings : Settings} :
    reader.settings? (.object (members ++ [(some field.name.toList, json)])) = some settings ↔
      ∃ before, reader.settings? (.object members) = some before ∧
        ∃ value, field.Spells reader.literal json value ∧ before.set field value = settings := by
  simp only [lawful.first absent, Option.bind_eq_some_iff, ValueReader.assign?,
    Option.map_eq_some_iff, field_iff lawful]

/-- An object is read as the settings that its members describe, if none of them is in the way. -/
theorem settings_iff {members : List (StringContent × Json)} {settings : Settings} :
    reader.settings? (.object members) = some settings ↔
      IsRegular members ∧ Describes reader.literal members settings := by
  induction members using List.reverseRecOn generalizing settings with
  | nil => rw [lawful.noMembers, Option.some.injEq, describes_nil, and_iff_right is_regular_nil]
  | append_singleton members member induction =>
      obtain ⟨key, json⟩ := member
      cases key with
      | none => simp [lawful.unreadable, is_regular_append]
      | some key =>
          by_cases known : ∃ field : Field, field.name.toList = key
          · obtain ⟨field, rfl⟩ := known
            by_cases present : IsNamed members field
            · rw [lawful.again present, is_regular_append]
              simp [Field.name_inj, present]
            · have regular : IsRegular (members ++ [(some field.name.toList, json)]) ↔
                  IsRegular members := by
                simp [is_regular_append, Field.name_inj, present]
              rw [settings_first_iff lawful present, regular, describes_append_same present]
              simp only [induction, and_assoc, exists_and_left]
          · rw [not_exists] at known
            have other (field : Field) : some key ≠ some field.name.toList :=
              fun same => known field (Option.some.inj same).symm
            rw [lawful.unknown known, induction, is_regular_append, describes_append_other other]
            simp [other]

theorem settings_of_well_typed {members : List (StringContent × Json)}
    (wellTyped : WellTyped reader.literal members) :
    ∃ settings, reader.settings? (.object members) = some settings ∧
      ∀ other, Describes reader.literal members other ↔ other = settings := by
  have field_exists (field : Field) :
      ∃ value, IsField reader.literal members field (standard.get field) value := by
    by_cases named : IsNamed members field
    · obtain ⟨json, member⟩ := is_named_iff.1 named
      obtain ⟨value, spelled⟩ := wellTyped.typed field json member
      refine ⟨value, fun other listed => ?_, fun missing => absurd member (missing json)⟩
      rwa [member_unique (wellTyped.once field) listed member]
    · exact ⟨_, (is_field_absent named).2 rfl⟩
  choose values areFields using field_exists
  have describes : Describes reader.literal members (ofFields values) := by
    rw [describes_iff]
    intro field
    rw [get_of_fields]
    exact areFields field
  have read := (settings_iff lawful).2 ⟨wellTyped.toIsRegular, describes⟩
  refine ⟨_, read, fun other => ⟨fun alike => ?_, fun same => same ▸ describes⟩⟩
  have again := (settings_iff lawful).2 ⟨wellTyped.toIsRegular, alike⟩
  exact Option.some.inj (again.symm.trans read)

end

/-! Arrays -/

/-- Members that give the first fields in their order. -/
def fieldMembers (values : List Json) : List (StringContent × Json) :=
  (Field.all.zip values).map fun (field, value) => (some field.name.toList, value)

theorem mem_field_members {values : List Json} {place : Nat} {field : Field} {json : Json}
    (listed : Field.all[place]? = some field) :
    (some field.name.toList, json) ∈ fieldMembers values ↔ values[place]? = some json := by
  have distinct : Field.all.Nodup := by decide
  have bound := (List.getElem?_eq_some_iff.1 listed).1
  simp only [fieldMembers, List.mem_map, Prod.mk.injEq, Option.some.injEq, Field.name_inj]
  constructor
  · rintro ⟨⟨other, value⟩, member, rfl, rfl⟩
    obtain ⟨found, same⟩ := List.mem_iff_getElem?.1 member
    obtain ⟨field, value⟩ := List.getElem?_zip_eq_some.1 same
    rw [(List.getElem?_inj bound distinct).1 (listed.trans field.symm)]
    exact value
  · intro found
    refine ⟨(field, json), ?_, rfl, rfl⟩
    exact List.mem_of_getElem? (List.getElem?_zip_eq_some.2 ⟨listed, found⟩)

theorem zip_append_singleton {fields : List Field} {values : List Json} {field : Field}
    (next : fields[values.length]? = some field) (value : Json) :
    fields.zip (values ++ [value]) = fields.zip values ++ [(field, value)] := by
  induction values generalizing fields with
  | nil =>
      cases fields with
      | nil => contradiction
      | cons first others =>
          obtain rfl : first = field := by simpa using next
          simp
  | cons first values induction =>
      cases fields with
      | nil => contradiction
      | cons top fields =>
          rw [List.cons_append, List.zip_cons_cons, induction (by simpa using next)]
          rfl

theorem field_members_append {values : List Json} {field : Field}
    (next : Field.all[values.length]? = some field) (value : Json) :
    fieldMembers (values ++ [value]) =
      fieldMembers values ++ [(some field.name.toList, value)] := by
  rw [fieldMembers, zip_append_singleton next, List.map_append]
  rfl

section

variable {reader : DocumentReader} (lawful : reader.IsLawful)

include lawful

theorem settings_of_array {values : List Json} (few : values.length ≤ Field.all.length) :
    reader.settings? (.array values) = reader.settings? (.object (fieldMembers values)) := by
  induction values using List.reverseRecOn with
  | nil => exact lawful.noItems.trans lawful.noMembers.symm
  | append_singleton values value induction =>
      rw [List.length_append, List.length_singleton] at few
      obtain ⟨field, next⟩ : ∃ field, Field.all[values.length]? = some field :=
        ⟨_, List.getElem?_eq_getElem few⟩
      have absent : ¬IsNamed (fieldMembers values) field := by
        rw [is_named_iff]
        rintro ⟨json, member⟩
        rw [mem_field_members next, List.getElem?_eq_none (Nat.le_refl _)] at member
        contradiction
      rw [lawful.item next, field_members_append next, lawful.first absent,
        induction (Nat.le_of_succ_le few)]

theorem settings_of_permuted {members others : List (StringContent × Json)}
    (permuted : members.Perm others) :
    reader.settings? (.object members) = reader.settings? (.object others) := by
  have regular : IsRegular members ↔ IsRegular others :=
    ⟨is_regular_permuted permuted, is_regular_permuted permuted.symm⟩
  have described (settings : Settings) : Describes reader.literal members settings ↔
      Describes reader.literal others settings := by
    simp only [describes_iff, is_field_congr fun _ => permuted.mem_iff]
  apply Option.ext
  intro settings
  rw [settings_iff lawful, settings_iff lawful, regular, described]

end

/-! Texts -/

structure AreFinite (settings : Settings) : Prop where
  pi : Binary64.isFinite settings.pi
  e : Binary64.isFinite settings.e
  tangentTolerance : Binary64.isFinite settings.tangentTolerance

theorem validate_finite {settings : Settings} (finite : settings.AreFinite) :
    settings.validate =
      if settings.tangentTolerance ≤ 0.0 then
        .error (.outOfRange Field.tangentTolerance.name settings.tangentTolerance)
      else .ok settings := by
  simp [validate, finite.pi, finite.e, finite.tangentTolerance]

theorem finite_of_spelled {reading : NumberReading} {members : List (StringContent × Json)}
    {key : StringContent} {standardValue value : Binary64}
    (spelled : ∀ json, (key, json) ∈ members → SpellsFloat reading json value)
    (missing : (∀ json, (key, json) ∉ members) → value = standardValue)
    (finite : Binary64.isFinite standardValue) : Binary64.isFinite value := by
  by_cases present : ∃ json, (key, json) ∈ members
  · obtain ⟨json, member⟩ := present
    cases spelled json member with
    | literal finite => exact finite
  · rw [missing (not_exists.1 present)]
    exact finite

theorem finite_of_described {reading : NumberReading} {members : List (StringContent × Json)}
    {settings : Settings} (describes : Describes reading members settings) :
    settings.AreFinite := by
  have standardFinite : standard.AreFinite :=
    ⟨by decide +kernel, by decide +kernel, by decide +kernel⟩
  constructor
  · exact finite_of_spelled describes.pi.spelled describes.pi.missing standardFinite.pi
  · exact finite_of_spelled describes.e.spelled describes.e.missing standardFinite.e
  · exact finite_of_spelled describes.tangentTolerance.spelled describes.tangentTolerance.missing
      standardFinite.tangentTolerance

/-- The same answer, or a complaint about the document in both cases. -/
inductive SameAnswer :
    Except SettingsFailure Settings → Except SettingsFailure Settings → Prop where
  | same (answer : Except SettingsFailure Settings) : SameAnswer answer answer
  | malformed (cause other : String) :
      SameAnswer (.error (.malformed cause)) (.error (.malformed other))

section

variable {reader : DocumentReader} (lawful : reader.IsLawful) {text : Text} {value : Json}

include lawful

theorem of_text_of_some {settings : Settings} (document : IsDocument text value)
    (read : reader.settings? value = some settings) : ofText reader text = settings.validate := by
  have answer := lawful.document document
  rw [read] at answer
  unfold ofText
  cases found : reader.document text with
  | error cause =>
      rw [found] at answer
      contradiction
  | ok settings =>
      rw [found] at answer
      cases answer
      rfl

theorem of_text_of_none (document : IsDocument text value) (read : reader.settings? value = none) :
    ∃ cause, ofText reader text = .error (.malformed cause) := by
  have answer := lawful.document document
  rw [read] at answer
  unfold ofText
  cases found : reader.document text with
  | error cause => exact ⟨cause, rfl⟩
  | ok settings =>
      rw [found] at answer
      contradiction

theorem of_text_same {otherText : Text} {other : Json} (document : IsDocument text value)
    (otherDocument : IsDocument otherText other)
    (same : reader.settings? value = reader.settings? other) :
    SameAnswer (ofText reader text) (ofText reader otherText) := by
  cases read : reader.settings? value with
  | none =>
      obtain ⟨cause, one⟩ := of_text_of_none lawful document read
      obtain ⟨other, two⟩ := of_text_of_none lawful otherDocument (same ▸ read)
      rw [one, two]
      exact .malformed cause other
  | some settings =>
      rw [of_text_of_some lawful document read, of_text_of_some lawful otherDocument (same ▸ read)]
      exact .same _

end

/-- An object means its members with the names of fields, in any order, among any others and
however they are spelled, and the standard settings otherwise. A name that occurs twice spoils
it, and an array of the first fields means the same as an object of them. -/
theorem of_text_of_members {reader : DocumentReader} (lawful : reader.IsLawful) :
    Field.all.map Field.name = ["pi", "e", "power_associativity", "tan_tolerance"] ∧
    (∀ text members, IsDocument text (.object members) → WellTyped reader.literal members →
      ∃ settings, (∀ other, Describes reader.literal members other ↔ other = settings) ∧
        ofText reader text =
          if settings.tangentTolerance ≤ 0.0 then
            .error (.outOfRange Field.tangentTolerance.name settings.tangentTolerance)
          else .ok settings) ∧
    (∀ text members, IsDocument text (.object members) →
      ∀ field, 2 ≤ occurrences members field →
        ∃ cause, ofText reader text = .error (.malformed cause)) ∧
    (∀ values members listText text, values.length ≤ Field.all.length →
      members.Perm (fieldMembers values) → IsDocument listText (.array values) →
      IsDocument text (.object members) →
        SameAnswer (ofText reader listText) (ofText reader text)) := by
  refine ⟨rfl, ?_, ?_, ?_⟩
  · intro text members document wellTyped
    obtain ⟨settings, read, means⟩ := settings_of_well_typed lawful wellTyped
    have finite := finite_of_described ((means settings).2 rfl)
    exact ⟨settings, means, by rw [of_text_of_some lawful document read, validate_finite finite]⟩
  · intro text members document field repeated
    apply of_text_of_none lawful document
    rw [Option.eq_none_iff_forall_ne_some]
    intro settings read
    have once := ((settings_iff lawful).1 read).1.once field
    omega
  · intro values members listText text few permuted list document
    apply of_text_same lawful list document
    rw [settings_of_array lawful few, settings_of_permuted lawful permuted]

def three : NumberLiteral := ⟨false, ['3'], [], 0⟩

/-- An unknown member and the first constant. -/
def someMembers : List (StringContent × Json) :=
  (some ['x'], .array []) :: fieldMembers [.number three]

/-- The members with a blank and with an escape in the second key. -/
def someText : Text :=
  ['\x7b', '"', 'x', '"', ':', '[', ']', ',', ' ', '"', '\\', 'u', '0', '0', '7', '0', 'i', '"',
    ':', '3', '\x7d']

/-- The first constant twice, with an unknown member between. -/
def twiceText : Text :=
  compactObject [("pi", three.text), ("x", compactArray []), ("pi", three.text)]

theorem three_document : IsDocument three.text (.number three) :=
  lexeme_spelled_alone (.number (literal_spells
    (.inr ⟨⟨by simp [three], by simp [three]⟩, by simp [three]⟩) (by simp [three])))

theorem some_document : IsDocument someText (.object someMembers) := by
  have zero : IsHexDigit '0' 0 := hex_digit_of_lt (by decide)
  have escaped : SpellsUnit ['\\', 'u', '0', '0', '7', '0'] (.code 'p'.toNat) :=
    .code zero zero (hex_digit_of_lt (by decide : 7 < 16)) zero
  have plain : SpellsUnit ['i'] (.symbol 'i') := .plain (by decide) (by decide) (by decide)
  have key : SpellsLexeme ['"', '\\', 'u', '0', '0', '7', '0', 'i', '"']
      (.string (some ['p', 'i'])) :=
    .string (.unit escaped (.unit plain .empty)) (.code (by decide) (.symbol 'i' .empty))
  have constant := lexemes_spelled_cons key (lexemes_spelled_cons .colon
    (lexemes_spelled_append three_document (lexeme_spelled_alone .closeBrace)))
  have spaced := @lexemes_spelled_behind [' '] _ _ (by simp [isBlank]) constant
  exact lexemes_spelled_cons .openBrace (lexemes_spelled_cons (quote_spells ['x'])
    (lexemes_spelled_cons .colon (lexemes_spelled_cons .openBracket
      (lexemes_spelled_cons .closeBracket (lexemes_spelled_cons .comma spaced)))))

theorem three_nearest : Binary64.isFinite (NumberReading.nearest three) ∧
    NumberReading.nearest three = 3.0 := by
  decide +kernel

theorem some_members_listed {place : Nat} {field : Field} {json : Json}
    (listed : Field.all[place]? = some field) :
    (some field.name.toList, json) ∈ someMembers ↔ [Json.number three][place]? = some json := by
  have known : ∀ field ∈ Field.all, field.name.toList ≠ ['x'] := by decide
  have other : (some field.name.toList, json) ≠ (some ['x'], .array []) := by
    intro same
    exact known field field.mem_all (Option.some.inj (Prod.mk.inj same).1)
  rw [someMembers, List.mem_cons, or_iff_right other, mem_field_members listed]

theorem some_missing {place : Nat} {field : Field} (listed : Field.all[place]? = some field)
    (behind : 1 ≤ place) : ¬IsNamed someMembers field := by
  rw [is_named_iff]
  rintro ⟨json, member⟩
  rw [some_members_listed listed, List.getElem?_eq_none behind] at member
  contradiction

theorem some_described : Describes .nearest someMembers { standard with pi := 3.0 } where
  pi := by
    constructor
    · intro json member
      rw [@some_members_listed 0 _ _ rfl] at member
      cases member
      have spelled := SpellsFloat.literal three_nearest.1
      rwa [three_nearest.2] at spelled
    · intro missing
      exact absurd ((@some_members_listed 0 .pi (.number three) rfl).2 rfl) (missing _)
  e := (is_field_absent (@some_missing 1 _ rfl (by decide))).2 rfl
  powerAssociativity := (is_field_absent (@some_missing 2 _ rfl (by decide))).2 rfl
  tangentTolerance := (is_field_absent (@some_missing 3 _ rfl (by decide))).2 rfl

theorem some_well_typed : WellTyped .nearest someMembers where
  text := by decide
  once := by
    intro field
    cases field <;> decide
  typed := fun field json member =>
    ⟨_, (describes_iff.1 some_described field).spelled json member⟩

theorem of_text_of_some_members :
    (DocumentReader.native .nearest).IsLawful ∧
      ofText (.native .nearest) someText = .ok { standard with pi := 3.0 } ∧
      (∃ cause, ofText (.native .nearest) twiceText = .error (.malformed cause)) ∧
      SameAnswer (ofText (.native .nearest) (compactArray [three.text]))
        (ofText (.native .nearest) (compactObject [("pi", three.text)])) := by
  have lawful := native_reader_lawful .nearest
  obtain ⟨-, means, repeated, listed⟩ := of_text_of_members lawful
  have constant := member_of_document (by decide : IsPlain "pi") three_document
  have other := member_of_document (by decide : IsPlain "x") (compact_array_document .nil)
  have twice := compact_object_document (.cons constant (.cons other (.cons constant .nil)))
  have list := compact_array_document (.cons three_document .nil)
  have single := compact_object_document (.cons constant .nil)
  refine ⟨lawful, ?_, repeated _ _ twice .pi (by decide), ?_⟩
  · obtain ⟨settings, unique, read⟩ := means _ _ some_document some_well_typed
    rw [read, ← (unique _).1 some_described]
    exact if_neg (by decide +kernel)
  · exact listed [.number three] _ _ _ (by decide) (.refl _) list single

end Settings

end InfixCalculator
