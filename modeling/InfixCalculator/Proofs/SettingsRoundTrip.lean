import InfixCalculator.Numeric.Comparison
import InfixCalculator.Proofs.SettingsDocument

/-!
Settings that are written and read back, for any lawful writer and any lawful reader. Finite
settings come back bit for bit and are then checked, others leave no number behind, and whatever is
read passes the check.
-/

namespace InfixCalculator

open Json

/-! Parts of documents -/

/-- What stands for a float: a number that it is nearest to, or `null` for want of one. -/
inductive StandsForFloat : Json → Binary64 → Prop where
  | number {literal : NumberLiteral} {number : Binary64} (finite : Binary64.isFinite number)
      (nearest : literal.magnitude.toBinary64 literal.negative = number) :
      StandsForFloat (.number literal) number
  | null {number : Binary64} (nonfinite : Binary64.isFinite number = false) :
      StandsForFloat .null number

namespace DocumentWriter

variable {writer : DocumentWriter} (lawful : writer.IsLawful)

include lawful

theorem float_document (number : Binary64) :
    ∃ text value, writer.float number = .ok text ∧ IsDocument text value ∧
      StandsForFloat value number := by
  cases finite : Binary64.isFinite number with
  | true =>
      obtain ⟨text, literal, written, spelled, nearest⟩ := lawful.finite number finite
      exact ⟨text, .number literal, written, lexeme_spelled_alone (.number spelled),
        .number finite nearest⟩
  | false =>
      exact ⟨nullText, .null, lawful.nonfinite number finite, lexeme_spelled_alone .null,
        .null finite⟩

theorem string_document (content : String) :
    ∃ text, writer.string content = .ok text ∧ IsDocument text (.ofString content) := by
  obtain ⟨inner, units, written, spelled, stands⟩ := lawful.string content
  exact ⟨_, written, lexeme_spelled_alone (.string spelled stands)⟩

end DocumentWriter

theorem spells_float_iff {reading : NumberReading} (isNearest : reading.IsNearest) {value : Json}
    {number found : Binary64} (stands : StandsForFloat value number) :
    SpellsFloat reading value found ↔ Binary64.isFinite number ∧ number = found := by
  cases stands with
  | @number literal number finite nearest =>
      rw [← isNearest] at nearest
      subst nearest
      constructor
      · rintro ⟨finite⟩
        exact ⟨finite, rfl⟩
      · rintro ⟨finite, rfl⟩
        exact .literal finite
  | null nonfinite =>
      constructor
      · intro spelled
        contradiction
      · rintro ⟨finite, -⟩
        rw [nonfinite] at finite
        contradiction

namespace Settings

theorem name_spells_iff {associativity found : Associativity} :
    SpellsAssociativity (.ofString associativity.name) found ↔ associativity = found := by
  have read : Json.associativity? (.ofString associativity.name) = some associativity :=
    associativity_iff.2 (.name associativity)
  rw [← associativity_iff, read, Option.some.injEq]

theorem field_member (field : Field) {text : Text} {value : Json}
    (document : IsDocument text value) :
    IsMember (field.name, text) (field.name, value) := by
  have plain : IsPlain field.name := by
    cases field <;> decide
  exact member_of_document plain document

theorem associativity_document {writer : DocumentWriter} (lawful : writer.IsLawful)
    (associativity : Associativity) :
    ∃ text, writer.associativity associativity = .ok text ∧
      IsDocument text (.ofString associativity.name) := by
  cases associativity with
  | left =>
      exact ⟨_, lawful.left, lexeme_spelled_alone (quoted_name_spells (by decide : IsPlain "left"))⟩
  | right =>
      exact ⟨_, lawful.right,
        lexeme_spelled_alone (quoted_name_spells (by decide : IsPlain "right"))⟩

/-- The values of all fields, in their order, stand for the settings. -/
inductive StandFor : List Json → Settings → Prop where
  | fields {settings : Settings} {pi e tangentTolerance : Json}
      (isPi : StandsForFloat pi settings.pi) (isE : StandsForFloat e settings.e)
      (isTolerance : StandsForFloat tangentTolerance settings.tangentTolerance) :
      StandFor [pi, e, .ofString settings.powerAssociativity.name, tangentTolerance] settings

theorem to_text_document {writer : DocumentWriter} (lawful : writer.IsLawful)
    (settings : Settings) :
    ∃ text values, toText writer settings = .ok text ∧ StandFor values settings ∧
      IsDocument text (.object (fieldMembers values)) := by
  obtain ⟨piText, pi, piWritten, piDocument, isPi⟩ :=
    DocumentWriter.float_document lawful settings.pi
  obtain ⟨eText, e, eWritten, eDocument, isE⟩ := DocumentWriter.float_document lawful settings.e
  obtain ⟨toleranceText, tolerance, toleranceWritten, toleranceDocument, isTolerance⟩ :=
    DocumentWriter.float_document lawful settings.tangentTolerance
  obtain ⟨power, powerWritten, powerDocument⟩ :=
    associativity_document lawful settings.powerAssociativity
  have written := lawful.settings piWritten eWritten powerWritten toleranceWritten
  have document := pretty_object_document
    (.cons (field_member .pi piDocument) (.cons (field_member .e eDocument)
      (.cons (field_member .powerAssociativity powerDocument)
        (.cons (field_member .tangentTolerance toleranceDocument) .nil))))
  exact ⟨_, _, by rw [toText, written]; rfl, .fields isPi isE isTolerance, document⟩

theorem is_field_member {reading : NumberReading} {values : List Json} {place : Nat}
    {field : Field} {json : Json} {standardValue value : field.Value}
    (listed : Field.all[place]? = some field) (found : values[place]? = some json) :
    IsField reading (fieldMembers values) field standardValue value ↔
      field.Spells reading json value := by
  have member : (some field.name.toList, json) ∈ fieldMembers values :=
    (mem_field_members listed).2 found
  constructor
  · intro isField
    exact isField.spelled json member
  · intro spelled
    refine ⟨fun other present => ?_, fun missing => absurd member (missing json)⟩
    rw [mem_field_members listed, found] at present
    cases present
    exact spelled

theorem describes_field_members {reading : NumberReading} {pi e power tolerance : Json}
    {settings : Settings} :
    Describes reading (fieldMembers [pi, e, power, tolerance]) settings ↔
      SpellsFloat reading pi settings.pi ∧ SpellsFloat reading e settings.e ∧
        SpellsAssociativity power settings.powerAssociativity ∧
        SpellsFloat reading tolerance settings.tangentTolerance := by
  constructor
  · intro describes
    exact ⟨(@is_field_member _ _ 0 .pi pi _ _ rfl rfl).1 describes.pi,
      (@is_field_member _ _ 1 .e e _ _ rfl rfl).1 describes.e,
      (@is_field_member _ _ 2 .powerAssociativity power _ _ rfl rfl).1 describes.powerAssociativity,
      (@is_field_member _ _ 3 .tangentTolerance tolerance _ _ rfl rfl).1
        describes.tangentTolerance⟩
  · rintro ⟨isPi, isE, isPower, isTolerance⟩
    exact ⟨(@is_field_member _ _ 0 .pi pi _ _ rfl rfl).2 isPi,
      (@is_field_member _ _ 1 .e e _ _ rfl rfl).2 isE,
      (@is_field_member _ _ 2 .powerAssociativity power _ _ rfl rfl).2 isPower,
      (@is_field_member _ _ 3 .tangentTolerance tolerance _ _ rfl rfl).2 isTolerance⟩

theorem is_regular_field_members (pi e power tolerance : Json) :
    IsRegular (fieldMembers [pi, e, power, tolerance]) where
  text := by simp [fieldMembers, Field.all]
  once field := by
    cases field <;> simp [occurrences, fieldMembers, Field.all, Field.name_inj]

/-- With floats read to the nearest, values that stand for settings are read as the settings
themselves if these are finite, and not at all otherwise. -/
theorem settings_of_standing {reader : DocumentReader} (lawful : reader.IsLawful)
    (isNearest : reader.literal.IsNearest) {values : List Json} {settings found : Settings}
    (stand : StandFor values settings) :
    reader.settings? (.object (fieldMembers values)) = some found ↔
      settings.AreFinite ∧ settings = found := by
  obtain ⟨isPi, isE, isTolerance⟩ := stand
  rw [settings_iff lawful, and_iff_right (is_regular_field_members _ _ _ _),
    describes_field_members, spells_float_iff isNearest isPi, spells_float_iff isNearest isE,
    name_spells_iff, spells_float_iff isNearest isTolerance]
  constructor
  · rintro ⟨⟨finitePi, pi⟩, ⟨finiteE, e⟩, power, finiteTolerance, tolerance⟩
    refine ⟨⟨finitePi, finiteE, finiteTolerance⟩, ?_⟩
    cases settings
    cases found
    rw [Settings.mk.injEq]
    exact ⟨pi, e, power, tolerance⟩
  · rintro ⟨finite, rfl⟩
    exact ⟨⟨finite.pi, rfl⟩, ⟨finite.e, rfl⟩, rfl, finite.tangentTolerance, rfl⟩

/-! The round trip -/

theorem not_tolerance_le_zero {tolerance : Binary64} (finite : Binary64.isFinite tolerance) :
    ¬tolerance ≤ 0.0 ↔ 0.0 < tolerance :=
  Binary64.not_le_iff (Binary64.not_nan_of_finite finite) (by decide +kernel)

theorem validate_ok {settings found : Settings} (valid : settings.validate = .ok found) :
    found.AreFinite ∧ 0.0 < found.tangentTolerance := by
  unfold validate at valid
  split at valid
  · contradiction
  split at valid
  · contradiction
  split at valid
  · contradiction
  rename_i pi e tolerance
  cases valid
  obtain ⟨finite, positive⟩ := not_or.1 tolerance
  rw [Bool.not_eq_false] at pi e finite
  exact ⟨⟨pi, e, finite⟩, (not_tolerance_le_zero finite).1 positive⟩

theorem of_text_ok {reader : DocumentReader} {text : Text} {found : Settings}
    (read : ofText reader text = .ok found) :
    found.AreFinite ∧ 0.0 < found.tangentTolerance := by
  unfold ofText at read
  split at read
  · contradiction
  · exact validate_ok read

/-- With numbers read to the nearest float, finite settings come back exactly if their tolerance
is positive and are refused for it otherwise, and settings that are not finite are written but not
read. Nothing else is ever read: settings from any text are finite with a positive tolerance. -/
theorem of_text_to_text (reader : DocumentReader) (writer : DocumentWriter) :
    (reader.IsLawful → reader.literal.IsNearest → writer.IsLawful → ∀ settings : Settings,
      ∃ text, toText writer settings = .ok text ∧
        (settings.AreFinite → 0.0 < settings.tangentTolerance →
          ofText reader text = .ok settings) ∧
        (settings.AreFinite → settings.tangentTolerance ≤ 0.0 →
          ofText reader text =
            .error (.outOfRange Field.tangentTolerance.name settings.tangentTolerance)) ∧
        (¬settings.AreFinite → ∃ cause, ofText reader text = .error (.malformed cause))) ∧
    ∀ text found, ofText reader text = .ok found →
      found.AreFinite ∧ 0.0 < found.tangentTolerance := by
  refine ⟨fun lawful isNearest lawfulWriter settings => ?_, fun text found => of_text_ok⟩
  obtain ⟨text, values, written, stand, document⟩ := to_text_document lawfulWriter settings
  have back (finite : settings.AreFinite) : ofText reader text = settings.validate :=
    of_text_of_some lawful document ((settings_of_standing lawful isNearest stand).2 ⟨finite, rfl⟩)
  refine ⟨text, written, fun finite positive => ?_, fun finite nonpositive => ?_,
    fun nonfinite => ?_⟩
  · rw [back finite, validate_finite finite,
      if_neg ((not_tolerance_le_zero finite.tangentTolerance).2 positive)]
  · rw [back finite, validate_finite finite, if_pos nonpositive]
  · apply of_text_of_none lawful document
    rw [Option.eq_none_iff_forall_ne_some]
    intro found read
    exact nonfinite ((settings_of_standing lawful isNearest stand).1 read).1

/-- A zero with a sign, the least positive float and one that is written with an exponent. -/
def rareSettings : Settings := ⟨-0.0, 5e-324, .right, 1e-9⟩

theorem of_text_to_text_rare :
    (DocumentReader.native .nearest).IsLawful ∧ NumberReading.nearest.IsNearest ∧
      DocumentWriter.native.IsLawful ∧ rareSettings.AreFinite ∧
      (∃ text, toText .native rareSettings = .ok text ∧
        ofText (.native .nearest) text = .ok rareSettings) ∧
      (∃ text, toText .native { rareSettings with tangentTolerance := -0.0 } = .ok text ∧
        ofText (.native .nearest) text =
          .error (.outOfRange Field.tangentTolerance.name (-0.0))) ∧
      ∃ text, toText .native { rareSettings with e := Binary64.infinity false } = .ok text ∧
        ∃ cause, ofText (.native .nearest) text = .error (.malformed cause) := by
  have lawful := native_reader_lawful .nearest
  have isNearest := NumberReading.nearest_is_nearest
  obtain ⟨written, read⟩ := of_text_to_text (.native .nearest) .native
  have back := written lawful isNearest native_writer_lawful
  have finite : rareSettings.AreFinite :=
    ⟨by decide +kernel, by decide +kernel, by decide +kernel⟩
  have infinite : ¬AreFinite { rareSettings with e := Binary64.infinity false } := by
    intro finite
    have bounded := finite.e
    contradiction
  obtain ⟨rareText, rareWritten, rareRead, -, -⟩ := back rareSettings
  obtain ⟨zeroText, zeroWritten, -, zeroRead, -⟩ :=
    back { rareSettings with tangentTolerance := -0.0 }
  obtain ⟨infiniteText, infiniteWritten, -, -, infiniteRead⟩ :=
    back { rareSettings with e := Binary64.infinity false }
  have same := rareRead finite (by decide +kernel)
  refine ⟨lawful, isNearest, native_writer_lawful, (read _ _ same).1, ⟨_, rareWritten, same⟩,
    ⟨_, zeroWritten, zeroRead ⟨finite.pi, finite.e, by decide +kernel⟩ (by decide +kernel)⟩,
    ⟨_, infiniteWritten, infiniteRead infinite⟩⟩

end Settings

end InfixCalculator
