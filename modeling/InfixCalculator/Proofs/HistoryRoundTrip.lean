import InfixCalculator.Journal.Document
import InfixCalculator.Proofs.SettingsRoundTrip
import InfixCalculator.Session

/-!
Histories that are written and read back. A lawful writer makes an array with one object for each
record, whatever its failures say. Looking up the members of such an object by their names gives
the record again if and only if all its floats are finite, so the text of finite records is the
text of no other history.
-/

namespace InfixCalculator

open Json

def Outcome.IsFinite : Outcome → Prop
  | .value result => Binary64.isFinite result
  | .refusal _ => True

structure Record.IsFinite (record : Record) : Prop where
  operands : ∀ operand ∈ record.operands, Binary64.isFinite operand
  outcome : record.outcome.IsFinite

instance (outcome : Outcome) : Decidable outcome.IsFinite :=
  match outcome with
  | .value result => inferInstanceAs (Decidable (Binary64.isFinite result))
  | .refusal _ => inferInstanceAs (Decidable True)

instance (record : Record) : Decidable record.IsFinite :=
  decidable_of_iff
    ((∀ operand ∈ record.operands, Binary64.isFinite operand) ∧ record.outcome.IsFinite)
    ⟨fun finite => ⟨finite.1, finite.2⟩, fun finite => ⟨finite.operands, finite.outcome⟩⟩

/-! Reading of records -/

namespace Json

def text? : Json → Option String
  | .string content => content.map String.ofList
  | _ => none

def items? : Json → Option (List Json)
  | .array items => some items
  | _ => none

def member? (key : String) : Json → Option Json
  | .object members => members.lookup (some key.toList)
  | _ => none

end Json

def Outcome.ofJson? (reading : NumberReading) (json : Json) : Option Outcome :=
  match json.member? "value" with
  | some result => (float? reading result).map .value
  | none => (json.member? "error" >>= text?).map .refusal

def Record.ofJson? (reading : NumberReading) (json : Json) : Option Record := do
  let operation ← json.member? "operation" >>= text?
  let operands ← json.member? "operands" >>= items?
  let numbers ← operands.mapM (float? reading)
  let outcome ← json.member? "outcome" >>= Outcome.ofJson? reading
  some ⟨operation, numbers, outcome⟩

theorem text_of_string (content : String) : text? (.ofString content) = some content := by
  simp [Json.ofString, text?]

theorem member_of_members (key : String) (members : List (String × Json)) :
    (Json.ofMembers members).member? key = members.lookup key := by
  rw [Json.ofMembers, member?]
  induction members with
  | nil => rfl
  | cons member others induction =>
      have same : (some key.toList == some member.1.toList) = (key == member.1) := by
        rw [Bool.eq_iff_iff, beq_iff_eq, beq_iff_eq, Option.some.injEq, String.toList_inj]
      rw [List.map_cons, List.lookup_cons, List.lookup_cons, same, induction]

/-! What records are written as -/

inductive StandsForOutcome : Json → Outcome → Prop where
  | value {json : Json} {result : Binary64} (stands : StandsForFloat json result) :
      StandsForOutcome (.ofMembers [("value", json)]) (.value result)
  | refusal (message : String) :
      StandsForOutcome (.ofMembers [("error", .ofString message)]) (.refusal message)

inductive StandsForRecord : Json → Record → Prop where
  | members {operation : String} {items : List Json} {operands : List Binary64} {json : Json}
      {outcome : Outcome} (isOperands : List.Forall₂ StandsForFloat items operands)
      (isOutcome : StandsForOutcome json outcome) :
      StandsForRecord (.ofMembers [("operation", .ofString operation), ("operands", .array items),
        ("outcome", json)]) ⟨operation, operands, outcome⟩

theorem list_documents {Value : Type} {write : Value → Except String Text}
    {Stands : Json → Value → Prop}
    (each : ∀ value, ∃ text item, write value = .ok text ∧ IsDocument text item ∧ Stands item value)
    (values : List Value) :
    ∃ texts items, List.Forall₂ (fun value text => write value = .ok text) values texts ∧
      List.Forall₂ IsDocument texts items ∧ List.Forall₂ Stands items values := by
  induction values with
  | nil => exact ⟨[], [], .nil, .nil, .nil⟩
  | cons value others induction =>
      obtain ⟨text, item, written, document, stands⟩ := each value
      obtain ⟨texts, items, allWritten, documents, allStand⟩ := induction
      exact ⟨text :: texts, item :: items, .cons written allWritten, .cons document documents,
        .cons stands allStand⟩

namespace DocumentWriter

variable {writer : DocumentWriter} (lawful : writer.IsLawful)

include lawful

theorem outcome_document (outcome : Outcome) :
    ∃ text json, writer.outcome outcome = .ok text ∧ IsDocument text json ∧
      StandsForOutcome json outcome := by
  cases outcome with
  | value result =>
      obtain ⟨text, json, written, document, stands⟩ := float_document lawful result
      have member := member_of_document (by decide : IsPlain "value") document
      exact ⟨_, _, lawful.value written, compact_object_document (.cons member .nil), .value stands⟩
  | refusal message =>
      obtain ⟨text, written, document⟩ := string_document lawful message
      have member := member_of_document (by decide : IsPlain "error") document
      exact ⟨_, _, lawful.refusal written, compact_object_document (.cons member .nil),
        .refusal message⟩

theorem record_document (record : Record) :
    ∃ text json, writer.record record = .ok text ∧ IsDocument text json ∧
      StandsForRecord json record := by
  obtain ⟨operation, nameWritten, nameDocument⟩ := string_document lawful record.operation
  obtain ⟨operands, items, floatsWritten, floatDocuments, floatsStand⟩ :=
    list_documents (float_document lawful) record.operands
  obtain ⟨outcome, json, outcomeWritten, outcomeDocument, outcomeStands⟩ :=
    outcome_document lawful record.outcome
  have name := member_of_document (by decide : IsPlain "operation") nameDocument
  have list := member_of_document (by decide : IsPlain "operands")
    (compact_array_document floatDocuments)
  have last := member_of_document (by decide : IsPlain "outcome") outcomeDocument
  exact ⟨_, _, lawful.record nameWritten floatsWritten outcomeWritten,
    compact_object_document (.cons name (.cons list (.cons last .nil))),
    .members floatsStand outcomeStands⟩

end DocumentWriter

theorem Journal.history_document {writer : DocumentWriter} (lawful : writer.IsLawful)
    (journal : Journal) :
    ∃ text items, journal.historyText writer = .ok text ∧ IsDocument text (.array items) ∧
      List.Forall₂ StandsForRecord items journal.history := by
  obtain ⟨records, items, written, documents, stand⟩ :=
    list_documents (DocumentWriter.record_document lawful) journal.history
  exact ⟨_, items, lawful.history written, compact_array_document documents, stand⟩

/-! What is found again -/

/-- If items are read as what they stand for on a condition, and never as anything else, so are
lists of them. -/
theorem list_of_items {Value : Type} {read : Json → Option Value} {Stands : Json → Value → Prop}
    {Kept : Value → Prop}
    (each : ∀ item value, Stands item value →
      ∀ found, read item = some found ↔ Kept value ∧ value = found)
    {items : List Json} {values : List Value} (stand : List.Forall₂ Stands items values)
    (found : List Value) :
    items.mapM read = some found ↔ (∀ value ∈ values, Kept value) ∧ values = found := by
  induction stand generalizing found with
  | nil => simp
  | cons stands others induction =>
      simp only [List.mapM_cons, bind, Option.bind_eq_some_iff, each _ _ stands, induction,
        List.forall_mem_cons]
      constructor
      · rintro ⟨_, ⟨kept, rfl⟩, _, ⟨later, rfl⟩, same⟩
        exact ⟨⟨kept, later⟩, Option.some.inj same⟩
      · rintro ⟨⟨kept, later⟩, rfl⟩
        exact ⟨_, ⟨kept, rfl⟩, _, ⟨later, rfl⟩, rfl⟩

section

variable {reading : NumberReading} (isNearest : reading.IsNearest)

include isNearest

theorem float_of_standing {item : Json} {number : Binary64} (stands : StandsForFloat item number)
    (found : Binary64) :
    float? reading item = some found ↔ Binary64.isFinite number ∧ number = found :=
  float_iff.trans (spells_float_iff isNearest stands)

theorem outcome_of_standing {item : Json} {outcome : Outcome}
    (stands : StandsForOutcome item outcome) (found : Outcome) :
    Outcome.ofJson? reading item = some found ↔ outcome.IsFinite ∧ outcome = found := by
  cases stands with
  | value stands =>
      rw [Outcome.ofJson?, member_of_members]
      simp [List.lookup, float_of_standing isNearest stands, Outcome.IsFinite]
  | refusal message =>
      rw [Outcome.ofJson?, member_of_members, member_of_members]
      simp [List.lookup, text_of_string, Outcome.IsFinite]

theorem record_of_standing {item : Json} {record : Record} (stands : StandsForRecord item record)
    (found : Record) :
    Record.ofJson? reading item = some found ↔ record.IsFinite ∧ record = found := by
  obtain @⟨operation, items, operands, json, outcome, isOperands, isOutcome⟩ := stands
  -- The members are found under their names, whatever else their values are.
  have looked : Record.ofJson? reading (.ofMembers [("operation", .ofString operation),
      ("operands", .array items), ("outcome", json)]) =
      (items.mapM (float? reading)).bind fun numbers =>
        (Outcome.ofJson? reading json).bind fun outcome =>
          some ⟨operation, numbers, outcome⟩ := by
    simp [Record.ofJson?, member_of_members, List.lookup, text_of_string, items?]
  rw [looked]
  simp only [Option.bind_eq_some_iff, outcome_of_standing isNearest isOutcome,
    list_of_items (fun _ _ => float_of_standing isNearest) isOperands]
  constructor
  · rintro ⟨_, ⟨finite, rfl⟩, _, ⟨kept, rfl⟩, same⟩
    exact ⟨⟨finite, kept⟩, Option.some.inj same⟩
  · rintro ⟨⟨finite, kept⟩, rfl⟩
    exact ⟨_, ⟨finite, rfl⟩, _, ⟨kept, rfl⟩, rfl⟩

theorem records_of_standing {items : List Json} {records : List Record}
    (stand : List.Forall₂ StandsForRecord items records) (found : List Record) :
    items.mapM (Record.ofJson? reading) = some found ↔
      (∀ record ∈ records, record.IsFinite) ∧ records = found :=
  list_of_items (fun _ _ => record_of_standing isNearest) stand found

end

namespace Journal

/-- Every journal, whichever session it comes from, is written as an array of its records. With
any reader of documents and floats read to the nearest, finite records are found again one by one,
with the same floats bit for bit and the same failures, and the text of finite records is the text
of no other history. -/
theorem history_text_faithful {writer : DocumentWriter} (lawful : writer.IsLawful) :
    (∀ journal : Journal, ∃ text items, journal.historyText writer = .ok text ∧
      IsDocument text (.array items) ∧ List.Forall₂ StandsForRecord items journal.history) ∧
    (∀ (read : Text → Option Json) (reading : NumberReading),
      (∀ text value, IsDocument text value → read text = some value) → reading.IsNearest →
        ∀ journal : Journal, (∀ record ∈ journal.history, record.IsFinite) →
          ∃ text items, journal.historyText writer = .ok text ∧ read text = some (.array items) ∧
            List.Forall₂ (fun item record => Record.ofJson? reading item = some record)
              items journal.history) ∧
    ∀ journal other : Journal, (∀ record ∈ journal.history, record.IsFinite) →
      (journal.historyText writer = other.historyText writer ↔
        journal.history = other.history) := by
  refine ⟨history_document lawful, ?_, ?_⟩
  · intro read reading reads isNearest journal finite
    obtain ⟨text, items, written, document, stand⟩ := history_document lawful journal
    refine ⟨text, items, written, reads text _ document, ?_⟩
    have both := ((List.forall₂_and_left _ _).2 ⟨finite, stand.flip⟩).flip
    refine both.imp fun item record ⟨kept, stands⟩ => ?_
    exact (record_of_standing isNearest stands record).2 ⟨kept, rfl⟩
  · intro journal other finite
    refine ⟨fun same => ?_, fun same => congrArg writer.history same⟩
    obtain ⟨text, items, written, document, stand⟩ := history_document lawful journal
    obtain ⟨otherText, otherItems, otherWritten, otherDocument, otherStand⟩ :=
      history_document lawful other
    rw [written, otherWritten] at same
    cases same
    cases document_unique document otherDocument
    -- Records with the same text are found as the same, and those of the journal as themselves.
    have isNearest := NumberReading.nearest_is_nearest
    have back := (records_of_standing isNearest stand journal.history).2 ⟨finite, rfl⟩
    exact ((records_of_standing isNearest otherStand journal.history).1 back).2.symm

def productsOnly : Arithmetic Id
  | .binary .multiply left right => pure (left * right)
  | _ => throw (.outsideDomain (String.ofList ['"', '\\', '\n', 'π']) "")

/-- Journal of a session with a product of a zero and a failure with the least float. -/
def zeroJournal (zero : Binary64) : Journal :=
  ((Session.answers ⟨productsOnly, .standard⟩ [.operate (.binary .multiply 1e300 zero),
    .operate (.binary .divide 5e-324 zero)]).run Journal.empty).run.2

/-- Two sessions that differ in the sign of a zero. -/
theorem history_text_faithful_of_zeros :
    DocumentWriter.native.IsLawful ∧ NumberReading.nearest.IsNearest ∧
      (∀ record ∈ (zeroJournal (-0.0)).history, record.IsFinite) ∧
      (∃ text items, (zeroJournal (-0.0)).historyText .native = .ok text ∧
        Json.read? text = some (.array items) ∧
          List.Forall₂ (fun item record => Record.ofJson? .nearest item = some record) items
            (zeroJournal (-0.0)).history) ∧
      (zeroJournal (-0.0)).historyText .native ≠ (zeroJournal 0.0).historyText .native := by
  obtain ⟨-, read, alike⟩ := history_text_faithful native_writer_lawful
  have isNearest := NumberReading.nearest_is_nearest
  have finite : ∀ record ∈ (zeroJournal (-0.0)).history, record.IsFinite := by decide +kernel
  have different : (zeroJournal (-0.0)).history ≠ (zeroJournal 0.0).history := by decide +kernel
  refine ⟨native_writer_lawful, isNearest, finite,
    read Json.read? _ (fun _ _ => read_of_document) isNearest _ finite, ?_⟩
  rwa [ne_eq, alike _ _ finite]

example : NativeWriter.historyText [⟨"power", [2, 3], .value 8⟩] =
    ("[\x7b\"operation\":\"power\",\"operands\":[2.0,3.0]," ++
      "\"outcome\":\x7b\"value\":8.0\x7d\x7d]").toList := by
  decide +kernel

end Journal

end InfixCalculator
