import InfixCalculator.Interchange
import InfixCalculator.Json.Layout
import InfixCalculator.Proofs.JsonGrammar
import Mathlib.Data.List.Forall2

/-!
The behaviour of libraries for documents, as far as the calculator relies on it. A reader takes
the members of an object and the items of an array one after the other, and its laws say what one
more of them does. A writer puts the texts of the parts into a layout; floats and strings are
written so that the grammar gives them back.
-/

namespace InfixCalculator

open Json

/-! Values of the fields -/

inductive SpellsFloat (reading : NumberReading) : Json → Binary64 → Prop where
  | literal {literal : NumberLiteral} (finite : Binary64.isFinite (reading literal)) :
      SpellsFloat reading (.number literal) (reading literal)

/-- A name, or an object with the name over `null`. -/
inductive SpellsAssociativity : Json → Associativity → Prop where
  | left : SpellsAssociativity (.ofString "left") .left
  | right : SpellsAssociativity (.ofString "right") .right
  | leftTag : SpellsAssociativity (.ofMembers [("left", .null)]) .left
  | rightTag : SpellsAssociativity (.ofMembers [("right", .null)]) .right

theorem SpellsAssociativity.name (associativity : Associativity) :
    SpellsAssociativity (.ofString associativity.name) associativity := by
  cases associativity with
  | left => exact .left
  | right => exact .right

theorem SpellsAssociativity.tag (associativity : Associativity) :
    SpellsAssociativity (.ofMembers [(associativity.name, .null)]) associativity := by
  cases associativity with
  | left => exact .leftTag
  | right => exact .rightTag

def Settings.Field.Spells (reading : NumberReading) : (field : Field) → Json → field.Value → Prop
  | .pi | .e | .tangentTolerance => SpellsFloat reading
  | .powerAssociativity => SpellsAssociativity

def IsNamed (members : List (StringContent × Json)) (field : Settings.Field) : Prop :=
  some field.name.toList ∈ members.map Prod.fst

/-! Readers -/

structure DocumentReader.IsLawful (reader : DocumentReader) : Prop where
  document {text : Text} {value : Json} : IsDocument text value →
    (reader.document text).toOption = reader.settings? value
  float {value : Json} {number : Binary64} :
    reader.number? value = some number ↔ SpellsFloat reader.literal value number
  associativity {value : Json} {associativity : Associativity} :
    reader.associativity? value = some associativity ↔ SpellsAssociativity value associativity
  /-- Settings without members are the standard ones. -/
  noMembers : reader.settings? (.object []) = some .standard
  /-- A key with an unpaired surrogate is refused. -/
  unreadable (members : List (StringContent × Json)) (value : Json) :
    reader.settings? (.object (members ++ [(none, value)])) = none
  /-- Members with other names are skipped. -/
  unknown {key : Text} : (∀ field : Settings.Field, field.name.toList ≠ key) →
    ∀ members value, reader.settings? (.object (members ++ [(some key, value)])) =
      reader.settings? (.object members)
  first {members : List (StringContent × Json)} {field : Settings.Field} : ¬IsNamed members field →
    ∀ value, reader.settings? (.object (members ++ [(some field.name.toList, value)])) =
      (reader.settings? (.object members)).bind (reader.assign? field value)
  /-- A second member for a field is refused. -/
  again {members : List (StringContent × Json)} {field : Settings.Field} : IsNamed members field →
    ∀ value, reader.settings? (.object (members ++ [(some field.name.toList, value)])) = none
  noItems : reader.settings? (.array []) = some .standard
  /-- The next item of an array is for the next field. -/
  item {values : List Json} {field : Settings.Field} :
    Settings.Field.all[values.length]? = some field →
      ∀ value, reader.settings? (.array (values ++ [value])) =
        (reader.settings? (.array values)).bind (reader.assign? field value)

/-! Writers -/

structure DocumentWriter.IsLawful (writer : DocumentWriter) : Prop where
  /-- A finite float is the one that is nearest to the literal written for it. -/
  finite (number : Binary64) : Binary64.isFinite number →
    ∃ text literal, writer.float number = .ok text ∧ SpellsNumber text literal ∧
      literal.magnitude.toBinary64 literal.negative = number
  nonfinite (number : Binary64) : Binary64.isFinite number = false →
    writer.float number = .ok nullText
  string (content : String) :
    ∃ inner units, writer.string content = .ok ('"' :: inner ++ ['"']) ∧
      SpellsUnits inner units ∧ StandsFor units content.toList
  left : writer.associativity .left = .ok (quotedName "left")
  right : writer.associativity .right = .ok (quotedName "right")
  settings {settings : Settings} {pi e powerAssociativity tangentTolerance : Text} :
    writer.float settings.pi = .ok pi → writer.float settings.e = .ok e →
    writer.associativity settings.powerAssociativity = .ok powerAssociativity →
    writer.float settings.tangentTolerance = .ok tangentTolerance →
    writer.settings settings = .ok (prettyObject [(Settings.Field.pi.name, pi),
      (Settings.Field.e.name, e), (Settings.Field.powerAssociativity.name, powerAssociativity),
      (Settings.Field.tangentTolerance.name, tangentTolerance)])
  value {result : Binary64} {text : Text} : writer.float result = .ok text →
    writer.outcome (.value result) = .ok (compactObject [("value", text)])
  refusal {message : String} {text : Text} : writer.string message = .ok text →
    writer.outcome (.refusal message) = .ok (compactObject [("error", text)])
  record {record : Record} {operation outcome : Text} {operands : List Text} :
    writer.string record.operation = .ok operation →
    List.Forall₂ (fun operand text => writer.float operand = .ok text) record.operands operands →
    writer.outcome record.outcome = .ok outcome →
    writer.record record = .ok (compactObject [("operation", operation),
      ("operands", compactArray operands), ("outcome", outcome)])
  history {history : List Record} {records : List Text} :
    List.Forall₂ (fun record text => writer.record record = .ok text) history records →
    writer.history history = .ok (compactArray records)

end InfixCalculator
