import InfixCalculator.Interchange
import InfixCalculator.Json.Reader

/-!
A reader of documents. An object names the fields that it sets, each at most once
and among any other members; an array sets the first fields in their order. Fields
that are not set keep their standard value.
-/

namespace InfixCalculator

namespace Json

/-- Only number literals within the range of floats are floats. -/
def float? (reading : NumberReading) : Json → Option Binary64
  | .number literal =>
      if Binary64.isFinite (reading literal) then some (reading literal) else none
  | _ => none

/-- An associativity is its name, or an object with its name over `null`. -/
def associativity? : Json → Option Associativity
  | .string content => named? content
  | .object [(key, .null)] => named? key
  | _ => none
where
  named? (content : StringContent) : Option Associativity :=
    if content = some Associativity.left.name.toList then some .left
    else if content = some Associativity.right.name.toList then some .right
    else none

end Json

def ValueReader.native (reading : NumberReading) : ValueReader where
  literal := reading
  number? := Json.float? reading
  associativity? := Json.associativity?

structure Visited where
  settings : Settings
  seen : List Settings.Field

namespace ValueReader

variable (reader : ValueReader)

/-- Takes up one member of an object. Its key has to be text. -/
def visit? (visited : Visited) (member : StringContent × Json) : Option Visited := do
  let key ← member.1
  match Settings.Field.ofName? key with
  | none => some visited
  | some field =>
      if field ∈ visited.seen then none
      else do
        let settings ← reader.assign? field member.2 visited.settings
        some ⟨settings, field :: visited.seen⟩

def visitItems? : List Settings.Field → List Json → Settings → Option Settings
  | _, [], settings => some settings
  | [], _ :: _, _ => none
  | field :: fields, value :: values, settings => do
      let assigned ← reader.assign? field value settings
      visitItems? fields values assigned

def settings? : Json → Option Settings
  | .object members => (members.foldlM reader.visit? ⟨.standard, []⟩).map Visited.settings
  | .array values => reader.visitItems? Settings.Field.all values .standard
  | _ => none

end ValueReader

def DocumentReader.native (reading : NumberReading) : DocumentReader where
  toValueReader := .native reading
  settings? := (ValueReader.native reading).settings?
  document text :=
    match Json.read? text >>= (ValueReader.native reading).settings? with
    | none => .error "no settings"
    | some settings => .ok settings

end InfixCalculator
