import InfixCalculator.Journal
import InfixCalculator.Json.Value
import InfixCalculator.Numeric.LiteralReading
import InfixCalculator.Settings.Field

/-!
What the calculator asks of a library for documents. A reader finds floats, an
associativity or settings in a value, and settings in a whole text. A writer
gives each kind of data its text. Either may fail with a message of its own.
-/

namespace InfixCalculator

def Associativity.name : Associativity → String
  | .left => "left"
  | .right => "right"

structure ValueReader where
  literal : NumberReading
  number? : Json → Option Binary64
  associativity? : Json → Option Associativity

namespace ValueReader

def field? (reader : ValueReader) : (field : Settings.Field) → Json → Option field.Value
  | .pi | .e | .tangentTolerance => reader.number?
  | .powerAssociativity => reader.associativity?

def assign? (reader : ValueReader) (field : Settings.Field) (value : Json) (settings : Settings) :
    Option Settings :=
  (reader.field? field value).map (settings.set field)

end ValueReader

structure DocumentReader extends ValueReader where
  settings? : Json → Option Settings
  document : Text → Except String Settings

structure DocumentWriter where
  float : Binary64 → Except String Text
  string : String → Except String Text
  associativity : Associativity → Except String Text
  settings : Settings → Except String Text
  outcome : Outcome → Except String Text
  record : Record → Except String Text
  history : List Record → Except String Text

end InfixCalculator
