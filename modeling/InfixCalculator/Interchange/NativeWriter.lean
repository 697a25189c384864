import InfixCalculator.Interchange
import InfixCalculator.Json.Layout
import InfixCalculator.Json.Quoted

/-!
A writer of documents. Floats that have no literal are written as `null`; nothing
fails.
-/

namespace InfixCalculator

namespace NativeWriter

def floatText (number : Binary64) : Text :=
  if Binary64.isFinite number then (NumberLiteral.ofFloat number).text else Json.nullText

def stringText (content : String) : Text := Json.quote content.toList

def associativityText (associativity : Associativity) : Text := Json.quotedName associativity.name

def settingsText (settings : Settings) : Text :=
  Json.prettyObject [(Settings.Field.pi.name, floatText settings.pi),
    (Settings.Field.e.name, floatText settings.e),
    (Settings.Field.powerAssociativity.name, associativityText settings.powerAssociativity),
    (Settings.Field.tangentTolerance.name, floatText settings.tangentTolerance)]

def outcomeText : Outcome → Text
  | .value result => Json.compactObject [("value", floatText result)]
  | .refusal message => Json.compactObject [("error", stringText message)]

def recordText (record : Record) : Text :=
  Json.compactObject [("operation", stringText record.operation),
    ("operands", Json.compactArray (record.operands.map floatText)),
    ("outcome", outcomeText record.outcome)]

def historyText (history : List Record) : Text := Json.compactArray (history.map recordText)

end NativeWriter

def DocumentWriter.native : DocumentWriter where
  float number := .ok (NativeWriter.floatText number)
  string content := .ok (NativeWriter.stringText content)
  associativity associativity := .ok (NativeWriter.associativityText associativity)
  settings settings := .ok (NativeWriter.settingsText settings)
  outcome outcome := .ok (NativeWriter.outcomeText outcome)
  record record := .ok (NativeWriter.recordText record)
  history history := .ok (NativeWriter.historyText history)

end InfixCalculator
