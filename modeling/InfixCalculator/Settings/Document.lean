import InfixCalculator.Interchange

/-!
Settings as a document of the interchange format. Settings that were read are
checked: the constants have to be finite and the tolerance has to be finite and
positive. Settings are written without any check.
-/

namespace InfixCalculator

inductive SettingsFailure where
  | malformed (cause : String)
  | outOfRange (setting : String) (value : Binary64)
  deriving DecidableEq

def SettingsFailure.message : SettingsFailure → String
  | .malformed cause => "Invalid configuration JSON: " ++ cause
  | .outOfRange setting value =>
      "Invalid value for " ++ setting ++ ": " ++ String.ofList (Binary64.display value)

namespace Settings

def validate (settings : Settings) : Except SettingsFailure Settings :=
  if Binary64.isFinite settings.pi = false then .error (.outOfRange Field.pi.name settings.pi)
  else if Binary64.isFinite settings.e = false then .error (.outOfRange Field.e.name settings.e)
  else if Binary64.isFinite settings.tangentTolerance = false ∨ settings.tangentTolerance ≤ 0.0 then
    .error (.outOfRange Field.tangentTolerance.name settings.tangentTolerance)
  else .ok settings

def ofText (reader : DocumentReader) (text : Text) : Except SettingsFailure Settings :=
  match reader.document text with
  | .error cause => .error (.malformed cause)
  | .ok settings => settings.validate

def toText (writer : DocumentWriter) (settings : Settings) : Except SettingsFailure Text :=
  (writer.settings settings).mapError .malformed

end Settings

end InfixCalculator
