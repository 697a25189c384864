import InfixCalculator.Numeric.Literal

/-!
Values of the JSON interchange format. Numbers keep the digits that they were
written with. A string holds text unless one of its escapes is an unpaired
surrogate; such a string is kept as `none`, since it spells no text.
-/

namespace InfixCalculator

abbrev StringContent := Option Text

inductive Json where
  | null
  | bool (truth : Bool)
  | number (literal : NumberLiteral)
  | string (content : StringContent)
  | array (items : List Json)
  | object (members : List (StringContent × Json))
  deriving Repr

namespace Json

def ofString (content : String) : Json := .string (some content.toList)

def ofMembers (members : List (String × Json)) : Json :=
  .object (members.map fun (key, value) => (some key.toList, value))

end Json

end InfixCalculator
