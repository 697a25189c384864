import InfixCalculator.Text

/-!
Layouts of arrays and objects whose parts are already texts: without blanks, or
with one member a line. Keys are shown as they are, between quotes.
-/

namespace InfixCalculator

namespace Json

def nullText : Text := ['n', 'u', 'l', 'l']

def quotedName (name : String) : Text := '"' :: name.toList ++ ['"']

def compactArray (items : List Text) : Text := '[' :: List.intercalate [','] items ++ [']']

def compactMember (member : String × Text) : Text := quotedName member.1 ++ ':' :: member.2

def compactObject (members : List (String × Text)) : Text :=
  '\x7b' :: List.intercalate [','] (members.map compactMember) ++ ['\x7d']

/-- Members of an outermost object are indented by two spaces. -/
def prettyMember (member : String × Text) : Text :=
  ['\n', ' ', ' '] ++ (quotedName member.1 ++ ':' :: ' ' :: member.2)

def prettyObject (members : List (String × Text)) : Text :=
  if members.isEmpty then ['\x7b', '\x7d']
  else '\x7b' :: List.intercalate [','] (members.map prettyMember) ++ ['\n', '\x7d']

end Json

end InfixCalculator
