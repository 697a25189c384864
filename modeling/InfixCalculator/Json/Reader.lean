import InfixCalculator.Json.Lexeme

/-!
Reading a JSON document. The values that are still open wait on a stack of
frames, so documents of any depth are read. A document is one value and nothing
behind it.
-/

namespace InfixCalculator

namespace Json

inductive Frame where
  | array (items : List Json)
  | object (members : List (StringContent × Json)) (key : StringContent)
  deriving Repr

mutual

def readValue? (frames : List Frame) : List Lexeme → Option Json
  | .null :: rest => readOn? frames .null rest
  | .bool truth :: rest => readOn? frames (.bool truth) rest
  | .number literal :: rest => readOn? frames (.number literal) rest
  | .string content :: rest => readOn? frames (.string content) rest
  | .openBracket :: .closeBracket :: rest => readOn? frames (.array []) rest
  | .openBracket :: rest => readValue? (.array [] :: frames) rest
  | .openBrace :: .closeBrace :: rest => readOn? frames (.object []) rest
  | .openBrace :: .string key :: .colon :: rest => readValue? (.object [] key :: frames) rest
  | _ => none

def readOn? (frames : List Frame) (value : Json) : List Lexeme → Option Json
  | [] => match frames with
      | [] => some value
      | _ :: _ => none
  | .comma :: rest => match frames, rest with
      | .array items :: outer, rest => readValue? (.array (items ++ [value]) :: outer) rest
      | .object members key :: outer, .string next :: .colon :: rest =>
          readValue? (.object (members ++ [(key, value)]) next :: outer) rest
      | _, _ => none
  | .closeBracket :: rest => match frames with
      | .array items :: outer => readOn? outer (.array (items ++ [value])) rest
      | _ => none
  | .closeBrace :: rest => match frames with
      | .object members key :: outer => readOn? outer (.object (members ++ [(key, value)])) rest
      | _ => none
  | _ => none

end

def read? (text : Text) : Option Json := do
  let lexemes ← lexemes? text
  readValue? [] lexemes

end Json

end InfixCalculator
