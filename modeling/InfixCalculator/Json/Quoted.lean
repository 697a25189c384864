import InfixCalculator.Json.Value

/-!
Quoted strings. Quotes, backslashes and control characters are escaped, and all
other characters stand for themselves. Reading accepts every escape of the
format; two surrogate escapes in a row are one character.
-/

namespace InfixCalculator

namespace Json

def controlEscape (symbol : Char) : Text :=
  ['\\', 'u', '0', '0', Nat.digitChar (symbol.toNat / 16), Nat.digitChar (symbol.toNat % 16)]

def escape (symbol : Char) : Text :=
  if symbol = '"' then ['\\', '"']
  else if symbol = '\\' then ['\\', '\\']
  else if symbol = '\x08' then ['\\', 'b']
  else if symbol = '\x0c' then ['\\', 'f']
  else if symbol = '\n' then ['\\', 'n']
  else if symbol = '\r' then ['\\', 'r']
  else if symbol = '\t' then ['\\', 't']
  else if symbol.toNat < 32 then controlEscape symbol
  else [symbol]

def quote (content : Text) : Text := '"' :: content.flatMap escape ++ ['"']

/-- A character of a quoted string, or the sixteen bits of a numeric escape. -/
inductive StringUnit where
  | symbol (symbol : Char)
  | code (bits : Nat)
  deriving DecidableEq, Repr

def hexValue? (symbol : Char) : Option Nat :=
  if '0' ≤ symbol ∧ symbol ≤ '9' then some (symbol.toNat - '0'.toNat)
  else if 'a' ≤ symbol ∧ symbol ≤ 'f' then some (symbol.toNat - 'a'.toNat + 10)
  else if 'A' ≤ symbol ∧ symbol ≤ 'F' then some (symbol.toNat - 'A'.toNat + 10)
  else none

def hexCode? (first second third fourth : Char) : Option Nat := do
  let high ← hexValue? first
  let upper ← hexValue? second
  let lower ← hexValue? third
  let low ← hexValue? fourth
  some (high * 4096 + upper * 256 + lower * 16 + low)

def shortEscape? : Char → Option Char
  | '"' => some '"'
  | '\\' => some '\\'
  | '/' => some '/'
  | 'b' => some '\x08'
  | 'f' => some '\x0c'
  | 'n' => some '\n'
  | 'r' => some '\r'
  | 't' => some '\t'
  | _ => none

/-- The units of a string up to its closing quote, and the text behind it.
Control characters have to be escaped. -/
def stringUnits? : Text → Option (List StringUnit × Text)
  | [] => none
  | '"' :: rest => some ([], rest)
  | '\\' :: 'u' :: first :: second :: third :: fourth :: rest => do
      let bits ← hexCode? first second third fourth
      let (units, behind) ← stringUnits? rest
      some (.code bits :: units, behind)
  | '\\' :: letter :: rest => do
      let symbol ← shortEscape? letter
      let (units, behind) ← stringUnits? rest
      some (.symbol symbol :: units, behind)
  | symbol :: rest =>
      if symbol.toNat < 32 ∨ symbol = '\\' then none
      else do
        let (units, behind) ← stringUnits? rest
        some (.symbol symbol :: units, behind)

def isHighSurrogate (bits : Nat) : Bool := decide (0xD800 ≤ bits) && decide (bits < 0xDC00)

def isLowSurrogate (bits : Nat) : Bool := decide (0xDC00 ≤ bits) && decide (bits < 0xE000)

def pairedCharacter (high low : Nat) : Char :=
  Char.ofNat (0x10000 + (high - 0xD800) * 1024 + (low - 0xDC00))

def contentOf : List StringUnit → StringContent
  | [] => some []
  | .symbol symbol :: rest => (contentOf rest).map (symbol :: ·)
  | .code high :: .code low :: rest =>
      if isHighSurrogate high then
        if isLowSurrogate low then (contentOf rest).map (pairedCharacter high low :: ·) else none
      else if isLowSurrogate high then none
      else (contentOf (.code low :: rest)).map (Char.ofNat high :: ·)
  | .code bits :: rest =>
      if isHighSurrogate bits || isLowSurrogate bits then none
      else (contentOf rest).map (Char.ofNat bits :: ·)

end Json

end InfixCalculator
