import EditorLint.Json.Value
import EditorLint.Number.Shortest
import EditorLint.Text.Quoted

/-!
Two ways to write a value: JSON text on one line, and the literal text in which settings and
findings are shown to a person.
-/

namespace EditorLint.Json

/-- One character of a JSON string. -/
def escapedJsonChar (c : Char) : List Char :=
  if c = '"' ∨ c = '\\' then ['\\', c]
  else if c.toNat < 0x20 then '\\' :: 'u' :: Text.hexDigits 4 c.toNat
  else [c]

/-- A JSON string. -/
def stringText (text : String) : String :=
  String.ofList ('"' :: (text.toList.flatMap escapedJsonChar ++ ['"']))

/-- A number in JSON text; the numbers without digits go by name. -/
def numberText : Binary64 → String
  | .nan => "NaN"
  | .infinite negative => if negative then "-Infinity" else "Infinity"
  | value => value.text

mutual

/-- JSON text, without white space. -/
def print : Json → String
  | .null => "null"
  | .bool value => if value then "true" else "false"
  | .int value => toString value
  | .float value => numberText value
  | .str text => stringText text
  | .arr items => "[" ++ Text.joined "," (printItems items) ++ "]"
  | .obj entries => "\x7b" ++ Text.joined "," (printEntries entries) ++ "\x7d"

def printItems : List Json → List String
  | [] => []
  | item :: rest => print item :: printItems rest

def printEntries : List (String × Json) → List String
  | [] => []
  | (key, value) :: rest => (stringText key ++ ":" ++ print value) :: printEntries rest

end

mutual

/-- The literal text of a value: names with a capital, quoted strings, and a blank after each
comma and colon. -/
def literal : Json → String
  | .null => "None"
  | .bool value => if value then "True" else "False"
  | .int value => toString value
  | .float value => value.text
  | .str text => Text.quoted text
  | .arr items => "[" ++ Text.joined ", " (literalItems items) ++ "]"
  | .obj entries => "\x7b" ++ Text.joined ", " (literalEntries entries) ++ "\x7d"

def literalItems : List Json → List String
  | [] => []
  | item :: rest => literal item :: literalItems rest

def literalEntries : List (String × Json) → List String
  | [] => []
  | (key, value) :: rest => (Text.quoted key ++ ": " ++ literal value) :: literalEntries rest

end

/-- A value as running text: a string stands for itself, anything else is shown literally. -/
def display : Json → String
  | .str text => text
  | value => literal value

end EditorLint.Json
