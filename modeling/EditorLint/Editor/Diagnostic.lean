import EditorLint.Editor.Range
import EditorLint.Fix.Data
import EditorLint.Message

/-!
Diagnostics: messages as an editor shows them. Lines count from zero, coordinates below zero are
taken as zero, and a fix travels as the data of its diagnostic.
-/

namespace EditorLint.Editor

/-- A rule code of a diagnostic. -/
inductive Code where
  | number (n : Int)
  | text (code : String)
  deriving DecidableEq, Repr

/-- A code as running text. -/
def Code.shown : Code → String
  | .number n => toString n
  | .text code => code

/-- Another place that has to do with a diagnostic. -/
structure Related where
  uri : String
  range : Range
  text : String
  deriving DecidableEq, Repr

structure Diagnostic where
  range : Range
  text : String
  severity : Option Severity := none
  source : Option String := none
  code : Option Code := none
  /-- An address that explains the code. -/
  explanation : Option String := none
  tags : Option (List Tag) := none
  related : Option (List Related) := none
  data : Option Json := none
  deriving DecidableEq, Repr

/-- The line of a row that counts from one. -/
def lineOfRow (row : Coord) : Coord :=
  (row.minus 1).atLeastZero

def Diagnostic.ofMessage (message : Message) : Except Failure Diagnostic := do
  let start ← Point.of (lineOfRow message.line) message.column.atLeastZero
  let stop ← Point.of (lineOfRow message.stopLine) message.stopColumn.atLeastZero
  return {
    range := ⟨start, stop⟩
    text := message.text
    severity := some message.severity
    source := some message.provider
    code := if message.code = "" then none else some (.text message.code)
    tags := if message.tags.isEmpty then none else some message.tags
    data := message.fix.map Fix.toData }

/-- The diagnostics of messages, or the failure of the first that has none. -/
def Diagnostic.ofMessages (messages : List Message) : Except Failure (List Diagnostic) :=
  messages.mapM ofMessage

end EditorLint.Editor
