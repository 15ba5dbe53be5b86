import EditorLint.Failure
import EditorLint.Fix
import EditorLint.Table
import EditorLint.Uri

/-!
Ranges and edits in an editor. Lines and characters count from zero and have an upper bound; a
coordinate out of bounds is refused, the line before the character and the start before the end.
-/

namespace EditorLint.Editor

/-- The greatest line or character. -/
def coordLimit : Int := 2147483647

structure Point where
  line : Coord
  character : Coord
  deriving DecidableEq, Repr, Inhabited

structure Range where
  start : Point
  stop : Point
  deriving DecidableEq, Repr, Inhabited

/-- A coordinate within bounds. -/
def bounded (axis : Axis) (c : Coord) : Except Failure Coord :=
  if 0 ≤ c.value ∧ c.value ≤ coordLimit then .ok c else .error (.outOfRange axis c)

def Point.of (line character : Coord) : Except Failure Point := do
  let line ← bounded .line line
  let character ← bounded .character character
  return ⟨line, character⟩

/-- The range of a span whose rows and columns count from zero. -/
def Range.ofSpan (span : Span) : Except Failure Range := do
  let start ← Point.of span.start.row span.start.column
  let stop ← Point.of span.stop.row span.stop.column
  return ⟨start, stop⟩

/-- A replacement of the text in a range. -/
structure TextEdit where
  range : Range
  newText : String
  deriving DecidableEq, Repr, Inhabited

def TextEdit.ofFix (fix : Fix) : Except Failure TextEdit := do
  let range ← Range.ofSpan fix.span
  return ⟨range, fix.replacement⟩

/-- The address under which an editor knows a file. -/
def fileUri (path : String) : Except Failure String :=
  match Uri.ofPath? path with
  | some uri => .ok uri
  | none => .error .noFileOnHost

/-- Edits of several files: each address once, in the order of its first edit. -/
abbrev WorkspaceEdit := Table (List TextEdit)

namespace WorkspaceEdit

/-- Adds an edit at the end of those of its file. -/
def add (changes : WorkspaceEdit) (uri : String) (edit : TextEdit) : WorkspaceEdit :=
  changes.insert uri ((changes.get? uri).getD [] ++ [edit])

/-- Adds the edit of a fix. -/
def addFix (changes : WorkspaceEdit) (fix : Fix) : Except Failure WorkspaceEdit := do
  let uri ← fileUri fix.file
  let edit ← TextEdit.ofFix fix
  return changes.add uri edit

/-- The edits of fixes in order, grouped by file. -/
def ofFixes (fixes : List Fix) : Except Failure WorkspaceEdit :=
  fixes.foldlM addFix []

end WorkspaceEdit

end EditorLint.Editor
