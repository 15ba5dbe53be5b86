import EditorLint.Failure
import EditorLint.Fix
import EditorLint.Text.Digit

/-!
Fixes that travel with a diagnostic. `Fix.toData` packs a fix into the value that the editor keeps
for the diagnostic, and `Fix.ofData` unpacks it when the editor sends it back. Unpacking takes
whatever can be read as the parts of a fix; what cannot is no fix.
-/

namespace EditorLint.Fix

/-- Under this key the fix of a diagnostic is kept. -/
def dataKey : String := "fix"

def packPosition (p : Position) : Json :=
  .arr [p.row.toJson, p.column.toJson]

/-- The parts of a fix as a value. -/
def pack (fix : Fix) : Json :=
  .obj [("file", .str fix.file), ("start", packPosition fix.span.start),
    ("end", packPosition fix.span.stop), ("content", .str fix.replacement)]

/-- The value that the editor keeps for a diagnostic with a fix. -/
def toData (fix : Fix) : Json :=
  .obj [(dataKey, fix.pack)]

/-- Why the parts of a fix cannot be read. -/
inductive Unreadable where
  /-- The value is no fix. -/
  | noFix
  /-- A coordinate is infinite, which is a failure and not just no fix. -/
  | infinite
  deriving DecidableEq, Repr

/-- The entry of a key that has to be there. -/
def part (key : String) (entries : Table Json) : Except Unreadable Json :=
  match entries.get? key with
  | some value => .ok value
  | none => .error .noFix

/-- The two parts of a value that has exactly two: items, characters or keys. -/
def pair : Json → Except Unreadable (Json × Json)
  | .arr [first, second] => .ok (first, second)
  | .obj [(first, _), (second, _)] => .ok (.str first, .str second)
  | .str text =>
    match text.toList with
    | [first, second] => .ok (.str (String.singleton first), .str (String.singleton second))
    | _ => .error .noFix
  | _ => .error .noFix

/-- The whole number that a value can be read as. -/
def wholeNumber : Json → Except Unreadable Int
  | .int n => .ok n
  | .bool b => .ok (if b then 1 else 0)
  | .float x =>
    match x.truncate with
    | .ok n => .ok n
    | .error .infinite => .error .infinite
    | .error .nan => .error .noFix
  | .str text =>
    match Text.integer? text with
    | some n => .ok n
    | none => .error .noFix
  | _ => .error .noFix

/-- Reads the parts of a fix, in their order. -/
def unpack (entries : Table Json) : Except Unreadable Fix := do
  let (startRow, startColumn) ← pair (← part "start" entries)
  let (stopRow, stopColumn) ← pair (← part "end" entries)
  let file ← part "file" entries
  let startRow ← wholeNumber startRow
  let startColumn ← wholeNumber startColumn
  let stopRow ← wholeNumber stopRow
  let stopColumn ← wholeNumber stopColumn
  let content ← part "content" entries
  return {
    file := file.display
    span := ⟨⟨.int startRow, .int startColumn⟩, ⟨.int stopRow, .int stopColumn⟩⟩
    replacement := content.display }

/-- The fix that an editor sends back with a diagnostic, if there is one. -/
def ofData (data : Json) : Except Failure (Option Fix) :=
  match (data.get? dataKey).bind Json.entries? with
  | none => .ok none
  | some entries =>
    match unpack entries with
    | .ok fix => .ok (some fix)
    | .error .noFix => .ok none
    | .error .infinite => .error .infiniteNumber

end EditorLint.Fix
