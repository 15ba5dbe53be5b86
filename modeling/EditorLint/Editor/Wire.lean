import EditorLint.Editor.CodeAction

/-!
Editor values as JSON. An absent entry is left out. Diagnostics are also read back, as an editor
sends them along with a request.
-/

namespace EditorLint.Editor

def Point.toJson (p : Point) : Json :=
  .obj [("line", p.line.toJson), ("character", p.character.toJson)]

def Range.toJson (range : Range) : Json :=
  .obj [("start", range.start.toJson), ("end", range.stop.toJson)]

def TextEdit.toJson (edit : TextEdit) : Json :=
  .obj [("range", edit.range.toJson), ("newText", .str edit.newText)]

def Code.toJson : Code → Json
  | .number n => .int n
  | .text code => .str code

/-- An entry, if there is a value for it. -/
def entry (key : String) (value : Option Json) : List (String × Json) :=
  (value.map fun value => (key, value)).toList

def Related.toJson (related : Related) : Json :=
  .obj [("location", .obj [("uri", .str related.uri), ("range", related.range.toJson)]),
    ("message", .str related.text)]

def Diagnostic.toJson (diagnostic : Diagnostic) : Json :=
  .obj <| [("range", diagnostic.range.toJson)]
    ++ entry "severity" (diagnostic.severity.map fun s => .int s.number)
    ++ entry "code" (diagnostic.code.map Code.toJson)
    ++ entry "codeDescription" (diagnostic.explanation.map fun uri => .obj [("href", .str uri)])
    ++ entry "source" (diagnostic.source.map .str)
    ++ [("message", .str diagnostic.text)]
    ++ entry "tags" (diagnostic.tags.map fun tags => .arr (tags.map fun t => .int t.number))
    ++ entry "relatedInformation"
      (diagnostic.related.map fun related => .arr (related.map Related.toJson))
    ++ entry "data" diagnostic.data

def WorkspaceEdit.toJson (changes : WorkspaceEdit) : Json :=
  .obj [("changes", .obj (changes.map fun (uri, edits) =>
    (uri, .arr (edits.map TextEdit.toJson))))]

def CodeAction.toJson (action : CodeAction) : Json :=
  .obj <| [("title", .str action.title), ("kind", .str action.kind)]
    ++ entry "diagnostics" (action.diagnostics.map fun ds => .arr (ds.map Diagnostic.toJson))
    ++ entry "isPreferred" (action.isPreferred.map .bool)
    ++ [("edit", action.edit.toJson)]

def Point.ofJson? (value : Json) : Option Point := do
  let line ← (value.get? "line").bind Coord.ofJson?
  let character ← (value.get? "character").bind Coord.ofJson?
  return ⟨line, character⟩

def Range.ofJson? (value : Json) : Option Range := do
  let start ← (value.get? "start").bind Point.ofJson?
  let stop ← (value.get? "end").bind Point.ofJson?
  return ⟨start, stop⟩

def Code.ofJson? : Json → Option Code
  | .int n => some (.number n)
  | .str code => some (.text code)
  | _ => none

def severityOfJson? : Json → Option Severity
  | .int n => Severity.ofNumber? n
  | _ => none

def tagOfJson? : Json → Option Tag
  | .int n => Tag.ofNumber? n
  | _ => none

def tagsOfJson? : Json → Option (List Tag)
  | .arr items => some (items.filterMap tagOfJson?)
  | _ => none

def Related.ofJson? (value : Json) : Option Related := do
  let location ← value.get? "location"
  let uri ← (location.get? "uri").bind Json.text?
  let range ← (location.get? "range").bind Range.ofJson?
  let text ← (value.get? "message").bind Json.text?
  return ⟨uri, range, text⟩

def relatedOfJson? : Json → Option (List Related)
  | .arr items => items.mapM Related.ofJson?
  | _ => none

/-- A diagnostic as an editor sends it; data that is null is no data. -/
def Diagnostic.ofJson? (value : Json) : Option Diagnostic := do
  let range ← (value.get? "range").bind Range.ofJson?
  let text ← (value.get? "message").bind Json.text?
  return {
    range
    text
    severity := (value.get? "severity").bind severityOfJson?
    source := (value.get? "source").bind Json.text?
    code := (value.get? "code").bind Code.ofJson?
    explanation := ((value.get? "codeDescription").bind (·.get? "href")).bind Json.text?
    tags := (value.get? "tags").bind tagsOfJson?
    related := (value.get? "relatedInformation").bind relatedOfJson?
    data := (value.get? "data").filter (· != .null) }

end EditorLint.Editor
