import EditorLint.Failure

/-!
Findings: what a tool reports, in the tool's own coordinates. A report is a JSON array of
findings and is taken as a whole or not at all; unknown entries of a finding say nothing.
-/

namespace EditorLint

/-- A replacement that a tool suggests. -/
structure SuggestedFix where
  content : String
  start : Position
  stop : Position
  deriving DecidableEq, Repr

/-- One finding of a tool. -/
structure Finding where
  code : String
  text : String
  start : Position
  stop : Position
  file : Option String
  fix : Option SuggestedFix
  deriving DecidableEq, Repr

namespace Finding

/-- The position in a field of an item: an object with a row and a column. -/
def position (field : String) : Option Json → Except ReportFault Position
  | some (.obj entries) =>
    match (Table.get? entries "row").bind Coord.ofJson?,
        (Table.get? entries "column").bind Coord.ofJson? with
    | some row, some column => .ok ⟨row, column⟩
    | _, _ => .error (.badPosition field (.obj entries))
  | _ => .error (.noPosition field)

/-- The suggested fix of an item, if it has one. -/
def suggestedFix : Option Json → Except ReportFault (Option SuggestedFix)
  | none | some .null => .ok none
  | some value =>
    match (value.get? "content").bind Json.text? with
    | none => .error (.badFix value)
    | some content => do
      let start ← position "fix.location" (value.get? "location")
      let stop ← position "fix.end_location" (value.get? "end_location")
      return some ⟨content, start, stop⟩

/-- A rule code; a syntax error carries null in its place and has the empty code. -/
def code? : Json → Option String
  | .null => some ""
  | value => value.text?

/-- The file that a finding names, if it names one. -/
def file? : Option Json → Except ReportFault (Option String)
  | none | some .null => .ok none
  | some (.str file) => .ok (some file)
  | some value => .error (.badFile value)

/-- The finding that an item of a report stands for. -/
def ofJson (item : Json) : Except ReportFault Finding :=
  match item with
  | .obj entries =>
    match Table.get? entries "code" with
    | none => .error (.noCode item)
    | some code =>
      match code? code, (Table.get? entries "message").bind Json.text? with
      | some code, some text => do
        let file ← file? (Table.get? entries "filename")
        let start ← position "location" (Table.get? entries "location")
        let stop ← position "end_location" (Table.get? entries "end_location")
        let fix ← suggestedFix (Table.get? entries "fix")
        return ⟨code, text, start, stop, file, fix⟩
      | _, _ => .error (.badCodeOrMessage item)
  | _ => .error (.notObject item)

/-- Reads a report: the findings of all its items, or the fault of the first bad one. Text beyond
the limits of the reader is no fault of the report but a failure of its own. -/
def ofReport (text : String) : Except Failure (List Finding) :=
  match Json.read text with
  | .error (.malformed what offset) =>
    .error (.tool (.badReport (.malformed text what offset)) none)
  | .error fault => .error (.reportLimit fault)
  | .ok (.arr items) =>
    match items.mapM ofJson with
    | .ok findings => .ok findings
    | .error fault => .error (.tool (.badReport fault) none)
  | .ok _ => .error (.tool (.badReport (.notArray text)) none)

end Finding

end EditorLint
