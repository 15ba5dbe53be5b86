import EditorLint.Editor.Wire
import EditorLint.Proofs.Editor.Diagnostic
import EditorLint.Proofs.Editor.WorkspaceEdit
import EditorLint.Proofs.Finding
import EditorLint.Proofs.Json.RoundTrip

/-! Diagnostics on their way to an editor and back. What a diagnostic is sent as is read back as
this diagnostic, and the text of it is read back as what was sent.
-/

namespace EditorLint.Editor

-----------------------------------------------------------------------------------------
-- Reading back what was sent
-----------------------------------------------------------------------------------------

/-- An entry that may be left out is found if it is there. -/
theorem get?_entry (key asked : String) (value : Option Json)
    : Table.get? (entry key value) asked = if asked = key then value else none := by
  cases value with
  | none => simp [entry]
  | some value => simp [entry, Table.get?_cons]

/-- Otherwise what comes behind it may be. -/
theorem get?_entry_append (key asked : String) (value : Option Json) (rest : Table Json)
    : Table.get? (entry key value ++ rest) asked
      = if asked = key then value.or (rest.get? asked) else rest.get? asked := by
  cases value with
  | none => simp [entry]
  | some value => simp [entry, Table.get?_cons]

theorem Point.ofJson?_toJson (p : Point) : Point.ofJson? p.toJson = some p := by
  have back (c : Coord) : Coord.ofJson? c.toJson = some c := bind_ofJson?_eq_some_iff.mpr rfl
  simp [Point.ofJson?, Point.toJson, Json.get?, Json.entries?, Table.get?_cons, back]

theorem Range.ofJson?_toJson (range : Range) : Range.ofJson? range.toJson = some range := by
  simp [Range.ofJson?, Range.toJson, Json.get?, Json.entries?, Table.get?_cons,
    Point.ofJson?_toJson]

theorem Code.ofJson?_toJson (code : Code) : Code.ofJson? code.toJson = some code := by
  cases code <;> rfl

theorem Related.ofJson?_toJson (related : Related)
    : Related.ofJson? related.toJson = some related := by
  simp [Related.ofJson?, Related.toJson, Json.get?, Json.entries?, Table.get?_cons, Json.text?,
    Range.ofJson?_toJson]

theorem severityOfJson?_number (severity : Severity)
    : severityOfJson? (.int severity.number) = some severity := by
  cases severity <;> rfl

theorem tagOfJson?_number (tag : Tag) : tagOfJson? (.int tag.number) = some tag := by
  cases tag <;> rfl

theorem tagsOfJson?_numbers (tags : List Tag)
    : tagsOfJson? (.arr (tags.map fun tag => .int tag.number)) = some tags := by
  simp [tagsOfJson?, tagOfJson?_number]

theorem relatedOfJson?_toJson (related : List Related)
    : relatedOfJson? (.arr (related.map Related.toJson)) = some related := by
  induction related with
  | nil => rfl
  | cons first rest ih => simp_all [relatedOfJson?, Related.ofJson?_toJson]

/-- An optional value that each value is read back from is read back itself. -/
theorem bind_map_of_back {α : Type} {write : α → Json} {read : Json → Option α}
    (back : ∀ value, read (write value) = some value) (value : Option α)
    : (value.map write).bind read = value := by
  cases value with
  | none => rfl
  | some value => exact back value

/-- What is found in a diagnostic that is sent. -/
structure Diagnostic.SentAs (diagnostic : Diagnostic) (sent : Json) : Prop where
  range : sent.get? "range" = some diagnostic.range.toJson
  text : sent.get? "message" = some (.str diagnostic.text)
  severity : sent.get? "severity" = diagnostic.severity.map fun s => .int s.number
  source : sent.get? "source" = diagnostic.source.map .str
  code : sent.get? "code" = diagnostic.code.map Code.toJson
  explanation
    : sent.get? "codeDescription" = diagnostic.explanation.map fun uri => .obj [("href", .str uri)]
  tags : sent.get? "tags" = diagnostic.tags.map fun tags => .arr (tags.map fun t => .int t.number)
  related
    : sent.get? "relatedInformation"
      = diagnostic.related.map fun related => .arr (related.map Related.toJson)
  data : sent.get? "data" = diagnostic.data

theorem Diagnostic.sentAs_toJson (diagnostic : Diagnostic)
    : diagnostic.SentAs diagnostic.toJson := by
  constructor <;>
    simp [toJson, Json.get?, Json.entries?, Table.get?_cons, get?_entry_append, get?_entry]

/-- A diagnostic is read back as it was, unless its data was null, which is read as no data. -/
theorem Diagnostic.ofJson?_of_sentAs {diagnostic : Diagnostic} {sent : Json}
    (found : diagnostic.SentAs sent) (given : diagnostic.data ≠ some .null)
    : Diagnostic.ofJson? sent = some diagnostic := by
  have explained
      : ((diagnostic.explanation.map fun uri => Json.obj [("href", .str uri)]).bind
          (·.get? "href")).bind Json.text? = diagnostic.explanation := by
    cases diagnostic.explanation <;> rfl
  have kept : diagnostic.data.filter (· != .null) = diagnostic.data := by
    cases data : diagnostic.data with
    | none => rfl
    | some value => simpa [data] using given
  have told : (Json.str diagnostic.text).text? = some diagnostic.text := rfl
  have named : (diagnostic.source.map Json.str).bind Json.text? = diagnostic.source := by
    cases diagnostic.source <;> rfl
  simp only [ofJson?, found.range, found.text, found.severity, found.source, found.code,
    found.explanation, found.tags, found.related, found.data, Option.bind_eq_bind,
    Option.bind_some, Range.ofJson?_toJson, told, named, explained, kept,
    bind_map_of_back severityOfJson?_number, bind_map_of_back Code.ofJson?_toJson,
    bind_map_of_back tagsOfJson?_numbers, bind_map_of_back relatedOfJson?_toJson]
  rfl

-----------------------------------------------------------------------------------------
-- The text of what was sent
-----------------------------------------------------------------------------------------

open Json (Printable)

/-- The keys of a diagnostic, those that may be left out included. -/
def diagnosticKeys : List String :=
  ["range", "severity", "code", "codeDescription", "source", "message", "tags",
    "relatedInformation", "data"]

/-- An entry that may be left out has its key at most. -/
theorem keys_entry_sublist (key : String) (value : Option Json)
    : (Table.keys (entry key value)).Sublist [key] := by
  cases value <;> simp [entry, Table.keys]

/-- No key occurs twice in a diagnostic. -/
theorem nodup_keys_diagnostic {diagnostic : Diagnostic} {entries : Table Json}
    (sent : diagnostic.toJson = .obj entries)
    : entries.keys.Nodup := by
  obtain rfl := Json.obj.inj sent
  refine List.Nodup.sublist ?_ (show diagnosticKeys.Nodup by decide)
  have always (key : String) : [key].Sublist [key] := List.Sublist.refl [key]
  have maybe := keys_entry_sublist
  simp only [Table.keys, List.map_append]
  exact (always "range").append (maybe "severity" _) |>.append (maybe "code" _)
    |>.append (maybe "codeDescription" _) |>.append (maybe "source" _) |>.append (always "message")
    |>.append (maybe "tags" _) |>.append (maybe "relatedInformation" _) |>.append (maybe "data" _)

/-- A diagnostic is where its message is, and has the code and the fix of its message. -/
structure Diagnostic.Shows (diagnostic : Diagnostic) (message : Message) : Prop where
  start : Point.of (lineOfRow message.line) message.column.atLeastZero = .ok diagnostic.range.start
  stop
    : Point.of (lineOfRow message.stopLine) message.stopColumn.atLeastZero
      = .ok diagnostic.range.stop
  code : ∀ code ∈ diagnostic.code, code = .text message.code
  related : diagnostic.related = none
  data : diagnostic.data = message.fix.map Fix.toData

theorem Diagnostic.shows_of_ofMessage {message : Message} {diagnostic : Diagnostic}
    (made : Diagnostic.ofMessage message = .ok diagnostic)
    : diagnostic.Shows message := by
  obtain ⟨start, begun, more⟩ := bind_eq_ok_iff.mp made
  obtain ⟨stop, ended, same⟩ := bind_eq_ok_iff.mp more
  obtain rfl := Except.ok.inj same
  refine ⟨begun, ended, ?_, rfl, rfl⟩
  intro code given
  simp only [Option.mem_def] at given
  split at given <;> simp_all

/-- A point has coordinates within bounds. -/
theorem Point.fits_of_of {line character : Coord} {point : Point}
    (made : Point.of line character = .ok point)
    : point.line.Fits ∧ point.character.Fits := by
  obtain ⟨below, right⟩ := exists_point_iff.mp ⟨point, made⟩
  obtain rfl := Point.eq_of_of made
  exact ⟨exists_bounded_iff.mp below, exists_bounded_iff.mp right⟩

/-- A coordinate within bounds has few digits. -/
theorem printable_coord {c : Coord} (fits : c.Fits) (depth : Nat) : Printable depth c.toJson := by
  cases c with
  | flag b => exact .bool b
  | int n =>
      have small : n.natAbs < 10 ^ 10 := by
        simp only [Coord.Fits, Coord.value, coordLimit] at fits
        omega
      have few := (Nat.length_toDigits_le_iff (by decide) (by decide)).mpr small
      exact .int (few.trans (by decide))

theorem printable_point {p : Point} (line : p.line.Fits) (character : p.character.Fits)
    (depth : Nat)
    : Printable (depth + 1) p.toJson := by
  refine .obj (by simp [Table.keys]) ?_
  simp [printable_coord line, printable_coord character]

theorem printable_packPosition {p : Position} (row : p.row.Fits) (column : p.column.Fits)
    (depth : Nat)
    : Printable (depth + 1) (Fix.packPosition p) := by
  refine .arr ?_
  simp [printable_coord row, printable_coord column]

/-- The data of a fix is printable. -/
theorem printable_toData {fix : Fix} (fits : fix.Fits) (depth : Nat)
    : Printable (depth + 3) fix.toData := by
  have packed : Printable (depth + 2) fix.pack := by
    refine .obj (by simp [Table.keys]) ?_
    simp [printable_packPosition fits.start fits.startColumn,
      printable_packPosition fits.stop fits.stopColumn, Printable.str]
  refine .obj (by simp [Table.keys]) ?_
  simpa using packed

/-- A number from one to four is printable. -/
theorem printable_severity (severity : Severity) (depth : Nat)
    : Printable depth (.int severity.number) := by
  cases severity <;> exact .int (by decide)

theorem printable_tags (tags : List Tag) (depth : Nat)
    : Printable (depth + 1) (.arr (tags.map fun tag => .int tag.number)) := by
  refine .arr ?_
  intro item member
  obtain ⟨tag, _, rfl⟩ := List.mem_map.mp member
  cases tag <;> exact .int (by decide)

/-- What holds of all entries that may be left out holds of those that are not. -/
theorem forall_mem_entry {key : String} {value : Option Json} {P : String × Json → Prop}
    : (∀ e ∈ entry key value, P e) ↔ ∀ v ∈ value, P (key, v) := by
  cases value <;> simp [entry]

/-- A diagnostic is printable if its range, its code, its related places and its data are. -/
theorem Diagnostic.printable {diagnostic : Diagnostic} {depth : Nat}
    (range : Printable (depth + 2) diagnostic.range.toJson)
    (code : ∀ code ∈ diagnostic.code, Printable (depth + 2) code.toJson)
    (related : ∀ related ∈ diagnostic.related,
      Printable (depth + 2) (.arr (related.map Related.toJson)))
    (data : ∀ data ∈ diagnostic.data, Printable (depth + 2) data)
    : Printable (depth + 3) diagnostic.toJson := by
  refine .obj (nodup_keys_diagnostic rfl) ?_
  simp only [List.forall_mem_append, forall_mem_entry, List.forall_mem_singleton,
    Option.forall_mem_map, and_assoc]
  have explained (uri : String) : Printable (depth + 2) (.obj [("href", .str uri)]) :=
    .obj (by simp [Table.keys]) (by simp [Printable.str])
  exact ⟨range, fun severity _ => printable_severity severity _, code, fun uri _ => explained uri,
    fun source _ => .str source, .str diagnostic.text, fun tags _ => printable_tags tags _, related,
    data⟩

/-- So is the diagnostic of a message, as long as the fix of the message fits. -/
theorem Diagnostic.printable_of_shows {message : Message} {diagnostic : Diagnostic}
    (shows : diagnostic.Shows message) (fits : ∀ fix ∈ message.fix, fix.Fits) (depth : Nat)
    : Printable (depth + 4) diagnostic.toJson := by
  refine Diagnostic.printable ?_ ?_ (by simp [shows.related]) ?_
  · obtain ⟨line, character⟩ := Point.fits_of_of shows.start
    obtain ⟨stopLine, stopCharacter⟩ := Point.fits_of_of shows.stop
    refine .obj (by simp [Table.keys]) ?_
    simp [printable_point line character, printable_point stopLine stopCharacter]
  · intro code given
    rw [shows.code code given]
    exact .str message.code
  · rw [shows.data]
    simpa using fun fix given => printable_toData (fits fix given) depth

end EditorLint.Editor
