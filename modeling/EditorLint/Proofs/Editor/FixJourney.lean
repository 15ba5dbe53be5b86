import EditorLint.Adapter
import EditorLint.Proofs.Editor.Wire
import EditorLint.Proofs.Fix.Data

/-! The way of a fix from a report to an editor and back. A fix leaves with the diagnostic of its
message and comes back as it was, and its edit is in the lines and columns of the report, counted
from zero. What the diagnostic takes off a row and what the message takes off it is the same.
-/

namespace EditorLint.Editor

-----------------------------------------------------------------------------------------
-- What a report says
-----------------------------------------------------------------------------------------

/-- The file that an item names, if that is a text and not the empty one, or else `checked`. -/
def reportedFile (item : Json) (checked : String) : String :=
  match item.get? "filename" with
  | some (.str name) => if name = "" then checked else name
  | _ => checked

/-- The edit that a suggested fix asks for. -/
def reportedEdit (fix : SuggestedFix) : TextEdit :=
  { range :=
      { start := ⟨.int (fix.start.row.value - 1), .int fix.start.column.value⟩
        stop := ⟨.int (fix.stop.row.value - 1), .int fix.stop.column.value⟩ }
    newText := fix.content }

/-- Where a row of a finding is a row of its fix, the ranges of both have the same line. -/
structure SameLines (finding : Finding) (fix : SuggestedFix) (shown edited : Range) : Prop where
  starts : finding.start.row.value = fix.start.row.value → shown.start.line = edited.start.line
  startAtStop : finding.start.row.value = fix.stop.row.value → shown.start.line = edited.stop.line
  stopAtStart : finding.stop.row.value = fix.start.row.value → shown.stop.line = edited.start.line
  stops : finding.stop.row.value = fix.stop.row.value → shown.stop.line = edited.stop.line

/-- A diagnostic brings a fix along: its text is read as what was sent, and from every value with
its entries, as what was sent is one, the fix is unpacked.
-/
structure Diagnostic.Brings (diagnostic : Diagnostic) (fix : Fix) : Prop where
  text : Json.read diagnostic.toJson.print = .ok diagnostic.toJson
  sent : diagnostic.SentAs diagnostic.toJson
  back
    : ∀ echo, diagnostic.SentAs echo →
        ∃ received, Diagnostic.ofJson? echo = some received ∧ received.fix? = .ok (some fix)

-----------------------------------------------------------------------------------------
-- On the way
-----------------------------------------------------------------------------------------

variable {profile : Profile} {path : String} {item : Json} {finding : Finding}
  {suggested : SuggestedFix}

/-- A finding is about the file that its item names. -/
theorem fileOf_eq_reportedFile (described : Describes item finding)
    : Message.fileOf finding path = reportedFile item path := by
  have named := described.file
  unfold Message.fileOf reportedFile
  cases file : finding.file with
  | none =>
      rw [file] at named
      rcases named with absent | null
      · simp [absent]
      · simp [null]
  | some name =>
      rw [file] at named
      obtain ⟨_, there, rfl⟩ := named
      simp [there]

/-- The diagnostic of a message with a fix that fits brings this fix along. -/
theorem Diagnostic.Shows.brings {message : Message} {diagnostic : Diagnostic} {fix : Fix}
    (shows : diagnostic.Shows message) (own : message.fix = some fix) (fits : fix.Fits)
    : diagnostic.Brings fix.plain := by
  have carried : diagnostic.data = some fix.toData := by simp [shows.data, own]
  refine ⟨?_, diagnostic.sentAs_toJson, ?_⟩
  · have printable := printable_of_shows shows (by simpa [own] using fits) 986
    exact Json.read_print printable
  · intro echo echoed
    refine ⟨diagnostic, ofJson?_of_sentAs echoed ?_, ?_⟩
    · simp [carried, Fix.toData]
    · simp [Diagnostic.fix?, carried, Fix.ofData_of_isStored (Fix.isStored_toData fix)]

/-- The line of a row that is also a row of a fix is the line of this fix, if the fix fits. -/
theorem lineOfRow_eq {row other : Coord} (same : row.value = other.value)
    (fits : (other.minus 1).Fits)
    : lineOfRow row = other.minus 1 := by
  have line : row.minus 1 = other.minus 1 := by simp only [Coord.minus, same]
  rw [lineOfRow, line, Coord.atLeastZero, if_pos fits.1]

/-- A fix fits with numbers as coordinates as it does with truth values. -/
theorem fits_plain {fix : Fix} (fits : fix.Fits) : fix.plain.Fits :=
  ⟨fits.start, fits.startColumn, fits.stop, fits.stopColumn⟩

/-- The edit of a fix in a message is the one that the report asks for. -/
theorem ofFix_plain_fixOf {file : String} (ruled : profile.convention = Adapter.convention)
    (fits : (Message.fixOf profile.convention file suggested).Fits)
    : TextEdit.ofFix (Message.fixOf profile.convention file suggested).plain
      = .ok (reportedEdit suggested) := by
  obtain ⟨edit, made⟩ := exists_ofFix_iff.mpr (fits_plain fits)
  rw [made, TextEdit.eq_of_ofFix made, ruled]
  rfl

/-- In whatever rows a message and a fix agree, the diagnostic and the edit have the same line. -/
theorem Diagnostic.Shows.sameLines {diagnostic : Diagnostic}
    (shows : diagnostic.Shows (Message.ofFinding profile path finding))
    (start : (suggested.start.row.minus 1).Fits) (stop : (suggested.stop.row.minus 1).Fits)
    : SameLines finding suggested diagnostic.range (reportedEdit suggested).range := by
  have startLine : diagnostic.range.start.line = lineOfRow finding.start.row :=
    congrArg Point.line (Point.eq_of_of shows.start)
  have stopLine : diagnostic.range.stop.line = lineOfRow finding.stop.row :=
    congrArg Point.line (Point.eq_of_of shows.stop)
  exact {
    starts := fun same => startLine.trans (lineOfRow_eq same start)
    startAtStop := fun same => startLine.trans (lineOfRow_eq same stop)
    stopAtStart := fun same => stopLine.trans (lineOfRow_eq same start)
    stops := fun same => stopLine.trans (lineOfRow_eq same stop)
  }

-----------------------------------------------------------------------------------------
-- From the report and back
-----------------------------------------------------------------------------------------

/-- What an item of a report says is what its finding says. A fix of the item comes back from
the editor as the one of the item's message, with truth values as the numbers that they are. It is
in the file that the item names, or else in the one that was checked, and its edit is the one that
the item asks for. In whatever rows the finding and the fix agree, the diagnostic and the edit have
the same line.
-/
theorem fix_returns_from_editor {report : String} {items : List Json} {findings : List Finding}
    (ruled : profile.convention = Adapter.convention)
    (read : Json.read report = .ok (.arr items)) (accepted : Finding.ofReport report = .ok findings)
    (reported : (item, finding) ∈ items.zip findings) (fixed : finding.fix = some suggested)
    (displayable : (Message.ofFinding profile path finding).Displayable)
    (fits : ∀ fix ∈ (Message.ofFinding profile path finding).fix, fix.Fits)
    : Describes item finding
      ∧ ∃ own diagnostic,
          (Message.ofFinding profile path finding).fix = some own
          ∧ Diagnostic.ofMessage (Message.ofFinding profile path finding) = .ok diagnostic
          ∧ diagnostic.Brings own.plain
          ∧ own.file = reportedFile item path
          ∧ TextEdit.ofFix own.plain = .ok (reportedEdit suggested)
          ∧ SameLines finding suggested diagnostic.range (reportedEdit suggested).range := by
  obtain ⟨diagnostic, made⟩ := exists_ofMessage_iff.mpr displayable
  have own : (Message.ofFinding profile path finding).fix
      = some (Message.fixOf profile.convention (Message.fileOf finding path) suggested) := by
    simp [Message.ofFinding, fixed]
  have within := fits _ own
  have described : Describes item finding := by
    obtain ⟨others, again, each⟩ := Finding.ofReport_eq_ok_iff.mp accepted
    obtain rfl := Json.arr.inj (Except.ok.inj (read.symm.trans again))
    exact (List.forall₂_iff_zip.mp each).2 reported
  have shows := Diagnostic.shows_of_ofMessage made
  refine ⟨described, _, diagnostic, own, made, shows.brings own within,
    fileOf_eq_reportedFile described, ofFix_plain_fixOf ruled within, ?_⟩
  rw [ruled] at within
  exact shows.sameLines within.start within.stop

/-- An item without a rule code that names no file, with truth values as some of its coordinates. -/
def flaggedItem : Json :=
  .obj [("code", .null), ("message", .str "no rule"), ("filename", .str ""),
    ("location", .obj [("row", .bool true), ("column", .bool false)]),
    ("end_location", .obj [("row", .int 2), ("column", .int 4)]),
    ("fix", .obj [("content", .str "\"\t\\é\n"),
      ("location", .obj [("row", .int 1), ("column", .bool true)]),
      ("end_location", .obj [("row", .int 2), ("column", .bool false)])])]

def flaggedFix : SuggestedFix :=
  ⟨"\"\t\\é\n", ⟨.int 1, .flag true⟩, ⟨.int 2, .flag false⟩⟩

def flaggedFinding : Finding :=
  ⟨"", "no rule", ⟨.flag true, .flag false⟩, ⟨.int 2, .int 4⟩, some "", some flaggedFix⟩

def flaggedMessage : Message :=
  Message.ofFinding ⟨"linter", Adapter.convention, [], .warning⟩ "/a.py" flaggedFinding

open Json (Printable) in
theorem printable_flaggedItem (depth : Nat) : Printable (depth + 3) flaggedItem := by
  have place {row column : Json} {deep : Nat} (first : Printable deep row)
      (second : Printable deep column)
      : Printable (deep + 1) (.obj [("row", row), ("column", column)]) :=
    .obj (by simp [Table.keys]) (by simp [first, second])
  refine .obj (by decide) ?_
  simp only [List.forall_mem_cons]
  refine ⟨.null, .str _, .str _, place (.bool _) (.bool _),
    place (.int (by decide)) (.int (by decide)), .obj (by decide) ?_, by simp⟩
  simp only [List.forall_mem_cons]
  exact ⟨.str _, place (.int (by decide)) (.bool _), place (.int (by decide)) (.bool _),
    by simp⟩

theorem fix_returns_from_editor_of_flagged
    : Describes flaggedItem flaggedFinding
      ∧ ∃ own diagnostic,
          flaggedMessage.fix = some own
          ∧ Diagnostic.ofMessage flaggedMessage = .ok diagnostic
          ∧ diagnostic.Brings own.plain
          ∧ own.file = reportedFile flaggedItem "/a.py"
          ∧ TextEdit.ofFix own.plain = .ok (reportedEdit flaggedFix)
          ∧ SameLines flaggedFinding flaggedFix diagnostic.range
              (reportedEdit flaggedFix).range := by
  have read : Json.read (Json.arr [flaggedItem]).print = .ok (.arr [flaggedItem]) :=
    Json.read_print (.arr (List.forall_mem_singleton.mpr (printable_flaggedItem 986)))
  have described : Describes flaggedItem flaggedFinding := Finding.ofJson_eq_ok_iff.mp rfl
  have accepted := Finding.ofReport_eq_ok_iff.mpr ⟨_, read, .cons described .nil⟩
  refine fix_returns_from_editor rfl read accepted (by simp) rfl ?_ ?_
  · exact ⟨by decide, by decide, by decide, by decide⟩
  · intro fix own
    obtain rfl := Option.some.inj own
    exact ⟨by decide, by decide, by decide, by decide⟩

end EditorLint.Editor
