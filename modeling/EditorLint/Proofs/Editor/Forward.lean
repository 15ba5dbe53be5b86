import EditorLint.Adapter
import EditorLint.Proofs.Editor.Wire
import EditorLint.Proofs.Editor.WorkspaceEdit
import EditorLint.Proofs.Finding
import EditorLint.Proofs.Json.RoundTrip

/-! Which way the ranges of diagnostics run. A finding that does not end before it starts is shown
from left to right, although its two columns are moved by different distances and each coordinate
is taken as zero where it would be below. Only a finding that starts above the first row may come
out inverted: its ends are then put on one line, and keep the columns that they had on two.
-/

namespace EditorLint

/-- A finding does not end before it starts, in the order of rows and then of columns. -/
def Finding.Forward (finding : Finding) : Prop :=
  finding.start.key ≤ finding.stop.key

instance (finding : Finding) : Decidable finding.Forward :=
  inferInstanceAs (Decidable (_ ≤ _))

/-- A finding starts in a row above the one in which it ends, both are shown on the first line, and
there its start is further right than its end.
-/
structure Finding.Crosses (finding : Finding) : Prop where
  rows : finding.start.row.value < finding.stop.row.value
  first : finding.stop.row.value ≤ 1
  columns : max finding.stop.column.value 0 < finding.start.column.value - 1

namespace Editor

/-- A range does not end before it starts, in the order of lines and then of characters. -/
def Range.Forward (range : Range) : Prop :=
  range.start.key ≤ range.stop.key

instance (range : Range) : Decidable range.Forward :=
  inferInstanceAs (Decidable (_ ≤ _))

/-- Every coordinate of a range is within the bounds of an editor, and so not below zero. -/
structure Range.Fits (range : Range) : Prop where
  line : range.start.line.Fits
  character : range.start.character.Fits
  stopLine : range.stop.line.Fits
  stopCharacter : range.stop.character.Fits

-----------------------------------------------------------------------------------------
-- Where the ends of a finding are shown
-----------------------------------------------------------------------------------------

theorem value_atLeastZero (c : Coord) : c.atLeastZero.value = max c.value 0 := by
  unfold Coord.atLeastZero
  split
  next positive => exact (max_eq_left positive).symm
  next negative => exact (max_eq_right (not_le.mp negative).le).symm

/-- The point of a row and a column, both moved back and then taken as zero if below. -/
theorem key_of_shown {row column : Coord} {offset : Int} {point : Point}
    (made : Point.of (lineOfRow row) (column.minus offset).atLeastZero = .ok point)
    : point.key = toLex (max (row.value - 1) 0, max (column.value - offset) 0) := by
  rw [Point.eq_of_of made, Point.key, lineOfRow, value_atLeastZero, value_atLeastZero]
  rfl

/-- In the order of lines and characters, the ends of a finding stay as they are in that of rows and
columns, or both rows come to the first line and the columns decide.
-/
theorem shown_le_shown_iff {finding : Finding} (forward : finding.Forward)
    : toLex (max (finding.start.row.value - 1) 0, max (finding.start.column.value - 1) 0)
        ≤ toLex (max (finding.stop.row.value - 1) 0, max (finding.stop.column.value - 0) 0)
      ↔ ¬ finding.Crosses := by
  have ordered := Prod.Lex.toLex_le_toLex.mp forward
  rw [Prod.Lex.toLex_le_toLex]
  constructor
  · intro shown crosses
    have rows := crosses.rows
    have first := crosses.first
    have columns := crosses.columns
    dsimp only at shown
    omega
  · intro apart
    have notAll
        : ¬ (finding.start.row.value < finding.stop.row.value ∧ finding.stop.row.value ≤ 1
          ∧ max finding.stop.column.value 0 < finding.start.column.value - 1) :=
      fun all => apart ⟨all.1, all.2.1, all.2.2⟩
    dsimp only at ordered ⊢
    omega

-----------------------------------------------------------------------------------------
-- Diagnostics of findings
-----------------------------------------------------------------------------------------

variable {profile : Profile} {path : String} {finding : Finding}

/-- A finding that does not end before it starts and is not too far down or to the right has a
diagnostic with no coordinate out of bounds. Its range is inverted exactly if the finding starts
above the first row, ends no later than in it, and there would start behind its end. So the
range of a finding in rows that count from one is never inverted.
-/
theorem Diagnostic.forward_iff (ruled : profile.convention = Adapter.convention)
    (forward : finding.Forward)
    (displayable : (Message.ofFinding profile path finding).Displayable)
    : ∃ diagnostic,
        Diagnostic.ofMessage (Message.ofFinding profile path finding) = .ok diagnostic
        ∧ diagnostic.range.Fits
        ∧ (diagnostic.range.Forward ↔ ¬ finding.Crosses)
        ∧ (1 ≤ finding.start.row.value → diagnostic.range.Forward) := by
  obtain ⟨diagnostic, made⟩ := exists_ofMessage_iff.mpr displayable
  have shows := Diagnostic.shows_of_ofMessage made
  obtain ⟨line, character⟩ := Point.fits_of_of shows.start
  obtain ⟨stopLine, stopCharacter⟩ := Point.fits_of_of shows.stop
  have starts := shows.start
  have stops := shows.stop
  simp only [Message.ofFinding, ruled] at starts stops
  have same : diagnostic.range.Forward ↔ ¬ finding.Crosses := by
    rw [Range.Forward, key_of_shown starts, key_of_shown stops]
    exact shown_le_shown_iff forward
  refine ⟨diagnostic, made, ⟨line, character, stopLine, stopCharacter⟩, same, ?_⟩
  intro counted
  apply same.mpr
  intro crosses
  have below := crosses.rows.trans_le crosses.first
  omega

/-- A finding with both ends above or left of where a document begins. -/
def outerFinding : Finding :=
  ⟨"", "m", ⟨.int 0, .int 1⟩, ⟨.flag true, .int (-3)⟩, none, none⟩

/-- It is shown at the beginning of the document. -/
theorem Diagnostic.forward_of_outer
    : outerFinding.Forward
      ∧ ∃ message diagnostic,
          message = Message.ofFinding ⟨"linter", Adapter.convention, [], .warning⟩ "/a.py"
            outerFinding
          ∧ message.Displayable
          ∧ Diagnostic.ofMessage message = .ok diagnostic
          ∧ diagnostic.range.Fits
          ∧ diagnostic.range.Forward := by
  have forward : outerFinding.Forward := by decide
  have displayable
      : (Message.ofFinding ⟨"linter", Adapter.convention, [], .warning⟩ "/a.py"
          outerFinding).Displayable :=
    ⟨by decide, by decide, by decide, by decide⟩
  obtain ⟨diagnostic, made, fits, same, _⟩ := Diagnostic.forward_iff rfl forward displayable
  refine ⟨forward, _, diagnostic, rfl, displayable, made, fits, same.mpr ?_⟩
  intro crosses
  exact absurd crosses.columns (by decide)

/-- An item that starts in the row above the first one and ends further left in the first one. -/
def crossingItem : Json :=
  .obj [("code", .str "F401"), ("message", .str "m"),
    ("location", .obj [("row", .int 0), ("column", .int 10)]),
    ("end_location", .obj [("row", .int 1), ("column", .int 5)]),
    ("filename", .null), ("fix", .null)]

def crossingFinding : Finding :=
  ⟨"F401", "m", ⟨.int 0, .int 10⟩, ⟨.int 1, .int 5⟩, none, none⟩

open Json (Printable) in
theorem printable_crossingItem (depth : Nat) : Printable (depth + 2) crossingItem := by
  refine .obj (by decide) ?_
  simp only [List.forall_mem_cons]
  refine ⟨.str _, .str _, .obj (by decide) ?_, .obj (by decide) ?_, .null, .null, by simp⟩
  · simp only [List.forall_mem_cons]
    exact ⟨.int (by decide), .int (by decide), by simp⟩
  · simp only [List.forall_mem_cons]
    exact ⟨.int (by decide), .int (by decide), by simp⟩

/-- A report with this item is read, and the diagnostic of its finding ends before it starts. -/
theorem Diagnostic.inverted_of_crossing
    : Finding.ofReport (Json.arr [crossingItem]).print = .ok [crossingFinding]
      ∧ crossingFinding.Forward
      ∧ ∃ message diagnostic,
          message = Message.ofFinding ⟨"ruff", Adapter.convention, Adapter.unnecessary, .warning⟩
            "/w/a.py" crossingFinding
          ∧ message.Displayable
          ∧ Diagnostic.ofMessage message = .ok diagnostic
          ∧ ¬ diagnostic.range.Forward := by
  have read : Json.read (Json.arr [crossingItem]).print = .ok (.arr [crossingItem]) :=
    Json.read_print (.arr (List.forall_mem_singleton.mpr (printable_crossingItem 987)))
  have accepted := Finding.ofReport_eq_ok_iff.mpr
    ⟨_, read, .cons (Finding.ofJson_eq_ok_iff.mp rfl) .nil⟩
  refine ⟨accepted, by decide, _, _, rfl, ?_, rfl, by decide⟩
  exact ⟨by decide, by decide, by decide, by decide⟩

end Editor

end EditorLint
