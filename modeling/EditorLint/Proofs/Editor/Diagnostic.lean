import EditorLint.Editor.Diagnostic
import EditorLint.Proofs.Outcome

/-! Which messages an editor can be shown: those that are not too far down or to the right. And
which fixes it can be given: those with no coordinate out of bounds.
-/

namespace EditorLint

open Editor

/-- No coordinate of a message, as an editor counts it, is beyond the greatest one. -/
structure Message.Displayable (message : Message) : Prop where
  line : message.line.value - 1 ≤ coordLimit
  column : message.column.value ≤ coordLimit
  stopLine : message.stopLine.value - 1 ≤ coordLimit
  stopColumn : message.stopColumn.value ≤ coordLimit

/-- A line or a character is within the bounds of an editor. -/
def Coord.Fits (c : Coord) : Prop :=
  0 ≤ c.value ∧ c.value ≤ coordLimit

instance (c : Coord) : Decidable c.Fits :=
  inferInstanceAs (Decidable (_ ∧ _))

/-- Every coordinate of a fix is. -/
structure Fix.Fits (fix : Fix) : Prop where
  start : fix.span.start.row.Fits
  startColumn : fix.span.start.column.Fits
  stop : fix.span.stop.row.Fits
  stopColumn : fix.span.stop.column.Fits

namespace Editor

/-- A coordinate is taken exactly if it is within bounds. -/
theorem exists_bounded_iff {axis : Axis} {c : Coord}
    : (∃ coord, bounded axis c = .ok coord) ↔ 0 ≤ c.value ∧ c.value ≤ coordLimit := by
  unfold bounded
  split <;> simp_all

/-- A coordinate that is not below zero is refused only if it is too great. -/
theorem exists_bounded_atLeastZero_iff {axis : Axis} {c : Coord}
    : (∃ coord, bounded axis c.atLeastZero = .ok coord) ↔ c.value ≤ coordLimit := by
  have positive : (0 : Int) ≤ coordLimit := by decide
  have zero : (Coord.int 0).value = 0 := rfl
  rw [exists_bounded_iff]
  by_cases above : 0 ≤ c.value
  · simp [Coord.atLeastZero, above]
  · have small : c.value ≤ coordLimit := by omega
    simp [Coord.atLeastZero, above, small, zero, positive]

/-- A point is refused only if one of its two coordinates is. -/
theorem exists_point_iff {line character : Coord}
    : (∃ point, Point.of line character = .ok point)
      ↔ (∃ coord, bounded .line line = .ok coord)
        ∧ ∃ coord, bounded .character character = .ok coord := by
  simp only [Point.of, bind_eq_ok_iff]
  constructor
  · intro given
    obtain ⟨_, line, below, character, right, _⟩ := given
    exact ⟨⟨line, below⟩, character, right⟩
  · intro given
    obtain ⟨⟨line, below⟩, character, right⟩ := given
    exact ⟨_, line, below, character, right, rfl⟩

/-- A fix has an edit exactly if its coordinates are within bounds. -/
theorem exists_ofFix_iff {fix : Fix} : (∃ edit, TextEdit.ofFix fix = .ok edit) ↔ fix.Fits := by
  have parts
      : (∃ edit, TextEdit.ofFix fix = .ok edit)
        ↔ (∃ start, Point.of fix.span.start.row fix.span.start.column = .ok start)
          ∧ ∃ stop, Point.of fix.span.stop.row fix.span.stop.column = .ok stop := by
    simp only [TextEdit.ofFix, Range.ofSpan, bind_eq_ok_iff]
    constructor
    · intro given
      obtain ⟨_, _, ⟨start, begun, stop, ended, _⟩, _⟩ := given
      exact ⟨⟨start, begun⟩, stop, ended⟩
    · intro given
      obtain ⟨⟨start, begun⟩, stop, ended⟩ := given
      exact ⟨_, _, ⟨start, begun, stop, ended, rfl⟩, rfl⟩
  rw [parts, exists_point_iff, exists_point_iff]
  simp only [exists_bounded_iff]
  constructor
  · intro given
    obtain ⟨⟨start, startColumn⟩, stop, stopColumn⟩ := given
    exact ⟨start, startColumn, stop, stopColumn⟩
  · intro fits
    exact ⟨⟨fits.start, fits.startColumn⟩, fits.stop, fits.stopColumn⟩

/-- A message has a diagnostic exactly if it can be displayed. -/
theorem exists_ofMessage_iff {message : Message}
    : (∃ diagnostic, Diagnostic.ofMessage message = .ok diagnostic) ↔ message.Displayable := by
  have parts
      : (∃ diagnostic, Diagnostic.ofMessage message = .ok diagnostic)
        ↔ (∃ start,
            Point.of (lineOfRow message.line) message.column.atLeastZero = .ok start)
          ∧ ∃ stop,
            Point.of (lineOfRow message.stopLine) message.stopColumn.atLeastZero = .ok stop := by
    simp only [Diagnostic.ofMessage, bind_eq_ok_iff]
    constructor
    · intro given
      obtain ⟨_, start, begun, stop, ended, _⟩ := given
      exact ⟨⟨start, begun⟩, stop, ended⟩
    · intro given
      obtain ⟨⟨start, begun⟩, stop, ended⟩ := given
      exact ⟨_, start, begun, stop, ended, rfl⟩
  rw [parts, exists_point_iff, exists_point_iff]
  simp only [lineOfRow, exists_bounded_atLeastZero_iff, Coord.minus, Coord.value]
  constructor
  · intro given
    obtain ⟨⟨line, column⟩, stopLine, stopColumn⟩ := given
    exact ⟨line, column, stopLine, stopColumn⟩
  · intro given
    obtain ⟨line, column, stopLine, stopColumn⟩ := given
    exact ⟨⟨line, column⟩, stopLine, stopColumn⟩

/-- Messages have diagnostics exactly if each of them can be displayed. -/
theorem exists_ofMessages_iff {messages : List Message}
    : (∃ diagnostics, Diagnostic.ofMessages messages = .ok diagnostics)
      ↔ ∀ message ∈ messages, message.Displayable := by
  simp only [Diagnostic.ofMessages, exists_mapM_eq_ok_iff, exists_ofMessage_iff]

end Editor

end EditorLint
