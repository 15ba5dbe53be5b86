import EditorLint.Json.Value

/-!
Places in a file. Tools and editors write rows and columns as whole numbers, and a truth value
counts as one: it is kept as it came until arithmetic is done on it.
-/

namespace EditorLint

/-- A row or a column. -/
inductive Coord where
  | int (value : Int)
  | flag (value : Bool)
  deriving DecidableEq, Repr, Inhabited

namespace Coord

/-- The number that a coordinate stands for. -/
def value : Coord → Int
  | .int n => n
  | .flag b => if b then 1 else 0

/-- The coordinate moved back; a truth value becomes its number, even by no distance. -/
def minus (c : Coord) (offset : Int) : Coord :=
  .int (c.value - offset)

/-- The coordinate itself unless it is below zero. -/
def atLeastZero (c : Coord) : Coord :=
  if 0 ≤ c.value then c else .int 0

def toJson : Coord → Json
  | .int n => .int n
  | .flag b => .bool b

/-- A whole number or a truth value. -/
def ofJson? : Json → Option Coord
  | .int n => some (.int n)
  | .bool b => some (.flag b)
  | _ => none

end Coord

/-- A row and a column, as a tool or an editor counts them. -/
structure Position where
  row : Coord
  column : Coord
  deriving DecidableEq, Repr, Inhabited

namespace Position

/-- Order by row, then by column. -/
def before (p q : Position) : Bool :=
  p.row.value < q.row.value
    || (p.row.value == q.row.value && p.column.value < q.column.value)

end Position

/-- The part of a file from a position up to another one. -/
structure Span where
  start : Position
  stop : Position
  deriving DecidableEq, Repr, Inhabited

end EditorLint
