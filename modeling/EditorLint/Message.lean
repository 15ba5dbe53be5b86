import EditorLint.Finding
import EditorLint.Fix

/-!
Messages: findings in the coordinates that the rest of the library uses. Rows count from one and
columns from zero, while the rows of a fix count from zero; a convention says how far a tool's
coordinates are from that.
-/

namespace EditorLint

inductive Severity where
  | error
  | warning
  | information
  | hint
  deriving DecidableEq, Repr

namespace Severity

def number : Severity → Nat
  | .error => 1
  | .warning => 2
  | .information => 3
  | .hint => 4

def ofNumber? : Int → Option Severity
  | 1 => some .error
  | 2 => some .warning
  | 3 => some .information
  | 4 => some .hint
  | _ => none

/-- The severity of a number, or the failure that the number has none. -/
def ofNumber (n : Int) : Except Failure Severity :=
  match ofNumber? n with
  | some severity => .ok severity
  | none => .error (.badSeverity n)

end Severity

/-- How an editor may show the part of a file that a message is about. -/
inductive Tag where
  | unnecessary
  | outdated
  deriving DecidableEq, Repr

namespace Tag

def number : Tag → Nat
  | .unnecessary => 1
  | .outdated => 2

def ofNumber? : Int → Option Tag
  | 1 => some .unnecessary
  | 2 => some .outdated
  | _ => none

end Tag

/-- What is taken off a tool's coordinates. -/
structure Convention where
  column : Int
  stopColumn : Int
  fixRow : Int
  deriving DecidableEq, Repr

/-- One message about a part of a file. -/
structure Message where
  line : Coord
  column : Coord
  stopLine : Coord
  stopColumn : Coord
  code : String
  text : String
  severity : Severity
  tags : List Tag
  provider : String
  file : String
  fix : Option Fix
  deriving DecidableEq, Repr

/-- What turns the findings of one tool into messages. -/
structure Profile where
  provider : String
  convention : Convention
  /-- The codes of findings about something that is not needed. -/
  unnecessary : List String
  severity : Severity
  deriving DecidableEq, Repr

namespace Message

/-- The file that a finding names, or else the file that was checked. -/
def fileOf (finding : Finding) (checked : String) : String :=
  match finding.file with
  | none => checked
  | some file => if file = "" then checked else file

/-- A suggested fix of `file`, with its rows moved by the convention. -/
def fixOf (convention : Convention) (file : String) (fix : SuggestedFix) : Fix :=
  { file
    span :=
      { start := ⟨fix.start.row.minus convention.fixRow, fix.start.column⟩
        stop := ⟨fix.stop.row.minus convention.fixRow, fix.stop.column⟩ }
    replacement := fix.content }

/-- The message of a finding in the file `checked`. -/
def ofFinding (profile : Profile) (checked : String) (finding : Finding) : Message :=
  let file := fileOf finding checked
  { line := finding.start.row
    column := finding.start.column.minus profile.convention.column
    stopLine := finding.stop.row
    stopColumn := finding.stop.column.minus profile.convention.stopColumn
    code := finding.code
    text := finding.text
    severity := profile.severity
    tags := if profile.unnecessary.contains finding.code then [.unnecessary] else []
    provider := profile.provider
    file
    fix := finding.fix.map (fixOf profile.convention file) }

end Message

end EditorLint
