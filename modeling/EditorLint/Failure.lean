import EditorLint.Json.Printer
import EditorLint.Json.Reader
import EditorLint.Position
import EditorLint.Text.Utf8

/-!
Failures by cause. Each has a message, and a kind that names it in a log and says who may absorb
it: a cancellation and an interrupt are no ordinary failures and pass through every handler.
-/

namespace EditorLint

/-- The kinds of failures. -/
inductive FailureKind where
  | operatingSystem
  | noSuchFile
  | noPermission
  | brokenPipe
  | isDirectory
  | badValue
  | runtime
  | missingKey
  | badType
  | overflow
  | tooDeep
  | timedOut
  | toolStart
  | toolOutput
  | cancelled
  | interrupted
  deriving DecidableEq, Repr

namespace FailureKind

/-- The name of a kind in logs. -/
def label : FailureKind → String
  | .operatingSystem => "OSError"
  | .noSuchFile => "FileNotFoundError"
  | .noPermission => "PermissionError"
  | .brokenPipe => "BrokenPipeError"
  | .isDirectory => "IsADirectoryError"
  | .badValue => "ValueError"
  | .runtime => "RuntimeError"
  | .missingKey => "KeyError"
  | .badType => "TypeError"
  | .overflow => "OverflowError"
  | .tooDeep => "RecursionError"
  | .timedOut => "TimeoutError"
  | .toolStart => "LinterSpawnError"
  | .toolOutput => "LinterOutputError"
  | .cancelled => "CancelledError"
  | .interrupted => "KeyboardInterrupt"

/-- Whether a handler may absorb failures of this kind. -/
def isOrdinary : FailureKind → Bool
  | .cancelled | .interrupted => false
  | _ => true

/-- Whether the operating system refused something. -/
def isOperatingSystem : FailureKind → Bool
  | .operatingSystem | .noSuchFile | .noPermission | .brokenPipe | .isDirectory => true
  | _ => false

end FailureKind

/-- A failure that comes from outside, with the text it carries, if any. -/
structure Incident where
  kind : FailureKind
  text : Option String
  deriving DecidableEq, Repr

/-- What an incident says. A missing key is shown quoted. -/
def Incident.message (incident : Incident) : String :=
  match incident.kind, incident.text with
  | _, none => ""
  | .missingKey, some text => Text.quoted text
  | _, some text => text

/-- What is wrong with a tool's report. -/
inductive ReportFault where
  | malformed (text : String) (what : Json.Malformed) (offset : Nat)
  | notArray (text : String)
  | notObject (item : Json)
  | noCode (item : Json)
  | badCodeOrMessage (item : Json)
  | badFile (value : Json)
  | noPosition (field : String)
  | badPosition (field : String) (value : Json)
  | badFix (value : Json)
  deriving DecidableEq, Repr

namespace ReportFault

/-- What kind of value stands where an object is expected. -/
def typeName : Json → String
  | .null => "NoneType"
  | .bool _ => "bool"
  | .int _ => "int"
  | .float _ => "float"
  | .str _ => "str"
  | .arr _ => "list"
  | .obj _ => "dict"

def message : ReportFault → String
  | .malformed text what offset =>
    "Ruff output is not valid JSON: " ++ (Json.Fault.malformed what offset).message text
  | .notArray _ => "Ruff output is not a JSON array"
  | .notObject item => "Expected an object, got " ++ typeName item
  | .noCode item => "Missing code in ruff output: " ++ item.literal
  | .badCodeOrMessage item => "Missing code or message in ruff output: " ++ item.literal
  | .badFile value => "Invalid filename in ruff output: " ++ value.literal
  | .noPosition field => "Missing or invalid " ++ Text.quoted field ++ " in ruff output"
  | .badPosition field value =>
    "Invalid row/column in " ++ Text.quoted field ++ ": " ++ value.literal
  | .badFix value => "Invalid fix in ruff output: " ++ value.literal

/-- The whole text, where it is the text itself that is no report. -/
def output? : ReportFault → Option String
  | .malformed text _ _ | .notArray text => some text
  | _ => none

end ReportFault

/-- Why a tool gave no result. -/
inductive ToolCause where
  | noStart (executable : String) (incident : Incident)
  | notUtf8 (fault : Text.Utf8.Fault)
  | noOutput (exit : Int) (complaint : String)
  | badReport (fault : ReportFault)
  deriving DecidableEq, Repr

namespace ToolCause

def message : ToolCause → String
  | .noStart executable incident =>
    "Cannot start " ++ Text.quoted executable ++ ": " ++ incident.message
  | .notUtf8 fault => "Linter output is not valid UTF-8: " ++ fault.text
  | .noOutput exit complaint =>
    "Linter exited with code " ++ toString exit ++ " and no output: " ++ complaint
  | .badReport fault => fault.message

def kind : ToolCause → FailureKind
  | .noStart .. => .toolStart
  | _ => .toolOutput

/-- The output that a failure shows, where it shows one. -/
def output? : ToolCause → Option String
  | .noOutput _ complaint => some complaint
  | .badReport fault => fault.output?
  | _ => none

end ToolCause

/-- The two halves of a position in an editor. -/
inductive Axis where
  | line
  | character
  deriving DecidableEq, Repr

def Axis.text : Axis → String
  | .line => "line"
  | .character => "character"

/-- A cause of failure. -/
inductive Failure where
  | incident (event : Incident)
  | tool (cause : ToolCause) (command : Option String)
  | reportLimit (fault : Json.Fault)
  | unknownTool (id : String)
  | badToolId (id : String)
  | badSeverity (value : Int)
  | outOfRange (axis : Axis) (value : Coord)
  | noFileOnHost
  | infiniteNumber
  | badLevel (text : String)
  | noLevel (shown : String)
  | noSuchFile (path : String)
  | isDirectory (path : String)
  | noWorkspace
  | unknownDocument (uri : String)
  | timedOut
  deriving DecidableEq, Repr

namespace Failure

def message : Failure → String
  | .incident event => event.message
  | .tool cause _ => cause.message
  | .reportLimit fault => fault.message ""
  | .unknownTool id => "Unknown linter: " ++ Text.quoted id
  | .badToolId id => "Invalid linter id: " ++ Text.quoted id
  | .badSeverity value => toString value ++ " is not a valid DiagnosticSeverity"
  | .outOfRange axis value =>
    "Position." ++ axis.text ++ " should be in range [0:2147483647], but was "
      ++ value.toJson.literal ++ "."
  | .noFileOnHost => "substring not found"
  | .infiniteNumber => "cannot convert float infinity to integer"
  | .badLevel text => "Unknown level: " ++ Text.quoted text
  | .noLevel shown => "Level not an integer or a valid string: " ++ shown
  | .noSuchFile path => "[Errno 2] No such file or directory: " ++ Text.quoted path
  | .isDirectory path => "[Errno 21] Is a directory: " ++ Text.quoted path
  | .noWorkspace => "The workspace is not available - has the server been initialized?"
  | .unknownDocument uri => Text.quoted uri
  | .timedOut => ""

def kind : Failure → FailureKind
  | .incident event => event.kind
  | .tool cause _ => cause.kind
  | .reportLimit (.tooDeep _) => .tooDeep
  | .reportLimit _ => .badValue
  | .infiniteNumber => .overflow
  | .noLevel _ => .badType
  | .noSuchFile _ => .noSuchFile
  | .isDirectory _ => .isDirectory
  | .noWorkspace => .runtime
  | .unknownDocument _ => .missingKey
  | .timedOut => .timedOut
  | .unknownTool _ | .badToolId _ | .badSeverity _ | .outOfRange .. | .noFileOnHost
  | .badLevel _ => .badValue

/-- Whether a handler may absorb the failure. -/
def isOrdinary (failure : Failure) : Bool :=
  failure.kind.isOrdinary

/-- A cancellation that carries no text. -/
def cancelled : Failure :=
  .incident ⟨.cancelled, none⟩

/-- The failure in one line of a log: its kind and its message. -/
def summary (failure : Failure) : String :=
  failure.kind.label ++ ": " ++ failure.message

end Failure

end EditorLint
