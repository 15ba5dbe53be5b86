import EditorLint.Failure
import EditorLint.Log.Record
import EditorLint.Time

/-!
Commands that start a tool, how a started tool behaves, and what can be seen of it from outside.
-/

namespace EditorLint.Tool

structure Command where
  executable : String
  arguments : List String
  deriving DecidableEq, Repr

/-- The command on one line. -/
def Command.text (command : Command) : String :=
  Text.joined " " (command.executable :: command.arguments)

/-- How a tool behaves from its start on. -/
structure Script where
  stdout : Text.Utf8.Bytes := []
  stderr : Text.Utf8.Bytes := []
  exit : Int := 0
  /-- How long the tool works; nothing means that it is done at once, and zero that others have
  their turn first. -/
  work : Option Time := none
  /-- Why the tool does not start. -/
  noStart : Option Incident := none
  /-- Why the exchange with the started tool breaks off. -/
  brokenExchange : Option Incident := none
  /-- Whether the tool is gone when it is killed. -/
  alreadyGone : Bool := false
  deriving DecidableEq, Repr

/-- A tool: how it behaves when a command starts it in a directory and hands it a text. -/
structure Behaviour where
  script : Command → Option String → String → Script

/-- A tool that behaves the same whatever it is given. -/
def Behaviour.constant (script : Script) : Behaviour :=
  ⟨fun _ _ _ => script⟩

instance : Coe Script Behaviour := ⟨Behaviour.constant⟩

/-- The work of a tool for a number of milliseconds. -/
def workOf (milliseconds : Json) : Option Time :=
  match Time.ofMilliseconds milliseconds with
  | 0 => none
  | duration => some duration.toNat

/-- What can be seen of a tool: log records, its start, its input and its end by force. -/
inductive Event where
  | log (record : Log.Record)
  | start (command : Command) (directory : Option String)
  | input (text : String)
  | kill
  | wait
  deriving DecidableEq, Repr

end EditorLint.Tool
