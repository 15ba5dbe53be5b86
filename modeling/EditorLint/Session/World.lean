import EditorLint.Debounce.Host
import EditorLint.Editor.CodeAction
import EditorLint.Handler
import EditorLint.Provider
import EditorLint.Session.Workspace

/-!
The state of a server, and what can be seen of it from outside.
-/

namespace EditorLint.Session

/-- What can be seen of a server. -/
inductive Event where
  | tool (event : Tool.Event)
  | publish (uri : String) (version : Option Int) (diagnostics : List Editor.Diagnostic)
  | initialized
  | actions (actions : List Editor.CodeAction)
  /-- A message to the user about a notification that came to nothing. -/
  | shown (text : String)
  deriving DecidableEq, Repr

structure World where
  disk : Disk
  /-- How long a document rests before it is linted. -/
  delay : Time
  /-- The settings at the start, over which those of the editor are written. -/
  base : Settings
  provider : Provider
  /-- Nothing until the editor has initialized the server. -/
  workspace : Option Workspace
  /-- All documents ever opened. -/
  documents : List Document
  /-- The latest messages of each document that has been linted. -/
  published : Table (List Message)
  /-- The tool that a lint starts now. -/
  tool : Tool.Behaviour
  history : List (Stamped Event)

/-- The logger of the server. -/
def logger : String := Log.plainName "lsp"

namespace World

def note (world : World) (now : Time) (event : Event) : World :=
  { world with history := world.history ++ [⟨now, event⟩] }

def noteTool (world : World) (now : Time) (events : List Tool.Event) : World :=
  { world with history := world.history ++ events.map fun event => ⟨now, .tool event⟩ }

def log (world : World) (now : Time) (record : Log.Record) : World :=
  world.note now (.tool (.log record))

def debug (world : World) (now : Time) (message : String) : World :=
  world.log now (Log.record .debug logger message)

/-- Sends diagnostics to the editor. -/
def publish (world : World) (now : Time) (uri : String) (version : Option Int)
    (diagnostics : List Editor.Diagnostic) : World :=
  world.note now (.publish uri version diagnostics)

/-- A handler has failed and gives up. -/
def handlerFailed (world : World) (now : Time) (feature : String) (failure : Failure) : World :=
  world.log now (Handler.failureRecord logger feature failure)

/-- Takes the settings of a payload. One that is no object changes nothing. -/
def applySettings (world : World) (now : Time) (payload : Json) : World × Bool :=
  match payload with
  | .obj _ =>
    let (settings, refused) := Settings.ofPayload world.base payload
    let warned := refused.foldl (fun world r => world.log now r.record) world
    let (record, provider) := warned.provider.update settings
    let updated := { warned with provider }.log now record
    (updated.log now (Log.record .info logger
      ("Applied linting settings: " ++ settings.literal)), true)
  | _ =>
    (world.debug now
      ("No settings mapping in payload, keeping " ++ world.provider.settings.literal), false)

/-- The document of an address, if it is open. -/
def document? (world : World) (uri : String) : Option (Nat × Document) := do
  let workspace ← world.workspace
  let id ← workspace.get? uri
  let document ← world.documents[id]?
  return (id, document)

end World

end EditorLint.Session
