import EditorLint.Debounce.Run
import EditorLint.Session.Lint

/-!
A server and its session with an editor. Notifications change the workspace as they arrive, and
their handlers, which ask for documents to be linted or forgotten, come to their turn after that.
Requests are answered at once.
-/

namespace EditorLint.Session

/-- A notification, when its handler comes to its turn. -/
inductive Notification where
  | opened (uri : String)
  | changed (uri : String)
  | saved (uri : String)
  | closed (uri : String)
  | configured (payload : Json)
  deriving DecidableEq, Repr

/-- The name of the protocol's feature that a notification belongs to. -/
def Notification.feature : Notification → String
  | .opened _ => "textDocument/didOpen"
  | .changed _ => "textDocument/didChange"
  | .saved _ => "textDocument/didSave"
  | .closed _ => "textDocument/didClose"
  | .configured _ => "workspace/didChangeConfiguration"

/-- A step of a handler: a document is to be linted anew, or to be forgotten. -/
inductive Step where
  | relint (feature uri : String)
  | forget (uri : String)
  deriving DecidableEq, Repr

namespace Notification

/-- The start of a handler: what it logs and changes, and the steps it has to take. -/
def begin (now : Time) (notification : Notification) (world : World) : World × List Step :=
  let feature := notification.feature
  match notification with
  | .opened uri => (world.debug now ("Document opened: " ++ uri), [.relint feature uri])
  | .changed uri => (world.debug now ("Document changed: " ++ uri), [.relint feature uri])
  | .saved uri => (world.debug now ("Document saved: " ++ uri), [.relint feature uri])
  | .closed uri => (world.debug now ("Document closed: " ++ uri), [.forget uri])
  | .configured payload =>
    match world.applySettings now payload with
    | (world, false) => (world, [])
    | (world, true) =>
      match world.workspace with
      | none => (world.handlerFailed now feature .noWorkspace, [])
      | some workspace => (world, workspace.uris.map (Step.relint feature))

end Notification

namespace Step

/-- What a step asks of the debouncer: a lint of the document in the version that it has now. -/
def request (now : Time) (step : Step) (world : World) :
    World × Option (Debounce.Request LintJob) :=
  match step with
  | .forget uri => (world, some (.cancel uri))
  | .relint feature uri =>
    if world.workspace.isNone then (world.handlerFailed now feature .noWorkspace, none)
    else
      let version := (world.document? uri).bind (·.2.version)
      (world, some (.schedule uri ⟨uri, version⟩ world.delay))

/-- What follows when a step has been done: a forgotten document has no diagnostics. -/
def finish (now : Time) (step : Step) (world : World) : World :=
  match step with
  | .relint _ _ => world
  | .forget uri =>
    { world with published := world.published.erase uri }.publish now uri none []

end Step

/-- The server as the host of a debouncer. -/
def host : Debounce.Host World LintJob LintState Notification Step where
  start := LintJob.start
  resume := LintState.resume
  interrupt := LintState.interrupt
  report := fun now failure world =>
    world.log now
      (Log.failed (Log.plainName "lsp.debounce") "Debounced lint task failed" failure)
  begin := Notification.begin
  request := Step.request
  finish := Step.finish
  jobTurns := 5
  turnsLeft := LintState.turnsLeft
  steps := fun world => (world.workspace.map (·.entries.length)).getD 0 + 1

/-- A server and what is going on in it. -/
abbrev Server := Debounce.Manager World LintJob LintState Notification Step

/-- What an editor, the clock and the tool do to a server. -/
inductive Input where
  | initialized (rootUri : Option String) (options : Option Json)
  | opened (uri : String) (language : Option String) (version : Option Int) (text : String)
  | changed (uri : String) (version : Option Int) (texts : List String)
  | saved (uri : String)
  | closed (uri : String)
  | configured (payload : Json)
  | codeAction (uri : String) (only : List String) (diagnostics : List Editor.Diagnostic)
  | tool (tool : Tool.Behaviour)
  | advance (duration : Time)

namespace Server

/-- A new server with a provider for the given settings. -/
def start (disk : Disk) (delay : Time) (settings : Settings) (tool : Tool.Behaviour) : Server :=
  let (record, provider) := Provider.ofSettings settings
  { world := World.log
      { disk, delay, base := settings, provider, workspace := none, documents := []
        published := [], tool, history := [] } 0 record }

def mapWorld (server : Server) (f : World → World) : Server :=
  { server with world := f server.world }

/-- A notification cannot be taken in; its handler does not run. -/
def refuse (server : Server) (failure : Failure) : Server :=
  server.mapWorld (·.note server.now (.shown ("Error in server: " ++ failure.summary)))

/-- Takes in a notification that needs the workspace, and which changes it. -/
def withWorkspace (server : Server) (notification : Notification)
    (f : Workspace → World → Except Failure World) : Server :=
  match server.world.workspace with
  | none => server.refuse .noWorkspace
  | some workspace =>
    match f workspace server.world with
    | .error failure => server.refuse failure
    | .ok world => { server with world }.deliver notification

/-- Opens a document in the workspace. -/
def openDocument (document : Document) (workspace : Workspace) (world : World) : World :=
  { world with
    documents := world.documents ++ [document]
    workspace := some (workspace.insert document.uri world.documents.length) }

/-- Gives an open document its new texts one after the other, each with the version. -/
def changeDocument (uri : String) (version : Option Int) (texts : List String)
    (workspace : Workspace) (world : World) : Except Failure World :=
  match workspace.get? uri with
  | none => .error (.unknownDocument (Uri.decode uri))
  | some id =>
    .ok { world with
      documents := world.documents.modify id fun document =>
        texts.foldl (fun document text => { document with text, version }) document }

/-- The answer to a request for code actions. -/
def answer (now : Time) (uri : String) (only : List String)
    (diagnostics : List Editor.Diagnostic) (world : World) : World :=
  let messages := (world.published.get? uri).getD []
  let (records, outcome) := Handler.shield logger "textDocument/codeAction" []
    (Editor.codeActions diagnostics only messages)
  let world := records.foldl (fun world record => world.log now record) world
  match outcome with
  | .ok actions => world.note now (.actions actions)
  | .error _ => world

/-- Initializes the server: with an empty workspace, and with the settings of the options. -/
def setUp (now : Time) (rootUri : Option String) (options : Option Json) (world : World) :
    World :=
  let world := { world with workspace := some (Workspace.fresh rootUri) }
  let world :=
    match options with
    | none => world
    | some payload => (world.applySettings now payload).1
  world.note now .initialized

/-- Takes in what arrives, without giving anybody a turn. -/
def receive (server : Server) : Input → Server
  | .initialized rootUri options =>
    server.mapWorld (setUp server.now rootUri options)
  | .opened uri language version text =>
    server.withWorkspace (.opened uri) fun workspace world =>
      .ok (openDocument ⟨uri, language, version, text⟩ workspace world)
  | .changed uri version texts =>
    if texts.isEmpty then server.deliver (.changed uri)
    else server.withWorkspace (.changed uri) (changeDocument uri version texts)
  | .saved uri => server.deliver (.saved uri)
  | .closed uri =>
    server.withWorkspace (.closed uri) fun workspace world =>
      .ok { world with workspace := some (workspace.erase uri) }
  | .configured payload => server.deliver (.configured payload)
  | .codeAction uri only diagnostics =>
    server.mapWorld (answer server.now uri only diagnostics)
  | .tool tool => server.mapWorld fun world => { world with tool }
  | .advance _ => server

/-- Takes in what arrives and then gives turns until only the clock can move on. -/
def act (server : Server) (input : Input) : Server :=
  match input with
  | .advance duration => server.advance host duration
  | input => (server.receive input).settle host

/-- The server after each of some inputs. -/
def trace (server : Server) : List Input → List Server
  | [] => []
  | input :: rest =>
    let server := server.act input
    server :: trace server rest

/-- The diagnostics that were published last. -/
def lastPublished (server : Server) : List Editor.Diagnostic :=
  (server.world.history.reverse.findSome? fun entry =>
    match entry.event with
    | .publish _ _ diagnostics => some diagnostics
    | _ => none).getD []

end Server

end EditorLint.Session
