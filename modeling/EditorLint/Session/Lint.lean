import EditorLint.Session.World

/-!
The lint of one document in a session, turn by turn. It is given up when the document has changed
since it was asked for, before the tool runs as well as after. The tool's part is a turn of its own,
and two turns lie between its end and the publication of its result.
-/

namespace EditorLint.Session

/-- A lint that is asked for: of a document, in a version if the document had one. -/
structure LintJob where
  uri : String
  version : Option Int
  deriving DecidableEq, Repr

/-- The document that a lint works on: one that was open when the lint began, or a file that
nobody has open and that has no version. -/
inductive Subject where
  | opened (id : Nat)
  | onDisk
  deriving DecidableEq, Repr

/-- What a lint reads: a document, where it is, and what is in it. -/
structure Source where
  subject : Subject
  path : String
  language : Option String
  text : Except Failure String

/-- How far a started lint has come. -/
inductive LintState where
  /-- The tool's part has been created. -/
  | prepared (job : LintJob) (subject : Subject) (adapter : Adapter) (snapshot : Snapshot)
  | working (job : LintJob) (subject : Subject) (linting : Linting)
  /-- The tool's part has ended. -/
  | landed (job : LintJob) (subject : Subject) (outcome : Except Failure (List Message))
  | arriving (job : LintJob) (subject : Subject) (outcome : Except Failure (List Message))
  /-- The tool's part has been cancelled. -/
  | fallen
  | leaving

open Debounce (Outcome)

/-- A version as the log shows it. -/
def shownVersion : Option Int → String
  | none => "None"
  | some version => toString version

namespace LintJob

/-- The version that a subject has now. -/
def versionOf (world : World) : Subject → Option Int
  | .opened id => world.documents[id]?.bind (·.version)
  | .onDisk => none

/-- Whether the subject is no longer in the version that the lint was asked for. -/
def isStale (job : LintJob) (world : World) (subject : Subject) : Bool :=
  job.version.isSome && versionOf world subject != job.version

/-- Looks up what is to be linted: the document if it is open, else the file. -/
def source (job : LintJob) (world : World) : Source :=
  match world.document? job.uri with
  | some (id, document) =>
    { subject := .opened id, path := document.path, language := document.language
      text := .ok document.text }
  | none =>
    let path := Uri.toPath job.uri
    { subject := .onDisk, path, language := none, text := world.disk.files path }

/-- Begins the lint: looks the document up, and gives it to the tool. -/
def start (now : Time) (job : LintJob) (world : World) : World × Outcome LintState :=
  match world.workspace with
  | none => (world, .failed .noWorkspace)
  | some workspace =>
    let source := job.source world
    if !isPython source.language source.path then (world, .finished)
    else if job.isStale world source.subject then
      (world.debug now
        ("Skipping lint for " ++ job.uri ++ ": version mismatch (expected "
          ++ shownVersion job.version ++ ", got "
          ++ shownVersion (versionOf world source.subject) ++ ")"),
        .finished)
    else
      match source.text with
      | .error failure => (world, .failed failure)
      | .ok text =>
        let directory := workspace.directoryFor world.disk.directories source.path
        (world,
          .wait 0 (.prepared job source.subject world.provider.adapter
            ⟨text, source.path, some directory⟩))

/-- Publishes the messages of a lint, unless the document has changed meanwhile. -/
def publish (now : Time) (job : LintJob) (subject : Subject) (messages : List Message)
    (world : World) : World × Outcome LintState :=
  if job.isStale world subject then
    (world.debug now ("Discarding stale lint result for " ++ job.uri), .finished)
  else
    let world := { world with published := world.published.insert job.uri messages }
    match Editor.Diagnostic.ofMessages messages with
    | .error failure => (world, .failed failure)
    | .ok diagnostics =>
      let world := world.publish now job.uri job.version diagnostics
      (world.debug now
        ("Published " ++ toString messages.length ++ " diagnostics for " ++ job.uri
          ++ " (version " ++ shownVersion job.version ++ ")"), .finished)

end LintJob

namespace LintState

/-- The next turn of a lint that nobody cancels. -/
def resume (now : Time) (state : LintState) (world : World) : World × Outcome LintState :=
  match state with
  | .prepared job subject adapter snapshot =>
    match adapter.begin now snapshot (adapter.script world.tool snapshot) with
    | (events, .done outcome) => (world.noteTool now events, .wait 0 (.landed job subject outcome))
    | (events, .working duration linting) =>
      (world.noteTool now events, .wait duration (.working job subject linting))
  | .working job subject linting =>
    let (events, outcome) := linting.complete now
    (world.noteTool now events, .wait 0 (.landed job subject outcome))
  | .landed job subject outcome => (world, .wait 0 (.arriving job subject outcome))
  | .arriving job subject outcome =>
    match outcome with
    | .ok messages => job.publish now subject messages world
    | .error failure =>
      if failure.kind = .cancelled then (world, .cancelled) else (world, .failed failure)
  | .fallen => (world, .wait 0 .leaving)
  | .leaving => (world, .cancelled)

/-- The next turn of a lint that is told of its cancellation. -/
def interrupt (now : Time) (state : LintState) (world : World) : World × Outcome LintState :=
  match state with
  | .prepared .. => (world, .wait 0 .fallen)
  | .working _ _ linting =>
    let (events, _) := linting.abandon now
    (world.noteTool now events, .wait 0 .fallen)
  | .landed .. | .fallen => (world, .wait 0 .leaving)
  | .arriving .. | .leaving => (world, .cancelled)

/-- A bound on the turns that a started lint still takes. -/
def turnsLeft : LintState → Nat
  | .prepared .. => 4
  | .working .. => 3
  | .landed .. => 2
  | .arriving .. => 1
  | .fallen => 2
  | .leaving => 1

end LintState

end EditorLint.Session
