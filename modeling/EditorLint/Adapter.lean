import EditorLint.Message
import EditorLint.Settings
import EditorLint.Tool.Process

/-!
The adapter of the registered tool: how it is called for a path, and how its report becomes
messages. Linting a document never fails for an ordinary reason. A failing tool leaves a record in
the log and no messages; only what is no ordinary failure passes.
-/

namespace EditorLint

/-- A tool with its settings and its own logger. -/
structure Adapter where
  info : ToolInfo
  logger : String
  deriving DecidableEq, Repr

/-- A document as it is given to a tool. -/
structure Snapshot where
  text : String
  path : String
  directory : Option String
  deriving DecidableEq, Repr

namespace Adapter

/-- The adapter of a tool, which must have a proper identifier. -/
def ofInfo (info : ToolInfo) : Except Failure Adapter := do
  let logger ← Log.toolName info.id
  return ⟨info, logger⟩

/-- Start columns count from one and end columns from zero, and rows of fixes count from one. -/
def convention : Convention :=
  { column := 1, stopColumn := 0, fixRow := 1 }

/-- The codes of imports and variables that are not used. -/
def unnecessary : List String := ["F401", "F841"]

/-- How findings of the tool become messages. -/
def profile (adapter : Adapter) : Profile :=
  { provider := adapter.info.id, convention, unnecessary, severity := .warning }

/-- The command that checks a document on standard input. -/
def command (adapter : Adapter) (path : String) : Tool.Command :=
  { executable := adapter.info.executable
    arguments := adapter.info.arguments
      ++ ["--format", "json", "--exit-zero", "--stdin-filename", path, "-"] }

/-- How a tool behaves when this adapter gives it a document. -/
def script (adapter : Adapter) (tool : Tool.Behaviour) (snapshot : Snapshot) : Tool.Script :=
  tool.script (adapter.command snapshot.path) snapshot.directory snapshot.text

/-- The messages of a report. A report that cannot be used is blamed on the command. -/
def messages (adapter : Adapter) (path output : String) : Except Failure (List Message) :=
  match Finding.ofReport output with
  | .ok findings => .ok (findings.map (Message.ofFinding adapter.profile path))
  | .error (.tool cause _) => .error (.tool cause (some (adapter.command path).text))
  | .error failure => .error failure

/-- A command as the record of a failure shows it. -/
def shownCommand : Option String → String
  | none => "<not started>"
  | some text => if text = "" then "<not started>" else text

/-- The record of an ordinary failure. A failure of the tool shows its command, any other one is a
failure of the program. -/
def failureRecord (adapter : Adapter) (failure : Failure) : Log.Record :=
  let subject := "Linting with " ++ adapter.info.id ++ " failed"
  match failure with
  | .tool cause command =>
    Log.record .error adapter.logger
      (subject ++ ": " ++ cause.message ++ "\ncommand: " ++ shownCommand command)
  | _ => Log.failed adapter.logger subject failure

/-- What becomes of the outcome of a run that took a duration. -/
def conclude (adapter : Adapter) (path : String) (duration : Time) :
    Except Failure (List Message) → List Tool.Event × Except Failure (List Message)
  | .ok messages =>
    ([.log (Log.record .debug adapter.logger
      (adapter.info.id ++ " produced " ++ toString messages.length ++ " diagnostics for " ++ path
        ++ " in " ++ duration.milliseconds ++ "ms"))],
      .ok messages)
  | .error failure =>
    if failure.isOrdinary then ([.log (adapter.failureRecord failure)], .ok [])
    else ([], .error failure)

end Adapter

/-- A document that a tool is at work on. -/
structure Linting where
  adapter : Adapter
  path : String
  began : Time
  process : Tool.Process
  deriving DecidableEq, Repr

/-- How far linting has come when it first gives up control. -/
inductive Progress where
  | done (outcome : Except Failure (List Message))
  | working (duration : Time) (linting : Linting)

namespace Linting

/-- Ends the exchange with the tool and takes what it has found. -/
def finish (linting : Linting) (now : Time) (exchange : Tool.Exchange) :
    List Tool.Event × Except Failure (List Message) :=
  let (events, output) := linting.process.finish exchange
  let outcome := output.bind (linting.adapter.messages linting.path)
  let (more, result) := linting.adapter.conclude linting.path (now - linting.began) outcome
  (events ++ more, result)

/-- The tool has done its work. -/
def complete (linting : Linting) (now : Time) :
    List Tool.Event × Except Failure (List Message) :=
  linting.finish now linting.process.exchange

/-- Linting is cancelled while the tool is at work. -/
def abandon (linting : Linting) (now : Time) :
    List Tool.Event × Except Failure (List Message) :=
  linting.finish now (.cancelled none)

end Linting

namespace Adapter

/-- Begins to lint a document. -/
def begin (adapter : Adapter) (now : Time) (snapshot : Snapshot) (script : Tool.Script) :
    List Tool.Event × Progress :=
  let path := snapshot.path
  if adapter.info.isEnabled path then
    match Tool.Process.start adapter.logger (adapter.command path) snapshot.text
        snapshot.directory script with
    | (events, .error failure) =>
      let (more, result) := adapter.conclude path 0 (.error failure)
      (events ++ more, .done result)
    | (events, .ok process) =>
      let linting : Linting := { adapter, path, began := now, process }
      match script.work with
      | some duration => (events, .working duration linting)
      | none =>
        let (more, result) := linting.complete now
        (events ++ more, .done result)
  else
    ([.log (Log.record .debug adapter.logger
      (adapter.info.id ++ " is disabled for " ++ path))], .done (.ok []))

/-- Lints a document on its own, from time zero on. With a limit, linting is cancelled if it is not
done before the limit, and without any time it does not begin. -/
def lint (adapter : Adapter) (snapshot : Snapshot) (script : Tool.Script)
    (limit : Option Int) : List Tool.Event × Except Failure (List Message) :=
  if limit.any (· ≤ 0) then ([], .error .timedOut)
  else
    match adapter.begin 0 snapshot script with
    | (events, .done outcome) => (events, outcome)
    | (events, .working duration linting) =>
      if limit.all ((duration : Int) < ·) then
        let (more, outcome) := linting.complete duration
        (events ++ more, outcome)
      else
        let (more, _) := linting.abandon duration
        (events ++ more, .error .timedOut)

end Adapter

end EditorLint
