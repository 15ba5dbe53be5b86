import EditorLint.Tool.Command

/-!
The life of one tool process. A process is started, handed the document, and left when the exchange
with it is over; if it has no exit code then, it is killed and waited for. Its output is its result
when it is UTF-8 and either not blank or of a process that went well.
-/

namespace EditorLint.Tool

/-- How the exchange with a process ends. One that breaks off, or is cancelled, may have come so far
that the process has an exit code. -/
inductive Exchange where
  | delivered (exit : Int) (stdout stderr : Text.Utf8.Bytes)
  | broken (incident : Incident) (exit : Option Int)
  | cancelled (exit : Option Int)
  deriving DecidableEq, Repr

/-- The exit code that a process has when the exchange is over. -/
def Exchange.exit? : Exchange → Option Int
  | .delivered exit _ _ => some exit
  | .broken _ exit | .cancelled exit => exit

/-- The mark around the headings in the log. -/
def banner : String := "##########"

/-- A process that has been started and handed its document. -/
structure Process where
  logger : String
  command : Command
  script : Script
  deriving DecidableEq, Repr

namespace Process

/-- Starts a process and hands it the text. -/
def start (logger : String) (command : Command) (text : String) (directory : Option String)
    (script : Script) : List Event × Except Failure Process :=
  let announced :=
    [.log (Log.record .info logger (banner ++ " Run linter:\n" ++ command.text)),
      .start command directory]
  match script.noStart with
  | none => (announced ++ [.input text], .ok ⟨logger, command, script⟩)
  | some incident =>
    if incident.kind.isOperatingSystem then
      (announced, .error (.tool (.noStart command.executable incident) (some command.text)))
    else (announced, .error (.incident incident))

/-- How the exchange ends when nobody breaks it off. -/
def exchange (process : Process) : Exchange :=
  match process.script.brokenExchange with
  | some incident => .broken incident none
  | none => .delivered process.script.exit process.script.stdout process.script.stderr

/-- A process that cannot be killed, because it is gone. -/
inductive Gone where
  | gone
  deriving DecidableEq, Repr

/-- Kills a process. -/
def kill (process : Process) : List Event × Except Gone Unit :=
  ([.kill], if process.script.alreadyGone then .error .gone else .ok ())

/-- Leaves a process. One without an exit code is killed and waited for; that it may be gone
already changes nothing. -/
def leave (process : Process) (exit? : Option Int) : List Event :=
  match exit? with
  | some _ => []
  | none =>
    let (events, _) := process.kill
    events ++ [.wait]

/-- The result of a process that has delivered its output. -/
def result (process : Process) (exit : Int) (stdout stderr : Text.Utf8.Bytes) :
    List Event × Except Failure String :=
  match Text.Utf8.decode stdout with
  | .error fault => ([], .error (.tool (.notUtf8 fault) (some process.command.text)))
  | .ok text =>
    let output := Text.trim text
    let shown := Event.log <| Log.record .info process.logger
      (banner ++ " Linting output (exit code " ++ toString exit ++ ") " ++ banner ++ "\n"
        ++ output)
    if exit ≠ 0 ∧ output = "" then
      let complaint := Text.trim (Text.Utf8.decodeLossy stderr)
      ([shown], .error (.tool (.noOutput exit complaint) (some process.command.text)))
    else ([shown], .ok output)

/-- Ends the exchange: leaves the process, and takes its result if there is one. -/
def finish (process : Process) (exchange : Exchange) : List Event × Except Failure String :=
  let left := process.leave exchange.exit?
  match exchange with
  | .delivered exit stdout stderr =>
    let (events, output) := process.result exit stdout stderr
    (left ++ events, output)
  | .broken incident _ => (left, .error (.incident incident))
  | .cancelled _ => (left, .error .cancelled)

end Process

/-- The whole life of a process that nobody breaks off. -/
def run (logger : String) (command : Command) (text : String) (directory : Option String)
    (script : Script) : List Event × Except Failure String :=
  match Process.start logger command text directory script with
  | (events, .error failure) => (events, .error failure)
  | (events, .ok process) =>
    let (more, output) := process.finish process.exchange
    (events ++ more, output)

end EditorLint.Tool
