import EditorLint.CommandLine.Reader
import EditorLint.CommandLine.Usage
import EditorLint.Log.Logger
import EditorLint.Provider

/-!
The run of the program, from its command line to its exit code. What the run does to the world
outside is a list of effects. The log is set up first, and a failure to do so ends the program; from
there on a failure is logged and becomes an exit code.
-/

namespace EditorLint.CommandLine

/-- What a run does to the outside. -/
inductive Effect where
  | output (text : String)
  | complaint (text : String)
  | log (record : Log.Record)
  | createServer (settings : Settings)
  | serveStdio
  | serveTcp (host : String) (port : Int)
  deriving DecidableEq, Repr

/-- How a run ends. -/
inductive Ending where
  /-- The command line stops the program: with help, or with an error. -/
  | stopped (code : Nat)
  | returned (code : Nat)
  /-- A failure that the run does not absorb. -/
  | escaped (failure : Failure)
  deriving DecidableEq, Repr

/-- What a run finds outside: whether the log file can be opened, and how creating and running a
server end. -/
structure Surroundings where
  openLog : String → Option Failure
  create : Option Failure
  serve : Option Failure

/-- The effects of starting a server and of serving, and how that ends. -/
def serving (surroundings : Surroundings) (options : Options) : List Effect × Option Failure :=
  let main := Log.plainName "main"
  let settings := options.settings
  let (record, provider) := Provider.ofSettings settings
  let created := [.log record, .createServer provider.settings]
  match surroundings.create with
  | some failure => (created, some failure)
  | none =>
    let started : List Effect :=
      match options.transport with
      | .stdio =>
        [.log (Log.record .info main "Starting in stdio mode"), .serveStdio]
      | .tcp =>
        [.log (Log.record .info main
          ("Starting in TCP mode on " ++ options.host ++ ":" ++ toString options.port)),
          .serveTcp options.host options.port]
    (created ++ started, surroundings.serve)

/-- How a run ends after serving, and what is logged about it. A user who stops the server is no
failure. -/
def conclusion : Option Failure → List Effect × Ending
  | none => ([], .returned 0)
  | some failure =>
    let main := Log.plainName "main"
    if failure.kind = .interrupted then
      ([.log (Log.record .info main "Server stopped by user")], .returned 0)
    else if failure.isOrdinary then
      ([.log { level := .critical, logger := main, message := "Fatal error in server"
               failure := some failure }], .returned 1)
    else ([], .escaped failure)

/-- The run with options, once the log is set up. -/
def runOptions (surroundings : Surroundings) (options : Options) : List Effect × Ending :=
  let main := Log.plainName "main"
  let announced : List Effect :=
    [.log (Log.record .info main "Starting lintbridge server"),
      .log (Log.record .debug main ("Configuration: " ++ options.literal))]
  let (served, failure) := serving surroundings options
  let (concluded, ending) := conclusion failure
  (announced ++ served ++ concluded, ending)

/-- The sink that options choose for the log. -/
def Options.sink (options : Options) : Log.Sink :=
  match options.logFile with
  | none => .standardError
  | some path => .file path

/-- The run of a command line, with the logger as it is before and after. -/
def run (surroundings : Surroundings) (logger : Log.Logger) (words : List String) :
    Log.Logger × List Effect × Ending :=
  match Options.ofWords words with
  | .error .help => (logger, [.output help], .stopped 0)
  | .error (.error error) =>
    (logger, [.complaint (usage ++ errorLine error.text ++ "\n")], .stopped 2)
  | .ok options =>
    let opening := options.logFile.bind surroundings.openLog
    match logger.configure options.logLevel.text options.sink opening with
    | (logger, .error failure) => (logger, [], .escaped failure)
    | (logger, .ok ()) => (logger, runOptions surroundings options)

/-- The records of a run that a logger writes to a sink, in order. -/
def written (logger : Log.Logger) (sink : Log.Sink) (effects : List Effect) :
    List Log.Record :=
  effects.flatMap fun
    | .log r => ((logger.writers r).filter (·.sink = sink)).map fun _ => r
    | _ => []

end EditorLint.CommandLine
