import EditorLint.CommandLine.Run

/-!
The program on the command line. No transport is attached: a server that has been created ends as
soon as it serves.
-/

namespace EditorLint

open CommandLine

/-- The time stamp of log lines; the clock of the log stands still. -/
def stamp : String := "1970-01-01 00:00:00"

/-- The failure that the system's error is for the file that was to be opened. -/
def openingFailure (path : String) : IO.Error → Failure
  | .noFileOrDirectory .. => .noSuchFile path
  | .inappropriateType _ 21 _ => .isDirectory path
  | .inappropriateType _ code _ => refusal .operatingSystem code "Not a directory"
  | .permissionDenied _ code _ => refusal .noPermission code "Permission denied"
  | error => .incident ⟨.operatingSystem, some error.toString⟩
where
  refusal (kind : FailureKind) (code : UInt32) (reason : String) : Failure :=
    .incident ⟨kind,
      some ("[Errno " ++ toString code ++ "] " ++ reason ++ ": " ++ Text.quoted path)⟩

/-- Why a log file cannot be opened for writing at its end. -/
def probeLog (path : String) : IO (Option Failure) := do
  try
    let _ ← IO.FS.Handle.mk path .append
    return none
  catch error => return some (openingFailure path error)

/-- Writes a log line where the sink says. -/
def writeLog (sink : Log.Sink) (r : Log.Record) : IO Unit := do
  match sink with
  | .file path =>
    let handle ← IO.FS.Handle.mk path .append
    handle.putStr (r.lines stamp)
  | _ => (← IO.getStderr).putStr (r.lines stamp)

/-- Performs an effect of a run. -/
def perform (logger : Log.Logger) : Effect → IO Unit
  | .output text => IO.print text
  | .complaint text => IO.eprint text
  | .log r => (logger.writers r).forM fun handler => writeLog handler.sink r
  | _ => return ()

/-- The log file that a command line names, if it is a proper one. -/
def logFileOf (words : List String) : Option String :=
  match Options.ofWords words with
  | .ok options => options.logFile
  | .error _ => none

end EditorLint

open EditorLint in
def main (words : List String) : IO UInt32 := do
  let opening ←
    match logFileOf words with
    | none => pure none
    | some path => probeLog path
  let surroundings : CommandLine.Surroundings :=
    { openLog := fun _ => opening, create := none, serve := none }
  let (logger, effects, ending) := CommandLine.run surroundings .untouched words
  effects.forM (perform logger)
  match ending with
  | .stopped code | .returned code => return code.toUInt32
  | .escaped failure =>
    IO.eprintln failure.summary
    return 1
