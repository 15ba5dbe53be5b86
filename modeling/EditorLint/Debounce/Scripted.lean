import EditorLint.Debounce.Run
import EditorLint.Log.Record

/-!
The debouncer on its own, with jobs that follow a script: a job reports that it starts, works for
a while, and then fails or reports that it ends; one that is cancelled reports that.
-/

namespace EditorLint.Debounce

structure ScriptedJob where
  name : String
  /-- How long the job works; nothing means that it is done at once, and zero that others have
  their turn first. -/
  work : Option Time
  failure : Option Incident
  deriving DecidableEq, Repr

inductive JobEvent where
  | started (name : String)
  | ended (name : String)
  | cancelled (name : String)
  | log (record : Log.Record)
  deriving DecidableEq, Repr

abbrev History := List (Stamped JobEvent)

namespace ScriptedJob

/-- Adds an event to what has happened. -/
def note (now : Time) (event : JobEvent) (history : History) : History :=
  history ++ [⟨now, event⟩]

/-- The last turn of a job that nobody cancels. -/
def conclude (now : Time) (job : ScriptedJob) (history : History) :
    History × Outcome ScriptedJob :=
  match job.failure with
  | none => (note now (.ended job.name) history, .finished)
  | some incident =>
    if incident.kind = .cancelled then (note now (.cancelled job.name) history, .cancelled)
    else (history, .failed (.incident incident))

/-- The first turn of a job. -/
def start (now : Time) (job : ScriptedJob) (history : History) :
    History × Outcome ScriptedJob :=
  let history := note now (.started job.name) history
  match job.work with
  | none => job.conclude now history
  | some duration => (history, .wait duration job)

/-- The record of a job that has failed. -/
def failureRecord (failure : Failure) : Log.Record :=
  Log.failed (Log.plainName "lsp.debounce") "Debounced lint task failed" failure

/-- A host whose messages are the requests to the debouncer. -/
def host : Host History ScriptedJob ScriptedJob (Request ScriptedJob) (Request ScriptedJob) where
  start := fun now job history => job.start now history
  resume := fun now job history => job.conclude now history
  interrupt := fun now job history => (note now (.cancelled job.name) history, .cancelled)
  report := fun now failure history => note now (.log (failureRecord failure)) history
  begin := fun _ request history => (history, [request])
  request := fun _ request history => (history, some request)
  finish := fun _ _ history => history
  jobTurns := 2
  turnsLeft := fun _ => 1
  steps := fun _ => 1

end ScriptedJob

/-- The delay of a job that none is given for. -/
def defaultDelay : Time := 300000000

/-- A debouncer for scripted jobs. -/
abbrev ScriptedManager :=
  Manager History ScriptedJob ScriptedJob (Request ScriptedJob) (Request ScriptedJob)

/-- A debouncer for which nothing has happened yet. -/
def ScriptedManager.fresh : ScriptedManager :=
  { world := [] }

/-- What is done with the debouncer from outside. -/
abbrev ScriptedStep := Act (Request ScriptedJob)

/-- The debouncer after each of some steps. -/
def ScriptedManager.trace (m : ScriptedManager) : List ScriptedStep → List ScriptedManager
  | [] => []
  | step :: rest =>
    let m := Manager.act ScriptedJob.host m step
    m :: ScriptedManager.trace m rest

end EditorLint.Debounce
