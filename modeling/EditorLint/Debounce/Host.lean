import EditorLint.Agenda
import EditorLint.Failure

/-!
What the debouncer works for. A host has jobs, which are run for a document after a delay, and
handlers, which ask for jobs to be scheduled or cancelled. Both are given by what they do to the
host's state in one turn, and by what they wait for after it.
-/

namespace EditorLint.Debounce

/-- What a handler asks of the debouncer, for one document. -/
inductive Request (κ : Type) where
  | schedule (uri : String) (job : κ) (delay : Time)
  | cancel (uri : String)
  deriving DecidableEq, Repr

def Request.uri {κ : Type} : Request κ → String
  | .schedule uri _ _ => uri
  | .cancel uri => uri

/-- What a job does after a turn: it waits, where no duration lets others go first, or it ends. -/
inductive Outcome (σ : Type) where
  | wait (duration : Time) (state : σ)
  | finished
  | failed (failure : Failure)
  | cancelled
  deriving DecidableEq, Repr

/-- A host with state `ω`, jobs `κ` that are in a state `σ` once they have started, messages `μ`
and steps `ι` of the handlers of messages. -/
structure Host (ω κ σ μ ι : Type) where
  /-- A job starts. -/
  start : Time → κ → ω → ω × Outcome σ
  /-- A job goes on after its wait. -/
  resume : Time → σ → ω → ω × Outcome σ
  /-- A job is told, in place of going on, that it is cancelled. -/
  interrupt : Time → σ → ω → ω × Outcome σ
  /-- A job has failed. -/
  report : Time → Failure → ω → ω
  /-- The handler of a message starts, and has these steps to take. -/
  begin : Time → μ → ω → ω × List ι
  /-- A step asks something of the debouncer, or the handler gives up. -/
  request : Time → ι → ω → ω × Option (Request κ)
  /-- What a step asked for has been done. -/
  finish : Time → ι → ω → ω
  /-- A bound on the turns that a job takes from its start on. -/
  jobTurns : Nat
  /-- A bound on the turns that a started job still takes. -/
  turnsLeft : σ → Nat
  /-- A bound on the steps of a handler that starts now. -/
  steps : ω → Nat

end EditorLint.Debounce
