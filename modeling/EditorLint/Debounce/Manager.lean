import EditorLint.Debounce.Host
import EditorLint.Table

/-!
The debouncer. It keeps at most one job for each document: a new one takes the place of the old
one, which is cancelled and has ended before the new one is created. One lock, handed on in the
order of asking, is held while that goes on.
-/

namespace EditorLint.Debounce

/-- How far the task of a job has come. -/
inductive Stage (κ σ : Type) where
  /-- The task has had no turn yet. -/
  | created (job : κ) (delay : Time)
  | delayed (job : κ)
  | running (state : σ)
  | ended
  deriving DecidableEq, Repr

/-- A step of a handler, what it asks for, and the steps after it. -/
structure Pending (κ ι : Type) where
  step : ι
  request : Request κ
  later : List ι
  deriving DecidableEq, Repr

/-- The task that runs a job for a document. -/
structure Task (κ σ ι : Type) where
  uri : String
  stage : Stage κ σ
  /-- Whether the task is to be told that it is cancelled. -/
  interrupted : Bool
  /-- Who waits for the end of the task. -/
  waiter : Option (Pending κ ι)
  deriving DecidableEq, Repr

/-- A turn: of a task, of a handler that starts, of one that has been handed the lock, or of one
whose predecessor's task has ended. -/
inductive Turn (κ μ ι : Type) where
  | task (id : Nat)
  | handler (message : μ)
  | locked (pending : Pending κ ι)
  | cleared (pending : Pending κ ι)
  deriving DecidableEq, Repr

/-- Whether a turn is one of a task. -/
def Turn.isOf {κ μ ι : Type} (id : Nat) : Turn κ μ ι → Bool
  | .task other => other == id
  | _ => false

/-- The host's state, and what is going on for it. -/
structure Manager (ω κ σ μ ι : Type) where
  world : ω
  agenda : Agenda (Turn κ μ ι) := {}
  /-- All tasks ever created; a task is known by its place. -/
  tasks : List (Task κ σ ι) := []
  /-- The task last scheduled for each document. -/
  table : Table Nat := []
  held : Bool := false
  /-- Those that wait for the lock. -/
  queue : List (Pending κ ι) := []

variable {ω κ σ μ ι : Type}

namespace Manager

def now (m : Manager ω κ σ μ ι) : Time := m.agenda.now

/-- Whether a task has come to its end. -/
def hasEnded (m : Manager ω κ σ μ ι) (id : Nat) : Bool :=
  match m.tasks[id]? with
  | some { stage := .ended, .. } => true
  | some _ => false
  | none => true

/-- The task of a document, if it has not ended. -/
def unfinished? (m : Manager ω κ σ μ ι) (uri : String) : Option Nat :=
  (m.table.get? uri).filter fun id => !m.hasEnded id

/-- Changes a task. -/
def setTask (m : Manager ω κ σ μ ι) (id : Nat) (f : Task κ σ ι → Task κ σ ι) :
    Manager ω κ σ μ ι :=
  { m with tasks := m.tasks.modify id f }

def post (m : Manager ω κ σ μ ι) (turn : Turn κ μ ι) : Manager ω κ σ μ ι :=
  { m with agenda := m.agenda.post turn }

/-- Cancels a task, for which `pending` then waits: its wait ends, and at its next turn it is told.
-/
def tearDown (m : Manager ω κ σ μ ι) (id : Nat) (pending : Pending κ ι) :
    Manager ω κ σ μ ι :=
  { m.setTask id fun task => { task with interrupted := true, waiter := some pending } with
    agenda := m.agenda.hasten (Turn.isOf id) (.task id) }

/-- Does what is asked for a document that has no unfinished task. -/
def carryOut (m : Manager ω κ σ μ ι) : Request κ → Manager ω κ σ μ ι
  | .schedule uri job delay =>
    let id := m.tasks.length
    { m with
      tasks := m.tasks ++
        [{ uri, stage := .created job delay, interrupted := false, waiter := none }]
      table := m.table.insert uri id
      agenda := m.agenda.post (.task id) }
  | .cancel uri => { m with table := m.table.erase uri }

/-- Hands the lock to the first that waits for it, or frees it. -/
def release (m : Manager ω κ σ μ ι) : Manager ω κ σ μ ι :=
  match m.queue with
  | [] => { m with held := false }
  | first :: rest => { m with queue := rest, agenda := m.agenda.post (.locked first) }

/-- Does what a step asks for, under the lock, and gives up the lock. -/
def complete (host : Host ω κ σ μ ι) (m : Manager ω κ σ μ ι) (step : ι)
    (request : Request κ) : Manager ω κ σ μ ι :=
  let m := (m.carryOut request).release
  { m with world := host.finish m.now step m.world }

/-- Takes the steps of a handler until one has to wait, for the lock or for the end of a task. -/
def proceed (host : Host ω κ σ μ ι) (m : Manager ω κ σ μ ι) : List ι → Manager ω κ σ μ ι
  | [] => m
  | step :: later =>
    match host.request m.now step m.world with
    | (world, none) => { m with world }
    | (world, some request) =>
      let m := { m with world }
      if m.held then { m with queue := m.queue ++ [⟨step, request, later⟩] }
      else
        match m.unfinished? request.uri with
        | some id => { m with held := true }.tearDown id ⟨step, request, later⟩
        | none => proceed host ({ m with held := true }.complete host step request) later

/-- Goes on with a step that holds the lock. -/
def grant (host : Host ω κ σ μ ι) (m : Manager ω κ σ μ ι) (pending : Pending κ ι) :
    Manager ω κ σ μ ι :=
  match m.unfinished? pending.request.uri with
  | some id => m.tearDown id pending
  | none => proceed host (m.complete host pending.step pending.request) pending.later

end Manager

end EditorLint.Debounce
