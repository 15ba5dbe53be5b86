import EditorLint.Debounce.Manager

/-!
Running the debouncer: the turns of tasks and handlers, taken one after the other until only the
clock can move on. A measure of what is left to do bounds the number of turns.
-/

namespace EditorLint.Debounce

variable {ω κ σ μ ι : Type}

/-- The turns that a task still takes. -/
def Task.turnsLeft (host : Host ω κ σ μ ι) (task : Task κ σ ι) : Nat :=
  match task.stage with
  | .created _ _ => host.jobTurns + 2
  | .delayed _ => host.jobTurns + 1
  | .running state => host.turnsLeft state + 1
  | .ended => 0

/-- The turns that steps of a handler take, with those of the tasks that they create. -/
def stepTurns (host : Host ω κ σ μ ι) (steps : Nat) : Nat :=
  steps * (host.jobTurns + 5)

/-- The turns that lie ahead of a handler that waits for the end of a task. -/
def Pending.turnsCleared (host : Host ω κ σ μ ι) (pending : Pending κ ι) : Nat :=
  stepTurns host (pending.later.length + 1) + 1

/-- The turns that lie ahead of a handler that waits for the lock: it may yet have to wait for the
end of a task. -/
def Pending.turnsLocked (host : Host ω κ σ μ ι) (pending : Pending κ ι) : Nat :=
  pending.turnsCleared host + 1

/-- The turns that a turn of a handler leads to, itself included. -/
def Turn.turnsLeft (host : Host ω κ σ μ ι) (world : ω) : Turn κ μ ι → Nat
  | .task _ => 0
  | .handler _ => stepTurns host (host.steps world) + 3
  | .locked pending => pending.turnsLocked host
  | .cleared pending => pending.turnsCleared host

/-- What is done with a debouncer from outside. -/
inductive Act (μ : Type) where
  | request (request : μ)
  | advance (duration : Time)
  deriving DecidableEq, Repr

namespace Manager

/-- A task has come to its end; who waits for it gets a turn. -/
def endTask (m : Manager ω κ σ μ ι) (id : Nat) : Manager ω κ σ μ ι :=
  let waiter := m.tasks[id]?.bind (·.waiter)
  let m := m.setTask id fun task => { task with stage := .ended, waiter := none }
  match waiter with
  | none => m
  | some pending => m.post (.cleared pending)

/-- What follows from a turn of a job. -/
def afterTurn (host : Host ω κ σ μ ι) (m : Manager ω κ σ μ ι) (id : Nat) :
    ω × Outcome σ → Manager ω κ σ μ ι
  | (world, .wait duration state) =>
    { m.setTask id fun task => { task with stage := .running state } with
      world
      agenda := m.agenda.wait duration (.task id) }
  | (world, .finished) | (world, .cancelled) => { m with world }.endTask id
  | (world, .failed failure) =>
    { m with world := host.report m.now failure world }.endTask id

/-- A turn of a task. One that is cancelled before its job has started ends without starting it. -/
def runTask (host : Host ω κ σ μ ι) (m : Manager ω κ σ μ ι) (id : Nat) :
    Manager ω κ σ μ ι :=
  match m.tasks[id]? with
  | none => m
  | some task =>
    match task.stage with
    | .created job delay =>
      if task.interrupted then m.endTask id
      else
        { m.setTask id fun task => { task with stage := .delayed job } with
          agenda := m.agenda.wait delay (.task id) }
    | .delayed job =>
      if task.interrupted then m.endTask id
      else m.afterTurn host id (host.start m.now job m.world)
    | .running state =>
      if task.interrupted then
        (m.setTask id fun task => { task with interrupted := false }).afterTurn host id
          (host.interrupt m.now state m.world)
      else m.afterTurn host id (host.resume m.now state m.world)
    | .ended => m

/-- Takes one turn. -/
def take (host : Host ω κ σ μ ι) (m : Manager ω κ σ μ ι) : Turn κ μ ι → Manager ω κ σ μ ι
  | .task id => m.runTask host id
  | .handler message =>
    let (world, steps) := host.begin m.now message m.world
    proceed host { m with world } steps
  | .locked pending => m.grant host pending
  | .cleared pending =>
    proceed host (m.complete host pending.step pending.request) pending.later

/-- Takes the next turn that comes no later than `limit`, if there is one. -/
def step? (host : Host ω κ σ μ ι) (limit : Time) (m : Manager ω κ σ μ ι) :
    Option (Manager ω κ σ μ ι) :=
  (m.agenda.next? limit).map fun (turn, agenda) => { m with agenda }.take host turn

/-- Takes turns until none is left that comes no later than `limit`, at most `fuel` of them. -/
def runFor (host : Host ω κ σ μ ι) (limit : Time) : Nat → Manager ω κ σ μ ι → Manager ω κ σ μ ι
  | 0, m => m
  | fuel + 1, m =>
    match m.step? host limit with
    | none => m
    | some m => runFor host limit fuel m

/-- A bound on the turns until nothing is left to do. -/
def turnsLeft (host : Host ω κ σ μ ι) (m : Manager ω κ σ μ ι) : Nat :=
  total (fun task => task.turnsLeft host + (task.waiter.map (·.turnsCleared host)).getD 0) m.tasks
    + total (Turn.turnsLeft host m.world) m.agenda.ready
    + total (·.turnsLocked host) m.queue

/-- Takes turns until none is left that comes no later than `limit`. -/
def runUntil (host : Host ω κ σ μ ι) (limit : Time) (m : Manager ω κ σ μ ι) :
    Manager ω κ σ μ ι :=
  m.runFor host limit (m.turnsLeft host)

/-- A message arrives; its handler gets a turn. -/
def deliver (m : Manager ω κ σ μ ι) (message : μ) : Manager ω κ σ μ ι :=
  m.post (.handler message)

/-- Takes turns until only the clock can move on. -/
def settle (host : Host ω κ σ μ ι) (m : Manager ω κ σ μ ι) : Manager ω κ σ μ ι :=
  m.runUntil host m.now

/-- Lets a duration pass. -/
def advance (host : Host ω κ σ μ ι) (duration : Time) (m : Manager ω κ σ μ ι) :
    Manager ω κ σ μ ι :=
  let target := m.now + duration
  let m := m.runUntil host target
  { m with agenda := m.agenda.passTo target }

/-- Does one thing and takes all turns that can be taken then. -/
def act (host : Host ω κ σ μ ι) (m : Manager ω κ σ μ ι) : Act μ → Manager ω κ σ μ ι
  | .request message => (m.deliver message).settle host
  | .advance duration => m.advance host duration

/-- The table, with whether each task has ended. -/
def known (m : Manager ω κ σ μ ι) : List (String × Bool) :=
  m.table.map fun (uri, id) => (uri, m.hasEnded id)

end Manager

end EditorLint.Debounce
