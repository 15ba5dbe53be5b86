import EditorLint.Proofs.Debounce.Quiet

/-! A debouncer with a past behind it goes on as one without: tasks that have all ended, time that
has passed and what the host has kept change nothing but the names of tasks and the times. A host
need only do the same with the past behind it, in each thing that it does.
-/

namespace EditorLint.Debounce

variable {ω κ σ μ ι : Type}

/-- What is changed behind others is changed as on its own, by induction over the others. -/
theorem modify_append_right {α : Type} (before after : List α) (index : Nat) (f : α → α)
    : (before ++ after).modify (before.length + index) f = before ++ after.modify index f := by
  induction before with
  | nil => simp
  | cons first rest ih =>
      rw [List.length_cons, Nat.add_right_comm, List.cons_append, List.modify_succ_cons, ih,
        List.cons_append]

theorem modify_map {α β : Type} {f : α → α} {g : β → β} {rename : α → β}
    (same : ∀ item, g (rename item) = rename (f item)) (items : List α) (index : Nat)
    : (items.map rename).modify index g = (items.modify index f).map rename := by
  apply List.ext_getElem?
  intro place
  simp only [List.getElem?_modify, List.getElem?_map]
  cases items[place]? with
  | none => rfl
  | some item => by_cases own : index = place <;> simp [own, same]

/-- A past: the time that has passed, the tasks that there have been, and how states of the host and
of its jobs look with that behind them.
-/
structure Past (ω κ σ ι : Type) where
  clock : Time
  tasks : List (Task κ σ ι)
  ended : ∀ task ∈ tasks, task.stage = .ended ∧ task.waiter = none
  world : ω → ω
  state : σ → σ

namespace Past

variable (past : Past ω κ σ ι)

/-- The place of a task among all tasks. -/
def place (id : Nat) : Nat :=
  past.tasks.length + id

def turn : Turn κ μ ι → Turn κ μ ι
  | .task id => .task (past.place id)
  | .handler message => .handler message
  | .locked pending => .locked pending
  | .cleared pending => .cleared pending

def stage : Stage κ σ → Stage κ σ
  | .created job delay => .created job delay
  | .delayed job => .delayed job
  | .running state => .running (past.state state)
  | .ended => .ended

def task (task : Task κ σ ι) : Task κ σ ι :=
  { task with stage := past.stage task.stage }

/-- What comes of a turn of a job. -/
def result : ω × Outcome σ → ω × Outcome σ
  | (world, .wait duration state) => (past.world world, .wait duration (past.state state))
  | (world, .finished) => (past.world world, .finished)
  | (world, .failed failure) => (past.world world, .failed failure)
  | (world, .cancelled) => (past.world world, .cancelled)

/-- What the table finds: the same task, or one of the past where there is none. -/
def Finds : Option Nat → Option Nat → Prop
  | some id, found => found = some (past.place id)
  | none, found => ∀ id, found = some id → id < past.tasks.length

@[simp]
theorem stage_eq_ended {stage : Stage κ σ} : past.stage stage = .ended ↔ stage = .ended := by
  cases stage <;> simp [Past.stage]

end Past

/-- A host does with a past behind it what it does without. -/
structure Host.Repeats (host : Host ω κ σ μ ι) (past : Past ω κ σ ι) : Prop where
  start
    : ∀ now job world,
        host.start (now + past.clock) job (past.world world)
        = past.result (host.start now job world)
  resume
    : ∀ now state world,
        host.resume (now + past.clock) (past.state state) (past.world world)
        = past.result (host.resume now state world)
  interrupt
    : ∀ now state world,
        host.interrupt (now + past.clock) (past.state state) (past.world world)
        = past.result (host.interrupt now state world)
  report
    : ∀ now failure world,
        host.report (now + past.clock) failure (past.world world)
        = past.world (host.report now failure world)
  begin
    : ∀ now message world,
        host.begin (now + past.clock) message (past.world world)
        = (past.world (host.begin now message world).1, (host.begin now message world).2)
  request
    : ∀ now step world,
        host.request (now + past.clock) step (past.world world)
        = (past.world (host.request now step world).1, (host.request now step world).2)
  finish
    : ∀ now step world,
        host.finish (now + past.clock) step (past.world world)
        = past.world (host.finish now step world)
  turnsLeft : ∀ state, host.turnsLeft (past.state state) = host.turnsLeft state
  steps : ∀ world, host.steps (past.world world) = host.steps world

namespace Manager

/-- A debouncer that goes on from a past as another one goes on from none. -/
structure Follows (past : Past ω κ σ ι) (m later : Manager ω κ σ μ ι) : Prop where
  world : later.world = past.world m.world
  agenda : later.agenda = m.agenda.postponed past.clock past.turn
  tasks : later.tasks = past.tasks ++ m.tasks.map past.task
  table : ∀ uri, past.Finds (m.table.get? uri) (later.table.get? uri)
  held : later.held = m.held
  queue : later.queue = m.queue

variable {host : Host ω κ σ μ ι} {past : Past ω κ σ ι} {m later : Manager ω κ σ μ ι}

/-- A step that asks for something waits for the lock or for the end of a task, or is done. -/
def ask (host : Host ω κ σ μ ι) (m : Manager ω κ σ μ ι) (pending : Pending κ ι) :
    Manager ω κ σ μ ι :=
  if m.held then { m with queue := m.queue ++ [pending] }
  else
    match m.unfinished? pending.request.uri with
    | some id => { m with held := true }.tearDown id pending
    | none =>
      ({ m with held := true }.complete host pending.step pending.request).proceed host
        pending.later

theorem proceed_cons (m : Manager ω κ σ μ ι) (step : ι) (later : List ι)
    : m.proceed host (step :: later)
      = match host.request m.now step m.world with
        | (world, none) => { m with world }
        | (world, some request) =>
          ({ m with world } : Manager ω κ σ μ ι).ask host ⟨step, request, later⟩ :=
  rfl

namespace Follows

theorem now (follows : Follows past m later) : later.now = m.now + past.clock := by
  rw [Manager.now, follows.agenda]
  rfl

-----------------------------------------------------------------------------------------
-- Tasks
-----------------------------------------------------------------------------------------

/-- A task of the present is found at its place behind the past. -/
theorem task (follows : Follows past m later) (id : Nat)
    : later.tasks[past.place id]? = m.tasks[id]?.map past.task := by
  rw [follows.tasks, Past.place, List.getElem?_append_right (Nat.le_add_right _ _),
    Nat.add_sub_cancel_left, List.getElem?_map]

/-- The same tasks have ended. -/
theorem hasEnded (follows : Follows past m later) (id : Nat)
    : later.hasEnded (past.place id) = m.hasEnded id := by
  have same : later.hasEnded (past.place id) = false ↔ m.hasEnded id = false := by
    rw [hasEnded_eq_false_iff, hasEnded_eq_false_iff, follows.task]
    simp [Past.task]
  cases before : m.hasEnded id <;> simp_all

/-- All tasks of the past have ended. -/
theorem hasEnded_past (follows : Follows past m later) {id : Nat} (old : id < past.tasks.length)
    : later.hasEnded id = true := by
  by_contra going
  obtain ⟨task, found, unfinished⟩ := hasEnded_eq_false_iff.mp (by simpa using going)
  rw [follows.tasks, List.getElem?_append_left old] at found
  exact unfinished (past.ended task (List.mem_of_getElem? found)).1

/-- The unfinished task of a document is the same. -/
theorem unfinished? (follows : Follows past m later) (uri : String)
    : later.unfinished? uri = (m.unfinished? uri).map past.place := by
  have finds := follows.table uri
  unfold Manager.unfinished?
  cases found : m.table.get? uri with
  | some id =>
      rw [found] at finds
      rw [finds, Option.filter_some, Option.filter_some, follows.hasEnded]
      split <;> rfl
  | none =>
      rw [found] at finds
      rw [Option.filter_none, Option.map_none, Option.filter_eq_none_iff]
      intro id entered
      simp [follows.hasEnded_past (finds id entered)]

-----------------------------------------------------------------------------------------
-- Single operations
-----------------------------------------------------------------------------------------

theorem withWorld (follows : Follows past m later) (world : ω)
    : Follows past { m with world } { later with world := past.world world } :=
  { follows with world := rfl }

theorem withAgenda (follows : Follows past m later) {agenda next : Agenda (Turn κ μ ι)}
    (same : next = agenda.postponed past.clock past.turn)
    : Follows past { m with agenda } { later with agenda := next } :=
  { follows with agenda := same }

theorem withHeld (follows : Follows past m later) (held : Bool)
    : Follows past { m with held } { later with held } :=
  { follows with held := rfl }

theorem withQueue (follows : Follows past m later) (queue : List (Pending κ ι))
    : Follows past { m with queue } { later with queue } :=
  { follows with queue := rfl }

theorem post (follows : Follows past m later) (turn : Turn κ μ ι)
    : Follows past (m.post turn) (later.post (past.turn turn)) :=
  follows.withAgenda (by rw [follows.agenda, Agenda.postponed_post])

theorem wait (follows : Follows past m later) (duration : Time) (id : Nat)
    : Follows past { m with agenda := m.agenda.wait duration (.task id) }
        { later with agenda := later.agenda.wait duration (.task (past.place id)) } := by
  apply follows.withAgenda
  rw [follows.agenda, Agenda.postponed_wait]
  rfl

/-- A task is changed in the same way at its place. -/
theorem setTask (follows : Follows past m later) (id : Nat) {f g : Task κ σ ι → Task κ σ ι}
    (same : ∀ task, g (past.task task) = past.task (f task))
    : Follows past (m.setTask id f) (later.setTask (past.place id) g) := by
  refine { follows with tasks := ?_ }
  simp only [Manager.setTask, follows.tasks, Past.place, modify_append_right, modify_map same]

/-- A task is cancelled at its place. -/
theorem tearDown (follows : Follows past m later) (id : Nat) (pending : Pending κ ι)
    : Follows past (m.tearDown id pending) (later.tearDown (past.place id) pending) := by
  have changed : Follows past (m.setTask id (Task.doomed pending))
      (later.setTask (past.place id) (Task.doomed pending)) :=
    follows.setTask id fun _ => rfl
  refine changed.withAgenda ?_
  have names (turn : Turn κ μ ι)
      : Turn.isOf (past.place id) (past.turn turn) = Turn.isOf id turn := by
    cases turn <;> simp [Past.turn, Past.place, Turn.isOf]
  rw [follows.agenda]
  exact (Agenda.postponed_hasten _ _ names m.agenda (.task id)).symm

/-- A new task is created at the next place. -/
theorem carryOut (follows : Follows past m later) (request : Request κ)
    : Follows past (m.carryOut request) (later.carryOut request) := by
  cases request with
  | schedule uri job delay =>
      have next : later.tasks.length = past.place m.tasks.length := by
        simp [follows.tasks, Past.place]
      refine { follows with agenda := ?_, tasks := ?_, table := ?_ }
      · simp only [Manager.carryOut, follows.agenda, Agenda.postponed_post, next]
        rfl
      · simp only [Manager.carryOut, follows.tasks, List.map_append, List.append_assoc]
        rfl
      · intro other
        simp only [Manager.carryOut, Table.get?_insert, next]
        split
        · rfl
        · exact follows.table other
  | cancel uri =>
      refine { follows with table := fun other => ?_ }
      simp only [Manager.carryOut, Table.get?_erase]
      split
      · intro id found
        cases found
      · exact follows.table other

theorem release (follows : Follows past m later) : Follows past m.release later.release := by
  have same := follows.queue
  cases waiting : m.queue with
  | nil =>
      have free := follows.withHeld false
      rw [waiting] at same
      simpa only [Manager.release, waiting, same] using free
  | cons first rest =>
      have handed := (follows.post (.locked first)).withQueue rest
      rw [waiting] at same
      simpa only [Manager.release, Manager.post, Past.turn, waiting, same] using handed

/-- What a step asks for is done. -/
theorem complete (follows : Follows past m later) (repeats : host.Repeats past) (step : ι)
    (request : Request κ)
    : Follows past (m.complete host step request) (later.complete host step request) := by
  have released := (follows.carryOut request).release
  have finished := released.withWorld
    (host.finish (m.carryOut request).release.now step (m.carryOut request).release.world)
  rw [← repeats.finish, ← released.now, ← released.world] at finished
  exact finished

/-- A step that asks for something waits for the same, or is done. -/
theorem ask (follows : Follows past m later) (repeats : host.Repeats past) (pending : Pending κ ι)
    (goesOn
      : ∀ {m later : Manager ω κ σ μ ι},
          Follows past m later
          → Follows past (m.proceed host pending.later) (later.proceed host pending.later))
    : Follows past (m.ask host pending) (later.ask host pending) := by
  have same := follows.held
  unfold Manager.ask
  by_cases held : m.held
  · rw [if_pos held, if_pos (same.trans held), follows.queue]
    exact follows.withQueue _
  · have taken := follows.withHeld true
    rw [if_neg held, if_neg (same ▸ held), follows.unfinished?]
    cases m.unfinished? pending.request.uri with
    | some id => exact taken.tearDown id pending
    | none => exact goesOn (taken.complete repeats pending.step pending.request)

/-- The steps of a handler are taken up to the same one, by induction over them. -/
theorem proceed (follows : Follows past m later) (repeats : host.Repeats past) (steps : List ι)
    : Follows past (m.proceed host steps) (later.proceed host steps) := by
  induction steps generalizing m later with
  | nil => exact follows
  | cons step rest ih =>
      have asked := repeats.request m.now step m.world
      rw [← follows.now, ← follows.world] at asked
      rw [proceed_cons, proceed_cons, asked]
      obtain ⟨world, _ | request⟩ := host.request m.now step m.world
      · exact follows.withWorld world
      · exact (follows.withWorld world).ask repeats ⟨step, request, rest⟩ ih

/-- A step that holds the lock goes on. -/
theorem grant (follows : Follows past m later) (repeats : host.Repeats past)
    (pending : Pending κ ι)
    : Follows past (m.grant host pending) (later.grant host pending) := by
  simp only [Manager.grant, follows.unfinished?]
  cases m.unfinished? pending.request.uri with
  | some id => exact follows.tearDown id pending
  | none => exact (follows.complete repeats pending.step pending.request).proceed repeats _

/-- A task ends, and who waits for that has a turn. -/
theorem endTask (follows : Follows past m later) (id : Nat)
    : Follows past (m.endTask id) (later.endTask (past.place id)) := by
  have ended : Follows past (m.setTask id fun task => { task with stage := .ended, waiter := none })
      (later.setTask (past.place id) fun task => { task with stage := .ended, waiter := none }) :=
    follows.setTask id fun _ => rfl
  have waiter : later.tasks[past.place id]?.bind (·.waiter) = m.tasks[id]?.bind (·.waiter) := by
    rw [follows.task]
    cases m.tasks[id]? <;> rfl
  dsimp only [Manager.endTask]
  rw [waiter]
  split
  · exact ended
  next pending _ => exact ended.post (.cleared pending)

/-- A turn of a job has the same consequences. -/
theorem afterTurn (follows : Follows past m later) (repeats : host.Repeats past) (id : Nat)
    (result : ω × Outcome σ)
    : Follows past (m.afterTurn host id result)
        (later.afterTurn host (past.place id) (past.result result)) := by
  obtain ⟨world, outcome⟩ := result
  cases outcome with
  | wait duration state =>
      exact ((follows.setTask id (f := fun task => { task with stage := .running state })
        fun _ => rfl).withWorld world).wait duration id
  | finished | cancelled => exact (follows.withWorld world).endTask id
  | failed failure =>
      have reported := follows.withWorld (host.report m.now failure world)
      rw [← repeats.report, ← follows.now] at reported
      exact reported.endTask id

theorem runTask (follows : Follows past m later) (repeats : host.Repeats past) (id : Nat)
    : Follows past (m.runTask host id) (later.runTask host (past.place id)) := by
  unfold Manager.runTask
  rw [follows.task]
  cases found : m.tasks[id]? with
  | none => exact follows
  | some task =>
      obtain ⟨uri, stage, interrupted, waiter⟩ := task
      cases stage with
      | created job delay =>
          cases interrupted with
          | true => exact follows.endTask id
          | false =>
              have begun : Follows past
                  (m.setTask id fun task => { task with stage := .delayed job })
                  (later.setTask (past.place id) fun task => { task with stage := .delayed job }) :=
                follows.setTask id fun _ => rfl
              exact begun.wait delay id
      | delayed job =>
          cases interrupted with
          | true => exact follows.endTask id
          | false =>
              have went := follows.afterTurn repeats id (host.start m.now job m.world)
              rw [← repeats.start, ← follows.now, ← follows.world] at went
              exact went
      | running state =>
          cases interrupted with
          | true =>
              have told : Follows past
                  (m.setTask id fun task => { task with interrupted := false })
                  (later.setTask (past.place id) fun task => { task with interrupted := false }) :=
                follows.setTask id fun _ => rfl
              have went := told.afterTurn repeats id (host.interrupt m.now state m.world)
              rw [← repeats.interrupt, ← follows.now, ← follows.world] at went
              exact went
          | false =>
              have went := follows.afterTurn repeats id (host.resume m.now state m.world)
              rw [← repeats.resume, ← follows.now, ← follows.world] at went
              exact went
      | ended => exact follows

-----------------------------------------------------------------------------------------
-- Turns
-----------------------------------------------------------------------------------------

theorem take (follows : Follows past m later) (repeats : host.Repeats past) (turn : Turn κ μ ι)
    : Follows past (Manager.take host m turn) (Manager.take host later (past.turn turn)) := by
  cases turn with
  | task id => exact follows.runTask repeats id
  | handler message =>
      have begun := repeats.begin m.now message m.world
      rw [← follows.now, ← follows.world] at begun
      simp only [Manager.take, Past.turn, begun]
      exact (follows.withWorld _).proceed repeats _
  | locked pending => exact follows.grant repeats pending
  | cleared pending =>
      exact (follows.complete repeats pending.step pending.request).proceed repeats _

/-- The same turn comes next. -/
theorem step? (follows : Follows past m later) (repeats : host.Repeats past) (limit : Time)
    : match m.step? host limit with
      | none => later.step? host (limit + past.clock) = none
      | some next =>
        ∃ after, later.step? host (limit + past.clock) = some after ∧ Follows past next after := by
  unfold Manager.step?
  rw [follows.agenda, Agenda.next?_postponed]
  cases m.agenda.next? limit with
  | none => rfl
  | some entry =>
      obtain ⟨turn, agenda⟩ := entry
      exact ⟨_, rfl, (follows.withAgenda rfl).take repeats turn⟩

/-- As many turns are left at most. -/
theorem turnsLeft (follows : Follows past m later) (repeats : host.Repeats past)
    : later.turnsLeft host = m.turnsLeft host := by
  have behind : total (Task.burden host) past.tasks = 0 := by
    rw [total_eq_zero]
    intro task member
    obtain ⟨ended, unawaited⟩ := past.ended task member
    simp [Task.burden, Task.turnsLeft, ended, unawaited]
  have tasks (task : Task κ σ ι) : Task.burden host (past.task task) = Task.burden host task := by
    obtain ⟨uri, stage, interrupted, waiter⟩ := task
    cases stage <;> simp [Task.burden, Task.turnsLeft, Past.task, Past.stage, repeats.turnsLeft]
  have turns (turn : Turn κ μ ι)
      : Turn.turnsLeft host (past.world m.world) (past.turn turn)
        = Turn.turnsLeft host m.world turn := by
    cases turn <;> simp [Past.turn, Turn.turnsLeft, repeats.steps]
  simp only [turnsLeft_eq, follows.tasks, follows.agenda, follows.world, follows.queue,
    Agenda.postponed, total_append, total_map, behind, tasks, turns, Nat.zero_add]

/-- As many turns are taken, by induction over their bound. -/
theorem runFor (follows : Follows past m later) (repeats : host.Repeats past) (limit : Time)
    (fuel : Nat)
    : Follows past (m.runFor host limit fuel) (later.runFor host (limit + past.clock) fuel) := by
  induction fuel generalizing m later with
  | zero => exact follows
  | succ fuel ih =>
      have stepped := follows.step? repeats limit
      rw [Manager.runFor, Manager.runFor]
      cases step : m.step? host limit with
      | none =>
          rw [step] at stepped
          rw [stepped]
          exact follows
      | some next =>
          rw [step] at stepped
          obtain ⟨after, taken, follows⟩ := stepped
          rw [taken]
          exact ih follows

theorem runUntil (follows : Follows past m later) (repeats : host.Repeats past) (limit : Time)
    : Follows past (m.runUntil host limit) (later.runUntil host (limit + past.clock)) := by
  rw [Manager.runUntil, Manager.runUntil, follows.turnsLeft repeats]
  exact follows.runFor repeats limit _

theorem deliver (follows : Follows past m later) (message : μ)
    : Follows past (m.deliver message) (later.deliver message) :=
  follows.post (.handler message)

theorem settle (follows : Follows past m later) (repeats : host.Repeats past)
    : Follows past (m.settle host) (later.settle host) := by
  rw [Manager.settle, Manager.settle, follows.now]
  exact follows.runUntil repeats m.now

theorem advance (follows : Follows past m later) (repeats : host.Repeats past) (duration : Time)
    : Follows past (m.advance host duration) (later.advance host duration) := by
  have target : later.now + duration = m.now + duration + past.clock := by
    rw [follows.now]
    exact Nat.add_right_comm _ _ _
  have ran := follows.runUntil repeats (m.now + duration)
  simp only [Manager.advance, target]
  apply ran.withAgenda
  rw [ran.agenda, Agenda.postponed_passTo]

end Follows

end Manager

end EditorLint.Debounce
