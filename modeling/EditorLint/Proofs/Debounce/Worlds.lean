import EditorLint.Debounce.Run

/-! What every turn of a host keeps, every turn of the debouncer keeps. The debouncer itself does
nothing to the host's state, so a fact about that state needs no fact about tasks or turns, but
for the states that started jobs are in.
-/

namespace EditorLint.Debounce

variable {ω κ σ μ ι : Type}

/-- A fact about the host's state that no turn of a job in a state that fits undoes. -/
structure Host.JobsKeep (host : Host ω κ σ μ ι) (fits : σ → Prop) (holds : ω → Prop) : Prop where
  start : ∀ now job world, holds world → holds (host.start now job world).1
  resume : ∀ now state world, fits state → holds world → holds (host.resume now state world).1
  interrupt
    : ∀ now state world, fits state → holds world → holds (host.interrupt now state world).1
  report : ∀ now failure world, holds world → holds (host.report now failure world)

/-- A fact about the host's state that no step of a handler undoes once the handler has started. -/
structure Host.StepsKeep (host : Host ω κ σ μ ι) (holds : ω → Prop) : Prop where
  request : ∀ now step world, holds world → holds (host.request now step world).1
  finish : ∀ now step world, holds world → holds (host.finish now step world)

/-- A fact about the host's state that no turn of a job in a state that fits, no handler and none
of its steps undoes.
-/
structure Host.Keeps (host : Host ω κ σ μ ι) (fits : σ → Prop) (holds : ω → Prop) : Prop
    extends host.JobsKeep fits holds, host.StepsKeep holds where
  begin : ∀ now message world, holds world → holds (host.begin now message world).1

/-- All started jobs are in states that fit. -/
def Manager.RunsIn (fits : σ → Prop) (m : Manager ω κ σ μ ι) : Prop :=
  ∀ {id : Nat} {task : Task κ σ ι} {state : σ},
    m.tasks[id]? = some task → task.stage = .running state → fits state

namespace Manager

@[simp]
theorem world_tearDown (m : Manager ω κ σ μ ι) (id : Nat) (pending : Pending κ ι)
    : (m.tearDown id pending).world = m.world :=
  rfl

@[simp]
theorem world_carryOut (m : Manager ω κ σ μ ι) (request : Request κ)
    : (m.carryOut request).world = m.world := by
  cases request <;> rfl

@[simp]
theorem world_release (m : Manager ω κ σ μ ι) : m.release.world = m.world := by
  unfold release
  split <;> rfl

@[simp]
theorem world_endTask (m : Manager ω κ σ μ ι) (id : Nat) : (m.endTask id).world = m.world := by
  dsimp only [endTask]
  split <;> rfl

/-- Only what is asked for changes the tasks when a step is taken. -/
theorem tasks_complete (host : Host ω κ σ μ ι) (m : Manager ω κ σ μ ι) (step : ι)
    (request : Request κ)
    : (m.complete host step request).tasks = (m.carryOut request).tasks := by
  change (m.carryOut request).release.tasks = _
  unfold release
  split <;> rfl

/-- What follows from a turn of a job leaves the host's state as the job has left it, but for the
report of a failure.
-/
theorem world_afterTurn_cases (host : Host ω κ σ μ ι) (m : Manager ω κ σ μ ι) (id : Nat)
    (result : ω × Outcome σ)
    : (m.afterTurn host id result).world = result.1
      ∨ ∃ failure, (m.afterTurn host id result).world = host.report m.now failure result.1 := by
  obtain ⟨world, outcome⟩ := result
  cases outcome with
  | wait duration state => exact Or.inl rfl
  | finished | cancelled => exact Or.inl (world_endTask _ id)
  | failed failure => exact Or.inr ⟨failure, world_endTask _ id⟩

/-- A turn of a task that touches the host's state is one in which its job starts, goes on or is
told of its cancellation.
-/
theorem world_runTask_cases (host : Host ω κ σ μ ι) {m : Manager ω κ σ μ ι} {id : Nat}
    {task : Task κ σ ι} (found : m.tasks[id]? = some task)
    : (m.runTask host id).world = m.world
      ∨ ∃ result : ω × Outcome σ,
          ((m.runTask host id).world = result.1
            ∨ ∃ failure, (m.runTask host id).world = host.report m.now failure result.1)
          ∧ ((∃ job, task.stage = .delayed job ∧ result = host.start m.now job m.world)
            ∨ (∃ state, result = host.interrupt m.now state m.world)
            ∨ ∃ state,
                task.stage = .running state
                ∧ task.interrupted = false
                ∧ result = host.resume m.now state m.world) := by
  simp only [runTask, found]
  split
  · split
    · exact Or.inl (world_endTask m id)
    · exact Or.inl rfl
  next job stage =>
    split
    · exact Or.inl (world_endTask m id)
    · exact Or.inr ⟨_, world_afterTurn_cases host m id _, Or.inl ⟨job, stage, rfl⟩⟩
  next state stage =>
    split
    · exact Or.inr ⟨_, world_afterTurn_cases host _ id _, Or.inr (Or.inl ⟨state, rfl⟩)⟩
    next calm =>
      exact Or.inr ⟨_, world_afterTurn_cases host m id _,
        Or.inr (Or.inr ⟨state, stage, by simpa using calm, rfl⟩)⟩
  · exact Or.inl rfl

end Manager

namespace Host

variable {host : Host ω κ σ μ ι} {fits : σ → Prop} {holds : ω → Prop}

/-- Doing what a step asks for keeps what steps keep. -/
theorem StepsKeep.complete (keeps : host.StepsKeep holds) {m : Manager ω κ σ μ ι}
    (before : holds m.world) (step : ι) (request : Request κ)
    : holds (m.complete host step request).world := by
  exact keeps.finish _ step _ (by simpa using before)

/-- A handler that has started keeps what steps keep, by induction over the steps that it has to
take.
-/
theorem StepsKeep.proceed (keeps : host.StepsKeep holds) {m : Manager ω κ σ μ ι}
    (before : holds m.world) (steps : List ι)
    : holds (m.proceed host steps).world := by
  fun_induction Manager.proceed host m steps with
  | case1 m => exact before
  | case2 m step later world refused =>
      simpa [refused] using keeps.request m.now step m.world before
  | case3 m step later world request asked =>
      simpa [asked] using keeps.request m.now step m.world before
  | case4 m step later world request asked =>
      simpa [asked] using keeps.request m.now step m.world before
  | case5 m step later world request asked given _ _ ih =>
      have after : holds given.world := by
        simpa [asked] using keeps.request m.now step m.world before
      exact ih (keeps.complete (m := { given with held := true }) after step request)

/-- A handler that is handed the lock keeps what steps keep. -/
theorem StepsKeep.grant (keeps : host.StepsKeep holds) {m : Manager ω κ σ μ ι}
    (before : holds m.world) (pending : Pending κ ι)
    : holds (m.grant host pending).world := by
  unfold Manager.grant
  split
  · exact before
  · exact keeps.proceed (keeps.complete before _ _) _

/-- What follows from a turn of a job keeps what jobs keep. -/
theorem JobsKeep.afterTurn (keeps : host.JobsKeep fits holds) (m : Manager ω κ σ μ ι) (id : Nat)
    {result : ω × Outcome σ} (after : holds result.1)
    : holds (m.afterTurn host id result).world := by
  obtain ⟨world, outcome⟩ := result
  cases outcome with
  | wait duration state => exact after
  | finished => simpa [Manager.afterTurn] using after
  | failed failure => simpa [Manager.afterTurn] using keeps.report _ failure world after
  | cancelled => simpa [Manager.afterTurn] using after

/-- A turn of a task whose state fits keeps what jobs keep. -/
theorem JobsKeep.runTask (keeps : host.JobsKeep fits holds) {m : Manager ω κ σ μ ι}
    (before : holds m.world) {id : Nat}
    (fit
      : ∀ {task : Task κ σ ι} {state : σ},
          m.tasks[id]? = some task → task.stage = .running state → fits state)
    : holds (m.runTask host id).world := by
  unfold Manager.runTask
  split
  · exact before
  next task found =>
    split
    · split
      · simpa using before
      · exact before
    · split
      · simpa using before
      · exact keeps.afterTurn m id (keeps.start _ _ _ before)
    next state stage =>
      split
      · exact keeps.afterTurn _ id (keeps.interrupt _ _ _ (fit found stage) before)
      · exact keeps.afterTurn m id (keeps.resume _ _ _ (fit found stage) before)
    · exact before

namespace Keeps

/-- A turn that is not one of a task keeps what handlers keep, whatever jobs do. -/
theorem take_other (keeps : host.Keeps fits holds) {m : Manager ω κ σ μ ι} (before : holds m.world)
    {turn : Turn κ μ ι} (other : ∀ id, turn ≠ .task id)
    : holds (m.take host turn).world := by
  cases turn with
  | task id => exact (other id rfl).elim
  | handler message => exact keeps.proceed (keeps.begin _ message _ before) _
  | locked pending => exact keeps.grant before pending
  | cleared pending => exact keeps.proceed (keeps.complete before _ _) _

/-- Any turn keeps what the host keeps, by whether it is one of a task. -/
theorem take (keeps : host.Keeps fits holds) {m : Manager ω κ σ μ ι} (before : holds m.world)
    (states : m.RunsIn fits) (turn : Turn κ μ ι)
    : holds (m.take host turn).world := by
  by_cases task : ∃ id, turn = .task id
  · obtain ⟨id, rfl⟩ := task
    exact keeps.runTask before fun found stage => states found stage
  · exact keeps.take_other before fun id same => task ⟨id, same⟩

/-- The next turn keeps what the host keeps. -/
theorem step? (keeps : host.Keeps fits holds) {m next : Manager ω κ σ μ ι} {limit : Time}
    (before : holds m.world) (states : m.RunsIn fits) (stepped : m.step? host limit = some next)
    : holds next.world := by
  obtain ⟨⟨turn, agenda⟩, _, rfl⟩ := Option.map_eq_some_iff.mp stepped
  exact keeps.take (m := { m with agenda }) before states turn

end Keeps

end Host

end EditorLint.Debounce
