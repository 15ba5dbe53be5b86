import EditorLint.Proofs.Debounce.Coherence.Turn
import EditorLint.Proofs.Debounce.Worlds

/-! The bound on the turns that lie ahead is a true bound: every turn lowers it. So a debouncer
that is let run comes to a state in which nothing is left to do before the clock moves on.
-/

namespace EditorLint.Debounce

variable {ω κ σ μ ι : Type} {host : Host ω κ σ μ ι} {falling : σ → Prop}

/-- The bounds that a host gives for its jobs and handlers hold. -/
structure Host.Bounded (host : Host ω κ σ μ ι) : Prop where
  start
    : ∀ {now job world duration state},
        (host.start now job world).2 = .wait duration state
        → host.turnsLeft state < host.jobTurns
  resume
    : ∀ {now state world duration next},
        (host.resume now state world).2 = .wait duration next
        → host.turnsLeft next < host.turnsLeft state
  interrupt
    : ∀ {now state world duration next},
        (host.interrupt now state world).2 = .wait duration next
        → host.turnsLeft next < host.turnsLeft state
  begin : ∀ now message world, (host.begin now message world).2.length ≤ host.steps world
  steps : ∀ bound, host.Keeps (fun _ => True) fun world => host.steps world = bound

-----------------------------------------------------------------------------------------
-- What each operation adds to the turns ahead
-----------------------------------------------------------------------------------------

/-- The turns of a task that lie ahead, with those of whoever waits for its end. -/
def Task.burden (host : Host ω κ σ μ ι) (task : Task κ σ ι) : Nat :=
  task.turnsLeft host + (task.waiter.map (·.turnsCleared host)).getD 0

/-- The turns of one more step. -/
theorem stepTurns_succ (host : Host ω κ σ μ ι) (steps : Nat)
    : stepTurns host (steps + 1) = stepTurns host steps + (host.jobTurns + 5) := by
  simp [stepTurns, Nat.add_mul]

/-- More steps take no fewer turns. -/
theorem stepTurns_le (host : Host ω κ σ μ ι) {few many : Nat} (more : few ≤ many)
    : stepTurns host few ≤ stepTurns host many :=
  Nat.mul_le_mul_right _ more

/-- A turn depends on the host's state only by the number of steps that a handler may have. -/
theorem Turn.turnsLeft_congr {world other : ω} (same : host.steps world = host.steps other)
    : (Turn.turnsLeft host world : Turn κ μ ι → Nat) = Turn.turnsLeft host other := by
  funext turn
  cases turn <;> simp [Turn.turnsLeft, same]

namespace Manager

/-- The turns ahead are those of the tasks, of the ready handlers and of those in the queue. -/
theorem turnsLeft_eq (m : Manager ω κ σ μ ι)
    : m.turnsLeft host
      = total (Task.burden host) m.tasks
        + total (Turn.turnsLeft host m.world) m.agenda.ready
        + total (·.turnsLocked host) m.queue :=
  rfl

/-- A host's state that allows as many steps of a handler changes nothing. -/
theorem turnsLeft_withWorld (m : Manager ω κ σ μ ι) {world : ω}
    (same : host.steps world = host.steps m.world)
    : ({ m with world } : Manager ω κ σ μ ι).turnsLeft host = m.turnsLeft host := by
  simp only [turnsLeft_eq, Turn.turnsLeft_congr same]

/-- A changed task counts as it is now, and all others as before. -/
theorem total_setTask {m : Manager ω κ σ μ ι} {id : Nat} {task : Task κ σ ι}
    (found : m.tasks[id]? = some task) (f : Task κ σ ι → Task κ σ ι) (measure : Task κ σ ι → Nat)
    : total measure (m.setTask id f).tasks + measure task
      = total measure m.tasks + measure (f task) := by
  obtain ⟨before, after, old, new⟩ := setTask_split found f
  simp only [old, new, total_append, total]
  omega

/-- A turn of a task that begins to wait, or whose wait ends, is counted with the task. -/
theorem total_ready_wait (host : Host ω κ σ μ ι) (agenda : Agenda (Turn κ μ ι)) (world : ω)
    (duration : Time) (id : Nat)
    : total (Turn.turnsLeft host world) (agenda.wait duration (.task id)).ready
      = total (Turn.turnsLeft host world) agenda.ready := by
  unfold Agenda.wait
  split <;> simp [Agenda.post, total_append, total, Turn.turnsLeft]

/-- Giving up the lock changes nothing: who is handed it moves from the queue to the agenda. -/
theorem turnsLeft_release (m : Manager ω κ σ μ ι)
    : m.release.turnsLeft host = m.turnsLeft host := by
  unfold release
  split
  · rfl
  next first rest waiting =>
    simp only [turnsLeft_eq, Agenda.post, total_append, total, Turn.turnsLeft, waiting]
    omega

/-- Doing what a step asks for adds at most the turns of one new task. -/
theorem turnsLeft_complete (bounded : host.Bounded) (m : Manager ω κ σ μ ι) (step : ι)
    (request : Request κ)
    : (m.complete host step request).turnsLeft host ≤ m.turnsLeft host + (host.jobTurns + 2) := by
  have same : host.steps (host.finish (m.carryOut request).release.now step
      (m.carryOut request).release.world) = host.steps (m.carryOut request).release.world := by
    exact (bounded.steps _).finish _ step _ rfl
  have carried : (m.carryOut request).turnsLeft host ≤ m.turnsLeft host + (host.jobTurns + 2) := by
    cases request with
    | cancel uri => exact Nat.le_add_right _ _
    | schedule uri job delay =>
        simp only [turnsLeft_eq, carryOut, Agenda.post, total_append, total, Turn.turnsLeft,
          Task.burden, Task.turnsLeft, Option.map_none, Option.getD_none]
        omega
  calc (m.complete host step request).turnsLeft host
    _ = (m.carryOut request).release.turnsLeft host := turnsLeft_withWorld _ same
    _ = (m.carryOut request).turnsLeft host := turnsLeft_release _
    _ ≤ m.turnsLeft host + (host.jobTurns + 2) := carried

/-- Whoever begins to wait for the end of a task counts with that task. -/
theorem turnsLeft_tearDown (host : Host ω κ σ μ ι) (m : Manager ω κ σ μ ι) {uri : String}
    {id : Nat} (unfinished : m.unfinished? uri = some id) (pending : Pending κ ι)
    : (m.tearDown id pending).turnsLeft host ≤ m.turnsLeft host + pending.turnsCleared host := by
  obtain ⟨task, found, _⟩ :=
    hasEnded_eq_false_iff.mp (unfinished?_eq_some_iff.mp unfinished).2
  have counted := total_setTask found (Task.doomed pending) (Task.burden host)
  have burden : (task.doomed pending).burden host
      = task.turnsLeft host + pending.turnsCleared host := rfl
  have ready : total (Turn.turnsLeft host m.world)
        (m.agenda.hasten (Turn.isOf id) (.task id)).ready
      = total (Turn.turnsLeft host m.world) m.agenda.ready := by
    unfold Agenda.hasten
    split <;> simp [total_append, total, Turn.turnsLeft]
  have parts : (m.tearDown id pending).turnsLeft host
      = total (Task.burden host) (m.setTask id (Task.doomed pending)).tasks
        + total (Turn.turnsLeft host m.world) (m.agenda.hasten (Turn.isOf id) (.task id)).ready
        + total (·.turnsLocked host) m.queue := rfl
  rw [parts, ready, turnsLeft_eq]
  simp only [burden] at counted
  simp only [Task.burden] at counted ⊢
  omega

/-- A handler adds at most the turns of its steps and two more, by induction over the steps. -/
theorem turnsLeft_proceed (bounded : host.Bounded) (m : Manager ω κ σ μ ι) (steps : List ι)
    : (m.proceed host steps).turnsLeft host
      ≤ m.turnsLeft host + (stepTurns host steps.length + 2) := by
  have asking (m : Manager ω κ σ μ ι) {step : ι} {world : ω} {asked : Option (Request κ)}
      (result : host.request m.now step m.world = (world, asked))
      : host.steps world = host.steps m.world := by
    have kept := (bounded.steps _).request m.now step m.world rfl
    rwa [result] at kept
  fun_induction Manager.proceed host m steps with
  | case1 m => exact Nat.le_add_right _ _
  | case2 m step later world refused =>
      rw [turnsLeft_withWorld m (asking m refused)]
      exact Nat.le_add_right _ _
  | case3 m step later world request asked given held =>
      have same := turnsLeft_withWorld m (asking m asked)
      simp only [turnsLeft_eq, given, total_append, total, Pending.turnsLocked,
        Pending.turnsCleared, List.length_cons] at same ⊢
      omega
  | case4 m step later world request asked given held id unfinished =>
      have same := turnsLeft_withWorld m (asking m asked)
      have cleared
          : (({ given with held := true } : Manager ω κ σ μ ι).tearDown id
              ⟨step, request, later⟩).turnsLeft host
            ≤ ({ given with held := true } : Manager ω κ σ μ ι).turnsLeft host
              + (⟨step, request, later⟩ : Pending κ ι).turnsCleared host :=
        turnsLeft_tearDown host _ unfinished _
      have kept : ({ given with held := true } : Manager ω κ σ μ ι).turnsLeft host
        = given.turnsLeft host := rfl
      simp only [Pending.turnsCleared, kept, List.length_cons] at cleared ⊢
      simp only [given] at cleared ⊢
      omega
  | case5 m step later world request asked given held cleared ih =>
      have same := turnsLeft_withWorld m (asking m asked)
      have done := turnsLeft_complete bounded { given with held := true } step request
      have kept : ({ given with held := true } : Manager ω κ σ μ ι).turnsLeft host
        = given.turnsLeft host := rfl
      rw [kept] at done
      have more := stepTurns_succ host later.length
      simp only [List.length_cons]
      simp only [given] at done ih ⊢
      omega

-----------------------------------------------------------------------------------------
-- Every turn lowers the bound
-----------------------------------------------------------------------------------------

/-- The end of a task takes the turns of that task away, and hands on those of who waits for it. -/
theorem turnsLeft_endTask (host : Host ω κ σ μ ι) {m : Manager ω κ σ μ ι} {id : Nat}
    {task : Task κ σ ι} (found : m.tasks[id]? = some task)
    : (m.endTask id).turnsLeft host + task.turnsLeft host = m.turnsLeft host := by
  have counted := total_setTask found Task.spent (Task.burden host)
  have burden : task.spent.burden host = 0 := rfl
  have changed : (m.setTask id Task.spent).turnsLeft host
      = total (Task.burden host) (m.setTask id Task.spent).tasks
        + total (Turn.turnsLeft host m.world) m.agenda.ready
        + total (·.turnsLocked host) m.queue := rfl
  cases waits : task.waiter with
  | none =>
      rw [endTask_of_unawaited (by simp [found, waits])]
      simp only [Task.burden, waits, Option.map_none, Option.getD_none] at burden counted
      simp only [changed, turnsLeft_eq] at counted ⊢
      omega
  | some pending =>
      have posted : ((m.setTask id Task.spent).post (.cleared pending)).turnsLeft host
          = (m.setTask id Task.spent).turnsLeft host + pending.turnsCleared host := by
        simp only [turnsLeft_eq, Manager.post, Agenda.post, total_append, total, Turn.turnsLeft]
        omega
      rw [endTask_of_awaited found waits, posted, changed, turnsLeft_eq]
      simp only [burden] at counted
      simp only [Task.burden, waits, Option.map_some, Option.getD_some] at counted ⊢
      omega

/-- A task that begins to wait counts as it is then. -/
theorem turnsLeft_wait (host : Host ω κ σ μ ι) {m : Manager ω κ σ μ ι} {id : Nat}
    {task : Task κ σ ι} (found : m.tasks[id]? = some task) {f : Task κ σ ι → Task κ σ ι}
    (keepsWaiter : (f task).waiter = task.waiter) (duration : Time)
    : ({ m.setTask id f with
        agenda := m.agenda.wait duration (.task id) } : Manager ω κ σ μ ι).turnsLeft host
        + task.turnsLeft host
      = m.turnsLeft host + (f task).turnsLeft host := by
  have counted := total_setTask found f (Task.burden host)
  have ready := total_ready_wait host m.agenda m.world duration id
  simp only [Task.burden, keepsWaiter] at counted
  simp only [turnsLeft_eq]
  change total _ (m.setTask id f).tasks + total (Turn.turnsLeft host m.world)
    (m.agenda.wait duration (.task id)).ready + total _ m.queue + _ = _
  rw [ready]
  omega

/-- What follows from a turn of a job leaves fewer turns, if the job has fewer ahead of it. -/
theorem turnsLeft_afterTurn (bounded : host.Bounded) {m : Manager ω κ σ μ ι} {id : Nat}
    {task : Task κ σ ι} {result : ω × Outcome σ}
    (found : m.tasks[id]? = some task) (some : 0 < task.turnsLeft host)
    (same : host.steps result.1 = host.steps m.world)
    (fewer
      : ∀ duration state,
          result.2 = .wait duration state → host.turnsLeft state + 1 < task.turnsLeft host)
    : (m.afterTurn host id result).turnsLeft host < m.turnsLeft host := by
  have spent {world : ω} (same : host.steps world = host.steps m.world)
      : (({ m with world } : Manager ω κ σ μ ι).endTask id).turnsLeft host < m.turnsLeft host := by
    have ended := turnsLeft_endTask host (m := { m with world }) found
    have kept := turnsLeft_withWorld m same
    omega
  obtain ⟨world, outcome⟩ := result
  cases outcome with
  | finished => exact spent same
  | cancelled => exact spent same
  | failed failure => exact spent (((bounded.steps _).report m.now failure world rfl).trans same)
  | wait duration state =>
      have waits
          : (m.afterTurn host id (world, .wait duration state)).turnsLeft host
              + task.turnsLeft host
            = ({ m with world } : Manager ω κ σ μ ι).turnsLeft host
              + (host.turnsLeft state + 1) :=
        turnsLeft_wait host (m := { m with world }) found
          (f := fun task => { task with stage := .running state }) rfl duration
      have kept : ({ m with world } : Manager ω κ σ μ ι).turnsLeft host = m.turnsLeft host :=
        turnsLeft_withWorld m same
      have left := fewer duration state rfl
      omega

/-- A turn of a task that has not ended lowers the bound, by the stage of the task. -/
theorem turnsLeft_runTask (bounded : host.Bounded) {m : Manager ω κ σ μ ι} {id : Nat}
    (unfinished : m.hasEnded id = false)
    : (m.runTask host id).turnsLeft host < m.turnsLeft host := by
  obtain ⟨task, found, going⟩ := hasEnded_eq_false_iff.mp unfinished
  have left : 0 < task.turnsLeft host := by
    cases stage : task.stage <;> simp [Task.turnsLeft, stage] at going ⊢
  have ends := turnsLeft_endTask host found
  unfold runTask
  rw [found]
  dsimp only
  split
  next job delay stage =>
    split
    · omega
    · have waits := turnsLeft_wait host found
        (f := fun task => { task with stage := .delayed job }) rfl delay
      simp only [Task.turnsLeft, stage] at waits
      omega
  next job stage =>
    split
    · omega
    · apply turnsLeft_afterTurn bounded found left
      · exact (bounded.steps _).start m.now job m.world rfl
      · intro duration state waits
        have fewer := bounded.start waits
        simp only [Task.turnsLeft, stage]
        omega
  next state stage =>
    split
    · have told : (m.setTask id fun task => { task with interrupted := false }).turnsLeft host
          = m.turnsLeft host := by
        have counted := total_setTask found (fun task => { task with interrupted := false })
          (Task.burden host)
        exact congrArg (· + _ + _) (Nat.add_right_cancel counted)
      rw [← told]
      refine turnsLeft_afterTurn bounded (getElem?_setTask.mpr ⟨task, found, rfl⟩) ?_ ?_ ?_
      · simpa [Task.turnsLeft] using left
      · exact (bounded.steps _).interrupt m.now state m.world trivial rfl
      · intro duration next waits
        have fewer := bounded.interrupt waits
        simp only [Task.turnsLeft, stage, if_true]
        omega
    · apply turnsLeft_afterTurn bounded found left
      · exact (bounded.steps _).resume m.now state m.world trivial rfl
      · intro duration next waits
        have fewer := bounded.resume waits
        simp only [Task.turnsLeft, stage]
        omega
  next spent => exact (going spent).elim

/-- Taking the next turn off the agenda takes the turns that it leads to. When the clock moves,
only tasks become ready, which count for themselves.
-/
theorem turnsLeft_next {m : Manager ω κ σ μ ι} (coherent : Coherent falling .free m)
    {limit : Time} {turn : Turn κ μ ι} {agenda : Agenda (Turn κ μ ι)}
    (next : m.agenda.next? limit = some (turn, agenda))
    : ({ m with agenda } : Manager ω κ σ μ ι).turnsLeft host + turn.turnsLeft host m.world
      = m.turnsLeft host := by
  simp only [turnsLeft_eq]
  rcases Agenda.next?_cases next with ⟨ready, _⟩ | ⟨ready, _, timed, _, due, _⟩
  · rw [ready, total]
    omega
  · have own {other : Turn κ μ ι} {now : Time} (member : ⟨now, other⟩ ∈ m.agenda.timers)
        : other.turnsLeft host m.world = 0 := by
      obtain ⟨id, isTask⟩ := coherent.timed _ member
      rw [show other = .task id from isTask]
      rfl
    have none : ∀ turns : List (Turn κ μ ι),
        (∀ other ∈ turns, ⟨agenda.now, other⟩ ∈ m.agenda.timers)
        → total (Turn.turnsLeft host m.world) turns = 0 := by
      intro turns
      induction turns with
      | nil => exact fun _ => rfl
      | cons first rest ih =>
          intro timers
          rw [total, own (timers first List.mem_cons_self),
            ih fun other member => timers other (List.mem_cons_of_mem first member)]
    rw [ready, own timed, none agenda.ready due]
    rfl

/-- Every turn lowers the bound, by the kind of the turn. -/
theorem turnsLeft_step? (bounded : host.Bounded) {m after : Manager ω κ σ μ ι} {limit : Time}
    (coherent : Coherent falling .free m) (stepped : m.step? host limit = some after)
    : after.turnsLeft host < m.turnsLeft host := by
  obtain ⟨⟨turn, agenda⟩, next, rfl⟩ := Option.map_eq_some_iff.mp stepped
  rw [← turnsLeft_next coherent next]
  have completed (pending : Pending κ ι)
      : ((({ m with agenda } : Manager ω κ σ μ ι).complete host pending.step
          pending.request).proceed host pending.later).turnsLeft host
        < ({ m with agenda } : Manager ω κ σ μ ι).turnsLeft host + pending.turnsCleared host := by
    have done := turnsLeft_complete bounded { m with agenda } pending.step pending.request
    have gone := turnsLeft_proceed bounded
      (({ m with agenda } : Manager ω κ σ μ ι).complete host pending.step pending.request)
      pending.later
    simp only [Pending.turnsCleared, stepTurns_succ]
    omega
  cases turn with
  | task id =>
      have unfinished := hasEnded_eq_false_iff.mpr (coherent.next next).inHand
      exact Nat.lt_of_lt_of_le (turnsLeft_runTask bounded unfinished) (Nat.le_add_right _ _)
  | cleared pending => exact completed pending
  | locked pending =>
      have waits := Nat.lt_succ_of_lt (completed pending)
      simp only [take, grant, Turn.turnsLeft, Pending.turnsLocked]
      split
      next id unfinished =>
        have torn := turnsLeft_tearDown host _ unfinished pending
        omega
      next => exact waits
  | handler message =>
      have same : host.steps (host.begin agenda.now message m.world).1 = host.steps m.world :=
        (bounded.steps _).begin agenda.now message m.world rfl
      have started
          : ({ m with agenda, world := (host.begin agenda.now message m.world).1 }
              : Manager ω κ σ μ ι).turnsLeft host
            = ({ m with agenda } : Manager ω κ σ μ ι).turnsLeft host :=
        turnsLeft_withWorld { m with agenda } same
      have gone := turnsLeft_proceed bounded
        { m with agenda, world := (host.begin agenda.now message m.world).1 }
        (host.begin agenda.now message m.world).2
      have few := stepTurns_le host (bounded.begin agenda.now message m.world)
      simp only [take, Turn.turnsLeft]
      change (proceed host { m with agenda, world := (host.begin agenda.now message m.world).1 }
        (host.begin agenda.now message m.world).2).turnsLeft host < _
      omega

-----------------------------------------------------------------------------------------
-- Running until only the clock can move on
-----------------------------------------------------------------------------------------

/-- With as much fuel as there are turns ahead, a run ends where nothing is left to do, by
induction over the fuel.
-/
theorem quietAt_runFor (bounded : host.Bounded) (prompt : host.Prompt falling) (limit : Time)
    (fuel : Nat) {m : Manager ω κ σ μ ι} (coherent : Coherent falling .free m)
    (enough : m.turnsLeft host ≤ fuel)
    : (m.runFor host limit fuel).agenda.QuietAt limit := by
  induction fuel generalizing m with
  | zero =>
      cases stepped : m.step? host limit with
      | none => exact Option.map_eq_none_iff.mp stepped
      | some after =>
          have fewer := turnsLeft_step? bounded coherent stepped
          omega
  | succ fuel ih =>
      rw [runFor]
      cases stepped : m.step? host limit with
      | none => exact Option.map_eq_none_iff.mp stepped
      | some after =>
          have fewer := turnsLeft_step? bounded coherent stepped
          exact ih (coherent.step? prompt stepped) (by omega)

/-- A debouncer that is let run comes to where nothing is left to do before the limit. -/
theorem quietAt_runUntil (bounded : host.Bounded) (prompt : host.Prompt falling) (limit : Time)
    {m : Manager ω κ σ μ ι} (coherent : Coherent falling .free m)
    : (m.runUntil host limit).agenda.QuietAt limit :=
  quietAt_runFor bounded prompt limit _ coherent Nat.le.refl

end Manager

end EditorLint.Debounce
