import EditorLint.Proofs.Debounce.Clock
import EditorLint.Proofs.Debounce.Waiting

/-! How long the debouncer can be at work when no one asks it for more. Each task is allowed the
time that its job may still take, and whoever waits for something the time of a whole job; no
turn needs more than that, so nothing is left to do when the time has passed.
-/

namespace EditorLint.Debounce

variable {ω κ σ μ ι : Type}

/-- The times that are allowed for jobs. -/
structure Pace (σ : Type) where
  /-- How long a job may rest before it starts. -/
  rest : Time
  /-- How long a job may take from its start on. -/
  work : Time
  /-- How long a started job may still take. -/
  left : σ → Time

/-- The time of a whole job. -/
def Pace.whole (pace : Pace σ) : Time :=
  pace.rest + pace.work

/-- A host keeps to a pace in all of its states in which something holds, and that it keeps. -/
structure Host.Paced (host : Host ω κ σ μ ι) (pace : Pace σ) (holds : ω → Prop) : Prop where
  keeps : host.Keeps (fun _ => True) holds
  start
    : ∀ {now job world duration state},
        holds world
        → (host.start now job world).2 = .wait duration state
        → duration + pace.left state ≤ pace.work
  resume
    : ∀ {now state world duration next},
        holds world
        → (host.resume now state world).2 = .wait duration next
        → duration + pace.left next ≤ pace.left state
  interrupt
    : ∀ {now state world duration next},
        holds world
        → (host.interrupt now state world).2 = .wait duration next
        → duration + pace.left next ≤ pace.left state
  request
    : ∀ {now step world uri job delay},
        holds world
        → (host.request now step world).2 = some (.schedule uri job delay)
        → delay ≤ pace.rest

/-- The time that a stage may still take. -/
def Stage.need (pace : Pace σ) : Stage κ σ → Time
  | .created _ delay => delay + pace.work
  | .delayed _ => pace.work
  | .running state => pace.left state
  | .ended => 0

/-- The time that a task may still take, or whoever waits for its end after it. -/
def Task.need (pace : Pace σ) (task : Task κ σ ι) : Time :=
  match task.waiter with
  | some _ => pace.whole
  | none => task.stage.need pace

namespace Manager

/-- The time that is allowed from a turn on. -/
def need (pace : Pace σ) (m : Manager ω κ σ μ ι) : Turn κ μ ι → Time
  | .task id => (m.tasks[id]?.map (·.need pace)).getD pace.whole
  | _ => pace.whole

/-- Nothing is left to do at an instant if no one asks for more. -/
structure Within (pace : Pace σ) (bound : Time) (m : Manager ω κ σ μ ι) : Prop where
  ready : ∀ turn ∈ m.agenda.ready, m.now + m.need pace turn ≤ bound
  timers : ∀ timer ∈ m.agenda.timers, timer.due + m.need pace timer.turn ≤ bound
  queue : m.queue ≠ [] → m.now + pace.whole ≤ bound

variable {host : Host ω κ σ μ ι} {falling : σ → Prop} {pace : Pace σ} {bound : Time}
  {m : Manager ω κ σ μ ι} {holds : ω → Prop}

theorem need_task {id : Nat} {task : Task κ σ ι} (found : m.tasks[id]? = some task)
    : m.need pace (.task id) = task.need pace := by
  simp [need, found]

/-- The time that is allowed depends on the tasks alone. -/
theorem need_congr {after : Manager ω κ σ μ ι} (tasks : after.tasks = m.tasks)
    (turn : Turn κ μ ι)
    : after.need pace turn = m.need pace turn := by
  cases turn with
  | task id => simp only [need, tasks]
  | handler | locked | cleared => rfl

/-- A task that someone waits for is allowed the time of a whole job. -/
theorem need_awaited {task : Task κ σ ι} (awaited : task.waiter.isSome)
    : task.need pace = pace.whole := by
  obtain ⟨pending, waits⟩ := Option.isSome_iff_exists.mp awaited
  simp [Task.need, waits]

namespace Within

/-- A later bound is a bound. -/
theorem mono (within : Within pace bound m) {later : Time} (more : bound ≤ later)
    : Within pace later m where
  ready turn here := Nat.le_trans (within.ready turn here) more
  timers timer here := Nat.le_trans (within.timers timer here) more
  queue waiting := Nat.le_trans (within.queue waiting) more

/-- Where tasks need no more than before, the bound stays. -/
theorem of_need_le {after : Manager ω κ σ μ ι} (within : Within pace bound m)
    (agenda : after.agenda = m.agenda)
    (queue : after.queue ≠ [] → m.now + pace.whole ≤ bound)
    (less : ∀ turn, after.need pace turn ≤ m.need pace turn)
    : Within pace bound after where
  ready turn here := by
    rw [agenda] at here
    rw [now, agenda]
    exact Nat.le_trans (Nat.add_le_add_left (less turn) _) (within.ready turn here)
  timers timer here := by
    rw [agenda] at here
    exact Nat.le_trans (Nat.add_le_add_left (less timer.turn) _) (within.timers timer here)
  queue waiting := by
    rw [now, agenda]
    exact queue waiting

/-- Where the turns and the tasks are the same as before, the bound stays. -/
theorem congr {after : Manager ω κ σ μ ι} (within : Within pace bound m)
    (agenda : after.agenda = m.agenda) (tasks : after.tasks = m.tasks)
    (queue : after.queue ≠ [] → m.now + pace.whole ≤ bound)
    : Within pace bound after :=
  within.of_need_le agenda queue fun turn => Nat.le_of_eq (need_congr tasks turn)

theorem withWorld (within : Within pace bound m) (world : ω) : Within pace bound { m with world } :=
  within.congr rfl rfl within.queue

/-- A turn that becomes ready must have the time that it needs. -/
theorem post (within : Within pace bound m) (turn : Turn κ μ ι)
    (enough : m.now + m.need pace turn ≤ bound)
    : Within pace bound (m.post turn) where
  ready other here := by
    rcases List.mem_append.mp here with old | new
    · cases other <;> exact within.ready _ old
    · obtain rfl := List.mem_singleton.mp new
      cases other <;> exact enough
  timers timer here := by
    obtain ⟨due, other⟩ := timer
    cases other <;> exact within.timers _ here
  queue := within.queue

/-- A task that begins to wait must have the time that it needs after its wait. -/
theorem wait (within : Within pace bound m) {duration : Time} {id : Nat}
    (enough : m.now + duration + m.need pace (.task id) ≤ bound)
    : Within pace bound { m with agenda := m.agenda.wait duration (.task id) } := by
  have same : (m.agenda.wait duration (.task id)).now = m.agenda.now :=
    (agendaKeeps_now m.agenda.now).wait m.agenda duration id rfl
  have need (turn : Turn κ μ ι)
      : ({ m with agenda := m.agenda.wait duration (.task id) } : Manager ω κ σ μ ι).need pace turn
        = m.need pace turn := by
    cases turn <;> rfl
  exact {
    ready := by
      intro turn here
      rw [need, now, same]
      rcases Agenda.mem_ready_wait.mp here with old | ⟨rfl, rfl⟩
      · exact within.ready turn old
      · exact enough
    timers := by
      intro timer here
      rw [need]
      rcases Agenda.mem_timers_wait here with rfl | old
      · exact enough
      · exact within.timers timer old
    queue := by
      intro waiting
      rw [now, same]
      exact within.queue waiting
  }

/-- A change of a task that leaves it no more to do keeps the bound. -/
theorem setTask (within : Within pace bound m) {id : Nat} {f : Task κ σ ι → Task κ σ ι}
    (less : ∀ task, m.tasks[id]? = some task → (f task).need pace ≤ task.need pace)
    : Within pace bound (m.setTask id f) := by
  refine within.of_need_le rfl within.queue fun turn => ?_
  cases turn with
  | handler | locked | cleared => exact Nat.le_refl _
  | task other =>
      cases before : m.tasks[other]? with
      | none =>
          have absent : (m.setTask id f).tasks[other]? = none := by
            simp [Manager.setTask, List.getElem?_modify, before]
          simp [Manager.need, before, absent]
      | some task =>
          rw [need_task before, need_task (getElem?_setTask.mpr ⟨task, before, rfl⟩)]
          split
          next same => exact less task (same ▸ before)
          next => exact Nat.le_refl _

/-- Whoever waits for the end of a task is allowed the time of a whole job. -/
theorem tearDown (within : Within pace bound m) (enough : m.now + pace.whole ≤ bound) (id : Nat)
    (pending : Pending κ ι)
    : Within pace bound (m.tearDown id pending) := by
  have same : (m.tearDown id pending).now = m.now :=
    (agendaKeeps_now m.agenda.now).hasten m.agenda id rfl
  have other {turn : Turn κ μ ι} (apart : turn ≠ .task id)
      : (m.tearDown id pending).need pace turn = m.need pace turn := by
    cases turn with
    | handler | locked | cleared => rfl
    | task place =>
        have apart : id ≠ place := fun same => apart (same ▸ rfl)
        have kept : (m.tearDown id pending).tasks[place]? = m.tasks[place]? :=
          List.getElem?_modify_ne _ _ apart
        simp [Manager.need, kept]
  have own : (m.tearDown id pending).need pace (.task id) ≤ pace.whole := by
    cases before : m.tasks[id]? with
    | none =>
        have absent : (m.tearDown id pending).tasks[id]? = none := by
          simp [Manager.tearDown, Manager.setTask, before]
        simp [Manager.need, absent]
    | some task =>
        have found : (m.tearDown id pending).tasks[id]? = some (task.doomed pending) :=
          getElem?_setTask.mpr ⟨task, before, (if_pos rfl).symm⟩
        rw [need_task found, need_awaited rfl]
  exact {
    ready := by
      intro turn here
      rw [same]
      by_cases mine : turn = .task id
      · exact mine ▸ Nat.le_trans (Nat.add_le_add_left own _) enough
      · rw [other mine]
        exact within.ready turn ((Agenda.mem_ready_of_hasten here).resolve_right mine)
    timers := by
      intro timer here
      have apart : timer.turn ≠ .task id := by
        intro mine
        change timer ∈ (m.agenda.hasten (Turn.isOf id) (.task id)).timers at here
        unfold Agenda.hasten at here
        split at here
        · simp [mine, Turn.isOf] at here
        next nobody =>
          refine nobody (List.any_eq_true.mpr ⟨timer, here, ?_⟩)
          simp [mine, Turn.isOf]
      rw [other apart]
      exact within.timers timer ((Agenda.timers_hasten _ _ _).subset here)
    queue := fun _ => same ▸ enough
  }

/-- Whoever is handed the lock is allowed the time of a whole job. -/
theorem release (within : Within pace bound m) (enough : m.now + pace.whole ≤ bound)
    : Within pace bound m.release := by
  unfold Manager.release
  split
  · exact within.congr rfl rfl within.queue
  next first rest _ =>
    have shorter : Within pace bound { m with queue := rest } :=
      within.congr rfl rfl fun _ => enough
    exact shorter.post (.locked first) enough

/-- A step is taken in no time, and a task that it creates is allowed the time of a whole job. The
place of the new task had nothing in it, so its turns have been allowed that before.
-/
theorem carryOut (within : Within pace bound m) (enough : m.now + pace.whole ≤ bound)
    {request : Request κ}
    (short : ∀ uri job delay, request = .schedule uri job delay → delay ≤ pace.rest)
    : Within pace bound (m.carryOut request) := by
  cases request with
  | cancel uri =>
      exact within.congr rfl rfl within.queue
  | schedule uri job delay =>
      have allowed : delay + pace.work ≤ pace.whole :=
        Nat.add_le_add_right (short uri job delay rfl) pace.work
      have created : Within pace bound
          { m with
            tasks := m.tasks
              ++ [{ uri, stage := .created job delay, interrupted := false, waiter := none }]
            table := m.table.insert uri m.tasks.length } := by
        refine within.of_need_le rfl within.queue fun turn => ?_
        cases turn with
        | handler | locked | cleared => exact Nat.le_refl _
        | task id =>
            rcases Nat.lt_trichotomy id m.tasks.length with inside | rfl | outside
            · simp [Manager.need, List.getElem?_append_left inside]
            · simpa [Manager.need, Task.need, Stage.need] using allowed
            · simp [Manager.need, List.getElem?_append_right (Nat.le_of_lt outside),
                List.getElem?_eq_none (Nat.le_of_lt outside), Nat.sub_ne_zero_of_lt outside]
      refine created.post _ (Nat.le_trans (Nat.add_le_add_left ?_ _) enough)
      simpa [Manager.need, Task.need, Stage.need] using allowed

theorem complete (within : Within pace bound m) (host : Host ω κ σ μ ι)
    (enough : m.now + pace.whole ≤ bound) (step : ι) {request : Request κ}
    (short : ∀ uri job delay, request = .schedule uri job delay → delay ≤ pace.rest)
    : Within pace bound (m.complete host step request) := by
  have same : (m.carryOut request).now = m.now := by cases request <;> rfl
  exact ((within.carryOut enough short).release (same ▸ enough)).withWorld _

/-- A handler takes its steps in no time, by induction over them. -/
theorem proceed (within : Within pace bound m) (paced : host.Paced pace holds)
    (held : holds m.world) (enough : m.now + pace.whole ≤ bound) (steps : List ι)
    : Within pace bound (m.proceed host steps) := by
  fun_induction Manager.proceed host m steps with
  | case1 m => exact within
  | case2 m step later world _ => exact within.withWorld world
  | case3 m step later world request asked given _ =>
      exact (within.withWorld world).congr rfl rfl fun _ => enough
  | case4 m step later world request asked given free id unfinished =>
      have locked : Within pace bound { given with held := true } :=
        (within.withWorld world).congr rfl rfl within.queue
      exact locked.tearDown enough id _
  | case5 m step later world request asked given free cleared ih =>
      have locked : Within pace bound { given with held := true } :=
        (within.withWorld world).congr rfl rfl within.queue
      have after : holds given.world := by
        simpa [asked] using paced.keeps.request m.now step m.world held
      have same : ({ given with held := true }.complete host step request).now = m.now :=
        (agendaKeeps_now m.agenda.now).complete (m := { given with held := true }) rfl host step
          request
      refine ih (locked.complete host enough step ?_) ?_ (same ▸ enough)
      · intro uri job delay same
        subst same
        exact paced.request held (congrArg Prod.snd asked)
      · exact paced.keeps.complete (m := { given with held := true }) after step request

/-- A task that has ended needs no time, and whoever has waited for that has it all. -/
theorem endTask (within : Within pace bound m) {id : Nat} {task : Task κ σ ι}
    (found : m.tasks[id]? = some task) (enough : m.now + task.need pace ≤ bound)
    : Within pace bound (m.endTask id) := by
  have spent : Within pace bound (m.setTask id Task.spent) :=
    within.setTask fun _ _ => Nat.zero_le _
  cases waits : task.waiter with
  | none =>
      rw [endTask_of_unawaited (by simp [found, waits])]
      exact spent
  | some pending =>
      rw [need_awaited (by simp [waits])] at enough
      rw [endTask_of_awaited found waits]
      exact spent.post (.cleared pending) enough

/-- What follows from a turn of a job stays within the time allowed, if its wait does. -/
theorem afterTurn (within : Within pace bound m) {id : Nat} {task : Task κ σ ι}
    (found : m.tasks[id]? = some task) (enough : m.now + task.need pace ≤ bound)
    {result : ω × Outcome σ}
    (paced
      : ∀ duration state,
          result.2 = .wait duration state
          → duration + Task.need pace { task with stage := .running state } ≤ task.need pace)
    : Within pace bound (m.afterTurn host id result) := by
  obtain ⟨world, outcome⟩ := result
  cases outcome with
  | finished | cancelled => exact (within.withWorld world).endTask found enough
  | failed failure => exact (within.withWorld _).endTask found enough
  | wait duration state =>
      have less := paced duration state rfl
      have ran
          : Within pace bound
              (m.setTask id fun task => { task with stage := .running state }) := by
        apply within.setTask
        intro other again
        obtain rfl := Option.some.inj (found.symm.trans again)
        exact Nat.le_trans (Nat.le_add_left _ duration) less
      have need : Manager.need pace
          { m.setTask id fun task => { task with stage := .running state } with world } (.task id)
          = Task.need pace { task with stage := .running state } :=
        need_task (getElem?_setTask.mpr ⟨task, found, (if_pos rfl).symm⟩)
      apply (ran.withWorld world).wait
      rw [need, Nat.add_assoc]
      exact Nat.le_trans (Nat.add_le_add_left less _) enough

/-- A turn of a task is one of those that the task is allowed, by the stage of the task. Whoever
waits for its end has lost no time, as a task that is waited for takes its leave at once.
-/
theorem runTask (within : Within pace bound m) (paced : host.Paced pace holds)
    (prompt : host.Prompt falling) (held : holds m.world) {id : Nat} {task : Task κ σ ι}
    (found : m.tasks[id]? = some task) (onItsWay : task.waiter.isSome → task.Falling falling)
    (enough : m.now + task.need pace ≤ bound)
    : Within pace bound (m.runTask host id) := by
  have unawaited (notStarted : ∀ state, task.stage ≠ .running state)
      (calm : task.interrupted = false)
      : task.waiter = none := by
    rw [← Option.not_isSome_iff_eq_none]
    intro waits
    rcases onItsWay waits with told | ⟨state, runs, _⟩
    · cases calm.symm.trans told
    · exact notStarted state runs
  simp only [Manager.runTask, found]
  split
  next job delay stage =>
    split
    · exact within.endTask found enough
    next calm =>
      have alone := unawaited (by simp [stage]) (by simpa using calm)
      have need : task.need pace = delay + pace.work := by
        simp [Task.need, alone, stage, Stage.need]
      have rested
          : Within pace bound
              (m.setTask id fun task => { task with stage := .delayed job }) := by
        apply within.setTask
        intro other again
        obtain rfl := Option.some.inj (found.symm.trans again)
        rw [need]
        simp [Task.need, alone, Stage.need]
      have left
          : (m.setTask id fun task => { task with stage := .delayed job }).need pace (.task id)
            = pace.work := by
        rw [need_task (getElem?_setTask.mpr ⟨task, found, (if_pos rfl).symm⟩)]
        simp [Task.need, alone, Stage.need]
      apply rested.wait
      rw [left, Nat.add_assoc, ← need]
      exact enough
  next job stage =>
    split
    · exact within.endTask found enough
    next calm =>
      have alone := unawaited (by simp [stage]) (by simpa using calm)
      apply within.afterTurn found enough
      intro duration state waits
      simpa [Task.need, alone, stage, Stage.need] using paced.start held waits
  next state stage =>
    split
    · have told
          : Within pace bound
              (m.setTask id fun task => { task with interrupted := false }) := by
        apply within.setTask
        intro other _
        exact Nat.le_refl _
      have now : (m.setTask id fun task => { task with interrupted := false }).tasks[id]?
          = some { task with interrupted := false } :=
        getElem?_setTask.mpr ⟨task, found, (if_pos rfl).symm⟩
      apply told.afterTurn now enough
      intro duration next waits
      cases awaited : task.waiter with
      | none => simpa [Task.need, awaited, stage, Stage.need] using paced.interrupt held waits
      | some pending => simp [Task.need, (prompt.interrupt waits).1]
    next calm =>
      apply within.afterTurn found enough
      intro duration next waits
      cases awaited : task.waiter with
      | none => simpa [Task.need, awaited, stage, Stage.need] using paced.resume held waits
      | some pending =>
          have leaves : falling state := by
            rcases onItsWay (by simp [awaited]) with told | ⟨other, runs, leaves⟩
            · exact (calm told).elim
            · obtain rfl := Stage.running.inj (stage.symm.trans runs)
              exact leaves
          simp [Task.need, awaited, (prompt.resume leaves waits).1]
  · exact within

-----------------------------------------------------------------------------------------
-- The next turn
-----------------------------------------------------------------------------------------

/-- The next turn has the time that it needs, and so has all else. -/
theorem next (within : Within pace bound m) (coherent : Coherent falling .free m) {limit : Time}
    {turn : Turn κ μ ι} {agenda : Agenda (Turn κ μ ι)}
    (next : m.agenda.next? limit = some (turn, agenda))
    : Within pace bound { m with agenda } ∧ agenda.now + m.need pace turn ≤ bound := by
  have same (other : Turn κ μ ι)
      : ({ m with agenda } : Manager ω κ σ μ ι).need pace other = m.need pace other := by
    cases other <;> rfl
  rcases Agenda.next?_cases next with ⟨ready, timers, now⟩ | ⟨nothing, _, timed, _, due, sublist⟩
  · refine ⟨⟨fun other here => ?_, fun timer here => ?_, fun waiting => ?_⟩, ?_⟩
    · rw [same, Manager.now, now]
      exact within.ready other (ready ▸ List.mem_cons_of_mem turn here)
    · rw [same]
      exact within.timers timer (timers ▸ here)
    · rw [Manager.now, now]
      exact within.queue waiting
    · rw [now]
      exact within.ready turn (ready ▸ List.mem_cons_self)
  · refine ⟨⟨fun other here => ?_, fun timer here => ?_, fun waiting => ?_⟩, ?_⟩
    · rw [same]
      exact within.timers _ (due other here)
    · rw [same]
      exact within.timers timer (sublist.subset here)
    · exact (waiting (coherent.quiet nothing).2.1).elim
    · exact within.timers _ timed

/-- The next turn stays within the time allowed, by the kind of the turn. -/
theorem step? (within : Within pace bound m) (paced : host.Paced pace holds)
    (prompt : host.Prompt falling) (coherent : Coherent falling .free m) (held : holds m.world)
    (short
      : ∀ pending uri job delay,
          m.Waits pending
          → pending.request = .schedule uri job delay
          → delay ≤ pace.rest)
    {limit : Time} {after : Manager ω κ σ μ ι} (stepped : m.step? host limit = some after)
    : Within pace bound after := by
  obtain ⟨⟨turn, agenda⟩, next, rfl⟩ := Option.map_eq_some_iff.mp stepped
  obtain ⟨rest, enough⟩ := within.next coherent next
  have goesOn {pending : Pending κ ι} (goes : turn.pending? = some pending)
      (enough : agenda.now + pace.whole ≤ bound)
      : Within pace bound
          ((({ m with agenda } : Manager ω κ σ μ ι).complete host pending.step
            pending.request).proceed host pending.later) := by
    have waits : m.Waits pending := (waits_next coherent.toConsistent next pending).mpr (Or.inl goes)
    have same
        : (({ m with agenda } : Manager ω κ σ μ ι).complete host pending.step
            pending.request).now = agenda.now :=
      (agendaKeeps_now agenda.now).complete (m := { m with agenda }) rfl host _ _
    have kept := paced.keeps.complete (m := { m with agenda }) held pending.step pending.request
    have completed := rest.complete host enough pending.step fun uri job delay =>
      short pending uri job delay waits
    exact completed.proceed paced kept (same ▸ enough) pending.later
  cases turn with
  | task id =>
      obtain ⟨task, found, _⟩ := (coherent.next next).inHand
      have need : m.need pace (.task id) = task.need pace := need_task found
      exact rest.runTask paced prompt held found (coherent.falling_of_awaited found) (need ▸ enough)
  | handler message =>
      have begun := paced.keeps.begin agenda.now message m.world held
      exact (rest.withWorld _).proceed paced begun enough _
  | locked pending =>
      simp only [Manager.take, Manager.grant]
      split
      next id _ => exact rest.tearDown enough id pending
      next => exact goesOn rfl enough
  | cleared pending => exact goesOn rfl enough

-----------------------------------------------------------------------------------------
-- The end
-----------------------------------------------------------------------------------------

/-- The clock may pass where no turn is ready. -/
theorem passTo (within : Within pace bound m) (coherent : Coherent falling .free m)
    (nothing : m.agenda.ready = []) (instant : Time)
    : Within pace bound { m with agenda := m.agenda.passTo instant } where
  ready turn here := by
    change turn ∈ m.agenda.ready at here
    simp [nothing] at here
  timers timer here := by
    obtain ⟨due, turn⟩ := timer
    cases turn <;> exact within.timers _ here
  queue waiting := (waiting (coherent.quiet nothing).2.1).elim

/-- When the time has passed and no turn is ready, all tasks have ended. -/
theorem hasEnded (within : Within pace bound m) (coherent : Coherent falling .free m)
    (ahead : m.agenda.Ahead) (nothing : m.agenda.ready = []) (passed : bound ≤ m.now) (id : Nat)
    : m.hasEnded id = true := by
  have none : m.agenda.timers = [] := by
    apply List.eq_nil_iff_forall_not_mem.mpr
    intro timer member
    have later : m.now < timer.due := ahead.later timer member
    have allowed : timer.due ≤ bound :=
      Nat.le_trans (Nat.le_add_right _ _) (within.timers timer member)
    exact Nat.lt_irrefl _ (Nat.lt_of_lt_of_le later (Nat.le_trans allowed passed))
  have slots := coherent.slots id
  simp only [Manager.slots, Agenda.turns, nothing, none, List.map_nil, List.append_nil,
    List.countP_nil, Hand.slots] at slots
  split at slots
  · assumption
  · cases slots

end Within

end Manager

end EditorLint.Debounce
