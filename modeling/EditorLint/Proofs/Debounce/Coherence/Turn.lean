import EditorLint.Proofs.Debounce.Coherence.Task

/-! Every turn leaves tasks, turns, table and lock together, and where no turn is ready the lock
is free.
-/

namespace EditorLint.Debounce.Manager

variable {ω κ σ μ ι : Type} {falling : σ → Prop} {hand : Hand} {m : Manager ω κ σ μ ι}

variable {host : Host ω κ σ μ ι}

-----------------------------------------------------------------------------------------
-- Whatever the host does
-----------------------------------------------------------------------------------------

namespace Consistent

/-- What follows from a turn of a job keeps everything together. -/
theorem afterTurn {id : Nat} (consistent : Consistent (.task id) m) (result : ω × Outcome σ)
    : Consistent .free (m.afterTurn host id result) := by
  obtain ⟨world, outcome⟩ := result
  cases outcome with
  | finished => exact (consistent.withWorld world).endTask
  | cancelled => exact (consistent.withWorld world).endTask
  | failed failure => exact (consistent.withWorld _).endTask
  | wait duration state =>
      obtain ⟨_, found, unfinished⟩ := consistent.inHand
      have runs : Consistent (.task id)
          (m.setTask id fun task => { task with stage := .running state }) := by
        refine consistent.setTask (fun _ => rfl) (fun _ => rfl) ?_
        intro task again
        obtain rfl := Option.some.inj (found.symm.trans again)
        simpa using unfinished
      exact (runs.withWorld world).wait duration

/-- A turn of a task keeps everything together, by the stage of the task. -/
theorem runTask {id : Nat} (consistent : Consistent (.task id) m)
    : Consistent .free (m.runTask host id) := by
  obtain ⟨task, found, going⟩ := consistent.inHand
  unfold Manager.runTask
  rw [found]
  dsimp only
  split
  next job delay stage =>
    split
    · exact consistent.endTask
    · have rests : Consistent (.task id)
          (m.setTask id fun task => { task with stage := .delayed job }) := by
        refine consistent.setTask (fun _ => rfl) (fun _ => rfl) ?_
        intro other again
        obtain rfl := Option.some.inj (found.symm.trans again)
        simpa using going
      exact rests.wait delay
  next job stage =>
    split
    · exact consistent.endTask
    · exact consistent.afterTurn _
  next state stage =>
    split
    · have told := consistent.setTask (f := fun task => { task with interrupted := false })
        (fun _ => rfl) (fun _ => rfl) (fun _ _ => Iff.rfl)
      exact told.afterTurn _
    · exact consistent.afterTurn _
  next spent => exact (going spent).elim

/-- A handler keeps everything together, by induction over the steps that it has to take. -/
theorem proceed (consistent : Consistent .free m) (host : Host ω κ σ μ ι) (steps : List ι)
    : Consistent .free (m.proceed host steps) := by
  fun_induction Manager.proceed host m steps with
  | case1 m => exact consistent
  | case2 m step later world _ => exact consistent.withWorld world
  | case3 m step later world request _ given held =>
      exact { consistent.withWorld world with
        queue := by
          intro free
          cases held.symm.trans free
      }
  | case4 m step later world request _ given free id unfinished =>
      have locked := (consistent.withWorld world).takeLock (by simpa using free)
      exact locked.tearDown unfinished
  | case5 m step later world request _ given free cleared ih =>
      have locked := (consistent.withWorld world).takeLock (by simpa using free)
      exact ih (locked.complete cleared host step)

/-- Whoever is handed the lock keeps everything together. -/
theorem grant (consistent : Consistent .lock m) (host : Host ω κ σ μ ι) (pending : Pending κ ι)
    : Consistent .free (m.grant host pending) := by
  unfold Manager.grant
  split
  next id unfinished => exact consistent.tearDown unfinished
  next cleared => exact (consistent.complete cleared host pending.step).proceed host pending.later

/-- Turns that become ready as the clock moves are turns of tasks. -/
theorem timed_of_next? {limit : Time} {turn : Turn κ μ ι} {agenda : Agenda (Turn κ μ ι)}
    (consistent : Consistent hand m) (next : m.agenda.next? limit = some (turn, agenda))
    (nothing : m.agenda.ready = []) {other : Turn κ μ ι} (member : other ∈ turn :: agenda.ready)
    : ∃ id, other = .task id := by
  rcases Agenda.next?_cases next with ⟨ready, _⟩ | ⟨_, perm, _⟩
  · cases ready.symm.trans nothing
  · have turns : other ∈ turn :: agenda.turns := by
      rcases List.mem_cons.mp member with rfl | later
      · exact List.mem_cons_self
      · exact List.mem_cons_of_mem _ (List.mem_append_left _ later)
    obtain ⟨timer, inTimers, rfl⟩ := List.mem_map.mp (perm.mem_iff.mpr turns)
    exact consistent.timed timer inTimers

/-- Of what ready turns hold that are not turns of tasks, the next turn has the first. -/
theorem filterMap_next {α : Type} {f : Turn κ μ ι → Option α} {limit : Time} {turn : Turn κ μ ι}
    {agenda : Agenda (Turn κ μ ι)} (consistent : Consistent hand m)
    (next : m.agenda.next? limit = some (turn, agenda)) (onTask : ∀ id, f (.task id) = none)
    : m.agenda.ready.filterMap f = (f turn).toList ++ agenda.ready.filterMap f := by
  rcases Agenda.next?_cases next with ⟨ready, _⟩ | ⟨nothing, _⟩
  · rw [ready]
    cases held : f turn <;> simp [held]
  · have holdsNone {other : Turn κ μ ι} (member : other ∈ turn :: agenda.ready)
        : f other = none := by
      obtain ⟨id, rfl⟩ := consistent.timed_of_next? next nothing member
      exact onTask id
    have none : agenda.ready.filterMap f = [] :=
      List.filterMap_eq_nil_iff.mpr fun _ member => holdsNone (List.mem_cons_of_mem turn member)
    simp [nothing, none, holdsNone List.mem_cons_self]

/-- The next turn is in hand, and all else is where it was. -/
theorem next {limit : Time} {turn : Turn κ μ ι} {agenda : Agenda (Turn κ μ ι)}
    (consistent : Consistent .free m) (next : m.agenda.next? limit = some (turn, agenda))
    : Consistent turn.hand { m with agenda } := by
  have moved := Agenda.turns_next? next
  have slots (id : Nat)
      : ({ m with agenda } : Manager ω κ σ μ ι).slots id + turn.hand.slots id
        = if m.hasEnded id then 0 else 1 := by
    have before := consistent.slots id
    simp only [Manager.slots, moved.countP_eq, List.countP_cons] at before ⊢
    rw [turn.slots_hand]
    simpa [Hand.slots] using before
  have lock := consistent.lock
  rcases Agenda.next?_cases next with ⟨ready, timers, _⟩ | ⟨ready, perm, _, _, due, sublist⟩
  · exact {
      slots
      timed := fun timer member => consistent.timed timer (timers ▸ member)
      lock := by
        simp only [grips, ready, List.countP_cons, Hand.grips] at lock
        simp only [grips, turn.grips_hand]
        omega
      queue := consistent.queue
      table := consistent.table
      known := consistent.known
      waiter := consistent.waiter
      cleared := fun here => consistent.cleared (ready ▸ List.mem_cons_of_mem turn here)
    }
  · have onlyTasks {other : Turn κ μ ι} (member : other ∈ turn :: agenda.ready)
        : ∃ id, other = .task id :=
      consistent.timed_of_next? next ready member
    have noLock : agenda.ready.countP Turn.hasLock = 0 := by
      rw [List.countP_eq_zero]
      intro other here
      obtain ⟨id, rfl⟩ := onlyTasks (List.mem_cons_of_mem _ here)
      simp [Turn.hasLock]
    obtain ⟨id, rfl⟩ := onlyTasks List.mem_cons_self
    exact {
      slots
      timed := fun timer member => consistent.timed timer (sublist.subset member)
      lock := by
        simp only [grips, ready, List.countP_nil, Hand.grips] at lock
        simp only [grips, noLock]
        exact lock
      queue := consistent.queue
      table := consistent.table
      known := consistent.known
      waiter := consistent.waiter
      cleared := by
        intro pending here
        obtain ⟨_, impossible⟩ := onlyTasks (List.mem_cons_of_mem _ here)
        cases impossible
    }

/-- A turn of a handler whose predecessor's task has ended finds no unfinished task in its way. -/
theorem clear {limit : Time} {pending : Pending κ ι} {agenda : Agenda (Turn κ μ ι)}
    (consistent : Consistent .free m)
    (next : m.agenda.next? limit = some (.cleared pending, agenda))
    : m.unfinished? pending.request.uri = none := by
  rcases Agenda.next?_cases next with ⟨ready, _⟩ | ⟨_, _, timed, _⟩
  · exact consistent.cleared (ready ▸ List.mem_cons_self)
  · obtain ⟨_, impossible⟩ := consistent.timed _ timed
    cases impossible

/-- The next turn keeps everything together, by the kind of the turn. -/
theorem step? (consistent : Consistent .free m) {limit : Time} {after : Manager ω κ σ μ ι}
    (stepped : m.step? host limit = some after)
    : Consistent .free after := by
  obtain ⟨⟨turn, agenda⟩, next, rfl⟩ := Option.map_eq_some_iff.mp stepped
  have taken := consistent.next next
  cases turn with
  | task id => exact taken.runTask
  | handler message => exact (taken.withWorld _).proceed host _
  | locked pending => exact taken.grant host pending
  | cleared pending =>
      exact (taken.complete (consistent.clear next) host pending.step).proceed host pending.later

/-- A message that arrives keeps everything together. -/
theorem deliver (consistent : Consistent .free m) (message : μ)
    : Consistent .free (m.deliver message) :=
  Consistent.post (.handler message) consistent (fun _ => nofun) (fun _ => nofun)

/-- A debouncer for which nothing has happened yet is in order. -/
theorem fresh (world : ω) : Consistent .free ({ world } : Manager ω κ σ μ ι) where
  slots _ := rfl
  timed _ member := nomatch member
  lock := rfl
  queue _ := rfl
  table found := nomatch found
  known stored := nomatch stored
  waiter found := nomatch found
  cleared here := nomatch here

/-- Letting the clock pass changes no turn. -/
theorem passTo (consistent : Consistent .free m) (instant : Time)
    : Consistent .free { m with agenda := m.agenda.passTo instant } :=
  ⟨consistent.slots, consistent.timed, consistent.lock, consistent.queue, consistent.table,
    consistent.known, consistent.waiter, consistent.cleared⟩

end Consistent

-----------------------------------------------------------------------------------------
-- With a host whose cancelled jobs take their leave promptly
-----------------------------------------------------------------------------------------

namespace Coherent

/-- What follows from a turn of a job keeps everything together, if a job whose end is waited for
does not wait for the clock.
-/
theorem afterTurn {id : Nat} {result : ω × Outcome σ} (coherent : Coherent falling (.task id) m)
    (falls
      : ∀ task duration state,
          m.tasks[id]? = some task
          → task.waiter.isSome
          → result.2 = .wait duration state
          → falling state ∧ duration = 0)
    : Coherent falling .free (m.afterTurn host id result) := by
  obtain ⟨world, outcome⟩ := result
  cases outcome with
  | finished => exact (coherent.withWorld world).endTask
  | cancelled => exact (coherent.withWorld world).endTask
  | failed failure => exact (coherent.withWorld _).endTask
  | wait duration state =>
      obtain ⟨_, found, unfinished⟩ := coherent.inHand
      have runs : Coherent falling (.task id)
          (m.setTask id fun task => { task with stage := .running state }) := by
        refine coherent.setTask (fun _ => rfl) (fun _ => rfl) ?_
        intro task again
        obtain rfl := Option.some.inj (found.symm.trans again)
        simpa using unfinished
      apply (runs.withWorld world).wait duration
      intro task again waits
      obtain ⟨old, before, rfl⟩ := getElem?_setTask.mp again
      rw [if_pos rfl] at waits ⊢
      obtain ⟨fallen, none⟩ := falls old duration state before waits rfl
      exact ⟨Or.inr ⟨state, rfl, fallen⟩, none⟩

/-- A turn of a task keeps everything together, by the stage of the task. Only a task on its way
to its end may be waited for.
-/
theorem runTask (prompt : host.Prompt falling) {id : Nat}
    (coherent : Coherent falling (.task id) m)
    (onItsWay : ∀ task, m.tasks[id]? = some task → task.waiter.isSome → task.Falling falling)
    : Coherent falling .free (m.runTask host id) := by
  obtain ⟨task, found, going⟩ := coherent.inHand
  have unawaited (notStarted : ∀ state, task.stage ≠ .running state) (calm : ¬ task.interrupted)
      : ¬ task.waiter.isSome := by
    intro waits
    rcases onItsWay task found waits with told | ⟨state, runs, _⟩
    · exact calm told
    · exact notStarted state runs
  unfold Manager.runTask
  rw [found]
  dsimp only
  split
  next job delay stage =>
    split
    · exact coherent.endTask
    next calm =>
      have rests : Coherent falling (.task id)
          (m.setTask id fun task => { task with stage := .delayed job }) := by
        refine coherent.setTask (fun _ => rfl) (fun _ => rfl) ?_
        intro other again
        obtain rfl := Option.some.inj (found.symm.trans again)
        simpa using going
      apply rests.wait delay
      intro other again waits
      obtain ⟨old, before, rfl⟩ := getElem?_setTask.mp again
      obtain rfl := Option.some.inj (found.symm.trans before)
      rw [if_pos rfl] at waits
      exact (unawaited (by simp [stage]) calm waits).elim
  next job stage =>
    split
    · exact coherent.endTask
    next calm =>
      apply coherent.afterTurn
      intro other duration state again waits
      obtain rfl := Option.some.inj (found.symm.trans again)
      exact (unawaited (by simp [stage]) calm waits).elim
  next state stage =>
    split
    next told =>
      apply Coherent.afterTurn
      · exact coherent.setTask (fun _ => rfl) (fun _ => rfl) (fun _ _ => Iff.rfl)
      · intro other duration next _ _ goesOn
        exact (prompt.interrupt goesOn).symm
    next calm =>
      apply coherent.afterTurn
      intro other duration next again waits goesOn
      obtain rfl := Option.some.inj (found.symm.trans again)
      rcases onItsWay task found waits with told | ⟨other, runs, fallen⟩
      · exact (calm told).elim
      · obtain rfl := Stage.running.inj (stage.symm.trans runs)
        exact (prompt.resume fallen goesOn).symm
  next spent => exact (going spent).elim

/-- A handler keeps everything together, by induction over the steps that it has to take. -/
theorem proceed (coherent : Coherent falling .free m) (host : Host ω κ σ μ ι) (steps : List ι)
    : Coherent falling .free (m.proceed host steps) := by
  fun_induction Manager.proceed host m steps with
  | case1 m => exact coherent
  | case2 m step later world _ => exact coherent.withWorld world
  | case3 m step later world request _ given held =>
      exact { coherent.withWorld world with
        queue := by
          intro free
          cases held.symm.trans free
      }
  | case4 m step later world request _ given free id unfinished =>
      have locked := (coherent.withWorld world).takeLock (by simpa using free)
      exact locked.tearDown unfinished
  | case5 m step later world request _ given free cleared ih =>
      have locked := (coherent.withWorld world).takeLock (by simpa using free)
      exact ih (locked.complete cleared host step)

/-- Whoever is handed the lock keeps everything together. -/
theorem grant (coherent : Coherent falling .lock m) (host : Host ω κ σ μ ι)
    (pending : Pending κ ι)
    : Coherent falling .free (m.grant host pending) := by
  unfold Manager.grant
  split
  next id unfinished => exact coherent.tearDown unfinished
  next cleared => exact (coherent.complete cleared host pending.step).proceed host pending.later

/-- The next turn is in hand, and all else is where it was. Turns that become ready as the clock
moves are turns of tasks for whose end no one waits.
-/
theorem next {limit : Time} {turn : Turn κ μ ι} {agenda : Agenda (Turn κ μ ι)}
    (coherent : Coherent falling .free m) (next : m.agenda.next? limit = some (turn, agenda))
    : Coherent falling turn.hand { m with agenda } := by
  obtain ⟨consistent, onItsWay⟩ := coherent
  refine ⟨consistent.next next, ?_⟩
  intro id task found waits
  rcases onItsWay id task found waits with impossible | ⟨fallen, here⟩
  · cases impossible
  · rcases Agenda.next?_cases next with ⟨ready, _⟩ | ⟨nothing, _⟩
    · rw [ready] at here
      rcases List.mem_cons.mp here with rfl | later
      · exact Or.inl rfl
      · exact Or.inr ⟨fallen, later⟩
    · simp [nothing] at here

/-- Whoever's turn comes, a task for whose end someone waits is on its way to it. -/
theorem falling_of_awaited (coherent : Coherent falling .free m) {id : Nat} {task : Task κ σ ι}
    (found : m.tasks[id]? = some task) (waits : task.waiter.isSome)
    : task.Falling falling := by
  rcases coherent.onItsWay id task found waits with impossible | ⟨fallen, _⟩
  · cases impossible
  · exact fallen

/-- A turn of a handler whose predecessor's task has ended finds no unfinished task in its way. -/
theorem clear {limit : Time} {pending : Pending κ ι} {agenda : Agenda (Turn κ μ ι)}
    (coherent : Coherent falling .free m)
    (next : m.agenda.next? limit = some (.cleared pending, agenda))
    : m.unfinished? pending.request.uri = none :=
  coherent.toConsistent.clear next

/-- The next turn keeps everything together, by the kind of the turn. -/
theorem step? (coherent : Coherent falling .free m) (prompt : host.Prompt falling)
    {limit : Time} {after : Manager ω κ σ μ ι} (stepped : m.step? host limit = some after)
    : Coherent falling .free after := by
  obtain ⟨⟨turn, agenda⟩, next, rfl⟩ := Option.map_eq_some_iff.mp stepped
  have taken := coherent.next next
  cases turn with
  | task id =>
      exact taken.runTask prompt fun task found waits => coherent.falling_of_awaited found waits
  | handler message => exact (taken.withWorld _).proceed host _
  | locked pending => exact taken.grant host pending
  | cleared pending =>
      exact (taken.complete (coherent.clear next) host pending.step).proceed host pending.later

/-- A message that arrives keeps everything together. -/
theorem deliver (coherent : Coherent falling .free m) (message : μ)
    : Coherent falling .free (m.deliver message) :=
  Coherent.post (.handler message) coherent (fun _ => nofun) (fun _ => nofun)

/-- A debouncer for which nothing has happened yet is in order. -/
theorem fresh (world : ω) : Coherent falling .free ({ world } : Manager ω κ σ μ ι) :=
  ⟨Consistent.fresh world, nofun⟩

/-- Letting the clock pass changes no turn. -/
theorem passTo (coherent : Coherent falling .free m) (instant : Time)
    : Coherent falling .free { m with agenda := m.agenda.passTo instant } :=
  ⟨coherent.toConsistent.passTo instant, coherent.onItsWay⟩

/-- Where no turn is ready, the lock is free and no one waits for it or for the end of a task. -/
theorem quiet (coherent : Coherent falling .free m) (nothing : m.agenda.ready = [])
    : m.held = false
      ∧ m.queue = []
      ∧ ∀ (id : Nat) (task : Task κ σ ι), m.tasks[id]? = some task → task.waiter = none := by
  have noWaiter {id : Nat} {task : Task κ σ ι} (found : m.tasks[id]? = some task)
      : task.waiter = none := by
    cases waits : task.waiter with
    | none => rfl
    | some pending =>
        rcases coherent.onItsWay id task found (by simp [waits]) with impossible | ⟨_, here⟩
        · cases impossible
        · simp [nothing] at here
  have free : m.held = false := by
    have lock := coherent.lock
    have none : m.tasks.countP (·.waiter.isSome) = 0 := by
      rw [List.countP_eq_zero]
      intro task member
      obtain ⟨id, found⟩ := List.mem_iff_getElem?.mp member
      simp [noWaiter found]
    simp only [grips, nothing, none, Hand.grips, List.countP_nil] at lock
    cases held : m.held <;> simp [held] at lock ⊢
  exact ⟨free, coherent.queue free, fun _ _ => noWaiter⟩

end Coherent

end EditorLint.Debounce.Manager
