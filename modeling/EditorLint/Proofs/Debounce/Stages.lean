import EditorLint.Proofs.Debounce.Coherence.Turn
import EditorLint.Proofs.Debounce.Worlds

/-! How tasks come from one stage to the next. Only a task's own turn moves it on; a handler
creates tasks, and tells some that they are cancelled.
-/

namespace EditorLint.Debounce.Manager

variable {ω κ σ μ ι : Type} {host : Host ω κ σ μ ι} {m : Manager ω κ σ μ ι}

/-- No task has moved on, and tasks that were not there have had no turn. -/
def StaysPut (before after : Manager ω κ σ μ ι) : Prop :=
  ∀ (id : Nat) (task : Task κ σ ι),
    after.tasks[id]? = some task
    → (∃ old, before.tasks[id]? = some old ∧ old.stage = task.stage)
      ∨ ∃ job delay, task.stage = .created job delay

/-- What becomes of a task's stage in its own turn, if that leaves the host's state as `world`. -/
inductive Moves (host : Host ω κ σ μ ι) (m : Manager ω κ σ μ ι) (world : ω)
    : Stage κ σ → Stage κ σ → Prop
  | rests {job delay} : Moves host m world (.created job delay) (.delayed job)
  | starts {job duration state}
    (begun : host.start m.now job m.world = (world, .wait duration state))
    : Moves host m world (.delayed job) (.running state)
  | resumes {prior duration state}
    (went : host.resume m.now prior m.world = (world, .wait duration state))
    : Moves host m world (.running prior) (.running state)
  | falls {prior duration state}
    (told : host.interrupt m.now prior m.world = (world, .wait duration state))
    : Moves host m world (.running prior) (.running state)
  | ends {stage} : Moves host m world stage .ended

/-- Where no task changes, none moves on. -/
theorem StaysPut.of_tasks {before after : Manager ω κ σ μ ι} (same : after.tasks = before.tasks)
    : before.StaysPut after := by
  intro id task found
  exact Or.inl ⟨task, same ▸ found, rfl⟩

/-- Tasks that do not move twice do not move. -/
theorem StaysPut.trans {before middle after : Manager ω κ σ μ ι} (first : before.StaysPut middle)
    (second : middle.StaysPut after)
    : before.StaysPut after := by
  intro id task found
  rcases second id task found with ⟨old, at_middle, same⟩ | new
  · rcases first id old at_middle with ⟨older, at_before, also⟩ | ⟨job, delay, new⟩
    · exact Or.inl ⟨older, at_before, also.trans same⟩
    · exact Or.inr ⟨job, delay, same ▸ new⟩
  · exact Or.inr new

/-- A task that is cancelled stays in its stage until its turn. -/
theorem staysPut_tearDown (id : Nat) (pending : Pending κ ι)
    : m.StaysPut (m.tearDown id pending) := by
  intro other task found
  obtain ⟨old, before, rfl⟩ := getElem?_setTask.mp found
  refine Or.inl ⟨old, before, ?_⟩
  split <;> rfl

/-- Doing what a step asks for may create a task. -/
theorem staysPut_complete (step : ι) (request : Request κ)
    : m.StaysPut (m.complete host step request) := by
  refine StaysPut.trans ?_ (.of_tasks (tasks_complete host m step request))
  intro id task found
  cases request with
  | cancel uri => exact Or.inl ⟨task, found, rfl⟩
  | schedule uri job delay =>
      rcases getElem?_concat_iff.mp found with old | ⟨_, rfl⟩
      · exact Or.inl ⟨task, old, rfl⟩
      · exact Or.inr ⟨job, delay, rfl⟩

/-- A handler moves no task on, by induction over its steps. -/
theorem staysPut_proceed (steps : List ι) : m.StaysPut (m.proceed host steps) := by
  fun_induction Manager.proceed host m steps with
  | case1 | case2 | case3 => exact StaysPut.of_tasks rfl
  | case4 m step later world request asked given free id unfinished =>
      exact staysPut_tearDown (m := { given with held := true }) id _
  | case5 m step later world request asked given free cleared ih =>
      exact (staysPut_complete (m := { given with held := true }) step request).trans ih

/-- A turn of a job lets its task run on where the job waits, and ends it else. -/
theorem tasks_afterTurn (host : Host ω κ σ μ ι) (m : Manager ω κ σ μ ι) (id : Nat)
    (result : ω × Outcome σ)
    : ∃ f : Task κ σ ι → Task κ σ ι,
        (m.afterTurn host id result).tasks = (m.setTask id f).tasks
        ∧ (∀ task, (f task).uri = task.uri)
        ∧ ∀ task,
            (f task).stage = .ended
            ∨ ∃ duration state,
                result = ((m.afterTurn host id result).world, .wait duration state)
                ∧ (f task).stage = .running state := by
  obtain ⟨world, outcome⟩ := result
  cases outcome with
  | finished | cancelled | failed =>
      exact ⟨Task.spent, tasks_endTask _ id, fun _ => rfl, fun _ => Or.inl rfl⟩
  | wait duration state =>
      exact ⟨_, rfl, fun _ => rfl, fun _ => Or.inr ⟨duration, state, rfl, rfl⟩⟩

/-- A task's own turn changes that task alone, which stays with its document and moves on. -/
theorem tasks_runTask (host : Host ω κ σ μ ι) (m : Manager ω κ σ μ ι) (id : Nat)
    : ∃ f : Task κ σ ι → Task κ σ ι,
        (m.runTask host id).tasks = (m.setTask id f).tasks
        ∧ (∀ task, (f task).uri = task.uri)
        ∧ ∀ task,
            m.tasks[id]? = some task
            → Moves host m (m.runTask host id).world task.stage (f task).stage := by
  cases found : m.tasks[id]? with
  | none =>
      refine ⟨fun task => task, ?_, fun _ => rfl, fun _ => nofun⟩
      simp only [runTask, found]
      exact (List.modify_eq_self (List.getElem?_eq_none_iff.mp found)).symm
  | some task =>
      have spent
          : ∃ f : Task κ σ ι → Task κ σ ι,
              (m.endTask id).tasks = (m.setTask id f).tasks
              ∧ (∀ task, (f task).uri = task.uri)
              ∧ ∀ other,
                  some task = some other
                  → Moves host m (m.endTask id).world other.stage (f other).stage :=
        ⟨Task.spent, tasks_endTask m id, fun _ => rfl, fun _ _ => .ends⟩
      simp only [runTask, found]
      split
      next job delay stage =>
        split
        · exact spent
        · refine ⟨_, rfl, fun _ => rfl, fun other same => ?_⟩
          cases same
          exact stage ▸ .rests
      next job stage =>
        split
        · exact spent
        · obtain ⟨f, same, keepsUri, goes⟩ :=
            tasks_afterTurn host m id (host.start m.now job m.world)
          refine ⟨f, same, keepsUri, fun other again => ?_⟩
          cases again
          rcases goes task with ended | ⟨duration, state, begun, runs⟩
          · exact ended ▸ .ends
          · rw [stage, runs]
            exact .starts begun
      next state stage =>
        split
        · let told : Task κ σ ι → Task κ σ ι := fun task => { task with interrupted := false }
          obtain ⟨f, same, keepsUri, goes⟩ :=
            tasks_afterTurn host (m.setTask id told) id (host.interrupt m.now state m.world)
          refine ⟨f ∘ told, same.trans (List.modify_modify_eq ..), fun _ => keepsUri _, ?_⟩
          intro other again
          cases again
          rcases goes (told task) with ended | ⟨duration, next, fell, runs⟩
          · exact (show (f (told task)).stage = _ from ended) ▸ .ends
          · rw [stage, Function.comp_apply, runs]
            exact .falls fell
        · obtain ⟨f, same, keepsUri, goes⟩ :=
            tasks_afterTurn host m id (host.resume m.now state m.world)
          refine ⟨f, same, keepsUri, fun other again => ?_⟩
          cases again
          rcases goes task with ended | ⟨duration, next, went, runs⟩
          · exact ended ▸ .ends
          · rw [stage, runs]
            exact .resumes went
      next stage =>
        refine ⟨fun task => task, (List.modify_id id m.tasks).symm, fun _ => rfl, ?_⟩
        intro other same
        cases same
        exact stage ▸ .ends

/-- A job that runs after a turn ran before in the same state, unless the turn was its own: then
it has started, has gone on, or has been told of its cancellation.
-/
theorem running_take {turn : Turn κ μ ι} {id : Nat} {task : Task κ σ ι} {state : σ}
    (found : (m.take host turn).tasks[id]? = some task) (runs : task.stage = .running state)
    : (∃ old, m.tasks[id]? = some old ∧ old.stage = .running state)
      ∨ (turn = .task id
        ∧ ∃ old duration,
            m.tasks[id]? = some old
            ∧ ((∃ job,
                  old.stage = .delayed job
                  ∧ host.start m.now job m.world
                    = ((m.take host turn).world, .wait duration state))
              ∨ ∃ prior,
                  old.stage = .running prior
                  ∧ (host.resume m.now prior m.world
                      = ((m.take host turn).world, .wait duration state)
                    ∨ host.interrupt m.now prior m.world
                      = ((m.take host turn).world, .wait duration state)))) := by
  have put (stays : m.StaysPut (m.take host turn))
      : ∃ old, m.tasks[id]? = some old ∧ old.stage = .running state := by
    rcases stays id task found with ⟨old, before, same⟩ | ⟨job, delay, new⟩
    · exact ⟨old, before, same.trans runs⟩
    · cases new.symm.trans runs
  cases turn with
  | handler message =>
      exact Or.inl (put (staysPut_proceed
        (m := { m with world := (host.begin m.now message m.world).1 }) _))
  | cleared pending =>
      exact Or.inl (put ((staysPut_complete pending.step pending.request).trans
        (staysPut_proceed pending.later)))
  | locked pending =>
      refine Or.inl (put ?_)
      simp only [take, grant]
      split
      next other _ => exact staysPut_tearDown other pending
      next =>
        exact (staysPut_complete pending.step pending.request).trans
          (staysPut_proceed pending.later)
  | task mover =>
      obtain ⟨f, same, _, moves⟩ := tasks_runTask host m mover
      change (m.runTask host mover).tasks[id]? = some task at found
      rw [same] at found
      obtain ⟨old, before, rfl⟩ := getElem?_setTask.mp found
      split at runs
      next own =>
        subst own
        refine Or.inr ⟨rfl, old, ?_⟩
        have moved := moves old before
        rw [runs] at moved
        generalize old.stage = prior at moved ⊢
        cases moved with
        | starts begun => exact ⟨_, before, Or.inl ⟨_, rfl, begun⟩⟩
        | resumes went => exact ⟨_, before, Or.inr ⟨_, rfl, Or.inl went⟩⟩
        | falls told => exact ⟨_, before, Or.inr ⟨_, rfl, Or.inr told⟩⟩
      next => exact Or.inl ⟨old, before, runs⟩

/-- A job that starts in a task's turn and waits for nothing has its next turn ready. -/
theorem mem_ready_of_starts {id : Nat} {task after : Task κ σ ι} {job : κ} {state : σ} {world : ω}
    (found : m.tasks[id]? = some task) (stage : task.stage = .delayed job)
    (begun : host.start m.now job m.world = (world, .wait 0 state))
    (goes : (m.runTask host id).tasks[id]? = some after) (runs : after.stage = .running state)
    : .task id ∈ (m.runTask host id).agenda.ready := by
  simp only [runTask, found, stage] at goes ⊢
  split at goes
  next told =>
    rw [tasks_endTask] at goes
    obtain ⟨old, _, rfl⟩ := getElem?_setTask.mp goes
    simp [Task.spent] at runs
  next calm =>
    simp [calm, begun, afterTurn, Agenda.wait, Agenda.post]

end EditorLint.Debounce.Manager
