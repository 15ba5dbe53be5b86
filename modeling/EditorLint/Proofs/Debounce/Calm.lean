import EditorLint.Proofs.Debounce.Alone
import EditorLint.Proofs.Debounce.Clock

/-! Runs in which no handler is under way. All turns are turns of tasks then, and every task does
what it does by itself.
-/

namespace EditorLint.Debounce

variable {κ σ μ ι ε : Type}

namespace Manager

/-- No handler is under way and no task is being cancelled. -/
structure Calm {ω : Type} (m : Manager ω κ σ μ ι) : Prop where
  consistent : m.Consistent .free
  ahead : m.agenda.Ahead
  free : m.held = false
  tasks : ∀ turn ∈ m.agenda.ready, ∃ id, turn = .task id
  steady
    : ∀ {id : Nat} {task : Task κ σ ι},
        m.tasks[id]? = some task → task.stage ≠ .ended → task.interrupted = false

/-- A task stands in its stage, and its next turn is planned. -/
def Stands {ω : Type} (m : Manager ω κ σ μ ι) (id : Nat) : Standing κ σ → Prop
  | none => m.hasEnded id = true
  | some (due, stage) =>
      stage ≠ .ended
      ∧ (∃ task, m.tasks[id]? = some task ∧ task.stage = stage)
      ∧ ⟨due, .task id⟩ ∈ m.agenda.plan

/-- The documents of all tasks, by the places of the tasks. -/
def documents {ω : Type} (m : Manager ω κ σ μ ι) : List String :=
  m.tasks.map (·.uri)

@[simp]
theorem length_documents {ω : Type} (m : Manager ω κ σ μ ι)
    : m.documents.length = m.tasks.length :=
  List.length_map _

/-- A change of a task that does not move it to another document moves none. -/
theorem documents_setTask {ω : Type} (m : Manager ω κ σ μ ι) (id : Nat)
    {f : Task κ σ ι → Task κ σ ι} (same : ∀ task, (f task).uri = task.uri)
    : (m.setTask id f).documents = m.documents := by
  apply List.ext_getElem?
  intro place
  simp only [documents, setTask, List.getElem?_map, List.getElem?_modify, Option.map_eq_map,
    Option.map_map]
  congr 1
  funext task
  simp only [Function.comp_apply]
  split <;> simp [same]

-----------------------------------------------------------------------------------------
-- Where tasks stand
-----------------------------------------------------------------------------------------

section Stands

variable {ω : Type} {m : Manager ω κ σ μ ι} {hand : Hand} {id : Nat}

/-- Of what is counted at most once, there are no two. -/
theorem eq_of_countP_le_one {α : Type} {kind : α → Bool} {items : List α} {first second : α}
    (once : items.countP kind ≤ 1) (here : first ∈ items) (there : second ∈ items)
    (one : kind first) (other : kind second)
    : first = second := by
  rw [List.countP_eq_length_filter] at once
  have firstKept : first ∈ items.filter kind := List.mem_filter.mpr ⟨here, one⟩
  have secondKept : second ∈ items.filter kind := List.mem_filter.mpr ⟨there, other⟩
  match items.filter kind, once, firstKept, secondKept with
  | [only], _, firstKept, secondKept =>
      exact (List.mem_singleton.mp firstKept).trans (List.mem_singleton.mp secondKept).symm

/-- The turns of a task are the planned ones. -/
theorem countP_plan (m : Manager ω κ σ μ ι) (id : Nat)
    : m.agenda.plan.countP (fun timer => timer.turn.isOf id) = m.slots id := by
  rw [slots, ← Agenda.map_plan, List.countP_map]
  rfl

/-- A task that stands anywhere has not ended. -/
theorem Stands.hasEnded {due : Time} {stage : Stage κ σ} (stands : m.Stands id (some (due, stage)))
    : m.hasEnded id = false := by
  obtain ⟨going, ⟨task, found, same⟩, _⟩ := stands
  exact hasEnded_eq_false_iff.mpr ⟨task, found, same ▸ going⟩

/-- A task stands in one place. -/
theorem Stands.unique (consistent : m.Consistent hand) {first second : Standing κ σ}
    (stands : m.Stands id first) (also : m.Stands id second)
    : first = second := by
  cases first with
  | none =>
      cases second with
      | none => rfl
      | some place => cases also.hasEnded.symm.trans stands
  | some place =>
      cases second with
      | none => cases stands.hasEnded.symm.trans also
      | some other =>
          have once := consistent.slots id
          rw [stands.hasEnded] at once
          obtain ⟨_, ⟨task, found, inStage⟩, planned⟩ := stands
          obtain ⟨_, ⟨again, refound, inOther⟩, replanned⟩ := also
          obtain rfl := Option.some.inj (found.symm.trans refound)
          have few : m.agenda.plan.countP (fun timer => timer.turn.isOf id) ≤ 1 := by
            rw [countP_plan]
            exact Nat.le_trans (Nat.le_add_right _ _) (Nat.le_of_eq once)
          have same := eq_of_countP_le_one few planned replanned (by simp [Turn.isOf])
            (by simp [Turn.isOf])
          exact congrArg some (Prod.ext (Timer.mk.inj same).1 (inStage.symm.trans inOther))

/-- The next turn of a task that has not ended is planned. -/
theorem exists_planned (consistent : m.Consistent .free) (going : m.hasEnded id = false)
    : ∃ timer ∈ m.agenda.plan, timer.turn.isOf id := by
  have once := consistent.slots id
  rw [going, ← countP_plan] at once
  exact List.countP_pos_iff.mp (Nat.lt_of_lt_of_eq Nat.one_pos once.symm)

/-- Every task stands somewhere. -/
theorem exists_stands (consistent : m.Consistent .free) (id : Nat)
    : ∃ standing, m.Stands id standing := by
  cases ended : m.hasEnded id with
  | true => exact ⟨none, ended⟩
  | false =>
      obtain ⟨task, found, going⟩ := hasEnded_eq_false_iff.mp ended
      obtain ⟨⟨due, turn⟩, planned, own⟩ := exists_planned consistent ended
      cases turn with
      | task other =>
          obtain rfl : other = id := by simpa [Turn.isOf] using own
          exact ⟨some (due, task.stage), going, ⟨task, found, rfl⟩, planned⟩
      | handler | locked | cleared => cases own

end Stands

-----------------------------------------------------------------------------------------
-- A turn of a task
-----------------------------------------------------------------------------------------

/-- A turn of a task has left events, and the task waits for its next turn or has ended. -/
inductive Went (m : Manager (List ε) κ σ μ ι) (id : Nat) (events : List ε)
    : Standing κ σ → Manager (List ε) κ σ μ ι → Prop
  | waits {duration stage} (going : stage ≠ .ended)
    : Went m id events (some (m.now + duration, stage))
        { m.setTask id fun task => { task with stage } with
          world := m.world ++ events
          agenda := m.agenda.wait duration (.task id) }
  | ends : Went m id events none { m.setTask id Task.spent with world := m.world ++ events }

section Went

variable {m after : Manager (List ε) κ σ μ ι} {id : Nat} {events : List ε}
  {standing : Standing κ σ}

/-- All but the task itself is as it was. -/
theorem Went.frame (went : Went m id events standing after)
    : after.world = m.world ++ events
      ∧ after.table = m.table
      ∧ after.held = m.held
      ∧ after.documents = m.documents
      ∧ ∀ turn ∈ after.agenda.ready, turn ∈ m.agenda.ready ∨ turn = .task id := by
  cases went with
  | ends => exact ⟨rfl, rfl, rfl, documents_setTask m id fun _ => rfl, fun _ => Or.inl⟩
  | waits =>
      refine ⟨rfl, rfl, rfl, documents_setTask m id fun _ => rfl, ?_⟩
      intro turn ready
      exact (Agenda.mem_ready_wait.mp ready).imp_right And.right

/-- The task stands where its turn has left it. -/
theorem Went.stands (went : Went m id events standing after) {task : Task κ σ ι}
    (found : m.tasks[id]? = some task)
    : after.Stands id standing := by
  cases went with
  | ends => exact (hasEnded_spent m id id).trans (if_pos rfl)
  | @waits duration stage going =>
      refine ⟨going, ⟨{ task with stage }, ?_, rfl⟩, ?_⟩
      · exact getElem?_setTask.mpr ⟨task, found, (if_pos rfl).symm⟩
      · exact (Agenda.plan_wait m.agenda duration _).mem_iff.mpr List.mem_cons_self

/-- The other tasks stand where they stood. -/
theorem Went.stands_other (went : Went m id events standing after) {other : Nat}
    (apart : other ≠ id) {place : Standing κ σ} (stood : m.Stands other place)
    : after.Stands other place := by
  have kept {f : Task κ σ ι → Task κ σ ι} : (m.setTask id f).tasks[other]? = m.tasks[other]? := by
    simp [setTask, Ne.symm apart]
  cases place with
  | none =>
      cases went <;> simpa only [Stands, hasEnded, kept] using stood
  | some place =>
      obtain ⟨going, ⟨task, found, same⟩, planned⟩ := stood
      cases went with
      | ends => exact ⟨going, ⟨task, kept.trans found, same⟩, planned⟩
      | waits =>
          refine ⟨going, ⟨task, kept.trans found, same⟩, ?_⟩
          exact (Agenda.plan_wait m.agenda _ _).mem_iff.mpr (List.mem_cons_of_mem _ planned)

/-- A task that has not ended is not cancelled by a turn, whether or not it is its own. -/
theorem Went.interrupted (went : Went m id events standing after) {task : Task κ σ ι}
    (found : m.tasks[id]? = some task) (going : task.stage ≠ .ended) {place : Nat}
    {another : Task κ σ ι} (there : after.tasks[place]? = some another)
    (unfinished : another.stage ≠ .ended)
    : ∃ old,
        m.tasks[place]? = some old
        ∧ old.stage ≠ .ended
        ∧ another.interrupted = old.interrupted := by
  cases went with
  | ends =>
      obtain ⟨old, before, rfl⟩ := getElem?_setTask.mp there
      split at unfinished
      next => exact (unfinished rfl).elim
      next apart => exact ⟨old, before, unfinished, by rw [if_neg apart]⟩
  | waits =>
      obtain ⟨old, before, rfl⟩ := getElem?_setTask.mp there
      split at unfinished
      next own =>
        subst own
        obtain rfl := Option.some.inj (found.symm.trans before)
        exact ⟨task, found, going, by rw [if_pos rfl]⟩
      next apart => exact ⟨old, before, unfinished, by rw [if_neg apart]⟩

end Went

variable {host : Host (List ε) κ σ (Request κ) (Request κ)}
  {m : Manager (List ε) κ σ (Request κ) (Request κ)} {id : Nat}

/-- What follows from a turn of a job for whose end no one waits. -/
theorem went_afterTurn (separate : host.Separate)
    (unawaited : m.tasks[id]?.bind (·.waiter) = none) (result : List ε × Outcome σ)
    : Went m id (host.follow m.now result).1 (host.follow m.now result).2
        (m.afterTurn host id (m.world ++ result.1, result.2)) := by
  obtain ⟨events, outcome⟩ := result
  have spent (left : List ε)
      : ({ m with world := m.world ++ left }
          : Manager (List ε) κ σ (Request κ) (Request κ)).endTask id
        = { m.setTask id Task.spent with world := m.world ++ left } :=
    endTask_of_unawaited (m := { m with world := m.world ++ left }) unawaited
  cases outcome with
  | wait duration state =>
      have going : Stage.running state ≠ (.ended : Stage κ σ) := by simp
      exact .waits going
  | finished | cancelled =>
      simp only [afterTurn, Host.follow, spent]
      exact .ends
  | failed failure =>
      simp only [afterTurn, Host.follow, separate.report m.now failure (m.world ++ events),
        List.append_assoc, spent]
      exact .ends

/-- A turn of a task that nobody cancels leaves what the task leaves by itself. -/
theorem went_runTask (separate : host.Separate) {task : Task κ σ (Request κ)}
    (found : m.tasks[id]? = some task) (unawaited : task.waiter = none)
    (steady : task.interrupted = false) (going : task.stage ≠ .ended)
    : Went m id (host.turn m.now task.stage).1 (host.turn m.now task.stage).2
        (m.runTask host id) := by
  have nobody : m.tasks[id]?.bind (·.waiter) = none := by simp [found, unawaited]
  cases stage : task.stage with
  | created job delay =>
      simp only [runTask, found, stage, steady, Bool.false_eq_true, if_false, Host.turn]
      have going : Stage.delayed job ≠ (.ended : Stage κ σ) := by simp
      have rests : Went m id ([] : List ε) (some (m.now + delay, .delayed job)) _ := .waits going
      rwa [List.append_nil] at rests
  | delayed job =>
      simp only [runTask, found, stage, steady, Bool.false_eq_true, if_false, Host.turn]
      rw [separate.start m.now job m.world]
      exact went_afterTurn separate nobody _
  | running state =>
      simp only [runTask, found, stage, steady, Bool.false_eq_true, if_false, Host.turn]
      rw [separate.resume m.now state m.world]
      exact went_afterTurn separate nobody _
  | ended => exact (going stage).elim

variable {limit : Time} {turn : Turn κ (Request κ) (Request κ)}
  {agenda : Agenda (Turn κ (Request κ) (Request κ))}

/-- The next turn is one of a task, comes when it is planned, and leaves what the task leaves by
itself.
-/
theorem Calm.went (calm : m.Calm) (separate : host.Separate)
    (next : m.agenda.next? limit = some (turn, agenda))
    : ∃ id task,
        turn = .task id
        ∧ m.tasks[id]? = some task
        ∧ m.Stands id (some (agenda.now, task.stage))
        ∧ Went { m with agenda } id (host.turn agenda.now task.stage).1
            (host.turn agenda.now task.stage).2 (take host { m with agenda } turn) := by
  have planned : ⟨agenda.now, turn⟩ ∈ m.agenda.plan :=
    Agenda.plan_next? next ▸ List.mem_cons_self
  obtain ⟨id, rfl⟩ : ∃ id, turn = .task id := by
    rcases Agenda.next?_cases next with ⟨ready, _⟩ | ⟨_, _, timed, _⟩
    · exact calm.tasks turn (ready ▸ List.mem_cons_self)
    · exact calm.consistent.timed _ timed
  obtain ⟨task, found, going⟩ := (calm.consistent.next next).inHand
  have unawaited : task.waiter = none :=
    waiter_eq_none (calm.consistent.grips_eq_zero_of_free calm.free) found
  exact ⟨id, task, rfl, found, ⟨going, ⟨task, found, rfl⟩, planned⟩,
    went_runTask (m := { m with agenda }) separate found unawaited (calm.steady found going) going⟩

/-- After a turn of a task there is still no handler under way. -/
theorem Calm.take (calm : m.Calm) (separate : host.Separate)
    (next : m.agenda.next? limit = some (turn, agenda))
    : (Manager.take host { m with agenda } turn).Calm := by
  obtain ⟨id, task, rfl, found, ⟨going, _⟩, went⟩ := calm.went separate next
  have stepped : m.step? host limit = some (Manager.take host { m with agenda } (.task id)) :=
    Option.map_eq_some_iff.mpr ⟨_, next, rfl⟩
  obtain ⟨_, _, held, _, ready⟩ := went.frame
  exact {
    consistent := calm.consistent.step? stepped
    ahead := (step?_now calm.ahead stepped).1
    free := held.trans calm.free
    tasks := by
      intro turn member
      rcases ready turn member with before | rfl
      · rcases Agenda.next?_cases next with ⟨first, _⟩ | ⟨_, _, _, _, timed, _⟩
        · exact calm.tasks turn (first ▸ List.mem_cons_of_mem _ before)
        · exact calm.consistent.timed _ (timed turn before)
      · exact ⟨id, rfl⟩
    steady := by
      intro place another there unfinished
      obtain ⟨old, before, running, same⟩ := went.interrupted found going there unfinished
      exact same.trans (calm.steady before running)
  }

/-- Tasks whose turn is not the next one stand where they stood. -/
theorem stands_next (next : m.agenda.next? limit = some (.task id, agenda)) {other : Nat}
    (apart : other ≠ id) {place : Standing κ σ} (stood : m.Stands other place)
    : ({ m with agenda } : Manager (List ε) κ σ (Request κ) (Request κ)).Stands other place := by
  cases place with
  | none => exact stood
  | some place =>
      obtain ⟨going, found, planned⟩ := stood
      rw [Agenda.plan_next? next] at planned
      refine ⟨going, found, (List.mem_cons.mp planned).resolve_left ?_⟩
      intro same
      exact apart (Turn.task.inj (Timer.mk.inj same).2)

-----------------------------------------------------------------------------------------
-- A run of tasks
-----------------------------------------------------------------------------------------

end Manager

/-- The task whose turn a turn is. -/
def Turn.task? : Turn κ μ ι → Option Nat
  | .task id => some id
  | _ => none

namespace Manager

/-- A run takes turns until none is left that comes by a limit. Its record has all events that the
turns leave, each with the task whose turn it was.
-/
inductive Runs (host : Host (List ε) κ σ μ ι) (limit : Time)
    : Manager (List ε) κ σ μ ι → List (Option Nat × ε) → Manager (List ε) κ σ μ ι → Prop
  | quiet {m} (quiet : m.agenda.QuietAt limit) : Runs host limit m [] m
  | turn {m turn agenda events record last} (next : m.agenda.next? limit = some (turn, agenda))
    (left : (take host { m with agenda } turn).world = m.world ++ events)
    (runs : Runs host limit (take host { m with agenda } turn) record last)
    : Runs host limit m (events.map (turn.task?, ·) ++ record) last

/-- The events of some tasks in a record. -/
def eventsOf (isOwn : Nat → Bool) (record : List (Option Nat × ε)) : List ε :=
  record.filterMap fun entry => if entry.1.any isOwn then some entry.2 else none

@[simp]
theorem eventsOf_append (isOwn : Nat → Bool) (record more : List (Option Nat × ε))
    : eventsOf isOwn (record ++ more) = eventsOf isOwn record ++ eventsOf isOwn more :=
  List.filterMap_append

/-- What a turn leaves is all its own task's. -/
theorem eventsOf_map (isOwn : Nat → Bool) (mover : Option Nat) (events : List ε)
    : eventsOf isOwn (events.map (mover, ·)) = if mover.any isOwn then events else [] := by
  simp only [eventsOf, List.filterMap_map, Function.comp_def]
  split <;> simp

/-- What comes of a run while no handler is under way: every task does what it does by itself. -/
structure Ran (host : Host (List ε) κ σ μ ι) (limit : Time) (m : Manager (List ε) κ σ μ ι)
    (record : List (Option Nat × ε)) (last : Manager (List ε) κ σ μ ι)
    : Prop where
  calm : last.Calm
  quiet : last.agenda.QuietAt limit
  table : last.table = m.table
  documents : last.documents = m.documents
  onward : m.now ≤ last.now
  within : last.now ≤ limit
  alone
    : ∀ {id : Nat} {standing : Standing κ σ},
        m.Stands id standing
        → ∃ final,
            last.Stands id final
            ∧ host.Alone limit standing (eventsOf (· == id) record) final

/-- In a run while no handler is under way every task does what it does by itself, by induction
over the turns.
-/
theorem Runs.ran {record : List (Option Nat × ε)}
    {last : Manager (List ε) κ σ (Request κ) (Request κ)} (runs : Runs host limit m record last)
    (separate : host.Separate) (calm : m.Calm) (within : m.now ≤ limit)
    : Ran host limit m record last := by
  induction runs with
  | @quiet m quiet =>
      refine ⟨calm, quiet, rfl, rfl, Nat.le_refl _, within, ?_⟩
      intro id standing stands
      cases standing with
      | none => exact ⟨none, stands, .ended⟩
      | some place =>
          have later : limit < place.1 := quiet.planned calm.ahead _ stands.2.2
          exact ⟨_, stands, .later later⟩
  | @turn m turn agenda events record last next left _ ih =>
      obtain ⟨mover, task, rfl, found, stood, went⟩ := calm.went separate next
      have stepped : m.step? host limit = some (Manager.take host { m with agenda } (.task mover)) :=
        Option.map_eq_some_iff.mpr ⟨_, next, rfl⟩
      have kept : (Manager.take host { m with agenda } (.task mover)).now = agenda.now :=
        (agendaKeeps_now agenda.now).take (m := { m with agenda }) rfl host _
      obtain ⟨_, onward, bound⟩ := step?_now calm.ahead stepped
      have soon : agenda.now ≤ limit := kept ▸ bound.elim (fun same => same ▸ within) id
      obtain ⟨world, table, _, documents, _⟩ := went.frame
      obtain rfl : (host.turn agenda.now task.stage).1 = events :=
        List.append_cancel_left (world.symm.trans left)
      have rest := ih (calm.take separate next) (kept ▸ soon)
      refine ⟨rest.calm, rest.quiet, rest.table.trans table, rest.documents.trans documents,
        Nat.le_trans onward rest.onward, rest.within, ?_⟩
      intro id standing stands
      rw [eventsOf_append, eventsOf_map]
      by_cases own : id = mover
      · subst own
        obtain rfl := stands.unique calm.consistent stood
        obtain ⟨final, ends, alone⟩ := rest.alone (went.stands found)
        refine ⟨final, ends, ?_⟩
        simpa [Turn.task?] using Host.Alone.turn soon alone
      · obtain ⟨final, ends, alone⟩ :=
          rest.alone (went.stands_other own (stands_next next own stands))
        refine ⟨final, ends, ?_⟩
        simpa [Turn.task?, Ne.symm own] using alone

end Manager

end EditorLint.Debounce
