import EditorLint.Debounce.Run
import EditorLint.Proofs.Agenda

/-! The tasks, the turns, the table and the lock of a debouncer fit together after every turn: an
unfinished task has one turn ahead of it and is the one that the table has for its document, and
the lock is in one pair of hands. A turn under way holds back what it was taken for.
-/

namespace EditorLint.Debounce

variable {ω κ σ μ ι : Type}

-----------------------------------------------------------------------------------------
-- What a turn holds, and what a host has to keep to
-----------------------------------------------------------------------------------------

/-- Whether a turn has been handed the lock. -/
def Turn.hasLock : Turn κ μ ι → Bool
  | .locked _ | .cleared _ => true
  | _ => false

/-- What has been taken off the agenda for the turn under way. -/
inductive Hand where
  | free
  | task (id : Nat)
  | lock

/-- How many turns of a task are in a hand. -/
def Hand.slots : Hand → Nat → Nat
  | .task other, id => if other = id then 1 else 0
  | _, _ => 0

/-- How often a hand has the lock. -/
def Hand.grips : Hand → Nat
  | .lock => 1
  | _ => 0

/-- What the taking of a turn leaves in hand. -/
def Turn.hand : Turn κ μ ι → Hand
  | .task id => .task id
  | .handler _ => .free
  | .locked _ | .cleared _ => .lock

/-- A turn of a task is held by that task. -/
theorem Turn.slots_hand (turn : Turn κ μ ι) (id : Nat)
    : turn.hand.slots id = if turn.isOf id then 1 else 0 := by
  cases turn <;> simp [Turn.hand, Hand.slots, Turn.isOf]

/-- A turn that has been handed the lock holds it. -/
theorem Turn.grips_hand (turn : Turn κ μ ι)
    : turn.hand.grips = if turn.hasLock then 1 else 0 := by
  cases turn <;> rfl

/-- A task is on its way to its end: it is to be told that it is cancelled, or it has been told
and its job is in a state in which it only takes its leave.
-/
def Task.Falling (falling : σ → Prop) (task : Task κ σ ι) : Prop :=
  task.interrupted = true ∨ ∃ state, task.stage = .running state ∧ falling state

/-- A task as `tearDown` leaves it: it is to be told of its end, for which `pending` waits. -/
def Task.doomed (pending : Pending κ ι) (task : Task κ σ ι) : Task κ σ ι :=
  { task with interrupted := true, waiter := some pending }

/-- A task as it is when it has ended. -/
def Task.spent (task : Task κ σ ι) : Task κ σ ι :=
  { task with stage := .ended, waiter := none }

/-- A cancelled job of the host takes its leave without waiting for the clock. -/
structure Host.Prompt (host : Host ω κ σ μ ι) (falling : σ → Prop) : Prop where
  interrupt
    : ∀ {now state world duration next},
        (host.interrupt now state world).2 = .wait duration next
        → duration = 0 ∧ falling next
  resume
    : ∀ {now state world duration next},
        falling state
        → (host.resume now state world).2 = .wait duration next
        → duration = 0 ∧ falling next

namespace Manager

/-- How many turns of a task are ahead. -/
def slots (m : Manager ω κ σ μ ι) (id : Nat) : Nat :=
  m.agenda.turns.countP (Turn.isOf id)

/-- In how many places of the manager the lock is held: by turns, and by those who wait for the
end of a task.
-/
def grips (m : Manager ω κ σ μ ι) : Nat :=
  m.agenda.ready.countP Turn.hasLock + m.tasks.countP (·.waiter.isSome)

/-- All parts of a debouncer fit together, apart from what is in hand, whatever its host does. -/
structure Consistent (hand : Hand) (m : Manager ω κ σ μ ι) : Prop where
  slots : ∀ id, m.slots id + hand.slots id = if m.hasEnded id then 0 else 1
  timed : ∀ timer ∈ m.agenda.timers, ∃ id, timer.turn = .task id
  lock : m.grips + hand.grips = if m.held then 1 else 0
  queue : m.held = false → m.queue = []
  table
    : ∀ {id task},
        m.tasks[id]? = some task
        → task.stage ≠ .ended
        → m.table.get? task.uri = some id
  known
    : ∀ {uri id},
        m.table.get? uri = some id
        → ∃ task, m.tasks[id]? = some task ∧ task.uri = uri
  waiter
    : ∀ {id : Nat} {task : Task κ σ ι} {pending : Pending κ ι},
        m.tasks[id]? = some task
        → task.waiter = some pending
        → task.stage ≠ .ended ∧ task.uri = pending.request.uri
  cleared
    : ∀ {pending},
        .cleared pending ∈ m.agenda.ready → m.unfinished? pending.request.uri = none

/-- A task for whose end someone waits is in hand, or on its way to its end with its turn ready. -/
def OnItsWay (falling : σ → Prop) (hand : Hand) (m : Manager ω κ σ μ ι) : Prop :=
  ∀ (id : Nat) (task : Task κ σ ι),
    m.tasks[id]? = some task
    → task.waiter.isSome
    → hand = .task id ∨ (task.Falling falling ∧ .task id ∈ m.agenda.ready)

/-- All parts of a debouncer fit together, apart from what is in hand, and cancelled jobs of its
host take their leave promptly.
-/
structure Coherent (falling : σ → Prop) (hand : Hand) (m : Manager ω κ σ μ ι) : Prop
    extends Consistent hand m where
  onItsWay : OnItsWay falling hand m

-----------------------------------------------------------------------------------------
-- Views of single tasks
-----------------------------------------------------------------------------------------

/-- A task has not ended if it is there in another stage. -/
theorem hasEnded_eq_false_iff {m : Manager ω κ σ μ ι} {id : Nat}
    : m.hasEnded id = false ↔ ∃ task, m.tasks[id]? = some task ∧ task.stage ≠ .ended := by
  unfold hasEnded
  cases found : m.tasks[id]? with
  | none => simp
  | some task =>
      obtain ⟨uri, stage, interrupted, waiter⟩ := task
      cases stage <;> simp

/-- The unfinished task of a document is the one in the table, as long as it has not ended. -/
theorem unfinished?_eq_some_iff {m : Manager ω κ σ μ ι} {uri : String} {id : Nat}
    : m.unfinished? uri = some id ↔ m.table.get? uri = some id ∧ m.hasEnded id = false := by
  simp [unfinished?, Option.filter_eq_some_iff]

/-- A document has no unfinished task if the task in the table, if any, has ended. -/
theorem unfinished?_eq_none_iff {m : Manager ω κ σ μ ι} {uri : String}
    : m.unfinished? uri = none ↔ ∀ id, m.table.get? uri = some id → m.hasEnded id = true := by
  simp [unfinished?, Option.filter_eq_none_iff]

/-- Whether a task has ended is seen in that task alone. -/
theorem hasEnded_congr {m next : Manager ω κ σ μ ι} {id : Nat}
    (same
      : (∃ task, next.tasks[id]? = some task ∧ task.stage ≠ .ended)
        ↔ ∃ task, m.tasks[id]? = some task ∧ task.stage ≠ .ended)
    : next.hasEnded id = m.hasEnded id := by
  rw [← hasEnded_eq_false_iff, ← hasEnded_eq_false_iff] at same
  cases before : m.hasEnded id <;> cases after : next.hasEnded id <;> simp_all

/-- A task that is changed is found changed, and all others are found as they were. -/
theorem getElem?_setTask {m : Manager ω κ σ μ ι} {id other : Nat}
    {f : Task κ σ ι → Task κ σ ι} {task : Task κ σ ι}
    : (m.setTask id f).tasks[other]? = some task
      ↔ ∃ old, m.tasks[other]? = some old ∧ task = if id = other then f old else old := by
  simp only [setTask, List.getElem?_modify, Option.map_eq_map, Option.map_eq_some_iff]
  by_cases same : id = other <;> simp [same, eq_comm]

/-- A change that ends no task leaves open which have ended. -/
theorem hasEnded_setTask {m : Manager ω κ σ μ ι} {id : Nat} {f : Task κ σ ι → Task κ σ ι}
    (keeps : ∀ task, m.tasks[id]? = some task → ((f task).stage = .ended ↔ task.stage = .ended))
    (other : Nat)
    : (m.setTask id f).hasEnded other = m.hasEnded other := by
  apply hasEnded_congr
  simp only [getElem?_setTask]
  constructor
  · intro given
    obtain ⟨_, ⟨task, found, rfl⟩, unfinished⟩ := given
    refine ⟨task, found, ?_⟩
    by_cases same : id = other
    · subst same
      simpa [keeps task found] using unfinished
    · simpa [same] using unfinished
  · intro given
    obtain ⟨task, found, unfinished⟩ := given
    refine ⟨_, ⟨task, found, rfl⟩, ?_⟩
    by_cases same : id = other
    · subst same
      simpa [keeps task found] using unfinished
    · simpa [same] using unfinished

/-- A task for whose end no one waits ends, and that is all. -/
theorem endTask_of_unawaited {m : Manager ω κ σ μ ι} {id : Nat}
    (unawaited : m.tasks[id]?.bind (·.waiter) = none)
    : m.endTask id = m.setTask id Task.spent := by
  dsimp only [endTask]
  rw [unawaited]
  rfl

/-- Whoever waits for the end of a task gets a turn when it ends. -/
theorem endTask_of_awaited {m : Manager ω κ σ μ ι} {id : Nat} {task : Task κ σ ι}
    {pending : Pending κ ι} (found : m.tasks[id]? = some task) (waits : task.waiter = some pending)
    : m.endTask id = (m.setTask id Task.spent).post (.cleared pending) := by
  simp only [endTask, found, Option.bind_some, waits]
  rfl

theorem tasks_endTask (m : Manager ω κ σ μ ι) (id : Nat)
    : (m.endTask id).tasks = (m.setTask id Task.spent).tasks := by
  dsimp only [endTask]
  split <;> rfl

/-- Turns that are ready stay ready when a task ends. -/
theorem mem_ready_endTask {m : Manager ω κ σ μ ι} {id : Nat} {turn : Turn κ μ ι}
    (ready : turn ∈ m.agenda.ready)
    : turn ∈ (m.endTask id).agenda.ready := by
  dsimp only [endTask]
  split
  · exact ready
  · exact List.mem_append_left _ ready

/-- Changing a task leaves the tasks before it and after it alone. -/
theorem setTask_split {m : Manager ω κ σ μ ι} {id : Nat} {task : Task κ σ ι}
    (found : m.tasks[id]? = some task) (f : Task κ σ ι → Task κ σ ι)
    : ∃ before after,
        m.tasks = before ++ task :: after
        ∧ (m.setTask id f).tasks = before ++ f task :: after := by
  obtain ⟨inside, same⟩ := List.getElem?_eq_some_iff.mp found
  refine ⟨m.tasks.take id, m.tasks.drop (id + 1), ?_, ?_⟩
  · rw [← same, List.getElem_cons_drop, List.take_append_drop]
  · rw [← same]
    exact List.modify_eq_take_cons_drop inside

/-- A changed task is counted as it is now, and all others as before. -/
theorem countP_setTask {m : Manager ω κ σ μ ι} {id : Nat} {task : Task κ σ ι}
    (found : m.tasks[id]? = some task) (f : Task κ σ ι → Task κ σ ι)
    (kind : Task κ σ ι → Bool)
    : (m.setTask id f).tasks.countP kind + (if kind task then 1 else 0)
      = m.tasks.countP kind + if kind (f task) then 1 else 0 := by
  obtain ⟨before, after, old, new⟩ := setTask_split found f
  simp only [old, new, List.countP_append, List.countP_cons]
  omega

-----------------------------------------------------------------------------------------
-- One pair of hands has the lock
-----------------------------------------------------------------------------------------

variable {falling : σ → Prop} {hand : Hand} {m : Manager ω κ σ μ ι}

/-- Where no one has the lock, no one waits for the end of a task. -/
theorem waiter_eq_none (nobody : m.grips = 0) {id : Nat} {task : Task κ σ ι}
    (found : m.tasks[id]? = some task)
    : task.waiter = none := by
  have none : m.tasks.countP (·.waiter.isSome) = 0 := by
    simp only [grips] at nobody
    omega
  simpa using List.countP_eq_zero.mp none task (List.mem_of_getElem? found)

/-- Where no one has the lock, no turn comes after the end of a task that was waited for. -/
theorem cleared_notMem (nobody : m.grips = 0) {pending : Pending κ ι}
    : .cleared pending ∉ m.agenda.ready := by
  have none : m.agenda.ready.countP Turn.hasLock = 0 := by
    simp only [grips] at nobody
    omega
  intro ready
  simpa [Turn.hasLock] using List.countP_eq_zero.mp none _ ready

/-- Where no one waits for the end of a task, no task has to be on its way. -/
theorem onItsWay_of_nobody (nobody : m.grips = 0) : OnItsWay falling hand m := by
  intro id task found waits
  simp [waiter_eq_none nobody found] at waits

namespace Consistent

/-- The host's state has no part in how tasks, turns, table and lock fit together. -/
theorem withWorld (consistent : Consistent hand m) (world : ω)
    : Consistent hand { m with world } :=
  ⟨consistent.slots, consistent.timed, consistent.lock, consistent.queue, consistent.table,
    consistent.known, consistent.waiter, consistent.cleared⟩

/-- A change that revives no task and moves none to another document keeps the table right. -/
theorem table_setTask (consistent : Consistent hand m) {id other : Nat}
    {f : Task κ σ ι → Task κ σ ι} {task : Task κ σ ι}
    (keepsUri : ∀ task, (f task).uri = task.uri)
    (revivesNone : ∀ task, task.stage = .ended → (f task).stage = .ended)
    (found : (m.setTask id f).tasks[other]? = some task) (unfinished : task.stage ≠ .ended)
    : m.table.get? task.uri = some other := by
  obtain ⟨old, before, rfl⟩ := getElem?_setTask.mp found
  by_cases same : id = other
  · rw [if_pos same] at unfinished ⊢
    rw [keepsUri]
    exact consistent.table before fun spent => unfinished (revivesNone old spent)
  · rw [if_neg same] at unfinished ⊢
    exact consistent.table before unfinished

/-- A change that moves no task to another document leaves in the table what it has. -/
theorem known_setTask (consistent : Consistent hand m) {id other : Nat} {uri : String}
    {f : Task κ σ ι → Task κ σ ι} (keepsUri : ∀ task, (f task).uri = task.uri)
    (stored : m.table.get? uri = some other)
    : ∃ task, (m.setTask id f).tasks[other]? = some task ∧ task.uri = uri := by
  obtain ⟨old, before, rfl⟩ := consistent.known stored
  refine ⟨_, getElem?_setTask.mpr ⟨old, before, rfl⟩, ?_⟩
  split
  · exact keepsUri old
  · rfl

/-- A turn with the lock in hand leaves no one else with it. -/
theorem grips_eq_zero (consistent : Consistent .lock m) : m.grips = 0 ∧ m.held = true := by
  have lock := consistent.lock
  simp only [Hand.grips] at lock
  split at lock
  · exact ⟨by omega, ‹_›⟩
  · omega

/-- A free lock is in nobody's hands. -/
theorem grips_eq_zero_of_free (consistent : Consistent hand m) (free : m.held = false)
    : m.grips = 0 := by
  have lock := consistent.lock
  simp only [free, Bool.false_eq_true, if_false] at lock
  omega

/-- A turn takes the lock that nobody has. -/
theorem takeLock (consistent : Consistent .free m) (free : m.held = false)
    : Consistent .lock { m with held := true } where
  slots := consistent.slots
  timed := consistent.timed
  lock := by
    have nobody : ({ m with held := true } : Manager ω κ σ μ ι).grips = 0 :=
      consistent.grips_eq_zero_of_free free
    rw [nobody]
    rfl
  queue impossible := by cases impossible
  table := consistent.table
  known := consistent.known
  waiter := consistent.waiter
  cleared := consistent.cleared

end Consistent

namespace Coherent

/-- The host's state has no part in who is on its way either. -/
theorem withWorld (coherent : Coherent falling hand m) (world : ω)
    : Coherent falling hand { m with world } :=
  ⟨coherent.toConsistent.withWorld world, coherent.onItsWay⟩

/-- A turn that takes the lock leaves no task for whose end someone waits. -/
theorem takeLock (coherent : Coherent falling .free m) (free : m.held = false)
    : Coherent falling .lock { m with held := true } :=
  ⟨coherent.toConsistent.takeLock free,
    onItsWay_of_nobody (coherent.toConsistent.grips_eq_zero_of_free free)⟩

end Coherent

end Manager

end EditorLint.Debounce
