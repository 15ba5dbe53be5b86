import EditorLint.Proofs.Debounce.Coherence
import EditorLint.Proofs.Debounce.Worlds

/-! What is done under the lock leaves tasks, turns, table and lock together: giving the lock on,
doing what a step asks for, and cancelling the task that is in its way.
-/

namespace EditorLint.Debounce.Manager

variable {ω κ σ μ ι : Type} {falling : σ → Prop} {hand : Hand} {m : Manager ω κ σ μ ι}

/-- A new task is found at the end, and all others are found as they were. -/
theorem getElem?_concat_iff {α : Type} {items : List α} {item found : α} {i : Nat}
    : (items ++ [item])[i]? = some found
      ↔ items[i]? = some found ∨ (i = items.length ∧ found = item) := by
  rcases Nat.lt_trichotomy i items.length with inside | rfl | outside
  · simp [List.getElem?_append_left inside, Nat.ne_of_lt inside]
  · simp [eq_comm]
  · simp [List.getElem?_append_right (Nat.le_of_lt outside), Nat.ne_of_gt outside,
      List.getElem?_eq_none (Nat.le_of_lt outside), Nat.sub_ne_zero_of_lt outside]

-----------------------------------------------------------------------------------------
-- Whatever the host does
-----------------------------------------------------------------------------------------

namespace Consistent

/-- A turn that is posted takes what it holds with it. -/
theorem post (turn : Turn κ μ ι) (consistent : Consistent turn.hand m)
    (noTask : ∀ id, turn ≠ .task id)
    (clear : ∀ pending, turn = .cleared pending → m.unfinished? pending.request.uri = none)
    : Consistent .free (m.post turn) := by
  have posted := Agenda.turns_post m.agenda turn
  exact {
    slots := by
      intro id
      have before := consistent.slots id
      change (m.agenda.post turn).turns.countP (Turn.isOf id) + 0 = if m.hasEnded id then 0 else 1
      rw [posted.countP_eq, List.countP_cons]
      cases turn with
      | task id => exact (noTask id rfl).elim
      | handler _ | locked _ | cleared _ =>
          simpa [Manager.slots, Turn.hand, Hand.slots, Turn.isOf] using before
    timed := consistent.timed
    lock := by
      have lock := consistent.lock
      simp only [grips] at lock
      change (m.agenda.post turn).ready.countP _ + m.tasks.countP _ + 0 = if m.held then 1 else 0
      simp only [Agenda.post, List.countP_append, List.countP_singleton]
      cases turn <;> simp only [Turn.hand, Hand.grips, Turn.hasLock] at lock ⊢ <;> simp <;> omega
    queue := consistent.queue
    table := consistent.table
    known := consistent.known
    waiter := consistent.waiter
    cleared := by
      intro pending ready
      rcases List.mem_append.mp ready with old | new
      · exact consistent.cleared old
      · exact clear pending (List.mem_singleton.mp new).symm
  }

/-- The lock is handed to the first who waits for it, and is free if no one does. -/
theorem release (consistent : Consistent .lock m) : Consistent .free m.release := by
  obtain ⟨nobody, held⟩ := consistent.grips_eq_zero
  unfold Manager.release
  split
  next empty =>
    exact {
      slots := consistent.slots
      timed := consistent.timed
      lock := by simpa [grips, Hand.grips] using nobody
      queue := fun _ => empty
      table := consistent.table
      known := consistent.known
      waiter := consistent.waiter
      cleared := consistent.cleared
    }
  next first rest _ =>
    have shorter : Consistent .lock { m with queue := rest } := {
      consistent with
      queue := fun free => by simp [held] at free
    }
    apply Consistent.post (.locked first) shorter
    · intro id other
      cases other
    · intro pending other
      cases other

/-- What is asked for a document that has no unfinished task is done: a new task is the only
unfinished one of its document, and a document that is forgotten has none.
-/
theorem carryOut (consistent : Consistent .lock m) {request : Request κ}
    (cleared : m.unfinished? request.uri = none)
    : Consistent .lock (m.carryOut request) := by
  obtain ⟨nobody, held⟩ := consistent.grips_eq_zero
  have ended {id : Nat} {task : Task κ σ ι} (found : m.tasks[id]? = some task)
      (unfinished : task.stage ≠ .ended)
      : task.uri ≠ request.uri := by
    intro same
    have stored := consistent.table found unfinished
    have spent := unfinished?_eq_none_iff.mp cleared id (same ▸ stored)
    rw [hasEnded_eq_false_iff.mpr ⟨task, found, unfinished⟩] at spent
    cases spent
  cases request with
  | cancel uri =>
      exact {
        slots := consistent.slots
        timed := consistent.timed
        lock := consistent.lock
        queue := consistent.queue
        table := by
          intro id task found unfinished
          have apart : task.uri ≠ uri := ended found unfinished
          simpa [Manager.carryOut, Table.get?_erase, apart] using consistent.table found unfinished
        known := by
          intro other id stored
          by_cases same : other = uri
          · simp [Manager.carryOut, Table.get?_erase, same] at stored
          · apply consistent.known
            simpa [Manager.carryOut, Table.get?_erase, same] using stored
        waiter := consistent.waiter
        cleared := fun ready => (cleared_notMem nobody ready).elim
      }
  | schedule uri job delay =>
      have posted := Agenda.turns_post m.agenda (.task m.tasks.length : Turn κ μ ι)
      have absent : m.hasEnded m.tasks.length = true := by simp [hasEnded]
      exact {
        slots := by
          intro id
          have before := consistent.slots id
          have same : (m.carryOut (.schedule uri job delay)).hasEnded id
              = if m.tasks.length = id then false else m.hasEnded id := by
            split
            next new => simp [hasEnded, Manager.carryOut, ← new]
            next old =>
              apply hasEnded_congr
              simp [Manager.carryOut, getElem?_concat_iff, Ne.symm old]
          rw [same]
          simp only [Manager.slots, Manager.carryOut, posted.countP_eq, List.countP_cons,
            Turn.isOf, beq_iff_eq] at before ⊢
          by_cases new : m.tasks.length = id
          · subst new
            simp only [absent, if_true] at before
            simp only [if_true, Bool.false_eq_true, if_false]
            omega
          · simpa [new] using before
        timed := consistent.timed
        lock := by
          change (m.agenda.post _).ready.countP _ + (m.tasks ++ [_]).countP _ + 1
            = if m.held then 1 else 0
          simpa [grips, Hand.grips, Agenda.post, Turn.hasLock] using consistent.lock
        queue := consistent.queue
        table := by
          intro id task found unfinished
          rcases getElem?_concat_iff.mp found with old | ⟨rfl, rfl⟩
          · have apart : task.uri ≠ uri := ended old unfinished
            simpa [Manager.carryOut, Table.get?_insert, apart] using consistent.table old unfinished
          · simp [Manager.carryOut, Table.get?_insert]
        known := by
          intro other id stored
          simp only [Manager.carryOut, Table.get?_insert] at stored
          by_cases same : other = uri
          · rw [if_pos same, Option.some.injEq] at stored
            exact ⟨_, getElem?_concat_iff.mpr (Or.inr ⟨stored.symm, rfl⟩), same.symm⟩
          · rw [if_neg same] at stored
            obtain ⟨task, found, own⟩ := consistent.known stored
            exact ⟨task, getElem?_concat_iff.mpr (Or.inl found), own⟩
        waiter := by
          intro id task pending found waits
          rcases getElem?_concat_iff.mp found with old | ⟨_, rfl⟩
          · exact consistent.waiter old waits
          · cases waits
        cleared := by
          intro pending ready
          have old : (.cleared pending : Turn κ μ ι) ∈ m.agenda.ready := by
            simpa [Manager.carryOut, Agenda.post] using ready
          exact (cleared_notMem nobody old).elim
      }

/-- Doing what a step asks for ends in giving up the lock. -/
theorem complete (consistent : Consistent .lock m) {request : Request κ}
    (cleared : m.unfinished? request.uri = none) (host : Host ω κ σ μ ι) (step : ι)
    : Consistent .free (m.complete host step request) :=
  (consistent.carryOut cleared).release.withWorld _

/-- Whoever finds an unfinished task in the way keeps the lock while it waits for its end. The
task's only turn is then a ready one.
-/
theorem tearDown (consistent : Consistent .lock m) {pending : Pending κ ι} {id : Nat}
    (unfinished : m.unfinished? pending.request.uri = some id)
    : Consistent .free (m.tearDown id pending) := by
  obtain ⟨nobody, held⟩ := consistent.grips_eq_zero
  obtain ⟨stored, going⟩ := unfinished?_eq_some_iff.mp unfinished
  obtain ⟨task, found, own⟩ := consistent.known stored
  have once : m.agenda.turns.countP (Turn.isOf id) = 1 := by
    simpa [Manager.slots, Hand.slots, going] using consistent.slots id
  have ended : ∀ other, (m.setTask id (Task.doomed pending)).hasEnded other = m.hasEnded other :=
    hasEnded_setTask fun _ _ => Iff.rfl
  have onlyOwn {other : Turn κ μ ι} (isOwn : Turn.isOf id other) : other = .task id := by
    cases other <;> simp_all [Turn.isOf]
  exact {
    slots := by
      intro other
      have before := consistent.slots other
      change (Agenda.hasten m.agenda (Turn.isOf id) (.task id)).turns.countP (Turn.isOf other) + 0
        = if (m.setTask id (Task.doomed pending)).hasEnded other then 0 else 1
      rw [ended other]
      by_cases same : other = id
      · subst same
        rw [Agenda.countP_turns_hasten_self (by simp [Turn.isOf]) once, going]
        rfl
      · rw [Agenda.countP_turns_hasten (by simp [Turn.isOf, Ne.symm same])]
        · simpa [Manager.slots, Hand.slots] using before
        · intro turn isOwn
          rw [onlyOwn isOwn]
          simp [Turn.isOf, Ne.symm same]
    timed := fun timer member =>
      consistent.timed timer ((Agenda.timers_hasten _ _ _).subset member)
    lock := by
      have ready
          : (m.agenda.hasten (Turn.isOf id) (.task id)).ready.countP Turn.hasLock
            = m.agenda.ready.countP Turn.hasLock :=
        Agenda.countP_ready_hasten rfl
      have counted := countP_setTask found (Task.doomed pending) (·.waiter.isSome)
      have waits : (task.doomed pending).waiter = some pending := rfl
      simp only [waiter_eq_none nobody found, waits, Option.isSome_none, Option.isSome_some,
        Bool.false_eq_true, if_false, if_true] at counted
      simp only [grips] at nobody
      change (m.agenda.hasten _ _).ready.countP _
        + (m.setTask id (Task.doomed pending)).tasks.countP _ + 0 = if m.held then 1 else 0
      rw [ready, held, if_pos rfl]
      omega
    queue := fun free => by simp [Manager.tearDown, setTask, held] at free
    table :=
      consistent.table_setTask (f := Task.doomed pending) (fun _ => rfl) fun _ spent => spent
    known := consistent.known_setTask (f := Task.doomed pending) fun _ => rfl
    waiter := by
      intro other new waiting at_other waits
      obtain ⟨old, before, rfl⟩ := getElem?_setTask.mp at_other
      by_cases same : id = other
      · subst same
        obtain rfl := Option.some.inj (found.symm.trans before)
        rw [if_pos rfl] at waits ⊢
        obtain rfl := Option.some.inj waits
        obtain ⟨_, again, unfinished⟩ := hasEnded_eq_false_iff.mp going
        exact ⟨Option.some.inj (again.symm.trans found) ▸ unfinished, own⟩
      · rw [if_neg same] at waits ⊢
        exact consistent.waiter before waits
    cleared := by
      intro other ready
      rcases Agenda.mem_ready_of_hasten ready with old | same
      · exact (cleared_notMem nobody old).elim
      · cases same
  }

end Consistent

-----------------------------------------------------------------------------------------
-- With a host whose cancelled jobs take their leave promptly
-----------------------------------------------------------------------------------------

/-- A turn that is no task's is posted behind all others. -/
theorem OnItsWay.post {turn : Turn κ μ ι} (onItsWay : OnItsWay falling turn.hand m)
    (noTask : ∀ id, turn ≠ .task id)
    : OnItsWay falling .free (m.post turn) := by
  intro id task found waits
  rcases onItsWay id task found waits with mine | ⟨falls, ready⟩
  · cases turn with
    | task id => exact (noTask id rfl).elim
    | handler _ | locked _ | cleared _ => cases mine
  · exact Or.inr ⟨falls, List.mem_append_left _ ready⟩

namespace Coherent

/-- A turn that is posted takes what it holds with it. -/
theorem post (turn : Turn κ μ ι) (coherent : Coherent falling turn.hand m)
    (noTask : ∀ id, turn ≠ .task id)
    (clear : ∀ pending, turn = .cleared pending → m.unfinished? pending.request.uri = none)
    : Coherent falling .free (m.post turn) := by
  obtain ⟨consistent, onItsWay⟩ := coherent
  exact ⟨consistent.post turn noTask clear, onItsWay.post noTask⟩

/-- Doing what a step asks for leaves no task for whose end someone waits. -/
theorem complete (coherent : Coherent falling .lock m) {request : Request κ}
    (cleared : m.unfinished? request.uri = none) (host : Host ω κ σ μ ι) (step : ι)
    : Coherent falling .free (m.complete host step request) := by
  refine ⟨coherent.toConsistent.complete cleared host step, ?_⟩
  have nobody := (coherent.toConsistent.carryOut cleared).grips_eq_zero.1
  intro id task found waits
  rw [tasks_complete] at found
  simp [waiter_eq_none nobody found] at waits

/-- The task that is in the way is the only one for whose end someone waits, and its only turn is
then a ready one.
-/
theorem tearDown (coherent : Coherent falling .lock m) {pending : Pending κ ι} {id : Nat}
    (unfinished : m.unfinished? pending.request.uri = some id)
    : Coherent falling .free (m.tearDown id pending) := by
  refine ⟨coherent.toConsistent.tearDown unfinished, ?_⟩
  have nobody := coherent.toConsistent.grips_eq_zero.1
  obtain ⟨_, going⟩ := unfinished?_eq_some_iff.mp unfinished
  have once : m.agenda.turns.countP (Turn.isOf id) = 1 := by
    simpa [Manager.slots, Hand.slots, going] using coherent.slots id
  have onlyOwn {other : Turn κ μ ι} (isOwn : Turn.isOf id other) : other = .task id := by
    cases other <;> simp_all [Turn.isOf]
  intro other task found waits
  obtain ⟨old, before, rfl⟩ := getElem?_setTask.mp found
  by_cases same : id = other
  · subst same
    rw [if_pos rfl]
    exact Or.inr ⟨Or.inl rfl, Agenda.mem_ready_hasten_self (fun _ => onlyOwn) once⟩
  · rw [if_neg same, waiter_eq_none nobody before] at waits
    cases waits

end Coherent

end EditorLint.Debounce.Manager
