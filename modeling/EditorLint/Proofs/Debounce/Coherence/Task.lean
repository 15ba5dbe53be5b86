import EditorLint.Proofs.Debounce.Coherence.Lock

/-! A task in hand may change, begin to wait or end. If someone waits for its end, its end hands
the lock on to that one.
-/

namespace EditorLint.Debounce.Manager

variable {ω κ σ μ ι : Type} {falling : σ → Prop} {hand : Hand} {m : Manager ω κ σ μ ι}

/-- Only the task that ends has ended in addition. -/
theorem hasEnded_spent (m : Manager ω κ σ μ ι) (id other : Nat)
    : (m.setTask id Task.spent).hasEnded other = if other = id then true else m.hasEnded other := by
  by_cases same : other = id
  · rw [if_pos same, ← Bool.not_eq_false, hasEnded_eq_false_iff, same]
    intro given
    obtain ⟨_, changed, unfinished⟩ := given
    obtain ⟨old, _, rfl⟩ := getElem?_setTask.mp changed
    simp [Task.spent] at unfinished
  · rw [if_neg same]
    apply hasEnded_congr
    simp [getElem?_setTask, Ne.symm same]

-----------------------------------------------------------------------------------------
-- Whatever the host does
-----------------------------------------------------------------------------------------

namespace Consistent

/-- A task in hand has not ended. -/
theorem inHand {id : Nat} (consistent : Consistent (.task id) m)
    : ∃ task, m.tasks[id]? = some task ∧ task.stage ≠ .ended := by
  apply hasEnded_eq_false_iff.mp
  cases ended : m.hasEnded id with
  | false => rfl
  | true => simpa [Hand.slots, ended] using consistent.slots id

/-- The task in hand may change in all that the others do not look at. -/
theorem setTask {id : Nat} (consistent : Consistent (.task id) m)
    {f : Task κ σ ι → Task κ σ ι}
    (keepsUri : ∀ task, (f task).uri = task.uri)
    (keepsWaiter : ∀ task, (f task).waiter = task.waiter)
    (keepsEnd : ∀ task, m.tasks[id]? = some task → ((f task).stage = .ended ↔ task.stage = .ended))
    : Consistent (.task id) (m.setTask id f) := by
  obtain ⟨held, found, going⟩ := consistent.inHand
  have ended := hasEnded_setTask keepsEnd
  exact {
    slots := fun other => by rw [ended other]; exact consistent.slots other
    timed := consistent.timed
    lock := by
      have counted := countP_setTask found f (·.waiter.isSome)
      rw [keepsWaiter] at counted
      have lock := consistent.lock
      simp only [grips] at lock ⊢
      change m.agenda.ready.countP _ + (m.setTask id f).tasks.countP _ + _
        = if m.held then 1 else 0
      omega
    queue := consistent.queue
    table := by
      intro other task at_other unfinished
      obtain ⟨old, before, rfl⟩ := getElem?_setTask.mp at_other
      by_cases same : id = other
      · subst same
        rw [if_pos rfl] at unfinished ⊢
        rw [keepsUri]
        exact consistent.table before fun spent => unfinished ((keepsEnd old before).mpr spent)
      · rw [if_neg same] at unfinished ⊢
        exact consistent.table before unfinished
    known := consistent.known_setTask keepsUri
    waiter := by
      intro other task pending at_other waits
      obtain ⟨old, before, rfl⟩ := getElem?_setTask.mp at_other
      by_cases same : id = other
      · subst same
        rw [if_pos rfl] at waits ⊢
        rw [keepsWaiter] at waits
        obtain ⟨unfinished, own⟩ := consistent.waiter before waits
        exact ⟨fun spent => unfinished ((keepsEnd old before).mp spent), keepsUri old ▸ own⟩
      · rw [if_neg same] at waits ⊢
        exact consistent.waiter before waits
    cleared := by
      intro pending ready
      have before := consistent.cleared ready
      rw [unfinished?_eq_none_iff] at before ⊢
      intro other stored
      rw [ended other]
      exact before other stored
  }

/-- The task in hand begins to wait. -/
theorem wait {id : Nat} (consistent : Consistent (.task id) m) (duration : Time)
    : Consistent .free { m with agenda := m.agenda.wait duration (.task id) } := by
  have waiting := Agenda.turns_wait m.agenda duration (.task id : Turn κ μ ι)
  have noLock : (.task id : Turn κ μ ι).hasLock = false := rfl
  exact {
    slots := by
      intro other
      have before := consistent.slots other
      change (m.agenda.wait duration (.task id)).turns.countP (Turn.isOf other) + 0
        = if m.hasEnded other then 0 else 1
      rw [waiting.countP_eq, List.countP_cons]
      simpa [Manager.slots, Hand.slots, Turn.isOf] using before
    timed := by
      intro timer member
      rcases Agenda.mem_timers_wait member with rfl | old
      · exact ⟨id, rfl⟩
      · exact consistent.timed timer old
    lock := by
      have same : (m.agenda.wait duration (.task id)).ready.countP Turn.hasLock
          = m.agenda.ready.countP Turn.hasLock := by
        unfold Agenda.wait
        split <;> simp [Agenda.post, noLock]
      have lock := consistent.lock
      simp only [grips, same, Hand.grips] at lock ⊢
      exact lock
    queue := consistent.queue
    table := consistent.table
    known := consistent.known
    waiter := consistent.waiter
    cleared := by
      intro pending ready
      rcases Agenda.mem_ready_wait.mp ready with old | ⟨_, other⟩
      · exact consistent.cleared old
      · cases other
  }

/-- A task in hand ends. If someone waits for that, the lock it holds is then in hand. -/
theorem spent {id : Nat} {task : Task κ σ ι} (consistent : Consistent (.task id) m)
    (found : m.tasks[id]? = some task)
    : Consistent (if task.waiter.isSome then .lock else .free)
        (m.setTask id Task.spent) where
  slots other := by
    have before := consistent.slots other
    have free : (if task.waiter.isSome then Hand.lock else Hand.free).slots other = 0 := by
      split <;> rfl
    rw [free, hasEnded_spent]
    change m.slots other + 0 = _
    by_cases same : other = id
    · subst same
      rw [hasEnded_eq_false_iff.mpr consistent.inHand] at before
      simp only [Hand.slots, if_true, Bool.false_eq_true, if_false] at before
      simpa using before
    · simpa [Hand.slots, same, Ne.symm same] using before
  timed := consistent.timed
  lock := by
    have lock := consistent.lock
    have counted := countP_setTask found Task.spent (·.waiter.isSome)
    have gone : (Task.spent task).waiter.isSome = false := rfl
    simp only [grips, Hand.grips] at lock ⊢
    change m.agenda.ready.countP _ + (m.setTask id Task.spent).tasks.countP _ + _
      = if m.held then 1 else 0
    rw [gone] at counted
    cases waits : task.waiter.isSome <;> simp only [waits] at counted ⊢ <;> simp at counted ⊢ <;>
      omega
  queue := consistent.queue
  table := consistent.table_setTask (fun _ => rfl) (fun _ _ => rfl)
  known := consistent.known_setTask fun _ => rfl
  waiter := by
    intro other left pending at_other waits
    obtain ⟨old, before, rfl⟩ := getElem?_setTask.mp at_other
    by_cases same : id = other
    · simp [same, Task.spent] at waits
    · rw [if_neg same] at waits ⊢
      exact consistent.waiter before waits
  cleared := by
    intro pending ready
    have before := consistent.cleared ready
    rw [unfinished?_eq_none_iff] at before ⊢
    intro other stored
    rw [hasEnded_spent]
    split
    · rfl
    · exact before other stored

/-- A task that has ended frees whoever waits for its end; that one still has the lock, and finds
no unfinished task of its document.
-/
theorem endTask {id : Nat} (consistent : Consistent (.task id) m)
    : Consistent .free (m.endTask id) := by
  obtain ⟨task, found, going⟩ := consistent.inHand
  have ended := consistent.spent found
  cases waits : task.waiter with
  | none =>
      rw [endTask_of_unawaited (by simp [found, waits])]
      simpa [waits] using ended
  | some pending =>
      obtain ⟨_, own⟩ := consistent.waiter found waits
      rw [waits] at ended
      rw [endTask_of_awaited found waits]
      apply Consistent.post (.cleared pending) ended (fun _ other => by cases other)
      intro _ same
      cases same
      rw [unfinished?_eq_none_iff]
      intro other stored
      have mine := consistent.table found going
      rw [own] at mine
      rw [hasEnded_spent, if_pos (Option.some.inj (stored.symm.trans mine))]

end Consistent

-----------------------------------------------------------------------------------------
-- With a host whose cancelled jobs take their leave promptly
-----------------------------------------------------------------------------------------

namespace Coherent

/-- A task in hand has not ended. -/
theorem inHand {id : Nat} (coherent : Coherent falling (.task id) m)
    : ∃ task, m.tasks[id]? = some task ∧ task.stage ≠ .ended :=
  coherent.toConsistent.inHand

/-- The task in hand may change in all that the others do not look at. -/
theorem setTask {id : Nat} (coherent : Coherent falling (.task id) m)
    {f : Task κ σ ι → Task κ σ ι}
    (keepsUri : ∀ task, (f task).uri = task.uri)
    (keepsWaiter : ∀ task, (f task).waiter = task.waiter)
    (keepsEnd : ∀ task, m.tasks[id]? = some task → ((f task).stage = .ended ↔ task.stage = .ended))
    : Coherent falling (.task id) (m.setTask id f) := by
  obtain ⟨consistent, onItsWay⟩ := coherent
  refine ⟨consistent.setTask keepsUri keepsWaiter keepsEnd, ?_⟩
  intro other task at_other waits
  obtain ⟨old, before, rfl⟩ := getElem?_setTask.mp at_other
  by_cases same : id = other
  · exact Or.inl (congrArg Hand.task same)
  · rw [if_neg same] at waits ⊢
    exact onItsWay other old before waits

/-- The task in hand begins to wait. If someone waits for its end, it must be on its way there,
and may not wait for the clock.
-/
theorem wait {id : Nat} (coherent : Coherent falling (.task id) m) (duration : Time)
    (falls
      : ∀ task,
          m.tasks[id]? = some task
          → task.waiter.isSome
          → task.Falling falling ∧ duration = 0)
    : Coherent falling .free { m with agenda := m.agenda.wait duration (.task id) } := by
  obtain ⟨consistent, onItsWay⟩ := coherent
  refine ⟨consistent.wait duration, ?_⟩
  intro other task found waits
  rcases onItsWay other task found waits with mine | ⟨fallen, ready⟩
  · obtain rfl := Hand.task.inj mine
    obtain ⟨fallen, rfl⟩ := falls task found waits
    exact Or.inr ⟨fallen, Agenda.mem_ready_wait.mpr (Or.inr ⟨rfl, rfl⟩)⟩
  · exact Or.inr ⟨fallen, Agenda.mem_ready_wait.mpr (Or.inl ready)⟩

/-- A task that has ended frees whoever waits for its end; no one else waits for one in hand. -/
theorem endTask {id : Nat} (coherent : Coherent falling (.task id) m)
    : Coherent falling .free (m.endTask id) := by
  obtain ⟨consistent, onItsWay⟩ := coherent
  refine ⟨consistent.endTask, ?_⟩
  intro other task found waits
  rw [tasks_endTask] at found
  obtain ⟨old, before, rfl⟩ := getElem?_setTask.mp found
  by_cases same : id = other
  · simp [same, Task.spent] at waits
  · rw [if_neg same] at waits ⊢
    rcases onItsWay other old before waits with mine | ⟨fallen, ready⟩
    · exact (same (Hand.task.inj mine)).elim
    · exact Or.inr ⟨fallen, mem_ready_endTask ready⟩

end Coherent

end EditorLint.Debounce.Manager
