import EditorLint.Proofs.Debounce.Coherence.Turn

/-! The steps that wait, for the lock or for the end of a task, and those that have just been
given what they waited for. No turn loses one: what was taken from one place is in another, or
in hand.
-/

namespace EditorLint.Debounce

variable {ω κ σ μ ι : Type}

/-- The step that a turn goes on with. -/
def Turn.pending? : Turn κ μ ι → Option (Pending κ ι)
  | .locked pending | .cleared pending => some pending
  | _ => none

/-- The step that waits, and those after it. -/
def Pending.steps (pending : Pending κ ι) : List ι :=
  pending.step :: pending.later

/-- The steps that a turn goes on with. -/
def Turn.steps (turn : Turn κ μ ι) : List ι :=
  turn.pending?.elim [] Pending.steps

namespace Manager

/-- Somewhere a step waits, or has been given what it waited for. -/
structure Waits (m : Manager ω κ σ μ ι) (pending : Pending κ ι) : Prop where
  somewhere
    : (∃ turn ∈ m.agenda.ready, turn.pending? = some pending)
      ∨ pending ∈ m.queue
      ∨ ∃ (id : Nat) (task : Task κ σ ι), m.tasks[id]? = some task ∧ task.waiter = some pending

variable {m : Manager ω κ σ μ ι} {pending : Pending κ ι}

/-- A turn that goes on with a step is one with the lock. -/
theorem waits_ready {turn : Turn κ μ ι} (ready : turn ∈ m.agenda.ready)
    (goesOn : turn.pending? = some pending)
    : m.Waits pending :=
  ⟨Or.inl ⟨turn, ready, goesOn⟩⟩

theorem waits_task {id : Nat} {task : Task κ σ ι} (found : m.tasks[id]? = some task)
    (waits : task.waiter = some pending)
    : m.Waits pending :=
  ⟨Or.inr (Or.inr ⟨id, task, found, waits⟩)⟩

/-- Where the turns that go on with a step are the same, the same steps wait. -/
theorem waits_withAgenda {agenda : Agenda (Turn κ μ ι)}
    (same
      : ∀ turn : Turn κ μ ι,
          turn.pending?.isSome → (turn ∈ agenda.ready ↔ turn ∈ m.agenda.ready))
    : ({ m with agenda } : Manager ω κ σ μ ι).Waits pending ↔ m.Waits pending := by
  have ready
      : (∃ turn ∈ agenda.ready, turn.pending? = some pending)
        ↔ ∃ turn ∈ m.agenda.ready, turn.pending? = some pending := by
    constructor
    · intro somewhere
      obtain ⟨turn, here, goesOn⟩ := somewhere
      exact ⟨turn, (same turn (by simp [goesOn])).mp here, goesOn⟩
    · intro somewhere
      obtain ⟨turn, here, goesOn⟩ := somewhere
      exact ⟨turn, (same turn (by simp [goesOn])).mpr here, goesOn⟩
  constructor
  · intro somewhere
    obtain ⟨places⟩ := somewhere
    exact ⟨places.imp_left ready.mp⟩
  · intro somewhere
    obtain ⟨places⟩ := somewhere
    exact ⟨places.imp_left ready.mpr⟩

/-- The host's state has no part in who waits. -/
theorem waits_withWorld (world : ω)
    : ({ m with world } : Manager ω κ σ μ ι).Waits pending ↔ m.Waits pending :=
  ⟨fun waits => ⟨waits.somewhere⟩, fun waits => ⟨waits.somewhere⟩⟩

/-- A task that begins to wait for the clock goes on with no step. -/
theorem waits_wait (duration : Time) (id : Nat)
    : ({ m with agenda := m.agenda.wait duration (.task id) } : Manager ω κ σ μ ι).Waits pending
      ↔ m.Waits pending := by
  apply waits_withAgenda
  intro turn goesOn
  rw [Agenda.mem_ready_wait]
  constructor
  · intro somewhere
    rcases somewhere with old | ⟨_, rfl⟩
    · exact old
    · cases goesOn
  · exact Or.inl

/-- Who waits for the end of a task does so whatever else becomes of the task. -/
theorem waits_setTask {id : Nat} {f : Task κ σ ι → Task κ σ ι}
    (keepsWaiter : ∀ task, (f task).waiter = task.waiter)
    : (m.setTask id f).Waits pending ↔ m.Waits pending := by
  have waiters
      : (∃ (other : Nat) (task : Task κ σ ι),
          (m.setTask id f).tasks[other]? = some task ∧ task.waiter = some pending)
        ↔ ∃ (other : Nat) (task : Task κ σ ι),
          m.tasks[other]? = some task ∧ task.waiter = some pending := by
    have same (other : Nat) (task : Task κ σ ι)
        : (if id = other then f task else task).waiter = task.waiter := by
      split
      · exact keepsWaiter task
      · rfl
    constructor
    · intro somewhere
      obtain ⟨other, _, found, waits⟩ := somewhere
      obtain ⟨task, before, rfl⟩ := getElem?_setTask.mp found
      exact ⟨other, task, before, same other task ▸ waits⟩
    · intro somewhere
      obtain ⟨other, task, found, waits⟩ := somewhere
      exact ⟨other, _, getElem?_setTask.mpr ⟨task, found, rfl⟩, (same other task).trans waits⟩
  constructor
  · intro somewhere
    obtain ⟨places⟩ := somewhere
    exact ⟨places.imp_right (Or.imp_right waiters.mp)⟩
  · intro somewhere
    obtain ⟨places⟩ := somewhere
    exact ⟨places.imp_right (Or.imp_right waiters.mpr)⟩

/-- Who waited for the end of a task gets a turn when it ends. -/
theorem waits_endTask (id : Nat) : (m.endTask id).Waits pending ↔ m.Waits pending := by
  have kept {other : Nat} {task : Task κ σ ι} (apart : id ≠ other)
      (found : m.tasks[other]? = some task)
      : (m.setTask id Task.spent).tasks[other]? = some task :=
    getElem?_setTask.mpr ⟨task, found, (if_neg apart).symm⟩
  have old {other : Nat} {task : Task κ σ ι}
      (found : (m.setTask id Task.spent).tasks[other]? = some task)
      (waits : task.waiter = some pending)
      : m.Waits pending := by
    obtain ⟨before, there, rfl⟩ := getElem?_setTask.mp found
    split at waits
    · cases waits
    · exact waits_task there waits
  cases held : m.tasks[id]?.bind (·.waiter) with
  | none =>
      rw [endTask_of_unawaited held]
      constructor
      · intro somewhere
        rcases somewhere with ⟨ready | queued | ⟨other, task, found, waits⟩⟩
        · exact ⟨Or.inl ready⟩
        · exact ⟨Or.inr (Or.inl queued)⟩
        · exact old found waits
      · intro somewhere
        rcases somewhere with ⟨ready | queued | ⟨other, task, found, waits⟩⟩
        · exact ⟨Or.inl ready⟩
        · exact ⟨Or.inr (Or.inl queued)⟩
        · refine waits_task (kept ?_ found) waits
          intro same
          subst same
          simp [found, waits] at held
  | some first =>
      obtain ⟨task, found, waits⟩ := Option.bind_eq_some_iff.mp held
      rw [endTask_of_awaited found waits]
      constructor
      · intro somewhere
        rcases somewhere with ⟨⟨turn, ready, goesOn⟩ | queued | ⟨other, task, found, waits⟩⟩
        · rcases List.mem_append.mp ready with before | new
          · exact waits_ready before goesOn
          · obtain rfl := List.mem_singleton.mp new
            obtain rfl := Option.some.inj goesOn
            exact waits_task found waits
        · exact ⟨Or.inr (Or.inl queued)⟩
        · exact old found waits
      · intro somewhere
        rcases somewhere with ⟨⟨turn, ready, goesOn⟩ | queued | ⟨other, another, there, waiting⟩⟩
        · exact waits_ready (List.mem_append_left _ ready) goesOn
        · exact ⟨Or.inr (Or.inl queued)⟩
        · by_cases own : id = other
          · subst own
            obtain rfl := Option.some.inj (found.symm.trans there)
            obtain rfl := Option.some.inj (waits.symm.trans waiting)
            exact waits_ready (List.mem_append_right _ List.mem_cons_self) rfl
          · exact waits_task (m := (m.setTask id Task.spent).post _) (kept own there) waiting

/-- Who finds a task in the way waits with all others. -/
theorem waits_tearDown {id : Nat} {task : Task κ σ ι} (found : m.tasks[id]? = some task)
    (unawaited : task.waiter = none) (new : Pending κ ι)
    : (m.tearDown id new).Waits pending ↔ pending = new ∨ m.Waits pending := by
  have ready (turn : Turn κ μ ι) (goesOn : turn.pending? = some pending)
      : turn ∈ (m.tearDown id new).agenda.ready ↔ turn ∈ m.agenda.ready := by
    constructor
    · intro there
      rcases Agenda.mem_ready_of_hasten there with old | rfl
      · exact old
      · cases goesOn
    · exact Agenda.mem_ready_hasten
  constructor
  · intro somewhere
    rcases somewhere with ⟨⟨turn, there, goesOn⟩ | queued | ⟨other, changed, there, waits⟩⟩
    · exact Or.inr (waits_ready ((ready turn goesOn).mp there) goesOn)
    · exact Or.inr ⟨Or.inr (Or.inl queued)⟩
    · obtain ⟨old, before, rfl⟩ := getElem?_setTask.mp there
      split at waits
      · exact Or.inl (Option.some.inj waits).symm
      · exact Or.inr (waits_task before waits)
  · intro somewhere
    rcases somewhere with rfl | ⟨⟨turn, there, goesOn⟩ | queued | ⟨other, old, before, waits⟩⟩
    · have doomed : (m.tearDown id pending).tasks[id]? = some (task.doomed pending) :=
        getElem?_setTask.mpr ⟨task, found, (if_pos rfl).symm⟩
      exact waits_task doomed rfl
    · exact waits_ready ((ready turn goesOn).mpr there) goesOn
    · exact ⟨Or.inr (Or.inl queued)⟩
    · have apart : id ≠ other := by
        intro same
        subst same
        obtain rfl := Option.some.inj (found.symm.trans before)
        cases unawaited.symm.trans waits
      exact waits_task (m := m.tearDown id new)
        (getElem?_setTask.mpr ⟨old, before, (if_neg apart).symm⟩) waits

/-- Doing what a step asks for makes no one wait. -/
theorem waits_carryOut (request : Request κ)
    : (m.carryOut request).Waits pending ↔ m.Waits pending := by
  cases request with
  | cancel uri => exact ⟨fun waits => ⟨waits.somewhere⟩, fun waits => ⟨waits.somewhere⟩⟩
  | schedule uri job delay =>
      constructor
      · intro somewhere
        rcases somewhere with ⟨⟨turn, there, goesOn⟩ | queued | ⟨other, task, there, waits⟩⟩
        · rcases List.mem_append.mp there with old | new
          · exact waits_ready old goesOn
          · obtain rfl := List.mem_singleton.mp new
            cases goesOn
        · exact ⟨Or.inr (Or.inl queued)⟩
        · rcases getElem?_concat_iff.mp there with old | ⟨_, rfl⟩
          · exact waits_task old waits
          · cases waits
      · intro somewhere
        rcases somewhere with ⟨⟨turn, there, goesOn⟩ | queued | ⟨other, task, there, waits⟩⟩
        · exact waits_ready (List.mem_append_left _ there) goesOn
        · exact ⟨Or.inr (Or.inl queued)⟩
        · exact ⟨Or.inr (Or.inr
            ⟨other, task, getElem?_concat_iff.mpr (Or.inl there), waits⟩)⟩

/-- Who is handed the lock gets a turn. -/
theorem waits_release : m.release.Waits pending ↔ m.Waits pending := by
  unfold release
  split
  · exact ⟨fun waits => ⟨waits.somewhere⟩, fun waits => ⟨waits.somewhere⟩⟩
  next first rest waiting =>
    constructor
    · intro somewhere
      rcases somewhere with ⟨⟨turn, there, goesOn⟩ | queued | awaited⟩
      · rcases List.mem_append.mp there with old | new
        · exact waits_ready old goesOn
        · obtain rfl := List.mem_singleton.mp new
          obtain rfl := Option.some.inj goesOn
          exact ⟨Or.inr (Or.inl (by simp [waiting]))⟩
      · exact ⟨Or.inr (Or.inl (by simp [waiting, show pending ∈ rest from queued]))⟩
      · exact ⟨Or.inr (Or.inr awaited)⟩
    · intro somewhere
      rcases somewhere with ⟨⟨turn, there, goesOn⟩ | queued | awaited⟩
      · exact waits_ready (List.mem_append_left _ there) goesOn
      · rw [waiting] at queued
        rcases List.mem_cons.mp queued with rfl | later
        · exact waits_ready (List.mem_append_right _ List.mem_cons_self) rfl
        · exact ⟨Or.inr (Or.inl later)⟩
      · exact ⟨Or.inr (Or.inr awaited)⟩

theorem waits_complete (host : Host ω κ σ μ ι) (step : ι) (request : Request κ)
    : (m.complete host step request).Waits pending ↔ m.Waits pending :=
  (waits_withWorld (m := (m.carryOut request).release) _).trans
    (waits_release.trans (waits_carryOut request))

/-- The step that the next turn goes on with is in hand, and all others wait as before. -/
theorem waits_next {limit : Time} {turn : Turn κ μ ι} {agenda : Agenda (Turn κ μ ι)}
    (consistent : Consistent .free m)
    (next : m.agenda.next? limit = some (turn, agenda)) (pending : Pending κ ι)
    : m.Waits pending
      ↔ turn.pending? = some pending
        ∨ ({ m with agenda } : Manager ω κ σ μ ι).Waits pending := by
  have ready
      : (∃ other ∈ m.agenda.ready, other.pending? = some pending)
        ↔ turn.pending? = some pending
          ∨ ∃ other ∈ agenda.ready, other.pending? = some pending := by
    have first := consistent.filterMap_next (f := Turn.pending?) next fun _ => rfl
    rw [← List.mem_filterMap, first, List.mem_append, List.mem_filterMap, Option.mem_toList]
  constructor
  · intro somewhere
    rcases somewhere with ⟨here | elsewhere⟩
    · exact (ready.mp here).imp_right fun there => ⟨Or.inl there⟩
    · exact Or.inr ⟨Or.inr elsewhere⟩
  · intro somewhere
    rcases somewhere with goesOn | ⟨there | elsewhere⟩
    · exact ⟨Or.inl (ready.mpr (Or.inl goesOn))⟩
    · exact ⟨Or.inl (ready.mpr (Or.inr there))⟩
    · exact ⟨Or.inr elsewhere⟩

/-- Where no turn is ready, no step waits. -/
theorem Coherent.not_waits {falling : σ → Prop} (coherent : Coherent falling .free m)
    (nothing : m.agenda.ready = [])
    : ¬ m.Waits pending := by
  obtain ⟨_, empty, unawaited⟩ := coherent.quiet nothing
  intro somewhere
  rcases somewhere with ⟨⟨turn, there, _⟩ | queued | ⟨id, task, found, waits⟩⟩
  · simp [nothing] at there
  · simp [empty] at queued
  · cases (unawaited id task found).symm.trans waits

end Manager

end EditorLint.Debounce
