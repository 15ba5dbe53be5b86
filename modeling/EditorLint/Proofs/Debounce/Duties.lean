import EditorLint.Proofs.Debounce.Waiting
import EditorLint.Proofs.Debounce.Worlds

/-! What the debouncer owes to a document. A step for it is still to be taken, or a task that
fits is under way, or what is to be done is done: no turn leaves a document with none of the
three. A task that does not fit any more is cancelled before it comes to its next turn.
-/

namespace EditorLint.Debounce

variable {ω κ σ μ ι : Type}

/-- What is to be done for documents. -/
structure Duty (ω κ σ ι : Type) where
  /-- What is true of the host's state throughout. -/
  holds : ω → Prop
  /-- Whether a step is called for. -/
  calls : ι → Prop
  /-- The document that a step is about. -/
  about : ι → String
  /-- What a step is to ask for. -/
  asks : ω → ι → Request κ
  /-- Whether a task in a stage does for a document what is to be done. -/
  fits : ω → String → Stage κ σ → Prop
  /-- Whether what is to be done for a document is done. -/
  done : ω → String → Prop

namespace Duty

variable (duty : Duty ω κ σ ι)

/-- The host's state changes for one document alone. -/
structure Frame (uri : String) (before after : ω) : Prop where
  holds : duty.holds before → duty.holds after
  asks : ∀ step, duty.asks after step = duty.asks before step
  fits : ∀ other stage, other ≠ uri → duty.fits before other stage → duty.fits after other stage
  done : ∀ other, other ≠ uri → duty.done before other → duty.done after other

variable {duty} in
theorem Frame.trans {uri : String} {before middle after : ω} (first : duty.Frame uri before middle)
    (second : duty.Frame uri middle after)
    : duty.Frame uri before after where
  holds := second.holds ∘ first.holds
  asks step := (second.asks step).trans (first.asks step)
  fits other stage apart fits := second.fits other stage apart (first.fits other stage apart fits)
  done other apart done := second.done other apart (first.done other apart done)

theorem Frame.refl (uri : String) (world : ω) : duty.Frame uri world world :=
  ⟨id, fun _ => rfl, fun _ _ _ => id, fun _ _ => id⟩

/-- The steps of a host are taken as the duty says, and do what is to be done. -/
structure Met (host : Host ω κ σ μ ι) : Prop where
  about : ∀ world step, (duty.asks world step).uri = duty.about step
  request
    : ∀ {world step} now,
        duty.holds world
        → duty.calls step
        → host.request now step world = (world, some (duty.asks world step))
  finish
    : ∀ {world step} now,
        duty.holds world
        → duty.calls step
        → duty.Frame (duty.about step) world (host.finish now step world)
  schedule
    : ∀ {world step uri job delay} now,
        duty.holds world
        → duty.calls step
        → duty.asks world step = .schedule uri job delay
        → duty.fits (host.finish now step world) uri (.created job delay)
  cancel
    : ∀ {world step uri} now,
        duty.holds world
        → duty.calls step
        → duty.asks world step = .cancel uri
        → duty.done (host.finish now step world) uri

end Duty

/-- A task that nobody cancels does what is to be done. -/
structure Task.Serves (duty : Duty ω κ σ ι) (world : ω) (task : Task κ σ ι) : Prop where
  unfinished : task.stage ≠ .ended
  unawaited : task.waiter = none
  calm : task.interrupted = false
  fits : duty.fits world task.uri task.stage

namespace Manager

/-- A step is in hand, or waits, or comes after one that waits. -/
def Promises (hand : List ι) (m : Manager ω κ σ μ ι) (step : ι) : Prop :=
  step ∈ hand ∨ ∃ pending, m.Waits pending ∧ step ∈ pending.steps

/-- A step for a document is to be taken. -/
def Owes (duty : Duty ω κ σ ι) (hand : List ι) (m : Manager ω κ σ μ ι) (uri : String) : Prop :=
  ∃ step, m.Promises hand step ∧ duty.about step = uri

/-- All documents are being served, and with some steps in hand, nothing else is being done. -/
structure Dutiful (duty : Duty ω κ σ ι) (hand : List ι) (m : Manager ω κ σ μ ι) : Prop where
  holds : duty.holds m.world
  called : ∀ step, m.Promises hand step → duty.calls step
  asked : ∀ pending, m.Waits pending → pending.request = duty.asks m.world pending.step
  tasks
    : ∀ (id : Nat) (task : Task κ σ ι),
        m.tasks[id]? = some task
        → task.stage ≠ .ended
        → task.waiter = none
        → task.Serves duty m.world ∨ (m.Owes duty hand task.uri ∧ .task id ∉ m.agenda.ready)
  all
    : ∀ uri,
        m.Owes duty hand uri
        ∨ (∃ (id : Nat) (task : Task κ σ ι),
            m.tasks[id]? = some task ∧ task.uri = uri ∧ task.Serves duty m.world)
        ∨ duty.done m.world uri

variable {host : Host ω κ σ μ ι} {falling : σ → Prop} {duty : Duty ω κ σ ι} {hand other : List ι}
  {m after : Manager ω κ σ μ ι}

/-- Where no step is lost, what is owed is owed still. -/
theorem Owes.mono {uri : String} (owes : m.Owes duty hand uri)
    (kept : ∀ step, m.Promises hand step → after.Promises other step)
    : after.Owes duty other uri := by
  obtain ⟨step, promised, own⟩ := owes
  exact ⟨step, kept step promised, own⟩

/-- The same steps wait and are in hand. -/
theorem promises_congr (hand : List ι) (same : ∀ pending, after.Waits pending ↔ m.Waits pending)
    (step : ι)
    : after.Promises hand step ↔ m.Promises hand step := by
  simp only [Promises, same]

/-- Where the same steps wait, the same is owed. -/
theorem Owes.congr {uri : String} (owes : m.Owes duty hand uri)
    (same : ∀ pending, after.Waits pending ↔ m.Waits pending)
    : after.Owes duty hand uri :=
  owes.mono fun step => (promises_congr hand same step).mpr

/-- Steps that begin to wait have been in hand. -/
theorem promises_of_waits {pending : Pending κ ι}
    (same : ∀ another, after.Waits another ↔ another = pending ∨ m.Waits another) (step : ι)
    : after.Promises [] step ↔ m.Promises pending.steps step := by
  simp only [Promises, same, List.not_mem_nil, false_or]
  constructor
  · intro given
    rcases given with ⟨another, rfl | waits, member⟩
    · exact Or.inl member
    · exact Or.inr ⟨another, waits, member⟩
  · intro given
    rcases given with member | ⟨another, waits, member⟩
    · exact ⟨pending, Or.inl rfl, member⟩
    · exact ⟨another, Or.inr waits, member⟩

namespace Dutiful

-----------------------------------------------------------------------------------------
-- What is to be done changes
-----------------------------------------------------------------------------------------

/-- What did more does less, too. -/
theorem mono (dutiful : Dutiful duty hand m) {less : Duty ω κ σ ι} (holds : less.holds m.world)
    (calls : ∀ step, duty.calls step → less.calls step) (about : less.about = duty.about)
    (asks : less.asks = duty.asks)
    (fits : ∀ uri stage, duty.fits m.world uri stage → less.fits m.world uri stage)
    (done : ∀ uri, duty.done m.world uri → less.done m.world uri)
    : Dutiful less hand m := by
  have owes {uri : String} (owes : m.Owes duty hand uri) : m.Owes less hand uri := by
    obtain ⟨step, promised, own⟩ := owes
    exact ⟨step, promised, about ▸ own⟩
  have serves {task : Task κ σ ι} (serves : task.Serves duty m.world)
      : task.Serves less m.world :=
    ⟨serves.unfinished, serves.unawaited, serves.calm, fits _ _ serves.fits⟩
  exact {
    holds
    called := fun step promised => calls step (dutiful.called step promised)
    asked := asks ▸ dutiful.asked
    tasks := by
      intro id task found unfinished unawaited
      exact (dutiful.tasks id task found unfinished unawaited).imp serves (And.imp_left owes)
    all := by
      intro uri
      rcases dutiful.all uri with owed | ⟨id, task, found, own, serving⟩ | finished
      · exact Or.inl (owes owed)
      · exact Or.inr (Or.inl ⟨id, task, found, own, serves serving⟩)
      · exact Or.inr (Or.inr (done uri finished))
  }

/-- Letting the clock pass changes no duty. -/
theorem passTo (dutiful : Dutiful duty hand m) (instant : Time)
    : Dutiful duty hand { m with agenda := m.agenda.passTo instant } := by
  have waits (pending : Pending κ ι)
      : ({ m with agenda := m.agenda.passTo instant } : Manager ω κ σ μ ι).Waits pending
        ↔ m.Waits pending :=
    waits_withAgenda fun _ _ => Iff.rfl
  have promises (step : ι) := promises_congr hand waits step
  exact {
    holds := dutiful.holds
    called := fun step promised => dutiful.called step ((promises step).mp promised)
    asked := fun pending there => dutiful.asked pending ((waits pending).mp there)
    tasks := by
      intro id task found unfinished unawaited
      exact (dutiful.tasks id task found unfinished unawaited).imp_right
        (And.imp_left (Owes.congr · waits))
    all := fun uri => (dutiful.all uri).imp_left (Owes.congr · waits)
  }

/-- Where no turn is ready, tasks and what is done are all that there is. -/
theorem calm (dutiful : Dutiful duty [] m) (coherent : Coherent falling .free m)
    (nothing : m.agenda.ready = [])
    : (∀ (id : Nat) (task : Task κ σ ι),
        m.tasks[id]? = some task → task.stage ≠ .ended → task.Serves duty m.world)
      ∧ ∀ uri,
        (∃ (id : Nat) (task : Task κ σ ι),
          m.tasks[id]? = some task ∧ task.uri = uri ∧ task.Serves duty m.world)
        ∨ duty.done m.world uri := by
  have nobody {uri : String} : ¬ m.Owes duty [] uri := by
    intro given
    rcases given with ⟨_, member | ⟨_, waits, _⟩, _⟩
    · cases member
    · exact coherent.not_waits nothing waits
  refine ⟨?_, fun uri => (dutiful.all uri).resolve_left nobody⟩
  intro id task found unfinished
  have unawaited := (coherent.quiet nothing).2.2 id task found
  exact (dutiful.tasks id task found unfinished unawaited).resolve_right fun both => nobody both.1

/-- Where no turn is ready, what is to be done may change: for the documents for which it does,
steps have to be taken.
-/
theorem renew (dutiful : Dutiful duty [] m) (coherent : Coherent falling .free m)
    (nothing : m.agenda.ready = []) {another : Duty ω κ σ ι} {world : ω}
    (holds : another.holds world) (called : ∀ step ∈ hand, another.calls step)
    (kept
      : ∀ uri,
          (∃ step ∈ hand, another.about step = uri)
          ∨ (∀ stage, duty.fits m.world uri stage → another.fits world uri stage)
            ∧ (duty.done m.world uri → another.done world uri))
    : Dutiful another hand { m with world } := by
  obtain ⟨tasks, all⟩ := dutiful.calm coherent nothing
  have unwaited {pending : Pending κ ι}
      : ¬ ({ m with world } : Manager ω κ σ μ ι).Waits pending :=
    fun waits => coherent.not_waits nothing ((waits_withWorld world).mp waits)
  have owes {uri : String} (inHand : ∃ step ∈ hand, another.about step = uri)
      : ({ m with world } : Manager ω κ σ μ ι).Owes another hand uri := by
    obtain ⟨step, member, own⟩ := inHand
    exact ⟨step, Or.inl member, own⟩
  have serves {task : Task κ σ ι} (serves : task.Serves duty m.world)
      (fits : ∀ stage, duty.fits m.world task.uri stage → another.fits world task.uri stage)
      : task.Serves another world :=
    ⟨serves.unfinished, serves.unawaited, serves.calm, fits _ serves.fits⟩
  exact {
    holds
    called := by
      intro step given
      rcases given with member | ⟨_, waits, _⟩
      · exact called step member
      · exact (unwaited waits).elim
    asked := fun _ waits => (unwaited waits).elim
    tasks := by
      intro id task found unfinished _
      rcases kept task.uri with inHand | ⟨fits, _⟩
      · refine Or.inr ⟨owes inHand, fun ready => ?_⟩
        rw [show ({ m with world } : Manager ω κ σ μ ι).agenda.ready = [] from nothing] at ready
        cases ready
      · exact Or.inl (serves (tasks id task found unfinished) fits)
    all := by
      intro uri
      rcases kept uri with inHand | ⟨fits, done⟩
      · exact Or.inl (owes inHand)
      · refine Or.inr ((all uri).imp ?_ done)
        intro given
        obtain ⟨id, task, found, rfl, serving⟩ := given
        exact ⟨id, task, found, rfl, serves serving fits⟩
  }

-----------------------------------------------------------------------------------------
-- Turns of tasks
-----------------------------------------------------------------------------------------

/-- A task that no one waits for serves its document when its turn comes. -/
theorem serves_next (dutiful : Dutiful duty [] m) (coherent : Coherent falling .free m)
    {limit : Time} {id : Nat} {agenda : Agenda (Turn κ μ ι)} {task : Task κ σ ι}
    (next : m.agenda.next? limit = some (.task id, agenda)) (found : m.tasks[id]? = some task)
    (unfinished : task.stage ≠ .ended) (unawaited : task.waiter = none)
    : task.Serves duty m.world := by
  rcases dutiful.tasks id task found unfinished unawaited with serves | ⟨owes, absent⟩
  · exact serves
  · rcases Agenda.next?_cases next with ⟨ready, _⟩ | ⟨nothing, _⟩
    · exact (absent (ready ▸ List.mem_cons_self)).elim
    · obtain ⟨_, member | ⟨_, waits, _⟩, _⟩ := owes
      · cases member
      · exact (coherent.not_waits nothing waits).elim

/-- The steps that the next turn goes on with are in hand. -/
theorem next (dutiful : Dutiful duty [] m) (coherent : Coherent falling .free m) {limit : Time}
    {turn : Turn κ μ ι} {agenda : Agenda (Turn κ μ ι)}
    (next : m.agenda.next? limit = some (turn, agenda))
    : Dutiful duty turn.steps { m with agenda } := by
  have waits := waits_next coherent.toConsistent next
  have promises (step : ι)
      : ({ m with agenda } : Manager ω κ σ μ ι).Promises turn.steps step
        ↔ m.Promises [] step := by
    simp only [Promises, waits, Turn.steps, List.not_mem_nil, false_or]
    cases turn.pending? with
    | none => simp
    | some first =>
        simp only [Option.elim_some, Option.some.injEq]
        constructor
        · intro given
          rcases given with member | ⟨pending, there, member⟩
          · exact ⟨first, Or.inl rfl, member⟩
          · exact ⟨pending, Or.inr there, member⟩
        · intro given
          rcases given with ⟨pending, rfl | there, member⟩
          · exact Or.inl member
          · exact Or.inr ⟨pending, there, member⟩
  have owes {uri : String} (owes : m.Owes duty [] uri)
      : ({ m with agenda } : Manager ω κ σ μ ι).Owes duty turn.steps uri :=
    owes.mono fun step => (promises step).mpr
  exact {
    holds := dutiful.holds
    called := fun step promised => dutiful.called step ((promises step).mp promised)
    asked := fun pending there => dutiful.asked pending ((waits pending).mpr (Or.inr there))
    tasks := by
      intro id task found unfinished unawaited
      apply (dutiful.tasks id task found unfinished unawaited).imp_right
      intro given
      obtain ⟨owed, absent⟩ := given
      refine ⟨owes owed, ?_⟩
      rcases Agenda.next?_cases next with ⟨ready, _⟩ | ⟨nothing, _⟩
      · exact fun there => absent (ready ▸ List.mem_cons_of_mem turn there)
      · obtain ⟨_, member | ⟨_, waiting, _⟩, _⟩ := owed
        · cases member
        · exact (coherent.not_waits nothing waiting).elim
    all := fun uri => (dutiful.all uri).imp_left owes
  }

/-- A task of another document is not touched by what is done for one. -/
theorem serves_frame {id other : Nat} {task another : Task κ σ ι} {world : ω}
    {hand : Hand} (coherent : Coherent falling hand m) (frame : duty.Frame task.uri m.world world)
    (found : m.tasks[id]? = some task) (unfinished : task.stage ≠ .ended)
    (there : m.tasks[other]? = some another) (apart : id ≠ other)
    (serves : another.Serves duty m.world)
    : another.Serves duty world where
  unfinished := serves.unfinished
  unawaited := serves.unawaited
  calm := serves.calm
  fits := by
    refine frame.fits _ _ ?_ serves.fits
    intro same
    have mine := coherent.table found unfinished
    have theirs := coherent.table there serves.unfinished
    exact apart (Option.some.inj (mine.symm.trans (same ▸ theirs)))

/-- The document of a task for whose end someone waits is owed a step. -/
theorem owes_awaited (dutiful : Dutiful duty hand m) (met : duty.Met host)
    {inHand : Hand} (coherent : Coherent falling inHand m) {id : Nat} {task : Task κ σ ι}
    {pending : Pending κ ι} (found : m.tasks[id]? = some task)
    (waits : task.waiter = some pending)
    : m.Owes duty hand task.uri := by
  have waiting := waits_task found waits
  refine ⟨pending.step, Or.inr ⟨pending, waiting, List.mem_cons_self⟩, ?_⟩
  rw [← met.about m.world, ← dutiful.asked pending waiting]
  exact (coherent.waiter found waits).2.symm

/-- A task goes on: it still serves its document, or it is cancelled and someone waits for its
end.
-/
theorem goesOn (dutiful : Dutiful duty hand m) (met : duty.Met host) {id : Nat}
    (coherent : Coherent falling (.task id) m) {task : Task κ σ ι}
    (found : m.tasks[id]? = some task) {world : ω} (frame : duty.Frame task.uri m.world world)
    {f : Task κ σ ι → Task κ σ ι} (keepsUri : ∀ task, (f task).uri = task.uri)
    (keepsWaiter : ∀ task, (f task).waiter = task.waiter) (duration : Time)
    (serves : task.waiter = none → (f task).Serves duty world)
    : Dutiful duty hand
        { m.setTask id f with world, agenda := m.agenda.wait duration (.task id) } := by
  obtain ⟨_, again, unfinished⟩ := coherent.inHand
  obtain rfl := Option.some.inj (found.symm.trans again)
  have waits (pending : Pending κ ι)
      : ({ m.setTask id f with
          world, agenda := m.agenda.wait duration (.task id) } : Manager ω κ σ μ ι).Waits pending
        ↔ m.Waits pending :=
    (waits_withWorld (m := { m.setTask id f with agenda := _ }) world).trans
      ((waits_wait (m := m.setTask id f) duration id).trans (waits_setTask keepsWaiter))
  have promises (step : ι) := promises_congr hand waits step
  have changed : (m.setTask id f).tasks[id]? = some (f task) :=
    getElem?_setTask.mpr ⟨task, found, (if_pos rfl).symm⟩
  exact {
    holds := frame.holds dutiful.holds
    called := fun step promised => dutiful.called step ((promises step).mp promised)
    asked := by
      intro pending there
      rw [frame.asks]
      exact dutiful.asked pending ((waits pending).mp there)
    tasks := by
      intro other another there alive unawaited
      obtain ⟨old, before, rfl⟩ := getElem?_setTask.mp there
      by_cases same : id = other
      · subst same
        obtain rfl := Option.some.inj (found.symm.trans before)
        rw [if_pos rfl] at unawaited ⊢
        exact Or.inl (serves ((keepsWaiter task).symm.trans unawaited))
      · rw [if_neg same] at alive unawaited ⊢
        rcases dutiful.tasks other old before alive unawaited with serving | ⟨owed, absent⟩
        · exact Or.inl (serves_frame coherent frame found unfinished before same serving)
        · refine Or.inr ⟨owed.congr waits, fun ready => ?_⟩
          rcases Agenda.mem_ready_wait.mp ready with old | ⟨_, own⟩
          · exact absent old
          · exact same (Turn.task.inj own).symm
    all := by
      intro uri
      by_cases own : uri = task.uri
      · subst own
        cases awaited : task.waiter with
        | some pending =>
            exact Or.inl ((dutiful.owes_awaited met coherent found awaited).congr waits)
        | none => exact Or.inr (Or.inl ⟨id, f task, changed, keepsUri task, serves awaited⟩)
      · rcases dutiful.all uri with owed | ⟨other, another, there, rfl, serving⟩ | done
        · exact Or.inl (owed.congr waits)
        · have apart : id ≠ other := by
            intro same
            subst same
            exact own (congrArg Task.uri (Option.some.inj (there.symm.trans found)))
          refine Or.inr (Or.inl ⟨other, another, ?_, rfl, ?_⟩)
          · exact getElem?_setTask.mpr ⟨another, there, (if_neg apart).symm⟩
          · exact serves_frame coherent frame found unfinished there apart serving
        · exact Or.inr (Or.inr (frame.done uri own done))
  }

/-- A task ends: what was to be done for its document is done, or someone has waited for its
end.
-/
theorem ends (dutiful : Dutiful duty hand m) (met : duty.Met host) {id : Nat}
    (coherent : Coherent falling (.task id) m) {task : Task κ σ ι}
    (found : m.tasks[id]? = some task) {world : ω} (frame : duty.Frame task.uri m.world world)
    (done : task.waiter = none → duty.done world task.uri)
    : Dutiful duty hand (({ m with world } : Manager ω κ σ μ ι).endTask id) := by
  obtain ⟨_, again, unfinished⟩ := coherent.inHand
  obtain rfl := Option.some.inj (found.symm.trans again)
  have waits (pending : Pending κ ι)
      : (({ m with world } : Manager ω κ σ μ ι).endTask id).Waits pending ↔ m.Waits pending :=
    (waits_endTask id).trans (waits_withWorld world)
  have promises (step : ι) := promises_congr hand waits step
  have same : (({ m with world } : Manager ω κ σ μ ι).endTask id).tasks
      = (m.setTask id Task.spent).tasks :=
    tasks_endTask { m with world } id
  have ready (other : Nat)
      (there : .task other ∈ (({ m with world } : Manager ω κ σ μ ι).endTask id).agenda.ready)
      : .task other ∈ m.agenda.ready := by
    dsimp only [endTask] at there
    split at there
    · exact there
    · rcases List.mem_append.mp there with old | new
      · exact old
      · cases List.mem_singleton.mp new
  exact {
    holds := by
      rw [world_endTask]
      exact frame.holds dutiful.holds
    called := fun step promised => dutiful.called step ((promises step).mp promised)
    asked := by
      intro pending there
      rw [world_endTask, frame.asks]
      exact dutiful.asked pending ((waits pending).mp there)
    tasks := by
      intro other another there alive unawaited
      rw [same] at there
      rw [world_endTask]
      obtain ⟨old, before, rfl⟩ := getElem?_setTask.mp there
      by_cases own : id = other
      · simp [own, Task.spent] at alive
      · rw [if_neg own] at alive unawaited ⊢
        rcases dutiful.tasks other old before alive unawaited with serving | ⟨owed, absent⟩
        · exact Or.inl (serves_frame coherent frame found unfinished before own serving)
        · exact Or.inr ⟨owed.congr waits, fun here => absent (ready other here)⟩
    all := by
      intro uri
      rw [world_endTask, same]
      by_cases own : uri = task.uri
      · subst own
        cases awaited : task.waiter with
        | some pending =>
            exact Or.inl ((dutiful.owes_awaited met coherent found awaited).congr waits)
        | none => exact Or.inr (Or.inr (done awaited))
      · rcases dutiful.all uri with owed | ⟨other, another, there, rfl, serving⟩ | done
        · exact Or.inl (owed.congr waits)
        · have apart : id ≠ other := by
            intro same
            subst same
            exact own (congrArg Task.uri (Option.some.inj (there.symm.trans found)))
          refine Or.inr (Or.inl ⟨other, another, ?_, rfl, ?_⟩)
          · exact getElem?_setTask.mpr ⟨another, there, (if_neg apart).symm⟩
          · exact serves_frame coherent frame found unfinished there apart serving
        · exact Or.inr (Or.inr (frame.done uri own done))
  }

end Dutiful

end Manager

end EditorLint.Debounce
