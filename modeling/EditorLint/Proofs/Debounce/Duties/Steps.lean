import EditorLint.Proofs.Debounce.Duties

/-! Steps of handlers keep the debouncer's duties: a step that is taken has created a task that
fits, or its document is forgotten, and one that is not taken waits.
-/

namespace EditorLint.Debounce.Manager.Dutiful

variable {ω κ σ μ ι : Type} {host : Host ω κ σ μ ι} {falling : σ → Prop} {duty : Duty ω κ σ ι}
  {hand later : List ι} {m : Manager ω κ σ μ ι} {step : ι}

/-- Taking the lock changes no duty. -/
theorem takeLock (dutiful : Dutiful duty hand m) : Dutiful duty hand { m with held := true } where
  holds := dutiful.holds
  called step promised := by
    refine dutiful.called step (promised.imp_right ?_)
    exact fun ⟨pending, waits, member⟩ => ⟨pending, ⟨waits.somewhere⟩, member⟩
  asked pending waits := dutiful.asked pending ⟨waits.somewhere⟩
  tasks id task found unfinished unawaited := by
    refine (dutiful.tasks id task found unfinished unawaited).imp_right (And.imp_left ?_)
    refine fun owes => owes.mono fun step promised => promised.imp_right ?_
    exact fun ⟨pending, waits, member⟩ => ⟨pending, ⟨waits.somewhere⟩, member⟩
  all uri := by
    refine (dutiful.all uri).imp_left fun owes => owes.mono fun step promised => ?_
    exact promised.imp_right fun ⟨pending, waits, member⟩ => ⟨pending, ⟨waits.somewhere⟩, member⟩

/-- A step in hand that finds the lock taken waits for it. -/
theorem enqueue (dutiful : Dutiful duty (step :: later) m)
    : Dutiful duty []
        { m with queue := m.queue ++ [⟨step, duty.asks m.world step, later⟩] } := by
  have waits (another : Pending κ ι)
      : ({ m with queue := m.queue ++ [⟨step, duty.asks m.world step, later⟩] }
          : Manager ω κ σ μ ι).Waits another
        ↔ another = ⟨step, duty.asks m.world step, later⟩ ∨ m.Waits another := by
    constructor
    · intro given
      rcases given with ⟨ready | queued | awaited⟩
      · exact Or.inr ⟨Or.inl ready⟩
      · rcases List.mem_append.mp queued with old | new
        · exact Or.inr ⟨Or.inr (Or.inl old)⟩
        · exact Or.inl (List.mem_singleton.mp new)
      · exact Or.inr ⟨Or.inr (Or.inr awaited)⟩
    · intro given
      rcases given with rfl | ⟨ready | queued | awaited⟩
      · exact ⟨Or.inr (Or.inl (List.mem_append_right _ List.mem_cons_self))⟩
      · exact ⟨Or.inl ready⟩
      · exact ⟨Or.inr (Or.inl (List.mem_append_left _ queued))⟩
      · exact ⟨Or.inr (Or.inr awaited)⟩
  have promises (other : ι) := promises_of_waits waits other
  exact {
    holds := dutiful.holds
    called := fun other promised => dutiful.called other ((promises other).mp promised)
    asked := by
      intro pending there
      rcases (waits pending).mp there with rfl | old
      · rfl
      · exact dutiful.asked pending old
    tasks := by
      intro id task found unfinished unawaited
      refine (dutiful.tasks id task found unfinished unawaited).imp_right (And.imp_left ?_)
      exact fun owes => owes.mono fun other => (promises other).mpr
    all := by
      intro uri
      exact (dutiful.all uri).imp_left fun owes => owes.mono fun other => (promises other).mpr
  }

/-- A step in hand that finds a task in its way waits for the end of that task. -/
theorem tearDown (dutiful : Dutiful duty (step :: later) m) (met : duty.Met host)
    (coherent : Coherent falling .lock m) {id : Nat}
    (unfinished : m.unfinished? (duty.asks m.world step).uri = some id)
    : Dutiful duty [] (m.tearDown id ⟨step, duty.asks m.world step, later⟩) := by
  obtain ⟨stored, going⟩ := unfinished?_eq_some_iff.mp unfinished
  obtain ⟨task, found, own⟩ := coherent.known stored
  have unawaited := waiter_eq_none coherent.toConsistent.grips_eq_zero.1 found
  have waits (another : Pending κ ι)
      : (m.tearDown id ⟨step, duty.asks m.world step, later⟩).Waits another
        ↔ another = ⟨step, duty.asks m.world step, later⟩ ∨ m.Waits another :=
    waits_tearDown found unawaited ⟨step, duty.asks m.world step, later⟩
  have promises (other : ι) := promises_of_waits waits other
  have owes {uri : String} (owes : m.Owes duty (step :: later) uri) :=
    owes.mono fun other => (promises other).mpr
  exact {
    holds := dutiful.holds
    called := fun other promised => dutiful.called other ((promises other).mp promised)
    asked := by
      intro pending there
      rcases (waits pending).mp there with rfl | old
      · rfl
      · exact dutiful.asked pending old
    tasks := by
      intro other another there alive free
      obtain ⟨old, before, rfl⟩ := getElem?_setTask.mp there
      by_cases same : id = other
      · simp [same] at free
      · rw [if_neg same] at alive free ⊢
        apply (dutiful.tasks other old before alive free).imp_right
        intro given
        obtain ⟨owed, absent⟩ := given
        refine ⟨owes owed, fun ready => ?_⟩
        rcases Agenda.mem_ready_of_hasten ready with old | new
        · exact absent old
        · exact same (Turn.task.inj new).symm
    all := by
      intro uri
      rcases dutiful.all uri with owed | ⟨other, another, there, rfl, serves⟩ | done
      · exact Or.inl (owes owed)
      · by_cases same : id = other
        · subst same
          obtain rfl := Option.some.inj (found.symm.trans there)
          refine Or.inl (owes ⟨step, Or.inl List.mem_cons_self, ?_⟩)
          rw [← met.about m.world, own]
        · refine Or.inr (Or.inl ⟨other, another, ?_, rfl, serves⟩)
          exact getElem?_setTask.mpr ⟨another, there, (if_neg same).symm⟩
      · exact Or.inr (Or.inr done)
  }

/-- A turn of a task that is ready when a step has been taken was ready before, or is that of a
new task.
-/
theorem task_mem_ready_complete {id : Nat} {request : Request κ}
    (there : .task id ∈ (m.complete host step request).agenda.ready)
    : .task id ∈ m.agenda.ready ∨ id = m.tasks.length := by
  have carried (there : .task id ∈ (m.carryOut request).agenda.ready)
      : .task id ∈ m.agenda.ready ∨ id = m.tasks.length := by
    cases request with
    | cancel uri => exact Or.inl there
    | schedule uri job delay => simpa [carryOut, Agenda.post] using there
  change .task id ∈ (m.carryOut request).release.agenda.ready at there
  unfold Manager.release at there
  split at there
  · exact carried there
  · apply carried
    simpa [Agenda.post] using there

/-- A step that is taken creates a task that serves its document, or does what is to be done. All
other tasks are found as they were.
-/
theorem tasks_complete_cases (met : duty.Met host) (holds : duty.holds m.world)
    (called : duty.calls step)
    : let after := m.complete host step (duty.asks m.world step)
      (∀ (id : Nat) (task : Task κ σ ι),
          m.tasks[id]? = some task → after.tasks[id]? = some task)
        ∧ (∀ (id : Nat) (task : Task κ σ ι),
            after.tasks[id]? = some task
            → m.tasks[id]? = some task ∨ task.Serves duty after.world)
        ∧ ((∃ (id : Nat) (task : Task κ σ ι),
            after.tasks[id]? = some task
            ∧ task.uri = duty.about step
            ∧ task.Serves duty after.world)
          ∨ duty.done after.world (duty.about step)) := by
  intro after
  have about := met.about m.world step
  have world : after.world
      = host.finish (m.carryOut (duty.asks m.world step)).release.now step m.world := by
    simp [after, Manager.complete]
  have tasks : after.tasks = (m.carryOut (duty.asks m.world step)).tasks := tasks_complete ..
  rw [tasks, world]
  cases asked : duty.asks m.world step with
  | cancel uri =>
      obtain rfl : uri = duty.about step := by rw [← about, asked]; rfl
      exact ⟨fun _ _ => id, fun _ _ => Or.inl, Or.inr (met.cancel _ holds called asked)⟩
  | schedule uri job delay =>
      obtain rfl : uri = duty.about step := by rw [← about, asked]; rfl
      have serves
          : Task.Serves duty
              (host.finish (m.carryOut (.schedule (duty.about step) job delay)).release.now step
                m.world)
              { uri := duty.about step, stage := .created job delay, interrupted := false
                waiter := none } :=
        ⟨nofun, rfl, rfl, met.schedule _ holds called asked⟩
      refine ⟨?_, ?_, Or.inl ⟨m.tasks.length, _, ?_, rfl, serves⟩⟩
      · exact fun _ _ found => getElem?_concat_iff.mpr (Or.inl found)
      · intro id task found
        rcases getElem?_concat_iff.mp found with before | ⟨_, rfl⟩
        · exact Or.inl before
        · exact Or.inr serves
      · exact getElem?_concat_iff.mpr (Or.inr ⟨rfl, rfl⟩)

/-- A step in hand that finds nothing in its way is taken. Its document has no unfinished task
before, so no task of another document is touched.
-/
theorem complete (dutiful : Dutiful duty (step :: later) m) (met : duty.Met host)
    (coherent : Coherent falling .lock m)
    (cleared : m.unfinished? (duty.asks m.world step).uri = none)
    : Dutiful duty later (m.complete host step (duty.asks m.world step)) := by
  have called := dutiful.called step (Or.inl List.mem_cons_self)
  obtain ⟨kept, new, served⟩ := tasks_complete_cases (m := m) met dutiful.holds called
  have waits (pending : Pending κ ι)
      : (m.complete host step (duty.asks m.world step)).Waits pending ↔ m.Waits pending :=
    waits_complete host step (duty.asks m.world step)
  have frame
      : duty.Frame (duty.about step) m.world
          (m.complete host step (duty.asks m.world step)).world := by
    rw [show (m.complete host step (duty.asks m.world step)).world
        = host.finish (m.carryOut (duty.asks m.world step)).release.now step m.world by
      simp [Manager.complete]]
    exact met.finish _ dutiful.holds called
  -- All promises are kept, but for the step in hand, which is taken.
  have owes {uri : String} (owed : m.Owes duty (step :: later) uri) (apart : uri ≠ duty.about step)
      : (m.complete host step (duty.asks m.world step)).Owes duty later uri := by
    obtain ⟨other, promised, own⟩ := owed
    refine ⟨other, ?_, own⟩
    rcases promised with member | ⟨pending, there, member⟩
    · rcases List.mem_cons.mp member with rfl | behind
      · exact (apart own.symm).elim
      · exact Or.inl behind
    · exact Or.inr ⟨pending, (waits pending).mpr there, member⟩
  have elsewhere {id : Nat} {task : Task κ σ ι} (found : m.tasks[id]? = some task)
      (unfinished : task.stage ≠ .ended)
      : task.uri ≠ duty.about step := by
    intro same
    have stored := coherent.table found unfinished
    rw [same, ← met.about m.world step] at stored
    have spent := unfinished?_eq_none_iff.mp cleared id stored
    rw [hasEnded_eq_false_iff.mpr ⟨task, found, unfinished⟩] at spent
    cases spent
  have moved {task : Task κ σ ι} (apart : task.uri ≠ duty.about step)
      (serves : task.Serves duty m.world)
      : task.Serves duty (m.complete host step (duty.asks m.world step)).world :=
    ⟨serves.unfinished, serves.unawaited, serves.calm, frame.fits _ _ apart serves.fits⟩
  exact {
    holds := frame.holds dutiful.holds
    called := by
      intro other promised
      apply dutiful.called other
      rcases promised with member | ⟨pending, there, member⟩
      · exact Or.inl (List.mem_cons_of_mem step member)
      · exact Or.inr ⟨pending, (waits pending).mp there, member⟩
    asked := by
      intro pending there
      rw [frame.asks]
      exact dutiful.asked pending ((waits pending).mp there)
    tasks := by
      intro id task found unfinished unawaited
      rcases new id task found with before | serves
      · have apart := elsewhere before unfinished
        rcases dutiful.tasks id task before unfinished unawaited with serves | ⟨owed, absent⟩
        · exact Or.inl (moved apart serves)
        · refine Or.inr ⟨owes owed apart, fun there => ?_⟩
          rcases task_mem_ready_complete there with ready | rfl
          · exact absent ready
          · simp at before
      · exact Or.inl serves
    all := by
      intro other
      by_cases same : other = duty.about step
      · exact Or.inr (same ▸ served)
      · rcases dutiful.all other with owed | ⟨id, task, found, mine, serves⟩ | done
        · exact Or.inl (owes owed same)
        · exact Or.inr (Or.inl ⟨id, task, kept id task found, mine, moved (mine ▸ same) serves⟩)
        · exact Or.inr (Or.inr (frame.done other same done))
  }

/-- A handler takes its steps one after the other, by induction over them. -/
theorem proceed {steps : List ι} (dutiful : Dutiful duty steps m) (met : duty.Met host)
    (coherent : Coherent falling .free m)
    : Dutiful duty [] (m.proceed host steps) := by
  have takes {m : Manager ω κ σ μ ι} {step : ι} {later : List ι}
      (dutiful : Dutiful duty (step :: later) m)
      : host.request m.now step m.world = (m.world, some (duty.asks m.world step)) :=
    met.request m.now dutiful.holds (dutiful.called step (Or.inl List.mem_cons_self))
  fun_induction Manager.proceed host m steps with
  | case1 m => exact dutiful
  | case2 m step later world refused =>
      cases (takes dutiful).symm.trans refused
  | case3 m step later world request asked given held =>
      obtain ⟨rfl, same⟩ := Prod.mk.inj ((takes dutiful).symm.trans asked)
      obtain rfl := Option.some.inj same
      exact dutiful.enqueue
  | case4 m step later world request asked given free id unfinished =>
      obtain ⟨rfl, same⟩ := Prod.mk.inj ((takes dutiful).symm.trans asked)
      obtain rfl := Option.some.inj same
      have locked := coherent.takeLock (by simpa using free)
      exact dutiful.takeLock.tearDown met locked unfinished
  | case5 m step later world request asked given free cleared ih =>
      obtain ⟨rfl, same⟩ := Prod.mk.inj ((takes dutiful).symm.trans asked)
      obtain rfl := Option.some.inj same
      have locked := coherent.takeLock (by simpa using free)
      exact ih (dutiful.takeLock.complete met locked cleared) (locked.complete cleared host step)

/-- Whoever has been handed the lock goes on with its step. -/
theorem grant {pending : Pending κ ι} (dutiful : Dutiful duty pending.steps m)
    (met : duty.Met host) (coherent : Coherent falling .lock m)
    (asked : pending.request = duty.asks m.world pending.step)
    : Dutiful duty [] (m.grant host pending) := by
  obtain ⟨step, request, later⟩ := pending
  dsimp only at asked
  subst asked
  unfold Manager.grant
  split
  next id unfinished => exact dutiful.tearDown met coherent unfinished
  next cleared =>
    exact (dutiful.complete met coherent cleared).proceed met (coherent.complete cleared host step)

end EditorLint.Debounce.Manager.Dutiful
