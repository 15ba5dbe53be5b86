import EditorLint.Proofs.Debounce.Duties.Steps

/-! Turns of tasks keep the debouncer's duties if those of their jobs do, and so does any other
turn but that of a handler which starts.
-/

namespace EditorLint.Debounce

variable {ω κ σ μ ι : Type} {host : Host ω κ σ μ ι} {falling : σ → Prop} {duty : Duty ω κ σ ι}
  {m : Manager ω κ σ μ ι}

/-- What a turn of a job for a document leads to: nothing changes for other documents, and if
the job serves its document, it still does so where it goes on, and has done what is to be done
where it ends.
-/
def Duty.Leads (duty : Duty ω κ σ ι) (host : Host ω κ σ μ ι) (now : Time) (uri : String)
    (world : ω) (serves : Prop) : ω × Outcome σ → Prop
  | (after, .wait _ state) =>
    duty.Frame uri world after ∧ (serves → duty.fits after uri (.running state))
  | (after, .finished) | (after, .cancelled) =>
    duty.Frame uri world after ∧ (serves → duty.done after uri)
  | (after, .failed failure) =>
    duty.Frame uri world (host.report now failure after)
    ∧ (serves → duty.done (host.report now failure after) uri)

/-- A turn is looked at apart for jobs that serve their document and for others. -/
theorem Duty.Leads.of_cases {now : Time} {uri : String} {world : ω} {serves : Prop}
    {result : ω × Outcome σ} (does : serves → duty.Leads host now uri world True result)
    (other : ¬ serves → duty.Leads host now uri world False result)
    : duty.Leads host now uri world serves result := by
  by_cases which : serves
  · rw [eq_true which]
    exact does which
  · rw [eq_false which]
    exact other which

namespace Manager.Dutiful

/-- A task that is waited for may change in all that is not looked at. -/
theorem setTask {hand : List ι} (dutiful : Dutiful duty hand m) {id : Nat} {task : Task κ σ ι}
    (found : m.tasks[id]? = some task) (awaited : task.waiter ≠ none)
    {f : Task κ σ ι → Task κ σ ι} (keepsWaiter : ∀ task, (f task).waiter = task.waiter)
    : Dutiful duty hand (m.setTask id f) := by
  have waits (pending : Pending κ ι) : (m.setTask id f).Waits pending ↔ m.Waits pending :=
    waits_setTask keepsWaiter
  have promises (step : ι) := promises_congr hand waits step
  have kept {other : Nat} {another : Task κ σ ι} (there : m.tasks[other]? = some another)
      (unawaited : another.waiter = none)
      : (m.setTask id f).tasks[other]? = some another := by
    refine getElem?_setTask.mpr ⟨another, there, (if_neg ?_).symm⟩
    intro same
    subst same
    exact awaited (Option.some.inj (found.symm.trans there) ▸ unawaited)
  exact {
    holds := dutiful.holds
    called := fun step promised => dutiful.called step ((promises step).mp promised)
    asked := fun pending there => dutiful.asked pending ((waits pending).mp there)
    tasks := by
      intro other another there alive unawaited
      obtain ⟨old, before, rfl⟩ := getElem?_setTask.mp there
      by_cases same : id = other
      · subst same
        obtain rfl := Option.some.inj (found.symm.trans before)
        rw [if_pos rfl, keepsWaiter] at unawaited
        exact (awaited unawaited).elim
      · rw [if_neg same] at alive unawaited ⊢
        exact (dutiful.tasks other old before alive unawaited).imp_right
          (And.imp_left (Owes.congr · waits))
    all := by
      intro uri
      rcases dutiful.all uri with owed | ⟨other, another, there, own, serves⟩ | done
      · exact Or.inl (owed.congr waits)
      · exact Or.inr (Or.inl ⟨other, another, kept there serves.unawaited, own, serves⟩)
      · exact Or.inr (Or.inr done)
  }

/-- What follows from a turn of a job keeps the duties if the turn does. -/
theorem afterTurn (dutiful : Dutiful duty [] m) (met : duty.Met host) {id : Nat}
    (coherent : Coherent falling (.task id) m) {task : Task κ σ ι}
    (found : m.tasks[id]? = some task) {result : ω × Outcome σ}
    (calm : task.waiter = none → task.interrupted = false)
    (leads : duty.Leads host m.now task.uri m.world (task.waiter = none) result)
    : Dutiful duty [] (m.afterTurn host id result) := by
  obtain ⟨world, outcome⟩ := result
  cases outcome with
  | finished | cancelled => exact dutiful.ends met coherent found leads.1 leads.2
  | failed failure => exact dutiful.ends met coherent found leads.1 leads.2
  | wait duration state =>
      refine dutiful.goesOn (f := fun task => { task with stage := .running state }) met coherent
        found leads.1 (fun _ => rfl) (fun _ => rfl) duration ?_
      exact fun unawaited => ⟨nofun, unawaited, calm unawaited, leads.2 unawaited⟩

/-- A turn of a task keeps the duties if what its job does in each stage keeps them. -/
theorem runTask (dutiful : Dutiful duty [] m) (met : duty.Met host) {id : Nat}
    (coherent : Coherent falling (.task id) m) {task : Task κ σ ι}
    (found : m.tasks[id]? = some task)
    (serves : task.waiter = none → task.Serves duty m.world)
    (rests
      : ∀ job delay,
          task.stage = .created job delay
          → duty.fits m.world task.uri task.stage
          → duty.fits m.world task.uri (.delayed job))
    (starts
      : ∀ job,
          task.stage = .delayed job
          → duty.Leads host m.now task.uri m.world (task.waiter = none)
              (host.start m.now job m.world))
    (resumes
      : ∀ state,
          task.stage = .running state
          → task.interrupted = false
          → duty.Leads host m.now task.uri m.world (task.waiter = none)
              (host.resume m.now state m.world))
    (interrupts
      : ∀ state,
          task.stage = .running state
          → duty.Leads host m.now task.uri m.world False (host.interrupt m.now state m.world))
    : Dutiful duty [] (m.runTask host id) := by
  have calm (unawaited : task.waiter = none) : task.interrupted = false := (serves unawaited).calm
  have gone (told : task.interrupted = true) : Dutiful duty [] (m.endTask id) := by
    apply dutiful.ends met coherent found (.refl duty task.uri m.world)
    intro unawaited
    cases (calm unawaited).symm.trans told
  unfold Manager.runTask
  rw [found]
  dsimp only
  split
  next job delay stage =>
    split
    next told => exact gone told
    next =>
      refine dutiful.goesOn (f := fun task => { task with stage := .delayed job }) met coherent
        found (.refl duty task.uri m.world) (fun _ => rfl) (fun _ => rfl) delay ?_
      intro unawaited
      have before := serves unawaited
      exact ⟨nofun, unawaited, before.calm, rests job delay stage before.fits⟩
  next job stage =>
    split
    next told => exact gone told
    next => exact dutiful.afterTurn met coherent found calm (starts job stage)
  next state stage =>
    split
    next told =>
      have awaited : task.waiter ≠ none := by
        intro unawaited
        cases (calm unawaited).symm.trans told
      have told : Dutiful duty [] (m.setTask id fun task => { task with interrupted := false }) :=
        dutiful.setTask found awaited fun _ => rfl
      have turned : Coherent falling (.task id)
          (m.setTask id fun task => { task with interrupted := false }) :=
        coherent.setTask (fun _ => rfl) (fun _ => rfl) fun _ _ => Iff.rfl
      have now : (m.setTask id fun task => { task with interrupted := false }).tasks[id]?
          = some { task with interrupted := false } :=
        getElem?_setTask.mpr ⟨task, found, (if_pos rfl).symm⟩
      refine told.afterTurn met turned now (fun _ => rfl) ?_
      · have never : (task.waiter = none) = False := eq_false awaited
        change duty.Leads host m.now task.uri m.world (task.waiter = none) _
        rw [never]
        exact interrupts state stage
    next calmly =>
      refine dutiful.afterTurn met coherent found calm (resumes state stage ?_)
      simpa using calmly
  next spent =>
    obtain ⟨_, again, unfinished⟩ := coherent.inHand
    obtain rfl := Option.some.inj (found.symm.trans again)
    exact (unfinished spent).elim

/-- A turn that goes on with a step keeps the duties. -/
theorem take_pending (dutiful : Dutiful duty [] m) (met : duty.Met host)
    (coherent : Coherent falling .free m) {limit : Time} {turn : Turn κ μ ι}
    {agenda : Agenda (Turn κ μ ι)} (next : m.agenda.next? limit = some (turn, agenda))
    {pending : Pending κ ι} (goesOn : turn.pending? = some pending)
    : Dutiful duty [] ({ m with agenda }.take host turn) := by
  have taken := coherent.next next
  have inHand := dutiful.next coherent next
  have asked : pending.request = duty.asks m.world pending.step :=
    dutiful.asked pending ((waits_next coherent.toConsistent next pending).mpr (Or.inl goesOn))
  cases turn with
  | task id => cases goesOn
  | handler message => cases goesOn
  | locked first =>
      obtain rfl := Option.some.inj goesOn
      exact inHand.grant met taken asked
  | cleared first =>
      obtain rfl := Option.some.inj goesOn
      have clear := coherent.clear next
      obtain ⟨step, request, later⟩ := first
      dsimp only at asked
      subst asked
      exact (inHand.complete met taken clear).proceed met (taken.complete clear host step)

end Manager.Dutiful

end EditorLint.Debounce
