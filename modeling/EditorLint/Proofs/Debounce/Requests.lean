import EditorLint.Proofs.Debounce.Chronicle

/-! A request that arrives when nothing is left to do. The unfinished task of its document, if
there is one, is told of its end and ends at once; then what is asked is done. No other task has a
turn until then.
-/

namespace EditorLint.Debounce

namespace Manager

variable {κ σ ε : Type} {host : Host (List ε) κ σ (Request κ) (Request κ)} {limit : Time}
  {m : Manager (List ε) κ σ (Request κ) (Request κ)}

/-- A task has ended and has left events, or there is none to end, and all else is as it was. -/
structure Cleared (host : Host (List ε) κ σ (Request κ) (Request κ))
    (m : Manager (List ε) κ σ (Request κ) (Request κ)) (old : Option Nat) (events : List ε)
    (mid : Manager (List ε) κ σ (Request κ) (Request κ)) : Prop where
  left
    : ∀ {id : Nat} {standing : Standing κ σ},
        old = some id → m.Stands id standing → events = host.leave m.now standing
  gone : ∀ {id : Nat}, old = some id → mid.hasEnded id = true
  others
    : ∀ {id : Nat} {standing : Standing κ σ},
        old ≠ some id → m.Stands id standing → mid.Stands id standing
  now : mid.now = m.now
  ready : mid.agenda.ready = []
  ahead : mid.agenda.Ahead
  free : mid.held = false
  documents : mid.documents = m.documents
  steady
    : ∀ {id : Nat} {task : Task κ σ (Request κ)},
        mid.tasks[id]? = some task → task.stage ≠ .ended → task.interrupted = false

/-- Where there is no task to end, nothing has to be done. -/
theorem Idle.cleared (idle : m.Idle) : Cleared host m none [] m where
  left impossible := nomatch impossible
  gone impossible := nomatch impossible
  others _ stood := stood
  now := rfl
  ready := idle.quiet.ready
  ahead := idle.calm.ahead
  free := idle.calm.free
  documents := rfl
  steady := idle.calm.steady

/-- A debouncer in which a task has been changed and waits no more, after events. -/
def without (m : Manager (List ε) κ σ (Request κ) (Request κ)) (id : Nat)
    (f : Task κ σ (Request κ) → Task κ σ (Request κ)) (events : List ε)
    : Manager (List ε) κ σ (Request κ) (Request κ) :=
  { m.setTask id f with
    world := m.world ++ events
    agenda := m.agenda.forgo (Turn.isOf id) }

/-- A task that ends and waits no more leaves all else as it was. -/
theorem Idle.cleared_without (idle : m.Idle) {id : Nat} {task : Task κ σ (Request κ)}
    {f : Task κ σ (Request κ) → Task κ σ (Request κ)} {events : List ε}
    (found : m.tasks[id]? = some task) (going : task.stage ≠ .ended)
    (same : ∀ task, (f task).uri = task.uri) (ends : (f task).stage = .ended)
    (left : ∀ due, events = host.leave m.now (some (due, task.stage)))
    : Cleared host m (some id) events (m.without id f events) where
  left {other standing} own stands := by
    obtain rfl := Option.some.inj own
    cases standing with
    | none => cases (hasEnded_eq_false_iff.mpr ⟨task, found, going⟩).symm.trans stands
    | some place =>
        obtain ⟨due, stage⟩ := place
        obtain ⟨_, ⟨again, refound, rfl⟩, _⟩ := stands
        obtain rfl := Option.some.inj (found.symm.trans refound)
        exact left due
  gone {other} own := by
    obtain rfl := Option.some.inj own
    have ended : (m.setTask id f).tasks[id]? = some (f task) :=
      getElem?_setTask.mpr ⟨task, found, (if_pos rfl).symm⟩
    apply Bool.of_not_eq_false
    intro still
    obtain ⟨other, there, unfinished⟩ := hasEnded_eq_false_iff.mp still
    obtain rfl := Option.some.inj (ended.symm.trans there)
    exact unfinished ends
  others {other standing} apart stood := by
    have kept : (m.setTask id f).tasks[other]? = m.tasks[other]? := by
      simp [setTask, show id ≠ other from fun same => apart (congrArg some same)]
    cases standing with
    | none => simpa only [Stands, hasEnded, without, kept] using stood
    | some place =>
        obtain ⟨unfinished, ⟨another, there, inStage⟩, planned⟩ := stood
        refine ⟨unfinished, ⟨another, kept.trans there, inStage⟩, ?_⟩
        have notOwn : Turn.isOf id (.task other : Turn κ (Request κ) (Request κ)) = false :=
          beq_eq_false_iff_ne.mpr fun same => apart (congrArg some same.symm)
        exact Agenda.mem_plan_forgo planned notOwn
  now := rfl
  ready := idle.quiet.ready
  ahead := idle.calm.ahead.forgo _
  free := idle.calm.free
  documents := documents_setTask m id same
  steady {other another} there unfinished := by
    obtain ⟨old, before, rfl⟩ := getElem?_setTask.mp there
    split at unfinished
    next own =>
      subst own
      obtain rfl := Option.some.inj (found.symm.trans before)
      exact (unfinished ends).elim
    next apart =>
      rw [if_neg apart]
      exact idle.calm.steady before unfinished

-----------------------------------------------------------------------------------------
-- The turns until what is asked is done
-----------------------------------------------------------------------------------------

/-- With the lock, and with no one else waiting for it, a request is done and the lock is free. -/
theorem complete_eq (separate : host.Separate) (nobody : m.queue = []) (request : Request κ)
    : m.complete host request request = ({ m with held := false }).carryOut request := by
  cases request <;> simp [complete, release, carryOut, nobody, separate.finish]

/-- The handler of a request asks for it, and that is all. -/
theorem take_handler (separate : host.Separate) (free : m.held = false) (request : Request κ)
    : take host m (.handler request)
      = match m.unfinished? request.uri with
        | some id => { m with held := true }.tearDown id ⟨request, request, []⟩
        | none => { m with held := true }.complete host request request := by
  have begun : take host m (.handler request) = m.proceed host [request] := by
    rw [take, separate.begin]
  rw [begun, proceed, separate.request]
  simp only [free, Bool.false_eq_true, if_false]
  rfl

/-- A request that finds no task to end is done in the turn of its handler. -/
theorem Idle.take_handler_of_none (idle : m.Idle) (separate : host.Separate)
    {request : Request κ} (unfinished : m.unfinished? request.uri = none)
    : take host m (.handler request) = m.carryOut request := by
  have nobody : m.queue = [] := idle.calm.consistent.queue idle.calm.free
  have same : ({ m with held := false } : Manager _ _ _ _ _) = m := by
    rw [← idle.calm.free]
  rw [take_handler separate idle.calm.free, unfinished]
  exact (complete_eq (m := { m with held := true }) separate nobody request).trans
    (congrArg (carryOut · request) same)

/-- A debouncer in which a task is to be told of its end, for which a call waits with the lock. -/
def torn (m : Manager (List ε) κ σ (Request κ) (Request κ)) (id : Nat)
    (call : Pending κ (Request κ)) : Manager (List ε) κ σ (Request κ) (Request κ) :=
  { m.setTask id (Task.doomed call) with
    held := true
    agenda := m.agenda.forgo (Turn.isOf id) }

/-- A request that finds a task to end has it told so in the turn of its handler. -/
theorem Idle.take_handler_of_some (idle : m.Idle) (separate : host.Separate)
    {request : Request κ} {id : Nat} (unfinished : m.unfinished? request.uri = some id)
    : take host m (.handler request) = (m.torn id ⟨request, request, []⟩).post (.task id) := by
  obtain ⟨_, going⟩ := unfinished?_eq_some_iff.mp unfinished
  obtain ⟨timer, planned, own⟩ := exists_planned idle.calm.consistent going
  have waits : timer ∈ m.agenda.timers := by
    simpa [Agenda.plan, idle.quiet.ready] using planned
  rw [take_handler separate idle.calm.free, unfinished]
  dsimp only [tearDown]
  rw [Agenda.hasten_eq_post waits own]
  rfl

/-- When the task has ended, the call that has waited for that is done. -/
theorem Idle.take_cleared (idle : m.Idle) (separate : host.Separate) (id : Nat)
    (request : Request κ) (f : Task κ σ (Request κ) → Task κ σ (Request κ)) (events : List ε)
    : take host { (m.torn id ⟨request, request, []⟩).setTask id f with world := m.world ++ events }
        (.cleared ⟨request, request, []⟩)
      = (m.without id (f ∘ Task.doomed ⟨request, request, []⟩) events).carryOut request := by
  have nobody : m.queue = [] := idle.calm.consistent.queue idle.calm.free
  have twice := List.modify_modify_eq (Task.doomed ⟨request, request, []⟩) f id m.tasks
  have free := idle.calm.free
  refine (complete_eq (m := { (m.torn id _).setTask id f with world := m.world ++ events })
    separate nobody request).trans (congrArg (carryOut · request) ?_)
  simp only [torn, without, setTask, free, twice]

/-- What follows from a last turn of a job for whose end someone waits. -/
theorem afterTurn_of_awaited (separate : host.Separate) {id : Nat} {task : Task κ σ (Request κ)}
    {call : Pending κ (Request κ)} (found : m.tasks[id]? = some task)
    (waits : task.waiter = some call) (result : List ε × Outcome σ)
    (isLast : ∀ duration next, result.2 ≠ .wait duration next)
    : m.afterTurn host id (m.world ++ result.1, result.2)
      = { m.setTask id Task.spent with
          world := m.world ++ (host.follow m.now result).1
          agenda := m.agenda.post (.cleared call) } := by
  obtain ⟨events, outcome⟩ := result
  have spent (world : List ε)
      : ({ m with world } : Manager _ _ _ _ _).endTask id
        = { m.setTask id Task.spent with world, agenda := m.agenda.post (.cleared call) } :=
    endTask_of_awaited (m := { m with world }) found waits
  cases outcome with
  | wait duration next => exact (isLast duration next rfl).elim
  | finished | cancelled => exact spent _
  | failed failure =>
      simp only [afterTurn, Host.follow, separate.report m.now failure (m.world ++ events),
        List.append_assoc, spent]

/-- A task that is to be told of its end ends in its next turn, and leaves what a cancelled task
leaves.
-/
theorem runTask_of_doomed (separate : host.Separate) {id : Nat} {task : Task κ σ (Request κ)}
    {call : Pending κ (Request κ)} (found : m.tasks[id]? = some task)
    (interrupted : task.interrupted = true) (waits : task.waiter = some call)
    (going : task.stage ≠ .ended)
    : ∃ f : Task κ σ (Request κ) → Task κ σ (Request κ),
        (∀ task, (f task).uri = task.uri ∧ (f task).stage = .ended)
        ∧ ∀ due,
            m.runTask host id
            = { m.setTask id f with
                world := m.world ++ host.leave m.now (some (due, task.stage))
                agenda := m.agenda.post (.cleared call) } := by
  cases stage : task.stage with
  | created job delay | delayed job =>
      refine ⟨Task.spent, fun _ => ⟨rfl, rfl⟩, ?_⟩
      intro due
      simp only [runTask, found, stage, interrupted, if_true, endTask_of_awaited found waits,
        Host.leave, List.append_nil]
      rfl
  | running state =>
      refine ⟨Task.spent ∘ fun task => { task with interrupted := false }, fun _ => ⟨rfl, rfl⟩, ?_⟩
      intro due
      have told : (m.setTask id fun task => { task with interrupted := false }).tasks[id]?
          = some { task with interrupted := false } :=
        getElem?_setTask.mpr ⟨task, found, (if_pos rfl).symm⟩
      simp only [runTask, found, stage, interrupted, if_true, Host.leave,
        separate.interrupt m.now state m.world]
      refine (afterTurn_of_awaited separate told waits _ (separate.leaves m.now state)).trans ?_
      simp only [setTask, List.modify_modify_eq]
      rfl
  | ended => exact (going stage).elim

/-- A turn that is posted when no other is ready is taken first. -/
theorem Runs.posted {turn : Turn κ (Request κ) (Request κ)} {record : List (Option Nat × ε)}
    {events : List ε} {last : Manager (List ε) κ σ (Request κ) (Request κ)}
    (runs : Runs host limit (m.post turn) record last) (nothing : m.agenda.ready = [])
    (left : (take host m turn).world = m.world ++ events)
    : ∃ rest,
        record = events.map (turn.task?, ·) ++ rest
        ∧ Runs host limit (take host m turn) rest last :=
  runs.next (Agenda.next?_post nothing turn limit) left

/-- A turn that is posted when no other is ready keeps everything together. -/
theorem Consistent.posted {turn : Turn κ (Request κ) (Request κ)}
    (host : Host (List ε) κ σ (Request κ) (Request κ)) (consistent : Consistent .free (m.post turn))
    (nothing : m.agenda.ready = [])
    : Consistent .free (take host m turn) := by
  have stepped : (m.post turn).step? host 0 = some (take host m turn) :=
    Option.map_eq_some_iff.mpr ⟨_, Agenda.next?_post nothing turn 0, rfl⟩
  exact consistent.step? stepped

/-- A run from the arrival of a request first ends the unfinished task of its document, if there
is one, then does what is asked, and goes on from there.
-/
theorem Idle.request_runs (idle : m.Idle) (separate : host.Separate) {request : Request κ}
    {record : List (Option Nat × ε)} {last : Manager (List ε) κ σ (Request κ) (Request κ)}
    (runs : Runs host limit (m.deliver request) record last)
    : ∃ events mid rest,
        Cleared host m (m.unfinished? request.uri) events mid
        ∧ record = events.map (m.unfinished? request.uri, ·) ++ rest
        ∧ (mid.carryOut request).Consistent .free
        ∧ Runs host limit (mid.carryOut request) rest last := by
  have nothing := idle.quiet.ready
  have consistent := (idle.calm.consistent.deliver request).posted host nothing
  cases unfinished : m.unfinished? request.uri with
  | none =>
      have done := idle.take_handler_of_none separate unfinished
      have left : (take host m (.handler request)).world = m.world ++ [] := by
        rw [done, world_carryOut, List.append_nil]
      obtain ⟨rest, same, goesOn⟩ := runs.posted nothing left
      rw [done] at consistent
      exact ⟨[], m, rest, idle.cleared, same, consistent, done ▸ goesOn⟩
  | some id =>
      obtain ⟨task, found, going⟩ :=
        hasEnded_eq_false_iff.mp (unfinished?_eq_some_iff.mp unfinished).2
      let call : Pending κ (Request κ) := ⟨request, request, []⟩
      let events := host.leave m.now (some (m.now, task.stage))
      -- the turn of the handler
      have tears := idle.take_handler_of_some separate unfinished
      obtain ⟨_, rfl, tearing⟩ :=
        runs.posted nothing ((congrArg world tears).trans (List.append_nil _).symm)
      rw [tears] at tearing consistent
      -- the last turn of the task
      have doomed : (m.torn id call).tasks[id]? = some (task.doomed call) :=
        getElem?_setTask.mpr ⟨task, found, (if_pos rfl).symm⟩
      obtain ⟨f, ends, told⟩ := runTask_of_doomed separate doomed rfl rfl going
      let fallen : Manager (List ε) κ σ (Request κ) (Request κ) :=
        { (m.torn id call).setTask id f with world := m.world ++ events }
      have falls : take host (m.torn id call) (.task id) = fallen.post (.cleared call) :=
        told m.now
      obtain ⟨_, rfl, falling⟩ := tearing.posted nothing (congrArg world falls)
      have consistent := consistent.posted host nothing
      rw [falls] at falling consistent
      -- the turn in which the request is done
      have does := idle.take_cleared separate id request f events
      have left : (take host fallen (.cleared call)).world = fallen.world ++ [] := by
        rw [does, world_carryOut]
        exact (List.append_nil _).symm
      obtain ⟨_, rfl, goesOn⟩ := falling.posted nothing left
      have consistent := consistent.posted host nothing
      rw [does] at goesOn consistent
      refine ⟨events, _, _, idle.cleared_without found going ?_ ?_ ?_, rfl, consistent, goesOn⟩
      · exact fun task => (ends _).1
      · exact (ends _).2
      · intro due
        cases stage : task.stage <;> simp only [events, stage, Host.leave]

-----------------------------------------------------------------------------------------
-- What is asked is done
-----------------------------------------------------------------------------------------

end Manager

/-- Where the task that a request creates stands at first. -/
def Request.standing {κ σ : Type} (now : Time) : Request κ → Standing κ σ
  | .schedule _ job delay => some (now, .created job delay)
  | .cancel _ => none

namespace Manager

variable {κ σ ε : Type} {host : Host (List ε) κ σ (Request κ) (Request κ)} {limit : Time}
  {m : Manager (List ε) κ σ (Request κ) (Request κ)}

/-- A request creates a task behind all others, or none. -/
theorem stands_carryOut_length (m : Manager (List ε) κ σ (Request κ) (Request κ))
    (request : Request κ)
    : (m.carryOut request).Stands m.tasks.length (request.standing m.now) := by
  cases request with
  | schedule uri job delay =>
      refine ⟨by simp, ⟨_, List.getElem?_concat_length, rfl⟩, ?_⟩
      exact (Agenda.plan_post m.agenda _).mem_iff.mpr List.mem_cons_self
  | cancel uri => simp [Request.standing, Stands, carryOut, hasEnded]

/-- All other tasks stand where they stood when what is asked is done. -/
theorem Stands.carryOut {id : Nat} {standing : Standing κ σ} (stands : m.Stands id standing)
    (request : Request κ) (old : id ≠ m.tasks.length)
    : (m.carryOut request).Stands id standing := by
  cases request with
  | cancel uri => exact stands
  | schedule uri job delay =>
      cases standing with
      | none =>
          have same : (m.carryOut (.schedule uri job delay)).hasEnded id = m.hasEnded id :=
            hasEnded_congr (by simp [Manager.carryOut, getElem?_concat_iff, old])
          exact same.trans stands
      | some place =>
          obtain ⟨going, ⟨task, found, inStage⟩, planned⟩ := stands
          refine ⟨going, ⟨task, getElem?_concat_iff.mpr (Or.inl found), inStage⟩, ?_⟩
          exact (Agenda.plan_post m.agenda _).mem_iff.mpr (List.mem_cons_of_mem _ planned)

namespace Cleared

variable {old : Option Nat} {events : List ε} {request : Request κ}
  {mid : Manager (List ε) κ σ (Request κ) (Request κ)}

/-- Where nothing is left to do, no handler is under way once what is asked has been done. -/
theorem calm (cleared : Cleared host m old events mid)
    (consistent : (mid.carryOut request).Consistent .free)
    : (mid.carryOut request).Calm where
  consistent := consistent
  ahead := by
    cases request with
    | schedule uri job delay => exact ⟨cleared.ahead.sorted, cleared.ahead.later⟩
    | cancel uri => exact cleared.ahead
  free := by
    cases request <;> exact cleared.free
  tasks := by
    intro turn ready
    cases request with
    | schedule uri job delay =>
        simp only [carryOut, Agenda.post, cleared.ready, List.nil_append,
          List.mem_singleton] at ready
        exact ⟨_, ready⟩
    | cancel uri =>
        have none : turn ∈ mid.agenda.ready := ready
        simp [cleared.ready] at none
  steady := by
    intro id task found unfinished
    cases request with
    | schedule uri job delay =>
        rcases getElem?_concat_iff.mp found with before | ⟨_, rfl⟩
        · exact cleared.steady before unfinished
        · rfl
    | cancel uri => exact cleared.steady found unfinished

end Cleared

end Manager

end EditorLint.Debounce
