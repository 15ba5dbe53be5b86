import EditorLint.Proofs.Debounce.Waiting

/-! The calls of a debouncer return in the order in which they are made. In every turn, the calls
that were under way and those that are made are the ones that return, followed by those that are
under way then.
-/

namespace EditorLint.Debounce

variable {ω κ σ μ ι : Type}

namespace Manager

/-- The calls that have the lock: one that goes on, or one that waits for the end of a task. -/
def holders (m : Manager ω κ σ μ ι) : List (Pending κ ι) :=
  m.agenda.ready.filterMap Turn.pending? ++ m.tasks.filterMap (·.waiter)

/-- The calls under way, in the order of service: the one that has the lock, and those that wait
for it.
-/
def line (m : Manager ω κ σ μ ι) : List (Pending κ ι) :=
  m.holders ++ m.queue

/-- The calls that a handler makes with its steps. One that returns in the same turn comes with the
place of the task that it creates if it creates one.
-/
def calls (host : Host ω κ σ μ ι) (m : Manager ω κ σ μ ι)
    : List ι → List (Pending κ ι × Option Nat)
  | [] => []
  | step :: later =>
    match host.request m.now step m.world with
    | (_, none) => []
    | (world, some request) =>
      let m := { m with world }
      let call := ⟨step, request, later⟩
      if m.held then [(call, none)]
      else
        match m.unfinished? request.uri with
        | some _ => [(call, none)]
        | none =>
          (call, some m.tasks.length)
            :: calls host ({ m with held := true }.complete host step request) later

/-- The call under way that finds nothing in its way in a turn, and returns. -/
def serves (m : Manager ω κ σ μ ι) : Turn κ μ ι → Option (Pending κ ι)
  | .locked call =>
    match m.unfinished? call.request.uri with
    | some _ => none
    | none => some call
  | .cleared call => some call
  | _ => none

/-- The calls that are made in a turn. -/
def made (host : Host ω κ σ μ ι) (m : Manager ω κ σ μ ι) (turn : Turn κ μ ι)
    : List (Pending κ ι × Option Nat) :=
  match turn with
  | .handler message =>
    let (world, steps) := host.begin m.now message m.world
    calls host { m with world } steps
  | turn =>
    (m.serves turn).elim [] fun call =>
      calls host (m.complete host call.step call.request) call.later

/-- Those of the calls made that return in the same turn. -/
def returning (calls : List (Pending κ ι × Option Nat)) : List (Pending κ ι × Nat) :=
  calls.filterMap fun (call, place?) => place?.map (call, ·)

/-- The calls that return in a turn, in order. -/
def returned (host : Host ω κ σ μ ι) (m : Manager ω κ σ μ ι) (turn : Turn κ μ ι)
    : List (Pending κ ι × Nat) :=
  (m.serves turn).toList.map (·, m.tasks.length) ++ returning (m.made host turn)

variable {host : Host ω κ σ μ ι} {m : Manager ω κ σ μ ι} {hand : Hand}

-----------------------------------------------------------------------------------------
-- Who has the lock
-----------------------------------------------------------------------------------------

/-- A call has the lock for each place in which the lock is held. -/
theorem length_holders (m : Manager ω κ σ μ ι) : m.holders.length = m.grips := by
  have ready (turns : List (Turn κ μ ι))
      : (turns.filterMap Turn.pending?).length = turns.countP Turn.hasLock := by
    induction turns with
    | nil => rfl
    | cons turn rest ih =>
        cases turn <;> simp [Turn.pending?, Turn.hasLock, List.countP_cons, List.filterMap_cons, ih]
  have waiting (tasks : List (Task κ σ ι))
      : (tasks.filterMap (·.waiter)).length = tasks.countP (·.waiter.isSome) := by
    induction tasks with
    | nil => rfl
    | cons task rest ih =>
        cases waits : task.waiter <;> simp [waits, ih]
  simp [holders, grips, ready, waiting]

/-- Where no one has the lock, all calls under way wait for it. -/
theorem line_of_nobody (nobody : m.grips = 0) : m.line = m.queue := by
  have none : m.holders = [] := List.eq_nil_of_length_eq_zero ((length_holders m).trans nobody)
  simp [line, none]

/-- A call that has the lock has it alone. -/
theorem holders_eq_singleton {call : Pending κ ι} (one : m.grips = 1) (has : call ∈ m.holders)
    : m.holders = [call] := by
  obtain ⟨other, alone⟩ := List.length_eq_one_iff.mp ((length_holders m).trans one)
  rw [alone] at has ⊢
  rw [List.mem_singleton.mp has]

/-- While a call has the lock, no other one does. -/
theorem Consistent.grips_eq_one (consistent : Consistent hand m) (elsewhere : hand.grips = 0)
    {call : Pending κ ι} (has : call ∈ m.holders)
    : m.grips = 1 := by
  have lock := consistent.lock
  have some : 0 < m.holders.length := List.length_pos_of_mem has
  rw [length_holders] at some
  rw [elsewhere] at lock
  split at lock <;> omega

/-- Where the lock is free, no call is under way. -/
theorem Consistent.line_of_free (consistent : Consistent hand m) (free : m.held = false)
    : m.line = [] := by
  rw [line_of_nobody (consistent.grips_eq_zero_of_free free), consistent.queue free]

-----------------------------------------------------------------------------------------
-- What leaves the line alone
-----------------------------------------------------------------------------------------

/-- A task that changes and keeps who waits for its end leaves the line alone. -/
theorem line_setTask {id : Nat} {f : Task κ σ ι → Task κ σ ι}
    (keepsWaiter : ∀ task, (f task).waiter = task.waiter)
    : (m.setTask id f).line = m.line := by
  have waiters : (m.setTask id f).tasks.filterMap (·.waiter) = m.tasks.filterMap (·.waiter) := by
    cases found : m.tasks[id]? with
    | none =>
        have same : (m.setTask id f).tasks = m.tasks :=
          List.modify_eq_self (List.getElem?_eq_none_iff.mp found)
        rw [same]
    | some task =>
        obtain ⟨before, after, old, new⟩ := setTask_split found f
        simp only [old, new, List.filterMap_append, List.filterMap_cons, keepsWaiter]
  simp only [line, holders, waiters]
  rfl

/-- A task that begins to wait for the clock leaves the line alone. -/
theorem line_wait (duration : Time) (id : Nat)
    : ({ m with agenda := m.agenda.wait duration (.task id) } : Manager ω κ σ μ ι).line
      = m.line := by
  have ready : (m.agenda.wait duration (.task id : Turn κ μ ι)).ready.filterMap Turn.pending?
      = m.agenda.ready.filterMap Turn.pending? := by
    unfold Agenda.wait
    split <;> simp [Agenda.post, Turn.pending?]
  simp only [line, holders, ready]

/-- When a task ends, who waited for that goes on and has the lock alone, as before. -/
theorem Consistent.line_endTask {id : Nat} (consistent : Consistent (.task id) m)
    : (m.endTask id).line = m.line := by
  obtain ⟨task, found, _⟩ := consistent.inHand
  cases waits : task.waiter with
  | none =>
      rw [endTask_of_unawaited (by simp [found, waits])]
      obtain ⟨before, after, old, new⟩ := setTask_split found Task.spent
      have waiters
          : (m.setTask id Task.spent).tasks.filterMap (·.waiter)
            = m.tasks.filterMap (·.waiter) := by
        simp only [old, new, List.filterMap_append, List.filterMap_cons, waits, Task.spent]
      simp only [line, holders, waiters]
      rfl
  | some call =>
      have ended := consistent.endTask
      rw [endTask_of_awaited found waits] at ended ⊢
      have had : call ∈ m.holders :=
        List.mem_append_right _
          (List.mem_filterMap.mpr ⟨task, List.mem_of_getElem? found, waits⟩)
      have has : call ∈ ((m.setTask id Task.spent).post (.cleared call)).holders :=
        List.mem_append_left _
          (List.mem_filterMap.mpr ⟨_, List.mem_append_right _ List.mem_cons_self, rfl⟩)
      rw [line, line, holders_eq_singleton (consistent.grips_eq_one rfl had) had,
        holders_eq_singleton (ended.grips_eq_one rfl has) has]
      rfl

/-- What follows from a turn of a job leaves the line alone. -/
theorem Consistent.line_afterTurn {id : Nat} (consistent : Consistent (.task id) m)
    (result : ω × Outcome σ)
    : (m.afterTurn host id result).line = m.line := by
  obtain ⟨world, outcome⟩ := result
  cases outcome with
  | finished => exact (consistent.withWorld world).line_endTask
  | cancelled => exact (consistent.withWorld world).line_endTask
  | failed failure => exact (consistent.withWorld _).line_endTask
  | wait duration state =>
      let f (task : Task κ σ ι) : Task κ σ ι := { task with stage := .running state }
      have waited := line_wait (m := { m.setTask id f with world }) duration id
      have changed : (m.setTask id f).line = m.line := line_setTask fun _ => rfl
      exact waited.trans changed

/-- A turn of a task leaves the line alone. -/
theorem Consistent.line_runTask {id : Nat} (consistent : Consistent (.task id) m)
    : (m.runTask host id).line = m.line := by
  unfold Manager.runTask
  split
  next => rfl
  next task _ =>
    split
    next job delay _ =>
      split
      · exact consistent.line_endTask
      · let f (task : Task κ σ ι) : Task κ σ ι := { task with stage := .delayed job }
        have waited := line_wait (m := m.setTask id f) delay id
        exact waited.trans (line_setTask fun _ => rfl)
    next job _ =>
      split
      · exact consistent.line_endTask
      · exact consistent.line_afterTurn _
    next state _ =>
      split
      · have told := consistent.setTask (f := fun task => { task with interrupted := false })
          (fun _ => rfl) (fun _ => rfl) (fun _ _ => Iff.rfl)
        exact (told.line_afterTurn _).trans (line_setTask fun _ => rfl)
      · exact consistent.line_afterTurn _
    next => rfl

-----------------------------------------------------------------------------------------
-- What is done under the lock
-----------------------------------------------------------------------------------------

/-- A call that is done makes way for the next one. -/
theorem Consistent.line_complete (consistent : Consistent .lock m) {request : Request κ}
    (cleared : m.unfinished? request.uri = none) (step : ι)
    : (m.complete host step request).line = m.queue := by
  have done := consistent.carryOut cleared
  have queue : (m.carryOut request).queue = m.queue := by cases request <;> rfl
  have alone := line_of_nobody done.grips_eq_zero.1
  have released := done.release
  change (m.carryOut request).release.line = m.queue
  rw [queue] at alone
  unfold Manager.release at released ⊢
  rw [queue] at released ⊢
  split
  next empty =>
    change (m.carryOut request).holders ++ m.queue = m.queue
    rwa [line, queue] at alone
  next first rest waiting =>
    simp only [waiting] at released
    have has : first ∈ ({ m.carryOut request with
        queue := rest, agenda := (m.carryOut request).agenda.post (.locked first)
        } : Manager ω κ σ μ ι).holders :=
      List.mem_append_left _
        (List.mem_filterMap.mpr ⟨_, List.mem_append_right _ List.mem_cons_self, rfl⟩)
    rw [line, holders_eq_singleton (released.grips_eq_one rfl has) has, waiting]
    rfl

/-- A call that waits for the end of a task is the first in line. -/
theorem Consistent.line_tearDown (consistent : Consistent .lock m) (call : Pending κ ι)
    {id : Nat} (unfinished : m.unfinished? call.request.uri = some id)
    : (m.tearDown id call).line = call :: m.queue := by
  obtain ⟨stored, _⟩ := unfinished?_eq_some_iff.mp unfinished
  obtain ⟨task, found, _⟩ := consistent.known stored
  have doomed : (m.tearDown id call).tasks[id]? = some (task.doomed call) :=
    getElem?_setTask.mpr ⟨task, found, (if_pos rfl).symm⟩
  have has : call ∈ (m.tearDown id call).holders :=
    List.mem_append_right _ (List.mem_filterMap.mpr ⟨_, List.mem_of_getElem? doomed, rfl⟩)
  have one := (consistent.tearDown unfinished).grips_eq_one rfl has
  rw [line, holders_eq_singleton one has]
  rfl

-----------------------------------------------------------------------------------------
-- A whole turn
-----------------------------------------------------------------------------------------

section Calls

variable {step : ι} {later : List ι} {world : ω} {request : Request κ}

/-- A call that finds the lock held waits for it. -/
theorem calls_of_held (asked : host.request m.now step m.world = (world, some request))
    (held : m.held = true)
    : m.calls host (step :: later) = [(⟨step, request, later⟩, none)] := by
  simp only [calls, asked]
  rw [if_pos held]

/-- A call that finds an unfinished task waits for its end. -/
theorem calls_of_unfinished (asked : host.request m.now step m.world = (world, some request))
    (free : m.held = false) {id : Nat}
    (unfinished : ({ m with world } : Manager ω κ σ μ ι).unfinished? request.uri = some id)
    : m.calls host (step :: later) = [(⟨step, request, later⟩, none)] := by
  simp only [calls, asked]
  rw [if_neg (by simp [free]), unfinished]

/-- A call that finds nothing in its way returns, and the handler goes on. -/
theorem calls_of_cleared (asked : host.request m.now step m.world = (world, some request))
    (free : m.held = false)
    (cleared : ({ m with world } : Manager ω κ σ μ ι).unfinished? request.uri = none)
    : m.calls host (step :: later)
      = (⟨step, request, later⟩, some m.tasks.length)
        :: calls host (complete host { m with world, held := true } step request) later := by
  simp only [calls, asked]
  rw [if_neg (by simp [free]), cleared]

end Calls

/-- The calls that a handler makes get in line behind all others, and those that return do so in
order, by induction over the handler's steps.
-/
theorem Consistent.line_proceed (consistent : Consistent .free m) (host : Host ω κ σ μ ι)
    (steps : List ι)
    : m.line ++ (m.calls host steps).map (·.1)
      = (returning (m.calls host steps)).map (·.1) ++ (m.proceed host steps).line := by
  fun_induction Manager.proceed host m steps with
  | case1 m => simp [calls, returning]
  | case2 m step later world asked =>
      simp only [calls, asked, returning, List.map_nil, List.append_nil, List.filterMap_nil,
        List.nil_append]
      rfl
  | case3 m step later world request asked given held =>
      rw [calls_of_held asked held]
      exact List.append_assoc m.holders m.queue _
  | case4 m step later world request asked given free id unfinished =>
      have locked := (consistent.withWorld world).takeLock (by simpa using free)
      have free : m.held = false := by simpa using free
      have waits := locked.line_tearDown ⟨step, request, later⟩ unfinished
      rw [calls_of_unfinished asked free unfinished, consistent.line_of_free free]
      exact (waits.trans (congrArg _ (consistent.queue free))).symm
  | case5 m step later world request asked given free cleared ih =>
      have locked := (consistent.withWorld world).takeLock (by simpa using free)
      have free : m.held = false := by simpa using free
      have done := ih (locked.complete cleared host step)
      rw [locked.line_complete cleared step] at done
      have empty : m.queue = [] := consistent.queue free
      rw [calls_of_cleared asked free cleared, consistent.line_of_free free]
      exact congrArg (_ :: ·) ((congrArg (· ++ _) empty.symm).trans done)

/-- The next turn takes a call from the front of the line if it goes on with one. -/
theorem Consistent.line_next (consistent : Consistent .free m) {limit : Time}
    {turn : Turn κ μ ι} {agenda : Agenda (Turn κ μ ι)}
    (next : m.agenda.next? limit = some (turn, agenda))
    : m.line = turn.pending?.toList ++ ({ m with agenda } : Manager ω κ σ μ ι).line := by
  have first := consistent.filterMap_next (f := Turn.pending?) next fun _ => rfl
  simp only [line, holders, first, List.append_assoc]

/-- A call that has the lock and finds nothing in its way returns, and its handler goes on. -/
theorem Consistent.line_serve (consistent : Consistent .lock m) (host : Host ω κ σ μ ι)
    {call : Pending κ ι} (cleared : m.unfinished? call.request.uri = none)
    : let back := m.complete host call.step call.request
      call :: m.line ++ (back.calls host call.later).map (·.1)
        = call :: (returning (back.calls host call.later)).map (·.1)
          ++ (back.proceed host call.later).line := by
  intro back
  have done := (consistent.complete cleared host call.step).line_proceed host call.later
  rw [consistent.line_complete cleared] at done
  rw [line_of_nobody consistent.grips_eq_zero.1]
  exact congrArg (call :: ·) done

/-- In a turn, the call that it goes on with, those under way and those that are made are the ones
that return, and then those that are under way after the turn.
-/
theorem Consistent.line_take {turn : Turn κ μ ι} (consistent : Consistent turn.hand m)
    (clear : ∀ call, turn = .cleared call → m.unfinished? call.request.uri = none)
    : turn.pending?.toList ++ m.line ++ (m.made host turn).map (·.1)
      = (m.returned host turn).map (·.1) ++ (m.take host turn).line := by
  cases turn with
  | task id => exact (List.append_nil _).trans consistent.line_runTask.symm
  | handler message =>
      exact (consistent.withWorld (host.begin m.now message m.world).1).line_proceed host _
  | locked call =>
      simp only [made, returned, serves, take, Manager.grant]
      cases unfinished : m.unfinished? call.request.uri with
      | none => exact consistent.line_serve host unfinished
      | some id =>
          have waits := consistent.line_tearDown call unfinished
          rw [line_of_nobody consistent.grips_eq_zero.1]
          exact (List.append_nil _).trans waits.symm
  | cleared call => exact consistent.line_serve host (clear call rfl)

/-- In every turn, the calls under way and those that are made are the ones that return, and then
those that are under way after the turn.
-/
theorem Consistent.line_step (consistent : Consistent .free m) (host : Host ω κ σ μ ι)
    {limit : Time} {turn : Turn κ μ ι} {agenda : Agenda (Turn κ μ ι)}
    (next : m.agenda.next? limit = some (turn, agenda))
    : let taken : Manager ω κ σ μ ι := { m with agenda }
      m.line ++ (taken.made host turn).map (·.1)
        = (taken.returned host turn).map (·.1) ++ (taken.take host turn).line := by
  intro taken
  rw [consistent.line_next next]
  apply (consistent.next next).line_take
  intro call same
  subst same
  exact consistent.clear next

end Manager

end EditorLint.Debounce
