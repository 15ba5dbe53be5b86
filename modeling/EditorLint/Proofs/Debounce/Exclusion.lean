import EditorLint.Debounce.Scripted
import EditorLint.Proofs.Debounce.Line
import EditorLint.Proofs.Debounce.Stages

/-! At most one job of a document is under way, whatever jobs do when they run or are cancelled:
they may end, fail, or take their time. A call that returns finds no unfinished task of its
document, and no call is lost: calls return in the order in which they are made.
-/

namespace EditorLint.Debounce

variable {ω κ σ μ ι : Type}

-----------------------------------------------------------------------------------------
-- Which tasks there are
-----------------------------------------------------------------------------------------

/-- The tasks are those that the calls that have returned have created, and each of these calls has
come after the end of all tasks of its document that had been there.
-/
structure Accounted (returned : List (Pending κ ι × Nat)) (tasks : List (Task κ σ ι)) : Prop where
  within : ∀ entry ∈ returned, entry.2 ≤ tasks.length
  creates
    : ∀ {call : Pending κ ι} {id : Nat} {uri : String} {job : κ} {delay : Time},
        (call, id) ∈ returned
        → call.request = .schedule uri job delay
        → ∃ task, tasks[id]? = some task ∧ task.uri = uri
  created
    : ∀ {id : Nat} {task : Task κ σ ι},
        tasks[id]? = some task
        → ∃ call job delay, (call, id) ∈ returned ∧ call.request = .schedule task.uri job delay
  ended
    : ∀ {call : Pending κ ι} {id other : Nat} {task : Task κ σ ι},
        (call, id) ∈ returned
        → other < id
        → tasks[other]? = some task
        → task.uri = call.request.uri
        → task.stage = .ended
  ordered
    : returned.Pairwise fun earlier later =>
        ∀ uri job delay, earlier.1.request = .schedule uri job delay → earlier.2 < later.2

namespace Accounted

variable {returned : List (Pending κ ι × Nat)} {host : Host ω κ σ μ ι} {m : Manager ω κ σ μ ι}

/-- Where nothing has happened yet, there is nothing to account for. -/
theorem nil : Accounted ([] : List (Pending κ ι × Nat)) ([] : List (Task κ σ ι)) where
  within _ member := nomatch member
  creates member := nomatch member
  created found := nomatch found
  ended member := nomatch member
  ordered := .nil

/-- A task that changes neither its document nor its end stays accounted for. -/
theorem setTask (accounted : Accounted returned m.tasks) (id : Nat)
    {f : Task κ σ ι → Task κ σ ι} (keepsUri : ∀ task, (f task).uri = task.uri)
    (revivesNone
      : ∀ task, m.tasks[id]? = some task → task.stage = .ended → (f task).stage = .ended)
    : Accounted returned (m.setTask id f).tasks where
  within entry member := by
    simpa [Manager.setTask] using accounted.within entry member
  creates member asked := by
    obtain ⟨task, found, own⟩ := accounted.creates member asked
    refine ⟨_, Manager.getElem?_setTask.mpr ⟨task, found, rfl⟩, ?_⟩
    split
    · exact (keepsUri task).trans own
    · exact own
  created found := by
    obtain ⟨task, before, rfl⟩ := Manager.getElem?_setTask.mp found
    obtain ⟨call, job, delay, member, asked⟩ := accounted.created before
    refine ⟨call, job, delay, member, ?_⟩
    split
    · rwa [keepsUri]
    · exact asked
  ended member below found own := by
    obtain ⟨task, before, rfl⟩ := Manager.getElem?_setTask.mp found
    split at own
    next same =>
      subst same
      rw [if_pos rfl]
      exact revivesNone task before (accounted.ended member below before (keepsUri task ▸ own))
    next apart =>
      rw [if_neg apart]
      exact accounted.ended member below before own
  ordered := accounted.ordered

/-- A turn of a task keeps all tasks accounted for, whatever its job does. -/
theorem runTask (accounted : Accounted returned m.tasks) (id : Nat)
    : Accounted returned (m.runTask host id).tasks := by
  obtain ⟨f, same, keepsUri, moves⟩ := Manager.tasks_runTask host m id
  rw [same]
  refine accounted.setTask id keepsUri ?_
  intro task found spent
  have moved := moves task found
  rw [spent] at moved
  generalize (f task).stage = next at moved ⊢
  cases moved
  rfl

section Return

variable {tasks : List (Task κ σ ι)} {call : Pending κ ι} {uri : String}

/-- A call that returns comes behind those that have created tasks. -/
theorem ordered_append (accounted : Accounted returned tasks)
    : (returned ++ [(call, tasks.length)]).Pairwise fun earlier later =>
        ∀ uri job delay, earlier.1.request = .schedule uri job delay → earlier.2 < later.2 := by
  refine List.pairwise_append.mpr ⟨accounted.ordered, List.pairwise_singleton _ _, ?_⟩
  intro earlier member later last uri job delay asked
  obtain rfl := List.mem_singleton.mp last
  obtain ⟨task, found, _⟩ := accounted.creates member asked
  exact (List.getElem?_eq_some_iff.mp found).1

/-- A call that forgets a document without an unfinished task creates none. -/
theorem cancel (accounted : Accounted returned tasks) (asked : call.request = .cancel uri)
    (spent : ∀ task ∈ tasks, task.uri = uri → task.stage = .ended)
    : Accounted (returned ++ [(call, tasks.length)]) tasks where
  within entry member := by
    rcases List.mem_append.mp member with old | new
    · exact accounted.within entry old
    · exact (List.mem_singleton.mp new) ▸ Nat.le_refl _
  creates member scheduled := by
    rcases List.mem_append.mp member with old | new
    · exact accounted.creates old scheduled
    · obtain ⟨rfl, _⟩ := Prod.mk.inj (List.mem_singleton.mp new)
      cases asked.symm.trans scheduled
  created found := by
    obtain ⟨other, job, delay, member, scheduled⟩ := accounted.created found
    exact ⟨other, job, delay, List.mem_append_left _ member, scheduled⟩
  ended member below found own := by
    rcases List.mem_append.mp member with old | new
    · exact accounted.ended old below found own
    · obtain ⟨rfl, _⟩ := Prod.mk.inj (List.mem_singleton.mp new)
      rw [asked] at own
      exact spent _ (List.mem_of_getElem? found) own
  ordered := accounted.ordered_append

/-- A call that schedules a job for a document without an unfinished task creates one. -/
theorem schedule (accounted : Accounted returned tasks) {job : κ} {delay : Time}
    (asked : call.request = .schedule uri job delay)
    (spent : ∀ task ∈ tasks, task.uri = uri → task.stage = .ended) {task : Task κ σ ι}
    (own : task.uri = uri)
    : Accounted (returned ++ [(call, tasks.length)]) (tasks ++ [task]) where
  within entry member := by
    rw [List.length_append]
    rcases List.mem_append.mp member with old | new
    · exact Nat.le_add_right_of_le (accounted.within entry old)
    · exact (List.mem_singleton.mp new) ▸ Nat.le_add_right _ _
  creates member scheduled := by
    rcases List.mem_append.mp member with old | new
    · obtain ⟨other, found, same⟩ := accounted.creates old scheduled
      exact ⟨other, Manager.getElem?_concat_iff.mpr (Or.inl found), same⟩
    · obtain ⟨rfl, rfl⟩ := Prod.mk.inj (List.mem_singleton.mp new)
      obtain ⟨rfl, _⟩ := Request.schedule.inj (asked.symm.trans scheduled)
      exact ⟨task, Manager.getElem?_concat_iff.mpr (Or.inr ⟨rfl, rfl⟩), own⟩
  created found := by
    rcases Manager.getElem?_concat_iff.mp found with old | ⟨rfl, rfl⟩
    · obtain ⟨other, job, delay, member, scheduled⟩ := accounted.created old
      exact ⟨other, job, delay, List.mem_append_left _ member, scheduled⟩
    · exact ⟨call, job, delay, List.mem_append_right _ List.mem_cons_self, own ▸ asked⟩
  ended member below found same := by
    rcases Manager.getElem?_concat_iff.mp found with old | ⟨rfl, rfl⟩
    · rcases List.mem_append.mp member with before | new
      · exact accounted.ended before below old same
      · obtain ⟨rfl, _⟩ := Prod.mk.inj (List.mem_singleton.mp new)
        rw [asked] at same
        exact spent _ (List.mem_of_getElem? old) same
    · rcases List.mem_append.mp member with before | new
      · exact absurd below (Nat.not_lt.mpr (accounted.within _ before))
      · obtain ⟨_, rfl⟩ := Prod.mk.inj (List.mem_singleton.mp new)
        exact absurd below (Nat.lt_irrefl _)
  ordered := accounted.ordered_append

end Return

/-- A call that finds nothing in its way adds itself to those that have returned, and with it the
task that it creates.
-/
theorem complete (accounted : Accounted returned m.tasks) {hand : Hand}
    (consistent : m.Consistent hand) (host : Host ω κ σ μ ι) (call : Pending κ ι)
    (cleared : m.unfinished? call.request.uri = none)
    : Accounted (returned ++ [(call, m.tasks.length)])
        (m.complete host call.step call.request).tasks := by
  rw [Manager.tasks_complete]
  have spent : ∀ task ∈ m.tasks, task.uri = call.request.uri → task.stage = .ended := by
    intro task member own
    obtain ⟨id, found⟩ := List.mem_iff_getElem?.mp member
    by_contra unfinished
    have stored := consistent.table found unfinished
    have ended := Manager.unfinished?_eq_none_iff.mp cleared id (own ▸ stored)
    rw [Manager.hasEnded_eq_false_iff.mpr ⟨task, found, unfinished⟩] at ended
    cases ended
  cases asked : call.request with
  | cancel uri => exact accounted.cancel asked (by simpa [asked, Request.uri] using spent)
  | schedule uri job delay =>
      exact accounted.schedule asked (by simpa [asked, Request.uri] using spent) rfl

/-- A handler's calls that return add themselves, by induction over the handler's steps. -/
theorem proceed (consistent : m.Consistent .free) (host : Host ω κ σ μ ι) (steps : List ι)
    : ∀ {returned : List (Pending κ ι × Nat)},
        Accounted returned m.tasks
        → Accounted (returned ++ Manager.returning (m.calls host steps))
            (m.proceed host steps).tasks := by
  fun_induction Manager.proceed host m steps with
  | case1 m =>
      intro returned accounted
      exact (List.append_nil returned).symm ▸ accounted
  | case2 m step later world asked =>
      intro returned accounted
      simpa [Manager.calls, asked, Manager.returning] using accounted
  | case3 m step later world request asked given held =>
      intro returned accounted
      rw [Manager.calls_of_held asked held]
      exact (List.append_nil returned).symm ▸ accounted
  | case4 m step later world request asked given free id unfinished =>
      intro returned accounted
      rw [Manager.calls_of_unfinished asked (by simpa using free) unfinished]
      -- The handler waits for the end of a task here, so its call does not return yet.
      have doomed := accounted.setTask id (f := Task.doomed ⟨step, request, later⟩)
        (fun _ => rfl) (fun _ _ spent => spent)
      exact (List.append_nil returned).symm ▸ doomed
  | case5 m step later world request asked given free cleared ih =>
      intro returned accounted
      have locked := (consistent.withWorld world).takeLock (by simpa using free)
      rw [Manager.calls_of_cleared asked (by simpa using free) cleared]
      have done := complete (m := { m with world, held := true }) accounted locked host
        ⟨step, request, later⟩ cleared
      have rest := ih (locked.complete cleared host step) done
      rwa [List.append_assoc] at rest

/-- A turn keeps all tasks accounted for, by the kind of the turn. -/
theorem take {turn : Turn κ μ ι} (consistent : m.Consistent turn.hand)
    (accounted : Accounted returned m.tasks)
    (clear : ∀ call, turn = .cleared call → m.unfinished? call.request.uri = none)
    : Accounted (returned ++ m.returned host turn) (m.take host turn).tasks := by
  have serve {call : Pending κ ι} (consistent : m.Consistent .lock)
      (cleared : m.unfinished? call.request.uri = none)
      : let back := m.complete host call.step call.request
        Accounted (returned ++ ((call, m.tasks.length)
            :: Manager.returning (back.calls host call.later)))
          (back.proceed host call.later).tasks := by
    intro back
    have done := accounted.complete consistent host call cleared
    have rest := proceed (consistent.complete cleared host call.step) host call.later done
    rwa [List.append_assoc] at rest
  cases turn with
  | task id => exact (List.append_nil returned).symm ▸ accounted.runTask id
  | handler message =>
      exact proceed (consistent.withWorld (host.begin m.now message m.world).1) host _ accounted
  | locked call =>
      simp only [Manager.returned, Manager.made, Manager.serves, Manager.take, Manager.grant]
      cases unfinished : m.unfinished? call.request.uri with
      | none => exact serve consistent unfinished
      | some id =>
          have doomed := accounted.setTask id (f := Task.doomed call)
            (fun _ => rfl) (fun _ _ spent => spent)
          exact (List.append_nil returned).symm ▸ doomed
  | cleared call => exact serve consistent (clear call rfl)

end Accounted

-----------------------------------------------------------------------------------------
-- In the course of time
-----------------------------------------------------------------------------------------

/-- What may happen with a debouncer, with the calls that are made and those that return: the host's
state changes, a message arrives, a turn is taken, or the clock passes with no turn to take.
-/
inductive Course (host : Host ω κ σ μ ι) (first : Manager ω κ σ μ ι)
    : List (Pending κ ι) → List (Pending κ ι × Nat) → Manager ω κ σ μ ι → Prop
  | start : Course host first [] [] first
  | touched {made returned m} (course : Course host first made returned m) (world : ω)
    : Course host first made returned { m with world }
  | arrives {made returned m} (course : Course host first made returned m) (message : μ)
    : Course host first made returned (m.deliver message)
  | turn {made returned m turn agenda} (course : Course host first made returned m) (limit : Time)
    (next : m.agenda.next? limit = some (turn, agenda))
    : Course host first (made ++ (Manager.made host { m with agenda } turn).map (·.1))
        (returned ++ Manager.returned host { m with agenda } turn)
        (Manager.take host { m with agenda } turn)
  | passes {made returned m instant} (course : Course host first made returned m)
    (quiet : m.agenda.QuietAt instant)
    : Course host first made returned { m with agenda := m.agenda.passTo instant }

/-- Jobs of a document keep out of each other's way, and calls return in the order in which they are
made. Each call that returns comes with the place of the task that it creates if it creates one.
-/
structure Manager.Exclusive (made : List (Pending κ ι)) (returned : List (Pending κ ι × Nat))
    (m : Manager ω κ σ μ ι)
    : Prop where
  /-- An unfinished task is the one that the table has for its document. -/
  stored
    : ∀ (id : Nat) (task : Task κ σ ι),
        m.tasks[id]? = some task → task.stage ≠ .ended → m.table.get? task.uri = some id
  /-- No two tasks of a document are unfinished together. -/
  alone
    : ∀ (id other : Nat) (task another : Task κ σ ι),
        m.tasks[id]? = some task
        → m.tasks[other]? = some another
        → task.uri = another.uri
        → task.stage ≠ .ended
        → another.stage ≠ .ended
        → id = other
  /-- Every call has returned or is under way, and no call overtakes another one. -/
  inOrder : made = returned.map (·.1) ++ m.line
  /-- Every task has been created by a call that has returned. -/
  created
    : ∀ (id : Nat) (task : Task κ σ ι),
        m.tasks[id]? = some task
        → ∃ call job delay, (call, id) ∈ returned ∧ call.request = .schedule task.uri job delay
  /-- When a call has returned, the tasks that earlier calls have created for its document have
  ended. -/
  superseded
    : returned.Pairwise fun earlier later =>
        ∀ uri job delay,
          earlier.1.request = .schedule uri job delay
          → later.1.request.uri = uri
          → ∃ task, m.tasks[earlier.2]? = some task ∧ task.uri = uri ∧ task.stage = .ended

namespace Course

variable {host : Host ω κ σ μ ι} {first m : Manager ω κ σ μ ι} {made : List (Pending κ ι)}
  {returned : List (Pending κ ι × Nat)}

/-- Whatever happens, all parts of a debouncer fit together. -/
theorem consistent (course : Course host first made returned m)
    (consistent : first.Consistent .free)
    : m.Consistent .free := by
  induction course with
  | start => exact consistent
  | touched _ world ih => exact ih.withWorld world
  | arrives _ message ih => exact ih.deliver message
  | passes _ _ ih => exact ih.passTo _
  | turn _ _ next ih => exact ih.step? (Option.map_eq_some_iff.mpr ⟨_, next, rfl⟩)

/-- Whatever happens, the calls made are those that have returned and then those under way. -/
theorem inOrder (course : Course host first made returned m) (consistent : first.Consistent .free)
    (idle : first.line = [])
    : made = returned.map (·.1) ++ m.line := by
  induction course with
  | start => simp [idle]
  | touched _ _ ih => exact ih
  | passes _ _ ih => exact ih
  | arrives _ message ih =>
      rw [ih]
      simp [Manager.line, Manager.holders, Manager.deliver, Manager.post, Agenda.post,
        Turn.pending?]
  | turn earlier _ next ih =>
      have taken := (earlier.consistent consistent).line_step host next
      rw [ih, List.append_assoc, taken, List.map_append, List.append_assoc]

/-- Whatever happens, all tasks are accounted for by the calls that have returned. -/
theorem accounted (course : Course host first made returned m)
    (consistent : first.Consistent .free) (none : first.tasks = [])
    : Accounted returned m.tasks := by
  induction course with
  | start => exact none ▸ Accounted.nil
  | touched _ _ ih => exact ih
  | arrives _ _ ih => exact ih
  | passes _ _ ih => exact ih
  | turn earlier _ next ih =>
      have before := earlier.consistent consistent
      refine Accounted.take (before.next next) ih ?_
      intro call same
      subst same
      exact before.clear next

/-- Whatever the host's jobs do, and however calls and turns are interleaved, jobs of a document
keep out of each other's way, and no call is lost or overtaken.
-/
theorem exclusive {world : ω} (course : Course host { world } made returned m)
    : m.Exclusive made returned := by
  have fresh : ({ world } : Manager ω κ σ μ ι).Consistent .free := .fresh world
  have fits := course.consistent fresh
  have accounted := course.accounted fresh rfl
  exact {
    stored := fun _ _ => fits.table
    alone := by
      intro id other task another found at_other same unfinished going
      have mine := fits.table found unfinished
      have theirs := fits.table at_other going
      rw [same] at mine
      exact Option.some.inj (mine.symm.trans theirs)
    inOrder := course.inOrder fresh rfl
    created := fun _ _ => accounted.created
    superseded := by
      refine List.Pairwise.imp ?_ (List.Pairwise.and_mem.mp accounted.ordered)
      intro earlier later given uri job delay asked own
      obtain ⟨before, after, ordered⟩ := given
      obtain ⟨task, found, same⟩ := accounted.creates before asked
      have ended := accounted.ended after (ordered uri job delay asked) found (same.trans own.symm)
      exact ⟨task, found, same, ended⟩
  }

end Course

/-- A job that starts, and is cancelled while it works. -/
theorem exclusive_of_cancelled_job
    : ∃ (made : List (Pending ScriptedJob (Request ScriptedJob)))
        (returned : List (Pending ScriptedJob (Request ScriptedJob) × Nat)) (m : ScriptedManager),
        Course ScriptedJob.host { world := [] } made returned m
        ∧ returned.map (·.1.request) = [.schedule "a" ⟨"job", some 5, none⟩ 0, .cancel "a"]
        ∧ m.world.map (·.event) = [.started "job", .cancelled "job"]
        ∧ m.Exclusive made returned := by
  let job : ScriptedJob := ⟨"job", some 5, none⟩
  have fresh : Course ScriptedJob.host ({ world := [] } : ScriptedManager) [] [] { world := [] } :=
    .start
  have created := (fresh.arrives (.schedule "a" job 0)).turn 0 rfl
  have started := (created.turn 0 rfl).turn 0 rfl
  have told := (started.arrives (.cancel "a")).turn 0 rfl
  have returned := (told.turn 0 rfl).turn 0 rfl
  refine ⟨_, _, _, returned, ?_, ?_, returned.exclusive⟩
  · decide +kernel
  · decide +kernel

end EditorLint.Debounce
