import EditorLint.Proofs.Debounce.Clock
import EditorLint.Proofs.Debounce.Exclusion

/-! Where calls come from and what their jobs become. A handler makes its calls in the order of its
steps, once it comes to its turn, and all tasks are for the documents for which jobs were scheduled.
-/

namespace EditorLint.Debounce

variable {ω κ σ μ ι : Type}

/-- The message whose handler starts in a turn. -/
def Turn.message? : Turn κ μ ι → Option μ
  | .handler message => some message
  | _ => none

/-- The messages whose handlers are ready to start, in the order of their turns. -/
def Manager.handlers (m : Manager ω κ σ μ ι) : List μ :=
  m.agenda.ready.filterMap Turn.message?

/-- A call was made for what its step asks for, at some time. -/
def Pending.Asked (host : Host ω κ σ μ ι) (call : Pending κ ι) : Prop :=
  ∃ now world, (host.request now call.step world).2 = some call.request

/-- A fact about the stage of a document's task that jobs keep from one turn to the next. -/
structure Host.Suits (host : Host ω κ σ μ ι) (suits : String → Stage κ σ → Prop) : Prop where
  request
    : ∀ {now step world uri job delay},
        (host.request now step world).2 = some (.schedule uri job delay)
        → suits uri (.created job delay)
  rest : ∀ {uri job delay}, suits uri (.created job delay) → suits uri (.delayed job)
  start
    : ∀ {uri job now world duration state},
        suits uri (.delayed job)
        → (host.start now job world).2 = .wait duration state
        → suits uri (.running state)
  resume
    : ∀ {uri state now world duration next},
        suits uri (.running state)
        → (host.resume now state world).2 = .wait duration next
        → suits uri (.running next)
  interrupt
    : ∀ {uri state now world duration next},
        suits uri (.running state)
        → (host.interrupt now state world).2 = .wait duration next
        → suits uri (.running next)
  finish : ∀ {uri}, suits uri .ended

/-- All tasks are in stages that suit their documents. -/
def Manager.Suited (suits : String → Stage κ σ → Prop) (m : Manager ω κ σ μ ι) : Prop :=
  ∀ (id : Nat) (task : Task κ σ ι), m.tasks[id]? = some task → suits task.uri task.stage

namespace Manager

variable {host : Host ω κ σ μ ι} {m : Manager ω κ σ μ ι}

-----------------------------------------------------------------------------------------
-- Handlers and their steps
-----------------------------------------------------------------------------------------

/-- No turn has a handler start that was not ready to. -/
theorem handlers_take (host : Host ω κ σ μ ι) (m : Manager ω κ σ μ ι) (turn : Turn κ μ ι)
    : (m.take host turn).handlers = m.handlers := by
  have keeps
      : AgendaKeeps fun agenda : Agenda (Turn κ μ ι) =>
          agenda.ready.filterMap Turn.message? = m.handlers := {
    post := by
      intro agenda turn other before
      have none : turn.message? = none := by
        cases turn with
        | handler message => exact (other message rfl).elim
        | task | locked | cleared => rfl
      simp [Agenda.post, before, none]
    wait := by
      intro agenda duration id before
      unfold Agenda.wait
      split
      · simp [Agenda.post, before, Turn.message?]
      · exact before
    hasten := by
      intro agenda id before
      unfold Agenda.hasten
      split
      · simp [before, Turn.message?]
      · exact before
  }
  exact keeps.take rfl host turn

/-- The next turn has the first handler start, if it is one of a handler. -/
theorem Consistent.handlers_next (consistent : Consistent .free m) {limit : Time}
    {turn : Turn κ μ ι} {agenda : Agenda (Turn κ μ ι)}
    (next : m.agenda.next? limit = some (turn, agenda))
    : m.handlers
      = turn.message?.toList ++ ({ m with agenda } : Manager ω κ σ μ ι).handlers :=
  consistent.filterMap_next next fun _ => rfl

/-- A handler calls with one of its steps, and then has those after it left, by induction over its
steps.
-/
theorem asked_of_mem_calls {steps : List ι} {entry : Pending κ ι × Option Nat}
    (member : entry ∈ m.calls host steps)
    : entry.1.Asked host ∧ entry.1.steps <:+ steps := by
  have asked {now : Time} {step : ι} {later : List ι} {world before : ω} {request : Request κ}
      (asks : host.request now step before = (world, some request))
      : (⟨step, request, later⟩ : Pending κ ι).Asked host :=
    ⟨now, before, congrArg Prod.snd asks⟩
  fun_induction Manager.proceed host m steps with
  | case1 => cases member
  | case2 m step later world asks =>
      simp only [calls, asks] at member
      cases member
  | case3 m step later world request asks given held =>
      rw [calls_of_held asks held] at member
      obtain rfl := List.mem_singleton.mp member
      exact ⟨asked asks, List.suffix_refl _⟩
  | case4 m step later world request asks given free id unfinished =>
      rw [calls_of_unfinished asks (by simpa using free) unfinished] at member
      obtain rfl := List.mem_singleton.mp member
      exact ⟨asked asks, List.suffix_refl _⟩
  | case5 m step later world request asks given free cleared ih =>
      rw [calls_of_cleared asks (by simpa using free) cleared] at member
      rcases List.mem_cons.mp member with rfl | rest
      · exact ⟨asked asks, List.suffix_refl _⟩
      · obtain ⟨known, ends⟩ := ih rest
        exact ⟨known, ends.trans (List.suffix_cons step later)⟩

/-- A handler with one step makes the one call for it, if the step asks for something. -/
theorem calls_singleton {step : ι} {world : ω} {request : Request κ}
    (asked : host.request m.now step m.world = (world, some request))
    : (m.calls host [step]).map (·.1) = [⟨step, request, []⟩] := by
  cases held : m.held with
  | true => simp [calls_of_held asked held]
  | false =>
      cases unfinished : ({ m with world } : Manager ω κ σ μ ι).unfinished? request.uri with
      | some id => simp [calls_of_unfinished asked held unfinished]
      | none =>
          rw [calls_of_cleared asked held unfinished]
          rfl

/-- The steps that are taken in a turn from the first on: those of the handler that starts, or those
after the call that returns.
-/
def stepsIn (host : Host ω κ σ μ ι) (m : Manager ω κ σ μ ι) : Turn κ μ ι → List ι
  | .handler message => (host.begin m.now message m.world).2
  | .locked call | .cleared call => call.later
  | .task _ => []

/-- The calls that are made in a turn are for steps that are taken in it. -/
theorem asked_of_mem_made {turn : Turn κ μ ι} {entry : Pending κ ι × Option Nat}
    (member : entry ∈ m.made host turn)
    : entry.1.Asked host ∧ entry.1.steps <:+ m.stepsIn host turn := by
  cases turn with
  | task id => cases member
  | handler message => exact asked_of_mem_calls member
  | cleared call => exact asked_of_mem_calls member
  | locked call =>
      simp only [made, serves] at member
      cases unfinished : m.unfinished? call.request.uri with
      | none =>
          rw [unfinished] at member
          exact asked_of_mem_calls member
      | some id =>
          rw [unfinished] at member
          cases member

-----------------------------------------------------------------------------------------
-- Stages that suit the documents
-----------------------------------------------------------------------------------------

namespace Suited

variable {suits : String → Stage κ σ → Prop} {id : Nat}

/-- A task that changes to a stage that suits its document leaves all tasks suited. -/
theorem setTask (suited : m.Suited suits) {f : Task κ σ ι → Task κ σ ι}
    (keepsUri : ∀ task, (f task).uri = task.uri)
    (next : ∀ task, m.tasks[id]? = some task → suits task.uri (f task).stage)
    : (m.setTask id f).Suited suits := by
  intro other task found
  obtain ⟨old, before, rfl⟩ := getElem?_setTask.mp found
  split
  next same =>
    subst same
    rw [keepsUri]
    exact next old before
  next => exact suited other old before

/-- A turn of a task leaves all tasks suited, by the stage of the task. -/
theorem runTask (suited : m.Suited suits) (fit : host.Suits suits)
    : (m.runTask host id).Suited suits := by
  obtain ⟨f, same, keepsUri, moves⟩ := tasks_runTask host m id
  have moved : (m.setTask id f).Suited suits := by
    refine suited.setTask keepsUri fun task found => ?_
    have own := suited id task found
    have moved := moves task found
    -- A move is a relation of two stages, so the cases need both of them as variables.
    generalize task.stage = prior at own moved
    generalize (f task).stage = next at moved ⊢
    cases moved with
    | rests => exact fit.rest own
    | starts begun => exact fit.start own (congrArg Prod.snd begun)
    | resumes went => exact fit.resume own (congrArg Prod.snd went)
    | falls told => exact fit.interrupt own (congrArg Prod.snd told)
    | ends => exact fit.finish
  intro other task found
  rw [same] at found
  exact moved other task found

theorem tearDown (suited : m.Suited suits) (call : Pending κ ι)
    : (m.tearDown id call).Suited suits := by
  have doomed : (m.setTask id (Task.doomed call)).Suited suits :=
    suited.setTask (fun _ => rfl) fun task found => suited id task found
  exact doomed

/-- A job that is scheduled for its document leaves all tasks suited. -/
theorem complete (suited : m.Suited suits) (fit : host.Suits suits) {call : Pending κ ι}
    (asked : call.Asked host)
    : (m.complete host call.step call.request).Suited suits := by
  intro other task found
  rw [tasks_complete] at found
  obtain ⟨now, world, asks⟩ := asked
  cases request : call.request with
  | cancel uri =>
      rw [request] at found
      exact suited other task found
  | schedule uri job delay =>
      rw [request] at found asks
      rcases getElem?_concat_iff.mp found with old | ⟨_, rfl⟩
      · exact suited other task old
      · exact fit.request asks

/-- A handler leaves all tasks suited, by induction over its steps. -/
theorem proceed (suited : m.Suited suits) (fit : host.Suits suits) (steps : List ι)
    : (m.proceed host steps).Suited suits := by
  fun_induction Manager.proceed host m steps with
  | case1 | case2 | case3 => exact suited
  | case4 m step later world request asks given free id unfinished =>
      exact tearDown (m := { given with held := true }) suited _
  | case5 m step later world request asks given free cleared ih =>
      have asked : (⟨step, request, later⟩ : Pending κ ι).Asked host :=
        ⟨m.now, m.world, congrArg Prod.snd asks⟩
      exact ih (complete (m := { given with held := true }) suited fit asked)

/-- A turn leaves all tasks suited, by the kind of the turn. -/
theorem take (suited : m.Suited suits) (fit : host.Suits suits) {turn : Turn κ μ ι}
    (asked : ∀ call, turn.pending? = some call → call.Asked host)
    : (m.take host turn).Suited suits := by
  cases turn with
  | task id => exact suited.runTask fit
  | handler message =>
      exact proceed (m := { m with world := (host.begin m.now message m.world).1 }) suited fit _
  | cleared call => exact (suited.complete fit (asked call rfl)).proceed fit _
  | locked call =>
      simp only [Manager.take, grant]
      split
      · exact suited.tearDown call
      · exact (suited.complete fit (asked call rfl)).proceed fit _

end Suited

end Manager

namespace Course

variable {host : Host ω κ σ μ ι} {m : Manager ω κ σ μ ι} {made : List (Pending κ ι)}
  {returned : List (Pending κ ι × Nat)}

/-- Whatever happens, a call was made for what its step asks for. -/
theorem asked {first : Manager ω κ σ μ ι} (course : Course host first made returned m)
    : ∀ call ∈ made, call.Asked host := by
  induction course with
  | start => exact fun _ member => nomatch member
  | touched _ _ ih => exact ih
  | arrives _ _ ih => exact ih
  | passes _ _ ih => exact ih
  | turn _ _ _ ih =>
      intro call member
      rcases List.mem_append.mp member with old | new
      · exact ih call old
      · obtain ⟨entry, here, rfl⟩ := List.mem_map.mp new
        exact (Manager.asked_of_mem_made here).1

/-- Whatever happens, all tasks are in stages that suit their documents. -/
theorem suited {suits : String → Stage κ σ → Prop} {world : ω}
    (course : Course host { world } made returned m) (fit : host.Suits suits)
    : m.Suited suits := by
  have fresh : ({ world } : Manager ω κ σ μ ι).Consistent .free := .fresh world
  induction course with
  | start => exact fun _ _ found => nomatch found
  | touched _ _ ih => exact ih
  | arrives _ _ ih => exact ih
  | passes _ _ ih => exact ih
  | @turn _ _ m _ agenda earlier _ next ih =>
      refine Manager.Suited.take (m := { m with agenda }) ih fit ?_
      -- The call that the turn goes on with was first in line, so it has been made before.
      intro call goesOn
      apply earlier.asked call
      rw [earlier.inOrder fresh rfl, (earlier.consistent fresh).line_next next, goesOn]
      simp

end Course

end EditorLint.Debounce
