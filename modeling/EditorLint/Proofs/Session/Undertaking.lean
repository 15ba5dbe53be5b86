import EditorLint.Proofs.Debounce.Calls
import EditorLint.Proofs.Session.Publication

/-! What handlers undertake for one document. Their steps for it are taken in the order in which the
editor has sent what they handle, whoever comes to a turn meanwhile, as long as no settings have
documents linted among which it is.
-/

namespace EditorLint.Session

open Debounce

/-- The notification whose handler gets a turn for an input. -/
def Input.notification? : Input → Option Notification
  | .opened uri .. => some (.opened uri)
  | .changed uri .. => some (.changed uri)
  | .saved uri => some (.saved uri)
  | .closed uri => some (.closed uri)
  | .configured payload => some (.configured payload)
  | .initialized .. | .codeAction .. | .tool _ | .advance _ => none

/-- The step that a handler takes for the document that its notification is about. -/
def Notification.steps : Notification → List Step
  | .opened uri => [.relint (Notification.opened uri).feature uri]
  | .changed uri => [.relint (Notification.changed uri).feature uri]
  | .saved uri => [.relint (Notification.saved uri).feature uri]
  | .closed uri => [.forget uri]
  | .configured _ => []

/-- Those of some steps that are for a document. -/
def about (uri : String) (steps : List Step) : List Step :=
  steps.filter (·.uri = uri)

/-- The steps for a document that handlers have called with or are yet to start with, in order. -/
def undertaken (uri : String) (made : List (Pending LintJob Step)) (server : Server) :
    List Step :=
  about uri (made.map (·.step) ++ server.handlers.flatMap Notification.steps)

/-- A document is not among those that settings have linted: no open one is filed under its address,
and no handler under way comes to it later.
-/
structure Server.Spares (uri : String) (server : Server) : Prop where
  unfiled : ∃ workspace, server.world.workspace = some workspace ∧ uri ∉ workspace.uris
  later : ∀ call ∈ server.line, ∀ step ∈ call.later, step.uri ≠ uri

/-- An editor that has closed a document neither changes nor saves it, and opens none under its
address.
-/
def Input.LeavesClosed (uri : String) : Input → Prop
  | .opened other .. => other ≠ uri ∧ Uri.decode other ≠ uri
  | .changed other .. | .saved other => other ≠ uri
  | _ => True

variable {uri : String} {server : Server} {call : Pending LintJob Step}

-----------------------------------------------------------------------------------------
-- Steps and what they ask for
-----------------------------------------------------------------------------------------

/-- A call asks for what is done for the document of its step: the lint of a document is scheduled,
or a document is forgotten.
-/
theorem asked_cases (asked : call.Asked host)
    : (∃ feature uri version delay,
        call.step = .relint feature uri ∧ call.request = .schedule uri ⟨uri, version⟩ delay)
      ∨ ∃ uri, call.step = .forget uri ∧ call.request = .cancel uri := by
  obtain ⟨now, world, asks⟩ := asked
  cases step : call.step with
  | forget uri =>
      rw [step] at asks
      exact Or.inr ⟨uri, rfl, (Option.some.inj asks).symm⟩
  | relint feature uri =>
      rw [step] at asks
      change (Step.request now (.relint feature uri) world).2 = _ at asks
      unfold Step.request at asks
      dsimp only at asks
      split at asks
      · cases asks
      · exact Or.inl ⟨feature, uri, _, _, rfl, (Option.some.inj asks).symm⟩

/-- Once there is a workspace, every step asks for something. -/
theorem Step.exists_request (now : Time) (step : Step) {world : World} {workspace : Workspace}
    (given : world.workspace = some workspace)
    : ∃ request, step.request now world = (world, some request) := by
  cases step with
  | relint feature uri => exact ⟨_, Step.request_relint now given⟩
  | forget uri => exact ⟨_, rfl⟩

/-- A call is about the document of its step. -/
theorem uri_of_asked (asked : call.Asked host) : call.request.uri = call.step.uri := by
  rcases asked_cases asked with ⟨_, _, _, _, step, request⟩ | ⟨_, step, request⟩ <;>
    simp [step, request, Step.uri, Request.uri]

/-- All jobs are for the documents that they are scheduled for, and stay with them. -/
theorem host_suits : host.Suits IsFor where
  request := by
    intro now step world uri job delay asks
    have asked : (⟨step, .schedule uri job delay, []⟩ : Pending LintJob Step).Asked host :=
      ⟨now, world, asks⟩
    rcases asked_cases asked with ⟨_, _, _, _, _, request⟩ | ⟨_, _, request⟩
    · cases request
      rfl
    · cases request
  rest own := own
  start := by
    intro uri job now world duration state own waits
    obtain ⟨_, _, rfl⟩ := LintJob.prepared_of_start waits
    exact fun _ same => Option.some.inj same ▸ own
  resume := by
    intro uri state now world duration next own waits job same
    exact own job ((LintState.job?_resume waits).symm.trans same)
  interrupt := by
    intro uri state now world duration next _ waits job same
    have leaving := (LintState.interrupt_wait now world waits).2.2
    cases next with
    | fallen | leaving => cases same
    | prepared | working | landed | arriving => exact leaving.elim
  finish := trivial

/-- A handler takes one step for the document of its notification; only settings have it take steps
for the documents that are filed in the workspace.
-/
theorem Notification.begin_cases (now : Time) (notification : Notification) (world : World)
    : (∃ step, notification.steps = [step] ∧ (notification.begin now world).2 = [step])
      ∨ notification.steps = []
        ∧ ∀ step ∈ (notification.begin now world).2,
            ∀ workspace, world.workspace = some workspace → step.uri ∈ workspace.uris := by
  cases notification with
  | opened | changed | saved | closed => exact Or.inl ⟨_, rfl, rfl⟩
  | configured payload =>
      refine Or.inr ⟨rfl, ?_⟩
      intro step member workspace given
      by_cases settings : ∃ entries, payload = .obj entries
      · obtain ⟨entries, rfl⟩ := settings
        rw [(begin_settings now entries world).2, given] at member
        obtain ⟨key, filed, rfl⟩ := List.mem_map.mp member
        exact filed
      · have nothing := (begin_other now world fun entries same => settings ⟨entries, same⟩).2
        rw [nothing] at member
        cases member

-----------------------------------------------------------------------------------------
-- A turn
-----------------------------------------------------------------------------------------

/-- The handler of a notification makes a call for the one step that it has to take. -/
theorem Server.made_of_single (server : Server) {workspace : Workspace}
    (given : server.world.workspace = some workspace) {notification : Notification} {step : Step}
    (single : (notification.begin server.now server.world).2 = [step])
    : (server.made host (.handler notification)).map (·.1.step) = [step] := by
  let started : Server :=
    { server with world := (notification.begin server.now server.world).1 }
  have keeps : host.Keeps (fun _ => True) (World.Untouched server.world) :=
    host_keeps_untouched server.world
  have untouched : World.Untouched server.world started.world :=
    keeps.begin server.now notification server.world (.refl _)
  obtain ⟨request, asks⟩ := step.exists_request started.now (untouched.workspace.trans given)
  have calls : (started.calls host [step]).map (·.1) = [⟨step, request, []⟩] :=
    Manager.calls_singleton asks
  rw [← single] at calls
  exact List.map_map.symm.trans (congrArg (List.map Pending.step) calls)

section Turn

variable {limit : Time} {turn : Turn LintJob Notification Step}
  {agenda : Agenda (Turn LintJob Notification Step)}

/-- The steps that a turn takes up for a document that is spared are those of the notification
whose handler starts, and after the first step there are none.
-/
theorem Server.Spares.stepsIn (spares : server.Spares uri)
    (consistent : Manager.Consistent .free server)
    (next : server.agenda.next? limit = some (turn, agenda))
    : let taken : Server := { server with agenda }
      (∀ step ∈ (taken.stepsIn host turn).tail, step.uri ≠ uri)
      ∧ about uri ((taken.made host turn).map (·.1.step))
        = about uri (turn.message?.toList.flatMap Notification.steps) := by
  intro taken
  have none (nothing : turn.message?.toList.flatMap Notification.steps = [])
      (others : ∀ step ∈ taken.stepsIn host turn, step.uri ≠ uri)
      : (∀ step ∈ (taken.stepsIn host turn).tail, step.uri ≠ uri)
        ∧ about uri ((taken.made host turn).map (·.1.step))
          = about uri (turn.message?.toList.flatMap Notification.steps) := by
    refine ⟨fun step member => others step (List.mem_of_mem_tail member), ?_⟩
    rw [nothing, about, List.filter_eq_nil_iff.mpr]
    · rfl
    · intro step member
      obtain ⟨entry, here, rfl⟩ := List.mem_map.mp member
      have within := (Manager.asked_of_mem_made here).2.subset List.mem_cons_self
      simpa using others _ within
  obtain ⟨workspace, given, unfiled⟩ := spares.unfiled
  cases turn with
  | task id => exact none rfl fun _ member => nomatch member
  | locked call | cleared call =>
      refine none rfl (spares.later call ?_)
      rw [consistent.line_next next]
      exact List.mem_append_left _ List.mem_cons_self
  | handler message =>
      rcases message.begin_cases taken.now taken.world with ⟨step, own, begins⟩ | ⟨own, listed⟩
      · have steps : taken.stepsIn host (.handler message) = [step] := begins
        refine ⟨fun other member => ?_, ?_⟩
        · rw [steps] at member
          cases member
        · rw [taken.made_of_single given begins]
          simp [Turn.message?, own]
      · refine none (by simp [Turn.message?, own]) fun step member same => unfiled ?_
        exact same ▸ listed step member workspace given

/-- A turn goes on with what is undertaken for a document that is spared, and undertakes nothing
new for it.
-/
theorem Server.Spares.take (spares : server.Spares uri)
    (consistent : Manager.Consistent .free server)
    (next : server.agenda.next? limit = some (turn, agenda)) (made : List (Pending LintJob Step))
    : let taken : Server := { server with agenda }
      let after : Server := taken.take host turn
      after.Spares uri
      ∧ undertaken uri (made ++ (taken.made host turn).map (·.1)) after
        = undertaken uri made server := by
  intro taken after
  obtain ⟨single, own⟩ := spares.stepsIn consistent next
  refine ⟨⟨?_, ?_⟩, ?_⟩
  · obtain ⟨workspace, given, unfiled⟩ := spares.unfiled
    have keeps : host.Keeps (fun _ => True) (World.Untouched server.world) :=
      host_keeps_untouched server.world
    have untouched : World.Untouched server.world after.world :=
      keeps.take (m := taken) (.refl _) (fun _ _ => trivial) turn
    exact ⟨workspace, untouched.workspace.trans given, unfiled⟩
  · intro call member step later
    have ordered := consistent.line_step host next
    have before : call ∈ server.line ++ (taken.made host turn).map (·.1) := by
      rw [ordered]
      exact List.mem_append_right _ member
    rcases List.mem_append.mp before with old | new
    · exact spares.later call old step later
    · obtain ⟨entry, here, rfl⟩ := List.mem_map.mp new
      obtain ⟨front, split⟩ := (Manager.asked_of_mem_made here).2
      apply single step
      rw [← split]
      cases front with
      | nil => exact later
      | cons first rest => exact List.mem_append_right _ (List.mem_cons_of_mem _ later)
  · -- The step of a handler that starts is no longer ahead of it, and the last one called for.
    have started := consistent.handlers_next next
    have kept : after.handlers = taken.handlers := Manager.handlers_take host taken turn
    unfold undertaken
    rw [kept, started, List.flatMap_append, List.map_append, List.map_map]
    simp only [about, List.filter_append, List.append_assoc] at own ⊢
    exact congrArg (_ ++ ·) (congrArg (· ++ _) own)

end Turn

-----------------------------------------------------------------------------------------
-- What arrives
-----------------------------------------------------------------------------------------

/-- A notification that is delivered has its handler ready behind all others. -/
theorem Server.handlers_deliver (server : Server) (notification : Notification)
    : (server.deliver notification).handlers = server.handlers ++ [notification] := by
  simp [Manager.handlers, Manager.deliver, Manager.post, Agenda.post, Turn.message?]

/-- What arrives gives at most the handler of its notification a turn, behind all others. -/
theorem Server.handlers_receive (server : Server) (input : Input)
    : (server.receive input).handlers = server.handlers
      ∨ ∃ notification,
          input.notification? = some notification
          ∧ (server.receive input).handlers = server.handlers ++ [notification] := by
  have withWorkspace (notification : Notification)
      (f : Workspace → World → Except Failure World)
      : (server.withWorkspace notification f).handlers = server.handlers
        ∨ (server.withWorkspace notification f).handlers = server.handlers ++ [notification] := by
    rcases server.withWorkspace_cases notification f with
      ⟨failure, refused⟩ | ⟨workspace, world, _, _, made⟩
    · rw [refused]
      exact Or.inl rfl
    · rw [made]
      exact Or.inr (handlers_deliver { server with world } notification)
  cases input with
  | opened | closed => exact (withWorkspace _ _).imp_right fun more => ⟨_, rfl, more⟩
  | changed uri version texts =>
      cases texts with
      | nil => exact Or.inr ⟨_, rfl, server.handlers_deliver _⟩
      | cons text more => exact (withWorkspace _ _).imp_right fun more => ⟨_, rfl, more⟩
  | saved | configured => exact Or.inr ⟨_, rfl, server.handlers_deliver _⟩
  | initialized | codeAction | tool | advance => exact Or.inl rfl

/-- What arrives takes up no call. -/
theorem Server.line_receive (server : Server) (input : Input)
    : (server.receive input).line = server.line := by
  obtain ⟨world, agenda, taken, _, rfl | ⟨notification, rfl⟩⟩ := server.takes_receive input
  · rw [taken]
    rfl
  · rw [taken]
    simp [Manager.line, Manager.holders, Agenda.post, Turn.pending?]

/-- A document that is spared is spared by what arrives, and at most undertaken to be forgotten
again, if the editor leaves it closed.
-/
theorem Server.Spares.receive (spares : server.Spares uri) {input : Input}
    (leaves : input.LeavesClosed uri) (made : List (Pending LintJob Step))
    : (server.receive input).Spares uri
      ∧ ∃ more,
          undertaken uri made (server.receive input) = undertaken uri made server ++ more
          ∧ ∀ step ∈ more, step = .forget uri := by
  refine ⟨⟨?_, ?_⟩, ?_⟩
  · obtain ⟨workspace, given, unfiled⟩ := spares.unfiled
    cases input with
    | initialized root options =>
        refine ⟨_, (untouched_setUp server.now root options server.world).workspace, ?_⟩
        exact List.not_mem_nil
    | opened other language version text =>
        rw [receive_opened given ⟨other, language, version, text⟩]
        refine ⟨_, rfl, fun member => ?_⟩
        obtain ⟨entry, here, same⟩ := List.mem_map.mp member
        rcases Table.mem_insert here with rfl | old
        · exact leaves.2 same
        · exact unfiled (same ▸ List.mem_map_of_mem old)
    | closed other =>
        rw [receive_closed given other]
        refine ⟨_, rfl, fun member => unfiled ?_⟩
        obtain ⟨entry, here, same⟩ := List.mem_map.mp member
        exact same ▸ List.mem_map_of_mem (List.mem_of_mem_filter here)
    | changed other version texts =>
        refine ⟨workspace, ?_, unfiled⟩
        cases sought : workspace.get? other with
        | some place =>
            rw [receive_changed given sought version texts]
            exact given
        | none =>
            cases texts with
            | nil => exact given
            | cons text more =>
                simp only [Server.receive, List.isEmpty_cons, withWorkspace, changeDocument, given,
                  sought]
                exact given
    | codeAction other only diagnostics =>
        have noted := noted_answer server.now other only diagnostics server.world
        exact ⟨workspace, noted.untouched.workspace.trans given, unfiled⟩
    | saved | configured | tool | advance => exact ⟨workspace, given, unfiled⟩
  · rw [server.line_receive input]
    exact spares.later
  · rcases server.handlers_receive input with same | ⟨notification, own, more⟩
    · exact ⟨[], by simp [undertaken, same], by simp⟩
    · refine ⟨about uri notification.steps, ?_, ?_⟩
      · simp [undertaken, more, about, List.filter_append]
      · intro step member
        obtain ⟨here, same⟩ := List.mem_filter.mp member
        have same : step.uri = uri := by simpa using same
        cases input with
        | opened other =>
            cases own
            obtain rfl := List.mem_singleton.mp here
            exact (leaves.1 same).elim
        | changed other | saved other =>
            cases own
            obtain rfl := List.mem_singleton.mp here
            exact (leaves same).elim
        | closed other =>
            cases own
            obtain rfl := List.mem_singleton.mp here
            exact congrArg Step.forget same
        | configured payload =>
            cases own
            cases here
        | initialized | codeAction | tool | advance => cases own

-----------------------------------------------------------------------------------------
-- In the course of a run
-----------------------------------------------------------------------------------------

section Run

variable {gate : Server → Prop} {world : World} {first after : Server} {inputs : List Input}
  {made : List (Pending LintJob Step)} {returned : List (Pending LintJob Step × Nat)}

/-- What arrives neither makes a call nor has one return. -/
theorem course_receive (course : Course host { world } made returned server) (input : Input)
    : Course host { world } made returned (server.receive input) := by
  obtain ⟨world, agenda, taken, _, rfl | ⟨notification, rfl⟩⟩ := server.takes_receive input
  · exact taken ▸ course.touched world
  · exact taken ▸ (course.touched world).arrives notification

/-- A run is a course of calls that are made and return, by induction over it. -/
theorem Run.course (run : Run gate { world } inputs server)
    : ∃ made returned, Course host { world } made returned server := by
  induction run with
  | start => exact ⟨[], [], .start⟩
  | receive _ _ input ih =>
      obtain ⟨made, returned, course⟩ := ih
      exact ⟨made, returned, course_receive course input⟩
  | turn _ stepped ih =>
      obtain ⟨made, returned, course⟩ := ih
      obtain ⟨_, next, rfl⟩ := Option.map_eq_some_iff.mp stepped
      exact ⟨_, _, course.turn _ next⟩
  | pass _ quiet ih =>
      obtain ⟨made, returned, course⟩ := ih
      exact ⟨made, returned, course.passes quiet⟩

/-- A document that is spared when the editor has closed it is undertaken at most to be forgotten
again, by induction over the run.
-/
theorem Run.spares (run : Run gate first inputs server)
    (before : Course host { world } made returned first) (spares : first.Spares uri)
    (leaves : ∀ input ∈ inputs, input.LeavesClosed uri)
    : ∃ more since forgets,
        Course host { world } (made ++ more) (returned ++ since) server
        ∧ server.Spares uri
        ∧ undertaken uri (made ++ more) server = undertaken uri made first ++ forgets
        ∧ ∀ step ∈ forgets, step = .forget uri := by
  induction run with
  | start => exact ⟨[], [], [], by simpa using before, spares, by simp, by simp⟩
  | receive _ _ input ih =>
      obtain ⟨more, since, forgets, course, spared, same, only⟩ :=
        ih fun other member => leaves other (List.mem_append_left _ member)
      obtain ⟨still, also, grown, again⟩ := spared.receive (leaves input (by simp)) (made ++ more)
      refine ⟨more, since, forgets ++ also, course_receive course input, still, ?_, ?_⟩
      · rw [grown, same, List.append_assoc]
      · intro step member
        rcases List.mem_append.mp member with old | new
        · exact only step old
        · exact again step new
  | turn _ stepped ih =>
      obtain ⟨more, since, forgets, course, spared, same, only⟩ := ih leaves
      obtain ⟨_, next, rfl⟩ := Option.map_eq_some_iff.mp stepped
      obtain ⟨still, kept⟩ := spared.take (course.consistent (.fresh world)) next (made ++ more)
      have taken := course.turn _ next
      rw [List.append_assoc] at kept
      rw [List.append_assoc, List.append_assoc] at taken
      exact ⟨_, _, forgets, taken, still, kept.trans same, only⟩
  | pass _ quiet ih =>
      obtain ⟨more, since, forgets, course, spared, same, only⟩ := ih leaves
      exact ⟨more, since, forgets, course.passes quiet, ⟨spared.unfiled, spared.later⟩, same, only⟩

end Run

end EditorLint.Session
