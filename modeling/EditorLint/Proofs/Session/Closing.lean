import EditorLint.Proofs.Session.Undertaking

/-! Closed documents. Once the handler of a document's closing is done, no lint of the document is
scheduled, and none publishes anything for it, if no settings list it: neither settings whose
handler was under way when it was closed, nor later ones that find another document filed under
its address.
-/

namespace EditorLint.Session

open Debounce

/-- The handler of a document's closing has not come to its end. -/
def Server.Closing (uri : String) (server : Server) : Prop :=
  .closed uri ∈ server.handlers ∨ ∃ call ∈ server.line, call.step = .forget uri

instance (uri : String) (server : Server) : Decidable (server.Closing uri) :=
  inferInstanceAs (Decidable (_ ∨ _))

variable {uri : String} {server middle after : Server} {world : World}
  {inputs since more : List Input} {made : List (Pending LintJob Step)}
  {returned : List (Pending LintJob Step × Nat)}

-----------------------------------------------------------------------------------------
-- What is last done for a document
-----------------------------------------------------------------------------------------

/-- What is undertaken for a document has been done, is under way, or is ahead of a handler. -/
theorem undertaken_eq (course : Course host { world } made returned server) (uri : String)
    : undertaken uri made server
      = about uri (returned.map (·.1.step))
        ++ about uri (server.line.map (·.step))
        ++ about uri (server.handlers.flatMap Notification.steps) := by
  rw [undertaken, course.inOrder (.fresh world) rfl, List.map_append, List.map_map]
  simp only [about, List.filter_append]
  rfl

/-- Where the last that is undertaken for a document is to forget it, and the handler of its closing
is done, all that was undertaken for it has been done.
-/
theorem undertaken_of_not_closing (course : Course host { world } made returned server)
    (last : (undertaken uri made server).getLast? = some (.forget uri))
    (done : ¬ server.Closing uri)
    : undertaken uri made server = about uri (returned.map (·.1.step)) := by
  -- Whatever stands at the end without forgetting the document is empty.
  have behind {early late : List Step} (last : (early ++ late).getLast? = some (.forget uri))
      (other : .forget uri ∉ late)
      : late = [] := by
    cases final : late.getLast? with
    | none => exact List.getLast?_eq_none_iff.mp final
    | some step =>
        rw [List.getLast?_append, final] at last
        obtain rfl := Option.some.inj last
        exact (other (List.mem_of_getLast? final)).elim
  have starting : about uri (server.handlers.flatMap Notification.steps) = [] := by
    rw [undertaken_eq course] at last
    refine behind last fun member => done (Or.inl ?_)
    obtain ⟨notification, ready, own⟩ := List.mem_flatMap.mp (List.mem_filter.mp member).1
    cases notification with
    | closed other =>
        obtain rfl := Step.forget.inj (List.mem_singleton.mp own)
        exact ready
    | opened | changed | saved => cases List.mem_singleton.mp own
    | configured payload => cases own
  have called : about uri (server.line.map (·.step)) = [] := by
    rw [undertaken_eq course, starting, List.append_nil] at last
    refine behind last fun member => done (Or.inr ?_)
    obtain ⟨call, here, own⟩ := List.mem_map.mp (List.mem_filter.mp member).1
    exact ⟨call, here, own⟩
  rw [undertaken_eq course, starting, called, List.append_nil, List.append_nil]

/-- From a call on that has forgotten a document, all that has been done for it is to forget it. -/
structure Forgotten (uri : String) (place : Nat) (returned : List (Pending LintJob Step × Nat)) :
    Prop where
  split
    : ∃ earlier call later,
        returned = earlier ++ (call, place) :: later
        ∧ call.step = .forget uri
        ∧ ∀ entry ∈ later, entry.1.step.uri = uri → entry.1.step = .forget uri

/-- What was last done for a document is to forget it. -/
theorem exists_forgotten
    (last : (about uri (returned.map (·.1.step))).getLast? = some (.forget uri))
    : ∃ place, Forgotten uri place returned := by
  obtain ⟨front, same⟩ := List.getLast?_eq_some_iff.mp last
  obtain ⟨early, late, split, _, own⟩ := List.filter_eq_append_iff.mp same
  obtain ⟨others, rest, rfl, _, _, none⟩ := List.filter_eq_cons_iff.mp own
  rw [← List.append_assoc] at split
  obtain ⟨earlier, behind, rfl, _, tail⟩ := List.map_eq_append_iff.mp split
  obtain ⟨⟨call, place⟩, later, rfl, forgets, rfl⟩ := List.map_eq_cons_iff.mp tail
  refine ⟨place, earlier, call, later, rfl, forgets, ?_⟩
  intro entry member same
  have apart := List.filter_eq_nil_iff.mp none _ (List.mem_map_of_mem member)
  simp [same] at apart

/-- A document that is only forgotten again stays forgotten. -/
theorem Forgotten.append {place : Nat} (forgotten : Forgotten uri place returned)
    {since : List (Pending LintJob Step × Nat)}
    (only : ∀ entry ∈ since, entry.1.step.uri = uri → entry.1.step = .forget uri)
    : Forgotten uri place (returned ++ since) := by
  obtain ⟨earlier, call, later, rfl, forgets, before⟩ := forgotten
  refine ⟨earlier, call, later ++ since, by simp, forgets, ?_⟩
  intro entry member
  rcases List.mem_append.mp member with old | new
  · exact before entry old
  · exact only entry new

/-- The tasks of a forgotten document have ended, and were there when it was forgotten. -/
theorem Forgotten.ended {place : Nat} (forgotten : Forgotten uri place returned)
    (course : Course host { world } made returned server) {id : Nat}
    {task : Task LintJob LintState Step} (found : server.tasks[id]? = some task)
    (own : task.uri = uri)
    : id < place ∧ task.stage = .ended := by
  have fresh : Manager.Consistent .free ({ world } : Server) := .fresh world
  have accounted := course.accounted fresh rfl
  obtain ⟨earlier, call, later, split, forgets, only⟩ := forgotten
  have known {entry : Pending LintJob Step × Nat} (member : entry ∈ returned)
      : entry.1.Asked host := by
    apply course.asked
    rw [course.inOrder fresh rfl]
    exact List.mem_append_left _ (List.mem_map_of_mem member)
  have has : (call, place) ∈ returned := by simp [split]
  have about : task.uri = call.request.uri := by
    rw [uri_of_asked (known has), forgets, own]
    rfl
  obtain ⟨creator, job, delay, member, scheduled⟩ := accounted.created found
  -- The call that created the task is no later one, which would only forget the document again.
  have relints : ∃ feature, creator.step = .relint feature uri := by
    rcases asked_cases (known member) with ⟨feature, _, _, _, step, request⟩ | ⟨_, _, request⟩
    · obtain ⟨same, _⟩ := Request.schedule.inj (scheduled.symm.trans request)
      exact ⟨feature, by rw [step, ← same, own]⟩
    · cases scheduled.symm.trans request
  obtain ⟨feature, step⟩ := relints
  have before : id < place := by
    rw [split] at member
    rcases List.mem_append.mp member with early | rest
    · have ordered := accounted.ordered
      rw [split] at ordered
      have pair := (List.pairwise_append.mp ordered).2.2 _ early _ List.mem_cons_self
      exact pair _ _ _ scheduled
    · rcases List.mem_cons.mp rest with same | late
      · cases same
        cases step.symm.trans forgets
      · have same := only _ late (by rw [step]; rfl)
        cases step.symm.trans same
  exact ⟨before, accounted.ended has before found about⟩

-----------------------------------------------------------------------------------------
-- After the closing
-----------------------------------------------------------------------------------------

/-- Where all tasks of a document have ended, nothing but empty lists is published for it in the
next turn.
-/
theorem Server.sends_nothing (course : Course host { world } made returned server)
    (ended
      : ∀ (id : Nat) (task : Task LintJob LintState Step),
          server.tasks[id]? = some task → task.uri = uri → task.stage = .ended)
    {limit : Time} (stepped : server.step? host limit = some after) {entry : Stamped Event}
    (new : entry ∈ after.world.history.drop server.world.history.length)
    {version : Option Int} {diagnostics : List Editor.Diagnostic}
    (publishes : entry.event = .publish uri version diagnostics)
    : diagnostics = [] := by
  obtain ⟨⟨turn, agenda⟩, next, rfl⟩ := Option.map_eq_some_iff.mp stepped
  have handler (other : ∀ id, turn ≠ .task id) : diagnostics = [] := by
    rcases sends_handler { server with agenda } other new with aside | ⟨_, same⟩
    · simp [publishes, Event.isAside] at aside
    · cases publishes.symm.trans same
      rfl
  cases turn with
  | handler | locked | cleared => exact handler (by simp)
  | task id =>
      obtain ⟨job, subject, messages, images, delivers, _, shown⟩ :=
        delivers_of_publish new (by simp [publishes, Event.isAside])
      obtain ⟨task, found, stage, _⟩ := delivers.running
      have own : IsFor task.uri task.stage := course.suited host_suits id task found
      rw [stage] at own
      cases publishes.symm.trans shown
      cases (ended id task found (own job rfl).symm).symm.trans stage

section

variable {disk : Disk} {delay : Time} {settings : Settings}
  {tool : Tool.Behaviour} {workspace : Workspace}
  (run : Run AtAnyTime (Server.start disk delay settings tool) inputs server)
  (given : server.world.workspace = some workspace)
  (plain : uri ∈ workspace.uris → Uri.decode uri = uri)
  (alone : ∀ call ∈ server.line, ∀ step ∈ call.later, step.uri ≠ uri)
  (closing : Run AtAnyTime (server.receive (.closed uri)) since middle)
  (finished : ¬ middle.Closing uri)

include given plain alone in
/-- A document that is closed is spared from then on, if no settings list it. -/
theorem Server.spares_closed : (server.receive (.closed uri)).Spares uri := by
  refine ⟨?_, ?_⟩
  · rw [receive_closed given uri]
    refine ⟨_, rfl, fun member => ?_⟩
    obtain ⟨entry, here, same⟩ := List.mem_map.mp member
    obtain ⟨filed, kept⟩ := List.mem_filter.mp here
    have listed : uri ∈ workspace.uris := same ▸ List.mem_map_of_mem filed
    simp [same, plain listed] at kept
  · rw [server.line_receive]
    exact alone

include run given plain alone closing finished in
/-- A document whose closing has been handled is forgotten, and stays so as long as the editor
leaves it closed.
-/
theorem Run.forgotten (later : Run AtAnyTime middle more after)
    (leaves : ∀ input ∈ since ++ more, input.LeavesClosed uri)
    : ∃ made returned place,
        Course host { world := (Server.start disk delay settings tool).world } made returned
          after
        ∧ Forgotten uri place returned
        ∧ place ≤ middle.tasks.length := by
  obtain ⟨made, returned, before⟩ := Run.course run
  have asked
      : undertaken uri made (server.receive (.closed uri))
        = undertaken uri made server ++ [.forget uri] := by
    rw [Server.receive_closed given uri]
    simp [undertaken, about, Manager.handlers, Manager.deliver, Manager.post, Agenda.post,
      Turn.message?, Notification.steps, Step.uri]
  obtain ⟨madeSince, returnedSince, forgets, atMiddle, spares, undertook, only⟩ :=
    closing.spares (course_receive before (.closed uri)) (Server.spares_closed given plain alone)
      fun input member => leaves input (List.mem_append_left _ member)
  have last : (undertaken uri (made ++ madeSince) middle).getLast? = some (.forget uri) := by
    rw [undertook, asked, List.getLast?_append, List.getLast?_append]
    cases final : forgets.getLast? with
    | none => rfl
    | some step => exact congrArg some (only step (List.mem_of_getLast? final))
  have done := undertaken_of_not_closing atMiddle last finished
  obtain ⟨place, forgotten⟩ := exists_forgotten (done ▸ last)
  have within : place ≤ middle.tasks.length := by
    obtain ⟨earlier, call, _, split, _⟩ := forgotten
    exact (atMiddle.accounted (.fresh _) rfl).within (call, place) (by simp [split])
  obtain ⟨madeMore, returnedMore, again, atAfter, _, undertakes, also⟩ :=
    later.spares atMiddle spares fun input member => leaves input (List.mem_append_right _ member)
  refine ⟨_, _, place, atAfter, forgotten.append ?_, within⟩
  intro entry member own
  -- All that was undertaken before has been done, so what is done since is undertaken since.
  rw [undertaken_eq atAfter, done, List.map_append] at undertakes
  simp only [about, List.filter_append, List.append_assoc, List.append_cancel_left_eq]
    at undertakes
  apply also
  rw [← undertakes]
  refine List.mem_append_left _ (List.mem_filter.mpr ⟨List.mem_map_of_mem member, ?_⟩)
  simpa using own

/-- Once the handler of a document's closing is done, no lint of the document is scheduled and all
that were have ended, and nothing but empty lists is published for it, as long as the editor leaves
it closed. Two things have to be true when it is closed: no other open document is filed under its
address, and no handler under way is to come to it later.
-/
theorem tasks_of_closed_document
    (run : Run AtAnyTime (Server.start disk delay settings tool) inputs server)
    (given : server.world.workspace = some workspace)
    (plain : uri ∈ workspace.uris → Uri.decode uri = uri)
    (alone : ∀ call ∈ server.line, ∀ step ∈ call.later, step.uri ≠ uri)
    (closing : Run AtAnyTime (server.receive (.closed uri)) since middle)
    (finished : ¬ middle.Closing uri) (later : Run AtAnyTime middle more after)
    (leaves : ∀ input ∈ since ++ more, input.LeavesClosed uri)
    : (∀ (id : Nat) (task : Task LintJob LintState Step),
        after.tasks[id]? = some task
        → task.uri = uri
        → id < middle.tasks.length ∧ task.stage = .ended)
      ∧ ∀ entry ∈ after.world.history.drop middle.world.history.length,
          ∀ version diagnostics,
            entry.event = .publish uri version diagnostics → diagnostics = [] := by
  have ended {more : List Input} {after : Server} (later : Run AtAnyTime middle more after)
      (leaves : ∀ input ∈ since ++ more, input.LeavesClosed uri) (id : Nat)
      (task : Task LintJob LintState Step) (found : after.tasks[id]? = some task)
      (own : task.uri = uri)
      : id < middle.tasks.length ∧ task.stage = .ended := by
    obtain ⟨made, returned, place, course, forgotten, within⟩ :=
      run.forgotten given plain alone closing finished later leaves
    obtain ⟨before, spent⟩ := forgotten.ended course found own
    exact ⟨Nat.lt_of_lt_of_le before within, spent⟩
  refine ⟨ended later leaves, ?_⟩
  -- What is new after an event was new before it, or has come with it.
  have new_cases {before after : Server} {entries : List (Stamped Event)} {inputs : List Input}
      (earlier : Run AtAnyTime middle inputs before)
      (grown : after.world.history = before.world.history ++ entries) {entry : Stamped Event}
      (new : entry ∈ after.world.history.drop middle.world.history.length)
      : entry ∈ before.world.history.drop middle.world.history.length ∨ entry ∈ entries := by
    rw [grown, List.drop_append_of_le_length earlier.history_grows.length_le] at new
    exact List.mem_append.mp new
  induction later with
  | start => simp
  | receive before _ input ih =>
      intro entry new version diagnostics publishes
      obtain ⟨_, _, taken, ⟨_, entries, grown, aside⟩, _⟩ := Server.takes_receive _ input
      rw [taken] at new
      rcases new_cases before grown new with old | here
      · refine ih (fun other member => leaves other ?_) entry old version diagnostics publishes
        rw [← List.append_assoc]
        exact List.mem_append_left _ member
      · have silent := aside entry here
        simp [publishes, Event.isAside] at silent
  | turn before stepped ih =>
      intro entry new version diagnostics publishes
      have went : Run AtAnyTime _ [] _ := Run.start.turn stepped
      obtain ⟨entries, grown⟩ := went.history_grows
      rcases new_cases before grown.symm new with old | here
      · exact ih leaves entry old version diagnostics publishes
      · obtain ⟨_, _, _, course, _⟩ :=
          run.forgotten given plain alone closing finished before leaves
        refine Server.sends_nothing course (fun id task found own => ?_) stepped ?_ publishes
        · exact (ended before leaves id task found own).2
        · rwa [← grown, List.drop_left]
  | pass _ _ ih => exact ih leaves

end

-----------------------------------------------------------------------------------------
-- Settings under way
-----------------------------------------------------------------------------------------

/-- A tool that is at work for a while. -/
def slowTool : Tool.Behaviour :=
  ({ work := some 100000000 } : Tool.Script)

/-- Two documents are opened, and settings arrive while both are linted. -/
def reconfiguring : List Input :=
  [.initialized none none, .opened "a.py" (some "python") (some 1) "a",
    .opened "b.py" (some "python") (some 1) "b", .advance 350000000]

/-- A server whose handler of new settings waits for the end of the first of two lints. -/
def reconfiguredServer : Server :=
  (((Server.start {} 300000000 {} slowTool).session reconfiguring).receive
    (.configured (.obj []))).runFor host 0 1

theorem run_reconfiguredServer
    : Run AtAnyTime (Server.start {} 300000000 {} slowTool)
        (reconfiguring ++ [.configured (.obj [])]) reconfiguredServer := by
  have come := (run_session {} 300000000 {} slowTool reconfiguring).1.mono fun _ _ => True.intro
  exact (come.receive trivial (.configured (.obj []))).runFor 0 1

/-- The first document is closed while new settings have it linted anew. That lint begins, and is
cancelled before the handler of the closing is done.
-/
theorem tasks_of_closed_document_in_turn
    : let middle : Server := (reconfiguredServer.receive (.closed "a.py")).runFor host 350000000 9
      let after : Server := middle.runFor host 1000000000 30
      ¬ middle.Closing "a.py"
        ∧ middle.tasks.map (·.uri) = ["a.py", "b.py", "a.py"]
        ∧ after.tasks.map (·.uri) = ["a.py", "b.py", "a.py", "b.py"]
        ∧ (∀ (id : Nat) (task : Task LintJob LintState Step),
          after.tasks[id]? = some task
          → task.uri = "a.py"
          → id < middle.tasks.length ∧ task.stage = .ended)
        ∧ ∀ entry ∈ after.world.history.drop middle.world.history.length,
            ∀ version diagnostics,
              entry.event = .publish "a.py" version diagnostics → diagnostics = [] := by
  intro middle after
  have given : reconfiguredServer.world.workspace = some ⟨none, [("a.py", 0), ("b.py", 1)]⟩ := by
    decide +kernel
  have finished : ¬ middle.Closing "a.py" := by decide +kernel
  have closing : Run AtAnyTime (reconfiguredServer.receive (.closed "a.py")) [] middle :=
    Run.start.runFor 350000000 9
  have later : Run AtAnyTime middle [] after := Run.start.runFor 1000000000 30
  have rests := tasks_of_closed_document run_reconfiguredServer given (by decide +kernel)
    (by decide +kernel) closing finished later (by simp)
  exact ⟨finished, by decide +kernel, by decide +kernel, rests⟩

/-- The second document is closed while new settings have the first one linted anew. Its lint is
scheduled after the handler of the closing is done.
-/
theorem task_of_suspended_settings
    : ∃ (middle after : Server),
        Run AtAnyTime (reconfiguredServer.receive (.closed "b.py")) [] middle
        ∧ ¬ middle.Closing "b.py"
        ∧ Run AtAnyTime middle [] after
        ∧ ∃ task, after.tasks[middle.tasks.length]? = some task ∧ task.uri = "b.py" := by
  let middle : Server := (reconfiguredServer.receive (.closed "b.py")).runFor host 350000000 11
  have created
      : (middle.runFor host 350000000 1).tasks[middle.tasks.length]?.map (·.uri) = some "b.py" := by
    decide +kernel
  refine ⟨middle, middle.runFor host 350000000 1, Run.start.runFor 350000000 11, ?_,
    Run.start.runFor 350000000 1, ?_⟩
  · decide +kernel
  · exact Option.map_eq_some_iff.mp created

end EditorLint.Session
