import EditorLint.Proofs.Adapter.Contract
import EditorLint.Proofs.Session.Run

/-! When tools are started. Only a lint whose tool's part has been created starts one, in its next
turn and by the adapter with which that part was created. Nothing else that happens starts a tool.
-/

namespace EditorLint

namespace Adapter

/-- Where the tool is wanted, a lint that begins attempts to start it, and elsewhere it does not. -/
theorem starts_begin (adapter : Adapter) (now : Time) (snapshot : Snapshot)
    (script : Tool.Script)
    : Tool.starts (adapter.begin now snapshot script).1
      = if adapter.info.isEnabled snapshot.path then
          [(adapter.command snapshot.path, snapshot.directory)]
        else [] := by
  have begun := (Tool.starts_start adapter.logger (adapter.command snapshot.path) snapshot.text
    snapshot.directory script).1
  unfold begin
  dsimp only
  split
  · split
    next events failure starts =>
      rw [starts] at begun
      simp [begun, starts_conclude]
    next events process starts =>
      rw [starts] at begun
      cases script.work with
      | some duration => exact begun
      | none =>
          have left := (Tool.starts_finish process process.exchange).1
          simp [begun, Linting.complete, Linting.finish, left, starts_conclude]
  · rfl

end Adapter

/-- Once its tool is at work, a lint starts none, however the work ends. -/
theorem Linting.starts_finish (linting : Linting) (now : Time) (exchange : Tool.Exchange)
    : Tool.starts (linting.finish now exchange).1 = [] := by
  have left := (Tool.starts_finish linting.process exchange).1
  simp [Linting.finish, left, Adapter.starts_conclude]

namespace Session

open Debounce

/-- The start of a tool that is attempted in an event, if there is one. -/
def Event.started? : Event → Option (Tool.Command × Option String)
  | .tool (.start command directory) => some (command, directory)
  | _ => none

/-- The starts of tools that have been attempted, in order. -/
def World.starts (world : World) : List (Tool.Command × Option String) :=
  world.history.filterMap (·.event.started?)

-----------------------------------------------------------------------------------------
-- What starts no tool
-----------------------------------------------------------------------------------------

namespace World

@[simp]
theorem starts_note (world : World) (now : Time) (event : Event)
    : (world.note now event).starts = world.starts ++ event.started?.toList := by
  cases started : event.started? <;> simp [starts, note, started]

@[simp]
theorem starts_log (world : World) (now : Time) (record : Log.Record)
    : (world.log now record).starts = world.starts := by
  simp [log, Event.started?]

@[simp]
theorem starts_publish (world : World) (now : Time) (uri : String) (version : Option Int)
    (diagnostics : List Editor.Diagnostic)
    : (world.publish now uri version diagnostics).starts = world.starts := by
  simp [publish, Event.started?]

/-- What is seen of a tool starts what the tool's events start. -/
@[simp]
theorem starts_noteTool (world : World) (now : Time) (events : List Tool.Event)
    : (world.noteTool now events).starts = world.starts ++ Tool.starts events := by
  simp only [starts, noteTool, Tool.starts, List.filterMap_append, List.filterMap_map]
  congr 1
  exact List.filterMap_congr fun event _ => by cases event <;> rfl

/-- Records of the log start no tool, by induction over them. -/
@[simp]
theorem starts_foldl_log {α : Type} (record : α → Log.Record) (now : Time) (items : List α)
    (world : World)
    : (items.foldl (fun world item => world.log now (record item)) world).starts
      = world.starts := by
  induction items generalizing world with
  | nil => rfl
  | cons item rest ih => rw [List.foldl_cons, ih, starts_log]

/-- Settings start no tool. -/
@[simp]
theorem starts_applySettings (world : World) (now : Time) (payload : Json)
    : (world.applySettings now payload).1.starts = world.starts := by
  cases payload with
  | obj entries =>
      simp only [applySettings, starts_log]
      exact starts_foldl_log Settings.Refused.record now _ world
  | _ => exact starts_log world now _

end World

/-- The start of a handler starts no tool. -/
theorem Notification.starts_begin (now : Time) (notification : Notification) (world : World)
    : (notification.begin now world).1.starts = world.starts := by
  cases notification with
  | opened | changed | saved | closed => exact World.starts_log world now _
  | configured payload =>
      have applied := world.starts_applySettings now payload
      unfold Notification.begin
      dsimp only
      split
      next same =>
        rw [same] at applied
        exact applied
      next same =>
        rw [same] at applied
        split
        · exact (World.starts_log _ now _).trans applied
        · exact applied

/-- Steps of handlers start no tool. -/
theorem host_stepsKeep_starts (started : List (Tool.Command × Option String))
    : host.StepsKeep fun world => world.starts = started where
  request now step world before := by
    cases step with
    | forget uri => exact before
    | relint feature uri =>
        change (Step.request now (.relint feature uri) world).1.starts = started
        unfold Step.request
        dsimp only
        split
        · exact (World.starts_log world now _).trans before
        · exact before
  finish now step world before := by
    cases step with
    | relint feature uri => exact before
    | forget uri => exact (World.starts_publish _ now uri none []).trans before

/-- The start of a lint leaves at most a message in the log. -/
theorem LintJob.world_start (now : Time) (job : LintJob) (world : World)
    : (job.start now world).1 = world
      ∨ ∃ message, (job.start now world).1 = world.debug now message := by
  unfold LintJob.start
  split
  · exact Or.inl rfl
  · dsimp only
    split
    · exact Or.inl rfl
    · split
      · exact Or.inr ⟨_, rfl⟩
      · split <;> exact Or.inl rfl

/-- The publication of a result starts no tool. -/
theorem LintJob.starts_publish (now : Time) (job : LintJob) (subject : Subject)
    (messages : List Message) (world : World)
    : (job.publish now subject messages world).1.starts = world.starts := by
  unfold LintJob.publish
  split
  · exact World.starts_log world now _
  · dsimp only
    split
    · rfl
    · exact (World.starts_log _ now _).trans (World.starts_publish _ now job.uri job.version _)

/-- A lint that is told of its cancellation starts no tool. -/
theorem LintState.starts_interrupt (now : Time) (state : LintState) (world : World)
    : (state.interrupt now world).1.starts = world.starts := by
  cases state with
  | working job subject linting =>
      change (world.noteTool now (linting.abandon now).1).starts = world.starts
      rw [World.starts_noteTool, Linting.abandon, linting.starts_finish, List.append_nil]
  | prepared | landed | arriving | fallen | leaving => rfl

/-- A lint is about to start its tool. -/
def LintState.Prepared (state : LintState) : Prop :=
  ∃ job subject adapter snapshot, state = .prepared job subject adapter snapshot

/-- Apart from lints that are about to start their tools, no lint starts one. -/
theorem host_jobsKeep_starts (started : List (Tool.Command × Option String))
    : host.JobsKeep (fun state => ¬ state.Prepared) fun world => world.starts = started where
  start now job world before := by
    change (job.start now world).1.starts = started
    rcases job.world_start now world with same | ⟨message, same⟩
    · rw [same]
      exact before
    · rw [same]
      exact (World.starts_log world now _).trans before
  resume now state world early before := by
    cases state with
    | prepared job subject adapter snapshot => exact (early ⟨_, _, _, _, rfl⟩).elim
    | working job subject linting =>
        change (world.noteTool now (linting.complete now).1).starts = started
        rw [World.starts_noteTool, Linting.complete, linting.starts_finish, List.append_nil, before]
    | landed | fallen | leaving => exact before
    | arriving job subject outcome =>
        cases outcome with
        | ok messages => exact (job.starts_publish now subject messages world).trans before
        | error failure =>
            change (LintState.resume now (.arriving job subject (.error failure)) world).1.starts
              = started
            unfold LintState.resume
            dsimp only
            split <;> exact before
  interrupt now state world _ before := (state.starts_interrupt now world).trans before
  report now failure world before := (World.starts_log world now _).trans before

/-- Nothing that arrives starts a tool. -/
theorem Server.starts_receive (server : Server) (input : Input)
    : (server.receive input).world.starts = server.world.starts := by
  have taken (notification : Notification) {f : Workspace → World → Except Failure World}
      (quiet
        : ∀ workspace world,
            f workspace server.world = .ok world → world.starts = server.world.starts)
      : (server.withWorkspace notification f).world.starts = server.world.starts := by
    rcases server.withWorkspace_cases notification f with
      ⟨failure, refused⟩ | ⟨workspace, world, _, changed, made⟩
    · rw [refused]
      exact (World.starts_note _ _ _).trans (List.append_nil _)
    · rw [made]
      exact quiet workspace world changed
  cases input with
  | initialized root options =>
      change (Server.setUp server.now root options server.world).starts = _
      unfold Server.setUp
      dsimp only
      rw [World.starts_note]
      cases options with
      | none => exact List.append_nil _
      | some payload =>
          exact (List.append_nil _).trans (World.starts_applySettings _ server.now payload)
  | opened uri language version text =>
      exact taken (.opened uri) fun _ _ same => Except.ok.inj same ▸ rfl
  | changed uri version texts =>
      cases texts with
      | nil => rfl
      | cons text more =>
          refine taken (.changed uri) fun workspace world changed => ?_
          unfold Server.changeDocument at changed
          split at changed
          · cases changed
          · exact Except.ok.inj changed ▸ rfl
  | closed uri => exact taken (.closed uri) fun _ _ same => Except.ok.inj same ▸ rfl
  | codeAction uri only diagnostics =>
      change (Server.answer server.now uri only diagnostics server.world).starts = _
      unfold Server.answer
      dsimp only
      split
      · exact (World.starts_note _ _ _).trans
          ((List.append_nil _).trans (World.starts_foldl_log id _ _ _))
      · exact World.starts_foldl_log id _ _ _
  | saved | configured | tool | advance => rfl

-----------------------------------------------------------------------------------------
-- What does
-----------------------------------------------------------------------------------------

variable {server after : Server} {limit : Time}

/-- A lint that is about to start its tool does so where the tool is wanted. -/
theorem LintState.starts_prepared (now : Time) (job : LintJob) (subject : Subject)
    (adapter : Adapter) (snapshot : Snapshot) (world : World)
    : (LintState.resume now (.prepared job subject adapter snapshot) world).1.starts
      = world.starts
        ++ if adapter.info.isEnabled snapshot.path then
            [(adapter.command snapshot.path, snapshot.directory)]
          else [] := by
  have begun := adapter.starts_begin now snapshot (adapter.script world.tool snapshot)
  unfold LintState.resume
  dsimp only
  split
  next events outcome begins =>
    rw [begins] at begun
    exact (World.starts_noteTool world now events).trans (congrArg _ begun)
  next events duration linting begins =>
    rw [begins] at begun
    exact (World.starts_noteTool world now events).trans (congrArg _ begun)

/-- A task is a lint that is about to start its tool, with an adapter and for a snapshot. -/
def Server.Prepares (server : Server) (id : Nat) (adapter : Adapter) (snapshot : Snapshot) :
    Prop :=
  ∃ (task : Task LintJob LintState Step) (job : LintJob) (subject : Subject),
    server.tasks[id]? = some task
    ∧ task.stage = .running (.prepared job subject adapter snapshot)

/-- A start that is attempted in the turn of a task is one by a lint that was about to start its
tool.
-/
theorem Server.starts_runTask (server : Server) (id : Nat)
    : (server.runTask host id).world.starts = server.world.starts
      ∨ ∃ adapter snapshot,
          server.Prepares id adapter snapshot
          ∧ adapter.info.isEnabled snapshot.path = true
          ∧ (server.runTask host id).world.starts
            = server.world.starts ++ [(adapter.command snapshot.path, snapshot.directory)] := by
  by_cases about : ∃ adapter snapshot, server.Prepares id adapter snapshot
  · obtain ⟨adapter, snapshot, task, job, subject, found, stage⟩ := about
    have reported {world : World}
        (ended
          : (server.runTask host id).world = world
            ∨ ∃ failure, (server.runTask host id).world = host.report server.now failure world)
        : (server.runTask host id).world.starts = world.starts := by
      rcases ended with same | ⟨failure, same⟩
      · rw [same]
      · rw [same]
        exact World.starts_log world server.now _
    rcases Manager.world_runTask_cases host found with
      same | ⟨result, ended, ⟨_, delayed, _⟩ | ⟨state, rfl⟩ | ⟨state, runs, _, rfl⟩⟩
    · exact Or.inl (congrArg World.starts same)
    · cases delayed.symm.trans stage
    · exact Or.inl ((reported ended).trans (state.starts_interrupt server.now server.world))
    · obtain rfl := Stage.running.inj (stage.symm.trans runs)
      have begun := (reported ended).trans
        (LintState.starts_prepared server.now job subject adapter snapshot server.world)
      cases wanted : adapter.info.isEnabled snapshot.path with
      | false => exact Or.inl (by simpa [wanted] using begun)
      | true =>
          refine Or.inr ⟨adapter, snapshot, ⟨task, job, subject, found, stage⟩, wanted, ?_⟩
          simpa [wanted] using begun
  · have keeps := host_jobsKeep_starts server.world.starts
    refine Or.inl (keeps.runTask rfl fun {task state} found stage prepared => about ?_)
    obtain ⟨job, subject, adapter, snapshot, rfl⟩ := prepared
    exact ⟨adapter, snapshot, task, job, subject, found, stage⟩

/-- A start that is attempted in any turn is one by a lint that was about to start its tool. -/
theorem Server.starts_step? (stepped : server.step? host limit = some after)
    : after.world.starts = server.world.starts
      ∨ ∃ id adapter snapshot,
          server.Prepares id adapter snapshot
          ∧ adapter.info.isEnabled snapshot.path = true
          ∧ after.world.starts
            = server.world.starts ++ [(adapter.command snapshot.path, snapshot.directory)] := by
  obtain ⟨⟨turn, agenda⟩, _, rfl⟩ := Option.map_eq_some_iff.mp stepped
  have steps := host_stepsKeep_starts server.world.starts
  let taken : Server := { server with agenda }
  have same : taken.world.starts = server.world.starts := rfl
  cases turn with
  | task id => exact (starts_runTask taken id).imp_right fun given => ⟨id, given⟩
  | handler message =>
      have begun := Notification.starts_begin taken.now message taken.world
      exact Or.inl (steps.proceed
        (m := { taken with world := (host.begin taken.now message taken.world).1 }) begun _)
  | locked pending => exact Or.inl (steps.grant (m := taken) same pending)
  | cleared pending => exact Or.inl (steps.proceed (steps.complete (m := taken) same _ _) _)

end Session

end EditorLint
