import EditorLint.Proofs.Debounce.Quiet
import EditorLint.Proofs.Session.World

/-! What each turn of a lint and each step of a handler does to a server's state, one statement
for each operation, and from that what all of them leave alone.
-/

namespace EditorLint.Session

open Debounce (Manager Outcome)

/-- A lint that has been cancelled and takes its leave. -/
def LintState.Leaving : LintState → Prop
  | .fallen | .leaving => True
  | _ => False

-----------------------------------------------------------------------------------------
-- Lints
-----------------------------------------------------------------------------------------

namespace LintJob

variable (now : Time) (job : LintJob) (world : World)

/-- A lint of an open document reads the document. -/
theorem source_open {id : Nat} {document : Document}
    (found : world.document? job.uri = some (id, document))
    : job.source world
      = ⟨.opened id, document.path, document.language, .ok document.text⟩ := by
  simp [source, found]

/-- What a lint has looked up when it begins: a Python document in the version asked for, with what
the tool is to be given of it.
-/
structure Begins (subject : Subject) (snapshot : Snapshot) : Prop where
  about : (job.source world).subject = subject
  python : isPython (job.source world).language (job.source world).path = true
  fresh : job.isStale world subject = false
  text : (job.source world).text = .ok snapshot.text
  path : (job.source world).path = snapshot.path
  directory
    : ∃ workspace,
        world.workspace = some workspace
        ∧ snapshot.directory
          = some (workspace.directoryFor world.disk.directories snapshot.path)

/-- A lint begins with what it has looked up, and with the adapter in force, or it is over at once
and leaves at most a message in the log.
-/
theorem start_cases
    : (∃ subject snapshot,
        job.Begins world subject snapshot
        ∧ job.start now world
          = (world, .wait 0 (.prepared job subject world.provider.adapter snapshot)))
      ∨ (World.Noted world (job.start now world).1
        ∧ ∀ duration state, (job.start now world).2 ≠ .wait duration state) := by
  unfold start
  cases given : world.workspace with
  | none => exact Or.inr ⟨.refl world, fun _ _ => nofun⟩
  | some workspace =>
      dsimp only
      cases python : isPython (job.source world).language (job.source world).path with
      | false => exact Or.inr ⟨.refl world, fun _ _ => nofun⟩
      | true =>
          cases fresh : job.isStale world (job.source world).subject with
          | true => exact Or.inr ⟨World.noted_log world now _, fun _ _ => nofun⟩
          | false =>
              cases text : (job.source world).text with
              | error failure => exact Or.inr ⟨.refl world, fun _ _ => nofun⟩
              | ok _ =>
                  exact Or.inl ⟨_, _, ⟨rfl, python, fresh, text, rfl, workspace, given, rfl⟩, rfl⟩

/-- A lint of an open document begins if the document is a Python one in the version asked for;
else it is over.
-/
theorem start_open {id : Nat} {document : Document}
    (found : world.document? job.uri = some (id, document))
    : (isPython document.language document.path = true
        ∧ job.isStale world (.opened id) = false
        ∧ ∃ snapshot,
            world.snapshot? document = some snapshot
            ∧ job.start now world
              = (world, .wait 0 (.prepared job (.opened id) world.provider.adapter snapshot)))
      ∨ ((isPython document.language document.path = false
          ∨ job.isStale world (.opened id) = true)
        ∧ World.Noted world (job.start now world).1
        ∧ (job.start now world).2 = .finished) := by
  obtain ⟨workspace, given, _⟩ := World.document?_eq_some_iff.mp found
  simp only [start, given, source_open job world found]
  cases python : isPython document.language document.path with
  | false => exact Or.inr ⟨Or.inl rfl, .refl world, rfl⟩
  | true =>
      cases stale : job.isStale world (.opened id) with
      | true => exact Or.inr ⟨Or.inr rfl, World.noted_log world now _, rfl⟩
      | false => exact Or.inl ⟨rfl, rfl, _, by simp [World.snapshot?, given], rfl⟩

/-- The start of a lint publishes nothing. -/
theorem noted_start : World.Noted world (job.start now world).1 := by
  rcases job.start_cases now world with ⟨_, _, _, begun⟩ | ⟨noted, _⟩
  · exact begun ▸ .refl world
  · exact noted

variable {now job world} {duration : Time} {state : LintState}

/-- A lint that goes on after its start has begun, and waits for nothing. -/
theorem begins_of_start (waits : (job.start now world).2 = .wait duration state)
    : ∃ subject snapshot,
        job.Begins world subject snapshot
        ∧ state = .prepared job subject world.provider.adapter snapshot := by
  rcases job.start_cases now world with ⟨subject, snapshot, begins, begun⟩ | ⟨_, ends⟩
  · rw [begun] at waits
    cases waits
    exact ⟨subject, snapshot, begins, rfl⟩
  · exact (ends _ _ waits).elim

/-- It has the adapter that is in force. -/
theorem prepared_of_start (waits : (job.start now world).2 = .wait duration state)
    : ∃ subject snapshot, state = .prepared job subject world.provider.adapter snapshot := by
  obtain ⟨subject, snapshot, _, same⟩ := begins_of_start waits
  exact ⟨subject, snapshot, same⟩

theorem duration_of_start (waits : (job.start now world).2 = .wait duration state)
    : duration = 0 := by
  rcases job.start_cases now world with ⟨_, _, _, begun⟩ | ⟨_, ends⟩
  · rw [begun] at waits
    cases waits
    rfl
  · exact (ends _ _ waits).elim

variable (now job world)

/-- What the server remembers of a lint's messages, before they are shown. -/
def remember (messages : List Message) : World :=
  { world with published := world.published.insert job.uri messages }

/-- A result that is out of date is dropped. One that is not is remembered, and then shown if it
can be shown.
-/
theorem publish_cases (subject : Subject) (messages : List Message)
    : (job.isStale world subject = true
        ∧ World.Noted world (job.publish now subject messages world).1
        ∧ (job.publish now subject messages world).2 = .finished)
      ∨ (job.isStale world subject = false
        ∧ ∃ failure,
            Editor.Diagnostic.ofMessages messages = .error failure
            ∧ job.publish now subject messages world
              = (job.remember world messages, .failed failure))
      ∨ (job.isStale world subject = false
        ∧ ∃ diagnostics,
            Editor.Diagnostic.ofMessages messages = .ok diagnostics
            ∧ World.Noted
                ((job.remember world messages).publish now job.uri job.version diagnostics)
                (job.publish now subject messages world).1
            ∧ (job.publish now subject messages world).2 = .finished) := by
  unfold publish
  split
  next stale => exact Or.inl ⟨stale, World.noted_log world now _, rfl⟩
  next fresh =>
    have fresh : job.isStale world subject = false := by simpa using fresh
    cases shown : Editor.Diagnostic.ofMessages messages with
    | error failure => exact Or.inr (Or.inl ⟨fresh, failure, rfl, rfl⟩)
    | ok diagnostics =>
        exact Or.inr (Or.inr ⟨fresh, diagnostics, rfl, World.noted_log _ now _, rfl⟩)

/-- The publication of a result ends the lint. -/
theorem publish_ends (subject : Subject) (messages : List Message) {duration : Time}
    {state : LintState}
    : (job.publish now subject messages world).2 ≠ .wait duration state := by
  rcases publish_cases now job world subject messages with
    ⟨_, _, ends⟩ | ⟨_, failure, _, ends⟩ | ⟨_, _, _, _, ends⟩ <;> simp [ends]

end LintJob

namespace LintState

variable (now : Time) (world : World)

/-- Only a lint that has come to publish its result does more than note what the tool does. -/
theorem noted_resume {state : LintState}
    (early : ∀ job subject messages, state ≠ .arriving job subject (.ok messages))
    : World.Noted world (state.resume now world).1 := by
  cases state with
  | prepared job subject adapter snapshot =>
      unfold resume
      dsimp only
      split <;> exact World.noted_noteTool world now _
  | working job subject linting => exact World.noted_noteTool world now _
  | landed job subject outcome => exact .refl world
  | arriving job subject outcome =>
      cases outcome with
      | ok messages => exact (early job subject messages rfl).elim
      | error failure =>
          unfold resume
          dsimp only
          split <;> exact .refl world
  | fallen => exact .refl world
  | leaving => exact .refl world

/-- A lint that is cancelled publishes nothing. -/
theorem noted_interrupt (state : LintState) : World.Noted world (state.interrupt now world).1 := by
  cases state with
  | working job subject linting => exact World.noted_noteTool world now _
  | prepared | landed | arriving | fallen | leaving => exact .refl world

/-- A lint takes its turns one after the other, and one that takes its leave waits for nothing. -/
theorem resume_wait {state next : LintState} {duration : Time}
    (waits : (state.resume now world).2 = .wait duration next)
    : next.turnsLeft < state.turnsLeft ∧ (state.Leaving → duration = 0 ∧ next.Leaving) := by
  cases state with
  | prepared job subject adapter snapshot =>
      unfold resume at waits
      dsimp only at waits
      split at waits <;> cases waits <;> simp [turnsLeft, Leaving]
  | working | landed | fallen => cases waits; simp [turnsLeft, Leaving]
  | arriving job subject outcome =>
      cases outcome with
      | ok messages => exact (LintJob.publish_ends now job world subject messages waits).elim
      | error failure =>
          unfold resume at waits
          dsimp only at waits
          split at waits <;> cases waits
  | leaving => cases waits

/-- A lint that is told of its cancellation takes its leave, and waits for nothing. -/
theorem interrupt_wait {state next : LintState} {duration : Time}
    (waits : (state.interrupt now world).2 = .wait duration next)
    : next.turnsLeft < state.turnsLeft ∧ duration = 0 ∧ next.Leaving := by
  cases state <;> cases waits <;> simp [turnsLeft, Leaving]

end LintState

/-- The lint of a task comes to its end: its result has come in, nobody has cancelled it, and its
document is still in the version that it was asked for.
-/
structure Server.Delivers (server : Server) (id : Nat) (job : LintJob) (subject : Subject)
    (messages : List Message) : Prop where
  running
    : ∃ task,
        server.tasks[id]? = some task
        ∧ task.stage = .running (.arriving job subject (.ok messages))
        ∧ task.interrupted = false
  fresh : job.isStale server.world subject = false

/-- A turn of a task only makes entries that publish nothing, or its lint comes to its end. Then its
messages are remembered, and they are shown if they can be shown.
-/
theorem Server.runTask_cases (server : Server) (id : Nat)
    : World.Noted server.world (server.runTask host id).world
      ∨ ∃ job subject messages,
          server.Delivers id job subject messages
          ∧ ((∃ failure,
                Editor.Diagnostic.ofMessages messages = .error failure
                ∧ World.Noted (job.remember server.world messages) (server.runTask host id).world)
            ∨ ∃ diagnostics,
                Editor.Diagnostic.ofMessages messages = .ok diagnostics
                ∧ World.Noted
                    ((job.remember server.world messages).publish server.now job.uri job.version
                      diagnostics)
                    (server.runTask host id).world) := by
  cases found : server.tasks[id]? with
  | none =>
      have same : server.runTask host id = server := by simp [Manager.runTask, found]
      exact Or.inl (same.symm ▸ .refl server.world)
  | some task =>
      have cases := Manager.world_runTask_cases host found
      generalize (server.runTask host id).world = after at cases ⊢
      have reported {base result : World} (noted : World.Noted base result)
          (ended : after = result ∨ ∃ failure, after = host.report server.now failure result)
          : World.Noted base after := by
        rcases ended with rfl | ⟨failure, rfl⟩
        · exact noted
        · exact noted.trans (World.noted_log result server.now _)
      rcases cases with
        rfl | ⟨result, ended, ⟨job, _, rfl⟩ | ⟨state, rfl⟩ | ⟨state, stage, calm, rfl⟩⟩
      · exact Or.inl (.refl server.world)
      · exact Or.inl (reported (job.noted_start server.now server.world) ended)
      · exact Or.inl (reported (state.noted_interrupt server.now server.world) ended)
      · by_cases arrives : ∃ job subject messages, state = .arriving job subject (.ok messages)
        · obtain ⟨job, subject, messages, rfl⟩ := arrives
          have ended
              : after = (job.publish server.now subject messages server.world).1
                ∨ ∃ failure,
                    after
                    = host.report server.now failure
                        (job.publish server.now subject messages server.world).1 :=
            ended
          rcases job.publish_cases server.now server.world subject messages with
            ⟨_, dropped, _⟩ | ⟨fresh, failure, failed, refused⟩
            | ⟨fresh, diagnostics, ready, noted, _⟩
          · exact Or.inl (reported dropped ended)
          · rw [refused] at ended
            exact Or.inr ⟨job, subject, messages, ⟨⟨task, found, stage, calm⟩, fresh⟩,
              Or.inl ⟨failure, failed, reported (.refl _) ended⟩⟩
          · exact Or.inr ⟨job, subject, messages, ⟨⟨task, found, stage, calm⟩, fresh⟩,
              Or.inr ⟨diagnostics, ready, reported noted ended⟩⟩
        · refine Or.inl (reported (state.noted_resume server.now server.world ?_) ended)
          exact fun job subject messages same => arrives ⟨job, subject, messages, same⟩

-----------------------------------------------------------------------------------------
-- Handlers
-----------------------------------------------------------------------------------------

/-- The handler of a configuration puts its settings in force and has all documents linted. -/
theorem Notification.begin_settings (now : Time) (entries : Table Json) (world : World)
    : World.Noted
        { world with
          provider := (Provider.ofSettings (Settings.ofPayload world.base (.obj entries)).1).2 }
        (Notification.begin now (.configured (.obj entries)) world).1
      ∧ (Notification.begin now (.configured (.obj entries)) world).2
        = (world.workspace.elim [] fun workspace =>
            workspace.uris.map (Step.relint (Notification.configured (.obj entries)).feature)) := by
  obtain ⟨noted, taken⟩ := World.applySettings_obj world now entries
  obtain ⟨applied, result⟩ : ∃ applied, world.applySettings now (.obj entries) = (applied, true) :=
    ⟨_, Prod.ext rfl taken⟩
  rw [result] at noted
  have same : applied.workspace = world.workspace := noted.untouched.workspace
  constructor
  · simp only [Notification.begin, result]
    split
    · exact noted.trans (World.noted_log applied now _)
    · exact noted
  · simp only [Notification.begin, result, ← same]
    cases applied.workspace <;> rfl

/-- The handler of anything but settings takes no steps. -/
theorem Notification.begin_other (now : Time) (world : World) {payload : Json}
    (other : ∀ entries, payload ≠ .obj entries)
    : World.Noted world (Notification.begin now (.configured payload) world).1
      ∧ (Notification.begin now (.configured payload) world).2 = [] := by
  obtain ⟨noted, taken⟩ := World.applySettings_other world now other
  obtain ⟨applied, result⟩ : ∃ applied, world.applySettings now payload = (applied, false) :=
    ⟨_, Prod.ext rfl taken⟩
  rw [result] at noted
  constructor
  · simpa only [Notification.begin, result] using noted
  · simp only [Notification.begin, result]

/-- Any other handler only makes an entry in the log before it takes its steps. -/
theorem Notification.noted_begin (now : Time) {notification : Notification} (world : World)
    (other : ∀ entries, notification ≠ .configured (.obj entries))
    : World.Noted world (notification.begin now world).1 := by
  cases notification with
  | configured payload =>
      exact (begin_other now world fun entries same => other entries (same ▸ rfl)).1
  | opened | changed | saved | closed => exact World.noted_log world now _

/-- Asking for a lint publishes nothing. -/
theorem Step.noted_request (now : Time) (step : Step) (world : World)
    : World.Noted world (step.request now world).1 := by
  cases step with
  | forget uri => exact .refl world
  | relint feature uri =>
      unfold Step.request
      dsimp only
      split
      · exact World.noted_log world now _
      · exact .refl world

/-- A document is linted in the version that it has when that is asked for. -/
theorem Step.request_relint (now : Time) {world : World} {feature uri : String}
    {workspace : Workspace} (given : world.workspace = some workspace)
    : (Step.relint feature uri).request now world
      = (world,
          some (.schedule uri ⟨uri, (world.document? uri).bind (·.2.version)⟩ world.delay)) := by
  simp [Step.request, given]

-----------------------------------------------------------------------------------------
-- What every turn keeps
-----------------------------------------------------------------------------------------

/-- Lints keep a fact about a server's state that is kept by entries that publish nothing, and where
messages are remembered and shown.
-/
theorem host_jobsKeep {fits : LintState → Prop} {holds : World → Prop}
    (noted : ∀ {before after}, World.Noted before after → holds before → holds after)
    (refused
      : ∀ {world job subject messages failure},
          fits (.arriving job subject (.ok messages))
          → Editor.Diagnostic.ofMessages messages = .error failure
          → holds world
          → holds (LintJob.remember job world messages))
    (shown
      : ∀ {world now job subject messages diagnostics},
          fits (.arriving job subject (.ok messages))
          → Editor.Diagnostic.ofMessages messages = .ok diagnostics
          → holds world
          → holds
              ((LintJob.remember job world messages).publish now job.uri job.version diagnostics))
    : host.JobsKeep fits holds where
  start now job world before := noted (job.noted_start now world) before
  resume now state world fit before := by
    by_cases arrives : ∃ job subject messages, state = .arriving job subject (.ok messages)
    · obtain ⟨job, subject, messages, rfl⟩ := arrives
      rcases job.publish_cases now world subject messages with
        ⟨_, dropped, _⟩ | ⟨_, failure, failed, result⟩ | ⟨_, diagnostics, ready, result, _⟩
      · exact noted dropped before
      · change holds (job.publish now subject messages world).1
        rw [result]
        exact refused fit failed before
      · exact noted result (shown fit ready before)
    · refine noted (LintState.noted_resume now world ?_) before
      exact fun job subject messages same => arrives ⟨job, subject, messages, same⟩
  interrupt now state world _ before := noted (state.noted_interrupt now world) before
  report now failure world before := noted (World.noted_log world now _) before

/-- Steps of handlers keep a fact about a server's state that is kept by entries that publish
nothing, and where messages are forgotten.
-/
theorem host_stepsKeep {holds : World → Prop}
    (noted : ∀ {before after}, World.Noted before after → holds before → holds after)
    (forgotten
      : ∀ {world} now uri,
          holds world
          → holds
              ({ world with published := world.published.erase uri }.publish now uri none []))
    : host.StepsKeep holds where
  request now step world before := noted (step.noted_request now world) before
  finish now step world before := by
    cases step with
    | relint feature uri => exact before
    | forget uri => exact forgotten now uri before

/-- Every turn keeps a fact about a server's state that is kept by entries that publish nothing,
by new settings, and where messages are remembered, shown or forgotten.
-/
theorem host_keeps {fits : LintState → Prop} {holds : World → Prop}
    (noted : ∀ {before after}, World.Noted before after → holds before → holds after)
    (applied
      : ∀ {world} settings,
          holds world → holds { world with provider := (Provider.ofSettings settings).2 })
    (refused
      : ∀ {world job subject messages failure},
          fits (.arriving job subject (.ok messages))
          → Editor.Diagnostic.ofMessages messages = .error failure
          → holds world
          → holds (LintJob.remember job world messages))
    (shown
      : ∀ {world now job subject messages diagnostics},
          fits (.arriving job subject (.ok messages))
          → Editor.Diagnostic.ofMessages messages = .ok diagnostics
          → holds world
          → holds
              ((LintJob.remember job world messages).publish now job.uri job.version diagnostics))
    (forgotten
      : ∀ {world} now uri,
          holds world
          → holds
              ({ world with published := world.published.erase uri }.publish now uri none []))
    : host.Keeps fits holds where
  toJobsKeep := host_jobsKeep noted refused shown
  toStepsKeep := host_stepsKeep noted forgotten
  begin now notification world before := by
    by_cases configures : ∃ entries, notification = .configured (.obj entries)
    · obtain ⟨entries, rfl⟩ := configures
      exact noted (Notification.begin_settings now entries world).1 (applied _ before)
    · refine noted (Notification.noted_begin now world ?_) before
      exact fun entries same => configures ⟨entries, same⟩

variable {fits : LintState → Prop}

/-- No turn touches what only arrivals change. -/
theorem host_keeps_untouched (first : World) : host.Keeps fits (World.Untouched first) :=
  host_keeps
    (fun noted before => before.trans noted.untouched)
    (fun _ before => ⟨before.1, before.2, before.3, before.4, before.5, before.6⟩)
    (fun _ _ before => ⟨before.1, before.2, before.3, before.4, before.5, before.6⟩)
    (fun _ _ before => ⟨before.1, before.2, before.3, before.4, before.5, before.6⟩)
    (fun _ _ before => ⟨before.1, before.2, before.3, before.4, before.5, before.6⟩)

/-- A fact about what no turn touches is kept by every turn. -/
theorem host_keeps_of_untouched {holds : World → Prop}
    (same : ∀ {before after}, World.Untouched before after → holds before → holds after)
    : host.Keeps fits holds := by
  have kept (world : World) : host.Keeps fits (World.Untouched world) := host_keeps_untouched world
  exact {
    start := fun now job world => same ((kept world).start now job world (.refl world))
    resume := fun now state world fit =>
      same ((kept world).resume now state world fit (.refl world))
    interrupt := fun now state world fit =>
      same ((kept world).interrupt now state world fit (.refl world))
    report := fun now failure world => same ((kept world).report now failure world (.refl world))
    begin := fun now message world => same ((kept world).begin now message world (.refl world))
    request := fun now step world => same ((kept world).request now step world (.refl world))
    finish := fun now step world => same ((kept world).finish now step world (.refl world))
  }

/-- No turn takes an entry out of the history. -/
theorem host_keeps_history (past : List (Stamped Event))
    : host.Keeps fits fun world => past <+: world.history := by
  refine host_keeps ?_ (fun _ before => before) (fun _ _ before => before) ?_ ?_
  · intro _ _ given before
    obtain ⟨entries, rfl, _⟩ := given
    exact before.trans (List.prefix_append _ entries)
  · exact fun _ _ before => before.trans (List.prefix_append _ _)
  · exact fun _ _ before => before.trans (List.prefix_append _ _)

/-- The adapter in force is the one of the settings in force. -/
theorem host_keeps_adapter
    : host.Keeps fits fun world =>
        world.provider.adapter = Provider.adapterOf world.provider.settings :=
  host_keeps
    (fun noted before => by rw [noted.provider]; exact before)
    (fun _ _ => rfl)
    (fun _ _ before => before)
    (fun _ _ before => before)
    (fun _ _ before => before)

/-- A cancelled lint takes its leave without waiting for the clock. -/
theorem host_prompt : host.Prompt LintState.Leaving where
  interrupt waits := (LintState.interrupt_wait _ _ waits).2
  resume leaving waits := (LintState.resume_wait _ _ waits).2 leaving

/-- The turns that are foreseen for lints and handlers are enough. -/
theorem host_bounded : host.Bounded where
  start waits := by
    obtain ⟨_, _, rfl⟩ := LintJob.prepared_of_start waits
    exact Nat.lt_succ_self 4
  resume waits := (LintState.resume_wait _ _ waits).1
  interrupt waits := (LintState.interrupt_wait _ _ waits).1
  begin now notification world := by
    change (notification.begin now world).2.length
      ≤ (world.workspace.map (·.entries.length)).getD 0 + 1
    cases notification with
    | opened | changed | saved | closed => exact Nat.le_add_left 1 _
    | configured payload =>
        cases payload with
        | obj entries =>
            rw [(Notification.begin_settings now entries world).2]
            cases world.workspace <;> simp [Workspace.uris, Table.keys]
        | _ => exact Nat.zero_le _
  steps bound := by
    apply host_keeps_of_untouched
    intro before after untouched given
    change (after.workspace.map (·.entries.length)).getD 0 + 1 = bound
    rw [untouched.workspace]
    exact given

end EditorLint.Session
