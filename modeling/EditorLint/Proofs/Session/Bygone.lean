import EditorLint.Proofs.Adapter
import EditorLint.Proofs.Debounce.Past
import EditorLint.Proofs.Session.Run

/-! A server with a past behind it does what a new one does: documents that have been closed, events
that have been seen and time that has passed change nothing but the places of documents and the
times of events.
-/

namespace EditorLint.Session

open Debounce

/-- What lies behind a server: the time that has passed, the documents that have been opened, and
the events that have been seen.
-/
structure Bygone where
  clock : Time
  documents : List Document
  history : List (Stamped Event)

namespace Bygone

variable (bygone : Bygone)

/-- The place of a document among all documents. -/
def place (id : Nat) : Nat :=
  bygone.documents.length + id

def subject : Subject → Subject
  | .opened id => .opened (bygone.place id)
  | .onDisk => .onDisk

/-- A tool that has been started later. -/
def linting (linting : Linting) : Linting :=
  { linting with began := linting.began + bygone.clock }

def state : LintState → LintState
  | .prepared job subject adapter snapshot =>
    .prepared job (bygone.subject subject) adapter snapshot
  | .working job subject linting => .working job (bygone.subject subject) (bygone.linting linting)
  | .landed job subject outcome => .landed job (bygone.subject subject) outcome
  | .arriving job subject outcome => .arriving job (bygone.subject subject) outcome
  | .fallen => .fallen
  | .leaving => .leaving

def workspace (workspace : Workspace) : Workspace :=
  { workspace with entries := workspace.entries.map fun (key, id) => (key, bygone.place id) }

/-- An event that is seen later. -/
def entry (entry : Stamped Event) : Stamped Event :=
  { entry with time := entry.time + bygone.clock }

def world (world : World) : World :=
  { world with
    workspace := world.workspace.map bygone.workspace
    documents := bygone.documents ++ world.documents
    history := bygone.history ++ world.history.map bygone.entry }

/-- What comes of a turn of a lint. -/
def result : World × Outcome LintState → World × Outcome LintState
  | (world, .wait duration state) => (bygone.world world, .wait duration (bygone.state state))
  | (world, .finished) => (bygone.world world, .finished)
  | (world, .failed failure) => (bygone.world world, .failed failure)
  | (world, .cancelled) => (bygone.world world, .cancelled)

-----------------------------------------------------------------------------------------
-- Events
-----------------------------------------------------------------------------------------

@[simp]
theorem world_note (now : Time) (event : Event) (world : World)
    : (bygone.world world).note (now + bygone.clock) event
      = bygone.world (world.note now event) := by
  simp [Bygone.world, World.note, entry]

@[simp]
theorem world_noteTool (now : Time) (events : List Tool.Event) (world : World)
    : (bygone.world world).noteTool (now + bygone.clock) events
      = bygone.world (world.noteTool now events) := by
  simp [Bygone.world, World.noteTool, entry]

@[simp]
theorem world_log (now : Time) (record : Log.Record) (world : World)
    : (bygone.world world).log (now + bygone.clock) record
      = bygone.world (world.log now record) :=
  bygone.world_note now _ world

@[simp]
theorem world_debug (now : Time) (message : String) (world : World)
    : (bygone.world world).debug (now + bygone.clock) message
      = bygone.world (world.debug now message) :=
  bygone.world_note now _ world

@[simp]
theorem world_publish (now : Time) (uri : String) (version : Option Int)
    (diagnostics : List Editor.Diagnostic) (world : World)
    : (bygone.world world).publish (now + bygone.clock) uri version diagnostics
      = bygone.world (world.publish now uri version diagnostics) :=
  bygone.world_note now _ world

@[simp]
theorem world_handlerFailed (now : Time) (feature : String) (failure : Failure) (world : World)
    : (bygone.world world).handlerFailed (now + bygone.clock) feature failure
      = bygone.world (world.handlerFailed now feature failure) :=
  bygone.world_note now _ world

/-- Records are written one after the other, by induction over them. -/
theorem world_foldl_log {α : Type} (record : α → Log.Record) (now : Time) (items : List α)
    (world : World)
    : items.foldl (fun world item => world.log (now + bygone.clock) (record item))
        (bygone.world world)
      = bygone.world (items.foldl (fun world item => world.log now (record item)) world) := by
  induction items generalizing world with
  | nil => rfl
  | cons item rest ih => simp only [List.foldl_cons, world_log, ih]

/-- New settings are taken in the same way. -/
theorem world_applySettings (now : Time) (payload : Json) (world : World)
    : (bygone.world world).applySettings (now + bygone.clock) payload
      = (bygone.world (world.applySettings now payload).1,
          (world.applySettings now payload).2) := by
  cases payload with
  | obj entries =>
      have warned := bygone.world_foldl_log Settings.Refused.record now
        (Settings.ofPayload world.base (.obj entries)).2 world
      have base : (bygone.world world).base = world.base := rfl
      have provided (world : World) (provider : Provider)
          : ({ bygone.world world with provider } : World)
            = bygone.world { world with provider } :=
        rfl
      simp only [World.applySettings, base, warned, Provider.update, provided, world_log]
  | _ => exact congrArg (·, false) (bygone.world_debug now _ world)

-----------------------------------------------------------------------------------------
-- Documents
-----------------------------------------------------------------------------------------

theorem documents_world (world : World) (id : Nat)
    : (bygone.world world).documents[bygone.place id]? = world.documents[id]? := by
  simp [Bygone.world, place, List.getElem?_append_right]

theorem get?_workspace (workspace : Workspace) (uri : String)
    : (bygone.workspace workspace).get? uri = (workspace.get? uri).map bygone.place := by
  unfold Workspace.get? Bygone.workspace
  dsimp only
  induction workspace.entries with
  | nil => rfl
  | cons entry rest ih =>
      rw [List.map_cons, Table.get?_cons, Table.get?_cons]
      split
      · rfl
      · exact ih

/-- The same document is found, at its place. -/
theorem document?_world (world : World) (uri : String)
    : (bygone.world world).document? uri
      = (world.document? uri).map fun (id, document) => (bygone.place id, document) := by
  cases given : world.workspace with
  | none => simp [World.document?, Bygone.world, given]
  | some workspace =>
      have moved : (bygone.world world).workspace = some (bygone.workspace workspace) := by
        simp [Bygone.world, given]
      simp only [World.document?, given, moved, Option.bind_eq_bind, Option.bind_some,
        get?_workspace]
      cases workspace.get? uri with
      | none => rfl
      | some id =>
          simp only [Option.map_some, Option.bind_some, documents_world]
          cases world.documents[id]? <;> rfl

theorem versionOf_world (world : World) (subject : Subject)
    : LintJob.versionOf (bygone.world world) (bygone.subject subject)
      = LintJob.versionOf world subject := by
  cases subject with
  | opened id => simp only [LintJob.versionOf, Bygone.subject, documents_world]
  | onDisk => rfl

theorem isStale_world (job : LintJob) (world : World) (subject : Subject)
    : job.isStale (bygone.world world) (bygone.subject subject) = job.isStale world subject := by
  simp only [LintJob.isStale, versionOf_world]

-----------------------------------------------------------------------------------------
-- Lints
-----------------------------------------------------------------------------------------

/-- The same is looked up, at its place. -/
theorem source_world (job : LintJob) (world : World)
    : job.source (bygone.world world)
      = { job.source world with subject := bygone.subject (job.source world).subject } := by
  simp only [LintJob.source, document?_world]
  cases world.document? job.uri <;> rfl

/-- A lint starts in the same way. -/
theorem start_world (now : Time) (job : LintJob) (world : World)
    : job.start (now + bygone.clock) (bygone.world world)
      = bygone.result (job.start now world) := by
  unfold LintJob.start
  cases given : world.workspace with
  | none => simp [Bygone.world, given, result]
  | some workspace =>
      have moved : (bygone.world world).workspace = some (bygone.workspace workspace) := by
        simp [Bygone.world, given]
      simp only [moved, source_world, isStale_world, versionOf_world, world_debug]
      split
      · rfl
      · split
        · rfl
        · cases (job.source world).text <;> rfl

/-- A result is published in the same way. -/
theorem publish_world (now : Time) (job : LintJob) (subject : Subject) (messages : List Message)
    (world : World)
    : job.publish (now + bygone.clock) (bygone.subject subject) messages (bygone.world world)
      = bygone.result (job.publish now subject messages world) := by
  have remembered (world : World) (published : Table (List Message))
      : ({ bygone.world world with published } : World)
        = bygone.world { world with published } :=
    rfl
  have same : (bygone.world world).published = world.published := rfl
  simp only [LintJob.publish, isStale_world, world_debug, remembered, same]
  split
  · rfl
  · cases Editor.Diagnostic.ofMessages messages with
    | error failure => rfl
    | ok diagnostics => simp only [world_publish, world_debug, result]

/-- A tool has been at work for as long. -/
theorem finish_linting (linting : Linting) (now : Time) (exchange : Tool.Exchange)
    : (bygone.linting linting).finish (now + bygone.clock) exchange
      = linting.finish now exchange := by
  simp only [Linting.finish, Bygone.linting, Nat.add_sub_add_right]

/-- A lint goes on in the same way. -/
theorem resume_world (now : Time) (state : LintState) (world : World)
    : (bygone.state state).resume (now + bygone.clock) (bygone.world world)
      = bygone.result (state.resume now world) := by
  cases state with
  | prepared job subject adapter snapshot =>
      have tool : (bygone.world world).tool = world.tool := rfl
      simp only [LintState.resume, Bygone.state, tool]
      rcases adapter.begin_alike snapshot (adapter.script world.tool snapshot) with
        ⟨events, outcome, done⟩ | ⟨events, duration, working⟩
      · simp only [done, world_noteTool, result, Bygone.state]
      · simp only [working, world_noteTool, result, Bygone.state]
        rfl
  | working job subject linting =>
      have same : (bygone.linting linting).complete (now + bygone.clock) = linting.complete now :=
        bygone.finish_linting linting now _
      simp only [LintState.resume, Bygone.state, same, world_noteTool, result]
  | landed job subject outcome => rfl
  | arriving job subject outcome =>
      cases outcome with
      | ok messages => exact bygone.publish_world now job subject messages world
      | error failure =>
          simp only [LintState.resume, Bygone.state]
          split <;> rfl
  | fallen => rfl
  | leaving => rfl

/-- A cancelled lint takes its leave in the same way. -/
theorem interrupt_world (now : Time) (state : LintState) (world : World)
    : (bygone.state state).interrupt (now + bygone.clock) (bygone.world world)
      = bygone.result (state.interrupt now world) := by
  cases state with
  | working job subject linting =>
      have same : (bygone.linting linting).abandon (now + bygone.clock) = linting.abandon now :=
        bygone.finish_linting linting now _
      simp only [LintState.interrupt, Bygone.state, same, world_noteTool, result]
  | _ => rfl

-----------------------------------------------------------------------------------------
-- Handlers
-----------------------------------------------------------------------------------------

theorem uris_workspace (workspace : Workspace)
    : (bygone.workspace workspace).uris = workspace.uris := by
  simp [Workspace.uris, Table.keys, Bygone.workspace, Function.comp_def]

/-- A handler starts in the same way. -/
theorem begin_world (now : Time) (notification : Notification) (world : World)
    : notification.begin (now + bygone.clock) (bygone.world world)
      = (bygone.world (notification.begin now world).1, (notification.begin now world).2) := by
  cases notification with
  | configured payload =>
      simp only [Notification.begin, world_applySettings]
      cases applied : world.applySettings now payload with
      | mk settled taken =>
          cases taken with
          | false => rfl
          | true =>
              cases given : settled.workspace with
              | none =>
                  have none : (bygone.world settled).workspace = none := by
                    simp [Bygone.world, given]
                  simp only [given, none, world_handlerFailed]
              | some workspace =>
                  have moved
                      : (bygone.world settled).workspace = some (bygone.workspace workspace) := by
                    simp [Bygone.world, given]
                  simp only [given, moved, uris_workspace]
  | _ => simp only [Notification.begin, world_debug]

/-- A step asks for the same. -/
theorem request_world (now : Time) (step : Step) (world : World)
    : step.request (now + bygone.clock) (bygone.world world)
      = (bygone.world (step.request now world).1, (step.request now world).2) := by
  cases step with
  | forget uri => rfl
  | relint feature uri =>
      have none : (bygone.world world).workspace.isNone = world.workspace.isNone := by
        simp [Bygone.world]
      have delay : (bygone.world world).delay = world.delay := rfl
      simp only [Step.request, none, document?_world, world_handlerFailed, delay]
      split
      · rfl
      · cases world.document? uri <;> rfl

theorem finish_world (now : Time) (step : Step) (world : World)
    : step.finish (now + bygone.clock) (bygone.world world)
      = bygone.world (step.finish now world) := by
  cases step with
  | relint feature uri => rfl
  | forget uri =>
      exact bygone.world_publish now uri none []
        { world with published := world.published.erase uri }

/-- The past of the server's debouncer. -/
def past (tasks : List (Task LintJob LintState Step))
    (ended : ∀ task ∈ tasks, task.stage = .ended ∧ task.waiter = none) :
    Past World LintJob LintState Step where
  clock := bygone.clock
  tasks := tasks
  ended := ended
  world := bygone.world
  state := bygone.state

variable {tasks : List (Task LintJob LintState Step)}
  {ended : ∀ task ∈ tasks, task.stage = .ended ∧ task.waiter = none}

/-- The server does the same with a past behind it. -/
theorem host_repeats : host.Repeats (bygone.past tasks ended) := by
  have same (outcome : World × Outcome LintState)
      : (bygone.past tasks ended).result outcome = bygone.result outcome := by
    obtain ⟨world, outcome⟩ := outcome
    cases outcome <;> rfl
  exact {
    start := fun now job world => (bygone.start_world now job world).trans (same _).symm
    resume := fun now state world => (bygone.resume_world now state world).trans (same _).symm
    interrupt := fun now state world =>
      (bygone.interrupt_world now state world).trans (same _).symm
    report := fun now failure world => bygone.world_log now _ world
    begin := bygone.begin_world
    request := bygone.request_world
    finish := bygone.finish_world
    turnsLeft := by
      intro state
      cases state <;> rfl
    steps := by
      intro world
      cases given : world.workspace <;>
        simp [host, past, Bygone.world, Bygone.workspace, given]
  }

-----------------------------------------------------------------------------------------
-- What arrives
-----------------------------------------------------------------------------------------

/-- A document is filed under its place, by induction over the entries. -/
theorem insert_workspace (workspace : Workspace) (uri : String) (id : Nat)
    : bygone.workspace (workspace.insert uri id)
      = (bygone.workspace workspace).insert uri (bygone.place id) := by
  obtain ⟨root, entries⟩ := workspace
  simp only [Bygone.workspace, Workspace.insert, Workspace.mk.injEq, true_and]
  induction entries with
  | nil => rfl
  | cons entry rest ih =>
      obtain ⟨key, old⟩ := entry
      simp only [Table.insert, List.map_cons]
      split
      · rfl
      · rw [List.map_cons, ih]

theorem erase_workspace (workspace : Workspace) (uri : String)
    : bygone.workspace (workspace.erase uri) = (bygone.workspace workspace).erase uri := by
  simp [Bygone.workspace, Workspace.erase, Table.erase, List.filter_map, Function.comp_def]

theorem openDocument_world (document : Document) (workspace : Workspace) (world : World)
    : Server.openDocument document (bygone.workspace workspace) (bygone.world world)
      = bygone.world (Server.openDocument document workspace world) := by
  have last : (bygone.world world).documents.length = bygone.place world.documents.length := by
    simp [Bygone.world, place]
  simp only [Server.openDocument, last, ← insert_workspace]
  simp [Bygone.world]

theorem changeDocument_world (uri : String) (version : Option Int) (texts : List String)
    (workspace : Workspace) (world : World)
    : Server.changeDocument uri version texts (bygone.workspace workspace) (bygone.world world)
      = (Server.changeDocument uri version texts workspace world).map bygone.world := by
  simp only [Server.changeDocument, get?_workspace]
  cases workspace.get? uri with
  | none => rfl
  | some id =>
      simp only [Option.map_some, Except.map, Bygone.world, place, modify_append_right]

theorem answer_world (now : Time) (uri : String) (only : List String)
    (diagnostics : List Editor.Diagnostic) (world : World)
    : Server.answer (now + bygone.clock) uri only diagnostics (bygone.world world)
      = bygone.world (Server.answer now uri only diagnostics world) := by
  have known : (bygone.world world).published = world.published := rfl
  simp only [Server.answer, known]
  cases Handler.shield logger "textDocument/codeAction" []
      (Editor.codeActions diagnostics only ((world.published.get? uri).getD [])) with
  | mk records outcome =>
      have logged := bygone.world_foldl_log id now records world
      simp only [id] at logged
      cases outcome <;> simp only [logged, world_note]

theorem setUp_world (now : Time) (rootUri : Option String) (options : Option Json)
    (world : World)
    : Server.setUp (now + bygone.clock) rootUri options (bygone.world world)
      = bygone.world (Server.setUp now rootUri options world) := by
  have begun
      : ({ bygone.world world with workspace := some (Workspace.fresh rootUri) } : World)
        = bygone.world { world with workspace := some (Workspace.fresh rootUri) } :=
    rfl
  simp only [Server.setUp, begun]
  cases options with
  | none => simp only [world_note]
  | some payload => simp only [world_applySettings, world_note]

end Bygone

variable {bygone : Bygone} {tasks : List (Task LintJob LintState Step)}
  {ended : ∀ task ∈ tasks, task.stage = .ended ∧ task.waiter = none} {server later : Server}

/-- What changes the state in the same way keeps two servers alike. -/
theorem Server.follows_mapWorld (follows : Manager.Follows (bygone.past tasks ended) server later)
    {f g : World → World} (same : ∀ world, g (bygone.world world) = bygone.world (f world))
    : Manager.Follows (bygone.past tasks ended) (server.mapWorld f) (later.mapWorld g) := by
  have moved := follows.withWorld (f server.world)
  have world : (bygone.past tasks ended).world (f server.world) = g later.world := by
    rw [follows.world]
    exact (same server.world).symm
  rw [world] at moved
  exact moved

theorem Server.follows_refuse (follows : Manager.Follows (bygone.past tasks ended) server later)
    (failure : Failure)
    : Manager.Follows (bygone.past tasks ended) (server.refuse failure) (later.refuse failure) := by
  apply follows_mapWorld follows
  intro world
  rw [follows.now]
  exact bygone.world_note server.now _ world

/-- What changes the workspace in the same way keeps two servers alike. -/
theorem Server.follows_withWorkspace
    (follows : Manager.Follows (bygone.past tasks ended) server later) (notification : Notification)
    {f : Workspace → World → Except Failure World}
    (same
      : ∀ workspace world,
          f (bygone.workspace workspace) (bygone.world world)
          = (f workspace world).map bygone.world)
    : Manager.Follows (bygone.past tasks ended) (server.withWorkspace notification f)
        (later.withWorkspace notification f) := by
  have moved : later.world = bygone.world server.world := follows.world
  have given : later.world.workspace = server.world.workspace.map bygone.workspace := by
    rw [moved]
    rfl
  unfold Server.withWorkspace
  rw [given]
  cases server.world.workspace with
  | none => exact follows_refuse follows .noWorkspace
  | some workspace =>
      simp only [Option.map_some, moved, same]
      cases f workspace server.world with
      | error failure => exact follows_refuse follows failure
      | ok world => exact (follows.withWorld world).deliver notification

/-- Whatever arrives is taken in in the same way. -/
theorem Server.follows_receive (follows : Manager.Follows (bygone.past tasks ended) server later)
    (input : Input)
    : Manager.Follows (bygone.past tasks ended) (server.receive input) (later.receive input) := by
  cases input with
  | initialized rootUri options =>
      apply follows_mapWorld follows
      intro world
      rw [follows.now]
      exact bygone.setUp_world server.now rootUri options world
  | opened uri language version text =>
      unfold Server.receive
      refine follows_withWorkspace follows (.opened uri) fun workspace world => ?_
      exact congrArg Except.ok (bygone.openDocument_world _ workspace world)
  | changed uri version texts =>
      unfold Server.receive
      dsimp only
      split
      · exact follows.deliver (.changed uri)
      · exact follows_withWorkspace follows _ (bygone.changeDocument_world uri version texts)
  | saved uri => exact follows.deliver (.saved uri)
  | closed uri =>
      unfold Server.receive
      refine follows_withWorkspace follows (.closed uri) fun workspace world => ?_
      simp only [← Bygone.erase_workspace]
      rfl
  | configured payload => exact follows.deliver (.configured payload)
  | codeAction uri only diagnostics =>
      apply follows_mapWorld follows
      intro world
      rw [follows.now]
      exact bygone.answer_world server.now uri only diagnostics world
  | tool tool =>
      unfold Server.receive
      exact follows_mapWorld follows fun _ => rfl
  | advance duration => exact follows

theorem Server.follows_act (follows : Manager.Follows (bygone.past tasks ended) server later)
    (input : Input)
    : Manager.Follows (bygone.past tasks ended) (server.act input) (later.act input) := by
  have received := follows_receive follows input
  cases input with
  | advance duration => exact follows.advance bygone.host_repeats duration
  | _ => exact received.settle bygone.host_repeats

/-- A session goes on in the same way, by induction over what arrives. -/
theorem Server.follows_session (follows : Manager.Follows (bygone.past tasks ended) server later)
    (inputs : List Input)
    : Manager.Follows (bygone.past tasks ended) (server.session inputs) (later.session inputs) := by
  induction inputs generalizing server later with
  | nil => exact follows
  | cons input rest ih => exact ih (follows_act follows input)

end EditorLint.Session
