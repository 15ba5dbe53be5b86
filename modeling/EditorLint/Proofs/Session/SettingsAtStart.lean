import EditorLint.Proofs.Session.Provenance
import EditorLint.Proofs.Session.SettingsInForce
import EditorLint.Proofs.Session.ToolStarts

/-! Which settings a tool is started under. They are those that were in force when its lint began
and took its adapter, whatever has come since. Where things arrive only when no one has a turn, no
handler comes between the two moments, so that these are the settings in force when the tool is
started. Otherwise they need not be.
-/

namespace EditorLint

/-- The adapter shows all settings from which it was built. -/
theorem Provider.adapterOf_injective : Function.Injective Provider.adapterOf := by
  intro one other same
  have shown := congrArg Adapter.info same
  cases one
  cases other
  simp only [adapterOf, Settings.ruff, ToolInfo.mk.injEq] at shown
  simp [shown]

namespace Session

open Debounce

/-- A run has come through the start of a tool, after some other starts and for a path. The first of
two settings were in force when the lint began that started the tool, and the second ones when it
did so.
-/
inductive HasStarted (gate : Server → Prop) (first : Server) (inputs : List Input) (server : Server)
    (starts : List (Tool.Command × Option String)) (start : Tool.Command × Option String)
    : String → Settings → Settings → Prop
  | intro {reached since later : List Input} {origin past next : Server} {id : Nat} {job : LintJob}
    {subject : Subject} {snapshot : Snapshot} {limit : Time}
    (split : inputs = reached ++ later) (before : Past gate first reached past origin since)
    (begins : job.Begins origin.world subject snapshot)
    (prepares : past.Prepares id origin.world.provider.adapter snapshot)
    (stepped : past.step? host limit = some next) (old : past.world.starts = starts)
    (new : next.world.starts = starts ++ [start]) (goesOn : Run gate next later server)
    : HasStarted gate first inputs server starts start snapshot.path
        origin.world.provider.settings past.world.provider.settings

/-- A handler that is ready is the only one to have a turn, and a lint that is about to start its
tool is ready to do so with the adapter in force.
-/
structure Server.Undivided (server : Server) : Prop where
  alone : server.handlers ≠ [] → ∃ notification, server.agenda.ready = [.handler notification]
  prepared
    : ∀ {id adapter snapshot},
        server.Prepares id adapter snapshot
        → .task id ∈ server.agenda.ready ∧ adapter = server.world.provider.adapter

variable {gate : Server → Prop} {server after : Server} {disk : Disk} {delay : Time}
  {base : Settings} {tool : Tool.Behaviour} {first : Server} {inputs more : List Input}
  {early late : List (Tool.Command × Option String)} {start : Tool.Command × Option String}

-----------------------------------------------------------------------------------------
-- Every start
-----------------------------------------------------------------------------------------

theorem HasStarted.goesOn {path : String} {taken inForce : Settings}
    (started : HasStarted gate first inputs server early start path taken inForce)
    (run : Run gate server more after)
    : HasStarted gate first (inputs ++ more) after early start path taken inForce := by
  obtain ⟨rfl, before, begins, prepares, stepped, old, new, goesOn⟩ := started
  exact ⟨List.append_assoc _ _ more, before, begins, prepares, stepped, old, new,
    goesOn.trans run⟩

/-- A tool was started by the command that the settings give which were in force when its lint
began, for a path on which they want the tool.
-/
def Started (gate : Server → Prop) (first : Server) (inputs : List Input) (server : Server)
    (starts : List (Tool.Command × Option String)) (start : Tool.Command × Option String) : Prop :=
  ∃ path taken inForce,
    HasStarted gate first inputs server starts start path taken inForce
    ∧ taken.ruff.isEnabled path = true
    ∧ start.1 = (Provider.adapterOf taken).command path

theorem Started.goesOn (started : Started gate first inputs server early start)
    (run : Run gate server more after)
    : Started gate first (inputs ++ more) after early start := by
  obtain ⟨path, taken, inForce, started, rest⟩ := started
  exact ⟨path, taken, inForce, started.goesOn run, rest⟩

/-- A start in the next turn is one by the settings in force when its lint began. -/
theorem Run.started_turn
    (run : Run gate (Server.start disk delay base tool) inputs server) {limit : Time}
    (stepped : server.step? host limit = some after)
    (new : after.world.starts = server.world.starts ++ [start])
    : Started gate (Server.start disk delay base tool) inputs after server.world.starts start := by
  rcases Server.starts_step? stepped with same | ⟨id, adapter, snapshot, prepares, wanted, made⟩
  · rw [new] at same
    simp at same
  · obtain rfl := List.singleton_inj.mp (List.append_cancel_left (made.symm.trans new))
    obtain ⟨task, job, subject, found, stage⟩ := prepares
    rcases (run.traced rfl rfl).running found stage with leaving | ⟨lint, since, begun, reaches⟩
    · exact leaving.elim
    · obtain ⟨rfl, rfl, rfl, rfl⟩ := reaches
      obtain ⟨origin, before, begins, own⟩ := begun
      obtain ⟨_, _, come⟩ := before.before
      rw [own] at wanted stage ⊢
      refine ⟨_, _, _, ⟨(List.append_nil inputs).symm, before, begins,
        ⟨task, _, _, found, stage⟩, stepped, rfl, ?_, .start⟩, ?_, ?_⟩
      · rw [made, own]
      · rw [come.built] at wanted
        exact wanted
      · rw [come.built]

/-- Every start of a tool was one by the settings in force when its lint began, by induction over
the run.
-/
theorem Run.started (run : Run gate (Server.start disk delay base tool) inputs server)
    (made : server.world.starts = early ++ start :: late)
    : Started gate (Server.start disk delay base tool) inputs server early start := by
  induction run generalizing late with
  | start => cases early <;> cases made
  | @receive inputs server before admits input ih =>
      rw [server.starts_receive] at made
      exact (ih made).goesOn (Run.start.receive admits input)
  | @turn inputs server after before limit stepped ih =>
      have old {others : List (Tool.Command × Option String)}
          (made : server.world.starts = early ++ start :: others)
          : Started gate (Server.start disk delay base tool) inputs after early start := by
        simpa using (ih made).goesOn (Run.start.turn stepped)
      rcases Server.starts_step? stepped with same | ⟨_, _, _, _, _, new⟩
      · exact old (same ▸ made)
      · rcases List.eq_nil_or_concat late with rfl | ⟨others, last, rfl⟩
        · obtain ⟨rfl, _⟩ := List.append_inj' (new.symm.trans made) rfl
          exact before.started_turn stepped made
        · simp only [made, List.concat_eq_append, ← List.cons_append, ← List.append_assoc] at new
          exact old (List.append_inj_left' new rfl).symm
  | @pass inputs server before instant quiet ih =>
      have run
          : Run gate server [] { server with agenda := server.agenda.passTo instant } :=
        Run.start.pass quiet
      simpa using (ih made).goesOn run

-----------------------------------------------------------------------------------------
-- Where things arrive only when no one has a turn
-----------------------------------------------------------------------------------------

/-- A lint that is about to start its tool after a turn was so before, or it has begun in this turn
with the adapter in force, and its next turn is ready.
-/
theorem Server.prepares_take {turn : Turn LintJob Notification Step} {id : Nat}
    {adapter : Adapter} {snapshot : Snapshot}
    (prepares : Server.Prepares (server.take host turn) id adapter snapshot)
    : (server.Prepares id adapter snapshot ∧ turn ≠ .task id)
      ∨ (turn = .task id
        ∧ adapter = server.world.provider.adapter
        ∧ .task id ∈ (server.take host turn).agenda.ready) := by
  obtain ⟨task, job, subject, found, stage⟩ := prepares
  by_cases own : turn = .task id
  · subst own
    obtain ⟨f, same, _, moves⟩ := Manager.tasks_runTask host server id
    have moved := found
    change (server.runTask host id).tasks[id]? = some task at moved
    rw [same] at moved
    obtain ⟨old, before, rfl⟩ := Manager.getElem?_setTask.mp moved
    rw [if_pos rfl] at stage
    have move := moves old before
    rw [stage] at move
    generalize was : old.stage = prior at move
    cases move with
    | starts begun =>
        obtain rfl := LintJob.duration_of_start (congrArg Prod.snd begun)
        obtain ⟨_, _, same⟩ := LintJob.prepared_of_start (congrArg Prod.snd begun)
        cases same
        refine Or.inr ⟨rfl, rfl, ?_⟩
        exact Manager.mem_ready_of_starts before was begun found (by rw [if_pos rfl, stage])
    | resumes went =>
        have fewer := (LintState.resume_wait _ _ (congrArg Prod.snd went)).1
        rename_i prior _
        cases prior <;> simp [LintState.turnsLeft] at fewer
    | falls told => exact (LintState.interrupt_wait _ _ (congrArg Prod.snd told)).2.2.elim
  · refine Or.inl ⟨?_, own⟩
    rcases Manager.running_take found stage with ⟨old, before, same⟩ | ⟨same, _⟩
    · exact ⟨old, job, subject, before, same⟩
    · exact (own same).elim

variable {limit : Time} {turn : Turn LintJob Notification Step}
  {agenda : Agenda (Turn LintJob Notification Step)}

/-- A handler that is ready is the only turn that is, so it is the one that is taken. -/
theorem Server.Undivided.single (undivided : server.Undivided)
    (next : server.agenda.next? limit = some (turn, agenda)) (busy : server.handlers ≠ [])
    : server.agenda.ready = [turn] ∧ agenda.ready = [] := by
  obtain ⟨notification, ready⟩ := undivided.alone busy
  rcases Agenda.next?_cases next with ⟨first, _⟩ | ⟨nothing, _⟩
  · rw [ready] at first
    obtain ⟨same, rest⟩ := List.cons.inj first
    exact ⟨by rw [ready, same], rest.symm⟩
  · cases ready.symm.trans nothing

/-- Only a handler changes the adapter in its turn. -/
theorem Server.adapter_take (server : Server) (other : ∀ notification, turn ≠ .handler notification)
    {taken : List Json} (under : server.world.UnderPayloads base taken)
    : (server.take host turn).world.provider.adapter = server.world.provider.adapter := by
  rw [(under.take server other).2, under.2]

/-- After a turn, a lint that is about to start its tool is ready to do so with the adapter in
force.
-/
theorem Server.Undivided.prepared_take (undivided : server.Undivided) {taken : List Json}
    (under : server.world.UnderPayloads base taken)
    (started
      : server.handlers = turn.message?.toList ++ ({ server with agenda } : Server).handlers)
    (next : server.agenda.next? limit = some (turn, agenda)) {id : Nat} {adapter : Adapter}
    {snapshot : Snapshot}
    (prepares
      : Server.Prepares (({ server with agenda } : Server).take host turn) id adapter snapshot)
    : .task id ∈ (({ server with agenda } : Server).take host turn).agenda.ready
      ∧ adapter
        = (({ server with agenda } : Server).take host turn).world.provider.adapter := by
  rcases Server.prepares_take prepares with ⟨before, others⟩ | ⟨rfl, taken, ready⟩
  · obtain ⟨ready, own⟩ := undivided.prepared before
    have other : ∀ notification, turn ≠ .handler notification := by
      intro notification isHandler
      have alone := (undivided.single next (by simp [started, isHandler, Turn.message?])).1
      rw [alone, isHandler] at ready
      cases List.mem_singleton.mp ready
    have waits : .task id ∈ agenda.ready := by
      rcases Agenda.next?_cases next with ⟨first, _⟩ | ⟨nothing, _⟩
      · rw [first] at ready
        exact (List.mem_cons.mp ready).resolve_left fun own => others own.symm
      · rw [nothing] at ready
        cases ready
    refine ⟨?_, own.trans (Server.adapter_take { server with agenda } other under).symm⟩
    exact (Manager.agendaKeeps_mem_ready (.task id)).take (m := { server with agenda }) waits
      host turn
  · exact ⟨ready, taken.trans (Server.adapter_take { server with agenda } (by simp) under).symm⟩

/-- In a settled state, no handler and no tool is yet to start, and what arrives is one handler. -/
theorem Server.Undivided.receive (undivided : server.Undivided) (settled : Settled server)
    (input : Input)
    : (server.receive input).Undivided := by
  have ready : server.agenda.ready = [] := settled.ready
  obtain ⟨world, agenda, taken, _, agendas⟩ := server.takes_receive input
  rw [taken]
  refine ⟨fun busy => ?_, fun prepares => ?_⟩
  · rcases agendas with rfl | ⟨notification, rfl⟩
    · exact (busy (Server.handlers_of_settled settled)).elim
    · exact ⟨notification, by simp [Agenda.post, ready]⟩
  · have waits := (undivided.prepared prepares).1
    rw [ready] at waits
    cases waits

/-- After a turn no handler is yet to start, and no handler has come before a lint that is about to
start its tool.
-/
theorem Server.Undivided.step? (undivided : server.Undivided) (sound : server.Sound)
    {taken : List Json} (under : server.world.UnderPayloads base taken)
    (stepped : server.step? host limit = some after)
    : after.Undivided := by
  obtain ⟨⟨turn, agenda⟩, next, rfl⟩ := Option.map_eq_some_iff.mp stepped
  have started := sound.coherent.toConsistent.handlers_next next
  refine ⟨fun busy => ?_, undivided.prepared_take under started next⟩
  have kept := Manager.handlers_take host ({ server with agenda } : Server) turn
  change (({ server with agenda } : Server).take host turn).handlers ≠ [] at busy
  rw [kept] at busy
  have alone := (undivided.single next (by simp [started, busy])).2
  exact (busy (by simp [Manager.handlers, alone])).elim

/-- In every state of a session, no handler comes between the moment at which a lint takes its
adapter and the one at which it starts its tool, by induction over the session.
-/
theorem Run.undivided (run : Run Settled (Server.start disk delay base tool) inputs server)
    : server.Undivided := by
  induction run with
  | start =>
      refine ⟨fun busy => (busy rfl).elim, fun prepares => ?_⟩
      obtain ⟨_, _, _, found, _⟩ := prepares
      cases found
  | receive _ settled input ih => exact ih.receive settled input
  | turn before stepped ih =>
      obtain ⟨_, _, under, _⟩ := before.takenUp
      exact ih.step? (before.sound (Server.sound_start disk delay base tool)) under stepped
  | pass _ _ ih => exact ⟨ih.alone, ih.prepared⟩

/-- The settings that are in force when a tool is started are then those that were in force when its
lint began.
-/
theorem HasStarted.same {path : String} {taken inForce : Settings}
    (started
      : HasStarted Settled (Server.start disk delay base tool) inputs server early start path
          taken inForce)
    : taken = inForce := by
  obtain ⟨_, ⟨⟨_, _, come⟩, meanwhile⟩, _, prepares, _, _, _, _⟩ := started
  have whole := come.trans meanwhile
  apply Provider.adapterOf_injective
  rw [← come.built, ← whole.built]
  exact (whole.undivided.prepared prepares).2

-----------------------------------------------------------------------------------------
-- The settings in force
-----------------------------------------------------------------------------------------

/-- In every state of a run, however what arrives and what is done are interleaved: the settings in
force are those of the last payload taken up that was an object, over the settings at the start. The
adapter is built from them, and every tool was started by those in force when its lint began, on a
path that they do not exclude. A payload that is no object changes no settings and has nothing
linted.

Where things arrive only when no one has a turn, payloads are taken up as they have come, and tools
are started by the settings in force at that moment.
-/
theorem settings_in_force
    (run : Run AtAnyTime (Server.start disk delay base tool) inputs server)
    : (∃ taken,
          TakenUp inputs taken server.waiting
          ∧ server.world.provider.settings = base.ofPayloads taken
          ∧ (OptionsFirst inputs → taken ++ server.waiting = inputs.filterMap Input.payload?))
      ∧ server.world.provider.adapter = Provider.adapterOf server.world.provider.settings
      ∧ (∀ early start late,
          server.world.starts = early ++ start :: late
          → ∃ path taken inForce,
              HasStarted AtAnyTime (Server.start disk delay base tool) inputs server early start
                path taken inForce
              ∧ taken.ruff.isEnabled path = true
              ∧ start.1
                = { executable := taken.toolPath
                    arguments := taken.toolArguments
                      ++ ["--format", "json", "--exit-zero", "--stdin-filename", path, "-"] })
      ∧ (∀ payload : Json,
          (∀ entries, payload ≠ .obj entries)
          → server.take host (.handler (.configured payload))
              = server.mapWorld (fun world => world.debug server.now world.keeping)
            ∧ ∀ rootUri,
                server.receive (.initialized rootUri (some payload))
                = server.mapWorld fun world =>
                    ({ world with workspace := some (Workspace.fresh rootUri) }.debug server.now
                      world.keeping).note server.now .initialized)
      ∧ (Run Settled (Server.start disk delay base tool) inputs server
        → (∃ taken,
            taken ++ server.waiting = inputs.filterMap Input.payload?
            ∧ server.world.provider.settings = base.ofPayloads taken
            ∧ (Settled server → taken = inputs.filterMap Input.payload?))
          ∧ (∀ early start late,
              server.world.starts = early ++ start :: late
              → ∃ path settings,
                  HasStarted Settled (Server.start disk delay base tool) inputs server early start
                    path settings settings
                  ∧ settings.ruff.isEnabled path = true
                  ∧ start.1
                    = { executable := settings.toolPath
                        arguments := settings.toolArguments
                          ++ ["--format", "json", "--exit-zero", "--stdin-filename", path, "-"] })
          ∧ (Settled server
            → ∀ payload : Json,
                (∀ entries, payload ≠ .obj entries)
                → server.act (.configured payload)
                    = server.mapWorld (fun world => world.debug server.now world.keeping)
                  ∧ ∀ rootUri,
                      server.act (.initialized rootUri (some payload))
                      = server.mapWorld fun world =>
                          ({ world with
                            workspace := some (Workspace.fresh rootUri) }.debug server.now
                              world.keeping).note server.now .initialized)) := by
  obtain ⟨taken, takenUp, under, _⟩ := run.takenUp
  refine ⟨⟨taken, takenUp, congrArg Provider.settings under.2, takenUp.inOrder⟩, run.built, ?_, ?_,
    fun orderly => ⟨?_, ?_, ?_⟩⟩
  · exact fun early start late made => run.started made
  · exact fun payload other => ⟨server.take_configured_other other,
      fun rootUri => server.receive_initialized_other rootUri other⟩
  · obtain ⟨taken, whole, under, all⟩ := orderly.takenInOrder
    exact ⟨taken, whole, congrArg Provider.settings under.2, all⟩
  · intro early start late made
    obtain ⟨path, taken, inForce, started, rest⟩ := orderly.started made
    obtain rfl := started.same
    exact ⟨path, taken, started, rest⟩
  · intro settled payload other
    have sound := orderly.sound (Server.sound_start disk delay base tool)
    exact ⟨Server.act_configured_other sound settled other,
      fun rootUri => Server.act_initialized_other settled rootUri other⟩

/-- Settings without ignore patterns, over which those of the editor are written. -/
def baseSettings : Settings := { ignorePatterns := [] }

/-- An editor names an executable, opens a document, takes its settings back with a payload that
names arguments only, and then sends one that is no object.
-/
def replacedInputs : List Input :=
  [.initialized none (some (.obj [("ruffPath", .str "x")])),
    .opened "a.py" (some "python") (some 1) "a",
    .configured (.obj [("ruffArgs", .arr [.str "-x"])]),
    .configured .null, .advance 300000000]

/-- The server after that. -/
def replacedServer : Server :=
  (Server.start {} 300000000 baseSettings ({} : Tool.Script)).session replacedInputs

/-- The command with the arguments of the last settings, and the executable of the base settings. -/
def replacedCommand : Tool.Command :=
  { executable := "ruff"
    arguments := ["-x", "--format", "json", "--exit-zero", "--stdin-filename", "a.py", "-"] }

/-- That server has started this command, and nothing else. -/
theorem replacedServer_starts
    : replacedServer.world.starts = [(replacedCommand, some ".")] := by
  decide +kernel

/-- The executable that was named first is not in force any more, and was not when the tool was
started.
-/
theorem settings_in_force_of_replaced
    : replacedServer.world.provider.settings = { baseSettings with toolArguments := ["-x"] }
      ∧ ∃ path settings,
          HasStarted Settled (Server.start {} 300000000 baseSettings ({} : Tool.Script))
            replacedInputs replacedServer [] (replacedCommand, some ".") path settings settings
          ∧ settings.toolPath = "ruff" := by
  obtain ⟨orderly, settled⟩ :=
    run_session {} 300000000 baseSettings ({} : Tool.Script) replacedInputs
  obtain ⟨_, _, _, _, whereSettled⟩ := settings_in_force (orderly.mono fun _ _ => True.intro)
  obtain ⟨⟨taken, _, inForce, all⟩, started, _⟩ := whereSettled orderly
  obtain ⟨path, settings, made, _, command⟩ := started [] _ [] replacedServer_starts
  refine ⟨?_, path, settings, made, (congrArg Tool.Command.executable command).symm⟩
  refine inForce.trans ?_
  rw [all settled]
  decide

-----------------------------------------------------------------------------------------
-- A handler between the beginning of a lint and the start of its tool
-----------------------------------------------------------------------------------------

/-- An editor opens two documents, whose lints fall due together. -/
def togetherInputs : List Input :=
  [.initialized none none, .opened "a.py" (some "python") (some 1) "a",
    .opened "b.py" (some "python") (some 1) "b"]

/-- Settings that name another executable and want no linting. -/
def overtakingPayload : Json := .obj [("enabled", .bool false), ("ruffPath", .str "x")]

/-- These settings arrive after the first lint has begun. The second lint begins then, the first
tool is started, and the handler of the settings has its turn.
-/
def overtakenServer : Server :=
  (Server.receive
    (((Server.start {} 300000000 baseSettings ({} : Tool.Script)).session togetherInputs).runFor
      host 300000000 1)
    (.configured overtakingPayload)).runFor host 300000000 3

/-- The command of the settings at the start for the second document. -/
def overtakenStart : Tool.Command × Option String :=
  ({ executable := "ruff"
     arguments := ["--format", "json", "--exit-zero", "--stdin-filename", "b.py", "-"] }, some ".")

/-- What is in force then, and what is started in the next turn. -/
theorem overtakenServer_starts
    : overtakenServer.world.provider.settings
        = { baseSettings with enabled := false, toolPath := "x" }
      ∧ (overtakenServer.step? host 300000000).map (·.world.starts)
        = some (overtakenServer.world.starts ++ [overtakenStart]) := by
  decide +kernel

/-- A tool is started by an executable that the settings in force do not name, for a path on which
they want no tool.
-/
theorem start_under_replaced_settings
    : Run AtAnyTime (Server.start {} 300000000 baseSettings ({} : Tool.Script))
        (togetherInputs ++ [.configured overtakingPayload]) overtakenServer
      ∧ ∃ next,
          overtakenServer.step? host 300000000 = some next
          ∧ next.world.starts = overtakenServer.world.starts ++ [overtakenStart]
          ∧ overtakenStart.1.executable ≠ overtakenServer.world.provider.settings.toolPath
          ∧ overtakenServer.world.provider.settings.ruff.isEnabled "b.py" = false := by
  obtain ⟨inForce, starts⟩ := overtakenServer_starts
  obtain ⟨next, stepped, new⟩ := Option.map_eq_some_iff.mp starts
  refine ⟨?_, next, stepped, new, ?_, ?_⟩
  · have opened :=
      (run_session {} 300000000 baseSettings ({} : Tool.Script) togetherInputs).1.mono
        fun _ _ => True.intro
    exact ((opened.runFor 300000000 1).receive trivial (.configured overtakingPayload)).runFor
      300000000 3
  · rw [inForce]
    decide
  · rw [inForce]
    rfl

end Session

end EditorLint
