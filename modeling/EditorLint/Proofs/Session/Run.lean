import EditorLint.Proofs.Debounce.Clock
import EditorLint.Proofs.Session.Host

/-! The runs of a server: what can happen to it, one thing after the other. A session in which
everything that can be done is done before the editor sends more is such a run, too.
-/

namespace EditorLint.Session

open Debounce

/-- What can happen to a server: something arrives, someone takes a turn, or the clock moves on
where no one has a turn before. `gate` says in which states something may arrive.
-/
inductive Run (gate : Server → Prop) (first : Server) : List Input → Server → Prop
  | start : Run gate first [] first
  | receive {inputs server} (before : Run gate first inputs server) (admits : gate server)
    (input : Input)
    : Run gate first (inputs ++ [input]) (server.receive input)
  | turn {inputs server after} (before : Run gate first inputs server) {limit : Time}
    (stepped : server.step? host limit = some after)
    : Run gate first inputs after
  | pass {inputs server} (before : Run gate first inputs server) {instant : Time}
    (quiet : server.agenda.QuietAt instant)
    : Run gate first inputs { server with agenda := server.agenda.passTo instant }

/-- Things may arrive at any time. -/
def AtAnyTime (_ : Server) : Prop := True

/-- No one has a turn before the clock moves on. -/
def Settled (server : Server) : Prop :=
  server.agenda.QuietAt server.now

variable {gate : Server → Prop} {first middle server after : Server} {inputs : List Input}

/-- A run goes on from where another has come, by induction over what happens later. -/
theorem Run.trans {early late : List Input} (before : Run gate first early middle)
    (later : Run gate middle late server)
    : Run gate first (early ++ late) server := by
  induction later with
  | start => simpa using before
  | receive _ admits input ih => simpa using ih.receive admits input
  | turn _ stepped ih => exact ih.turn stepped
  | pass _ quiet ih => exact ih.pass quiet

/-- A run in which less may happen is one in which more may happen, by induction over it. -/
theorem Run.mono {wider : Server → Prop} (run : Run gate first inputs server)
    (admits : ∀ server, gate server → wider server)
    : Run wider first inputs server := by
  induction run with
  | start => exact .start
  | receive _ here input ih => exact ih.receive (admits _ here) input
  | turn _ stepped ih => exact ih.turn stepped
  | pass _ quiet ih => exact ih.pass quiet

-----------------------------------------------------------------------------------------
-- What arrives
-----------------------------------------------------------------------------------------

/-- A request for code actions is answered from what the server remembers, and changes nothing. -/
theorem noted_answer (now : Time) (uri : String) (only : List String)
    (diagnostics : List Editor.Diagnostic) (world : World)
    : World.Noted world (Server.answer now uri only diagnostics world) := by
  unfold Server.answer
  dsimp only
  have logged := World.noted_foldl_log id now (Handler.shield logger "textDocument/codeAction" []
    (Editor.codeActions diagnostics only ((world.published.get? uri).getD []))).1 world
  split
  · exact logged.trans (World.noted_note _ now rfl)
  · exact logged

/-- The initialization shows nothing: its settings and its workspace are for what comes later. -/
theorem continues_setUp (now : Time) (rootUri : Option String) (options : Option Json)
    (world : World)
    : World.Continues world (Server.setUp now rootUri options world) := by
  have applied (world : World) (payload : Json)
      : World.Continues world (world.applySettings now payload).1 := by
    cases payload with
    | obj entries =>
        obtain ⟨events, same, aside⟩ := (World.applySettings_obj world now entries).1
        exact same ▸ ⟨rfl, events, rfl, aside⟩
    | _ => exact (World.noted_log world now _).continues
  unfold Server.setUp
  dsimp only
  cases options with
  | none => exact ⟨rfl, _, rfl, by simp [Event.isAside]⟩
  | some payload =>
      obtain ⟨published, entries, grown, aside⟩ :=
        applied { world with workspace := some (Workspace.fresh rootUri) } payload
      refine ⟨published, entries ++ [⟨now, .initialized⟩], ?_, ?_⟩
      · simp only [World.note, grown, List.append_assoc]
      · intro entry member
        rcases List.mem_append.mp member with here | here
        · exact aside entry here
        · obtain rfl := List.mem_singleton.mp here
          rfl

/-- Only the host's state has changed, in which nothing is shown, and at most a handler has been
given a turn.
-/
def Server.Takes (before after : Server) : Prop :=
  ∃ world agenda,
    after = { before with world, agenda }
    ∧ World.Continues before.world world
    ∧ (agenda = before.agenda
      ∨ ∃ notification, agenda = before.agenda.post (.handler notification))

/-- A change that shows nothing. -/
theorem Server.takes_world {world : World} (continues : World.Continues server.world world)
    : server.Takes { server with world } :=
  ⟨world, server.agenda, rfl, continues, Or.inl rfl⟩

/-- A change that shows nothing, and the turn of a handler. -/
theorem Server.takes_deliver {world : World} (continues : World.Continues server.world world)
    (notification : Notification)
    : server.Takes (({ server with world } : Server).deliver notification) :=
  ⟨world, _, rfl, continues, Or.inr ⟨notification, rfl⟩⟩

/-- A change of the workspace is refused, or it is made and its handler has a turn. -/
theorem Server.withWorkspace_cases (server : Server) (notification : Notification)
    (f : Workspace → World → Except Failure World)
    : (∃ failure, server.withWorkspace notification f = server.refuse failure)
      ∨ ∃ workspace world,
          server.world.workspace = some workspace
          ∧ f workspace server.world = .ok world
          ∧ server.withWorkspace notification f
            = ({ server with world } : Server).deliver notification := by
  unfold Server.withWorkspace
  split
  · exact Or.inl ⟨_, rfl⟩
  next workspace given =>
    split
    · exact Or.inl ⟨_, rfl⟩
    next world changed => exact Or.inr ⟨workspace, world, given, changed, rfl⟩

/-- A change of the workspace that shows nothing, if it can be made. -/
theorem Server.takes_withWorkspace (notification : Notification)
    {f : Workspace → World → Except Failure World}
    (continues
      : ∀ workspace world,
          f workspace server.world = .ok world → World.Continues server.world world)
    : server.Takes (server.withWorkspace notification f) := by
  rcases server.withWorkspace_cases notification f with
    ⟨failure, same⟩ | ⟨workspace, world, _, changed, same⟩
  · rw [same]
    exact takes_world (World.noted_note _ _ rfl).continues
  · rw [same]
    exact takes_deliver (continues workspace world changed) notification

/-- Whatever arrives shows nothing and has no one take a turn, by the kind of what arrives. -/
theorem Server.takes_receive (server : Server) (input : Input)
    : server.Takes (server.receive input) := by
  have same : World.Continues server.world server.world := (World.Noted.refl _).continues
  cases input with
  | initialized root options => exact takes_world (continues_setUp _ root options _)
  | opened uri language version text =>
      unfold receive
      apply takes_withWorkspace (.opened uri)
      intro _ _ same
      cases same
      exact ⟨rfl, [], by simp [openDocument], by simp⟩
  | changed uri version texts =>
      cases texts with
      | nil => exact takes_deliver same (.changed uri)
      | cons text more =>
          apply takes_withWorkspace (.changed uri)
          intro workspace world changed
          unfold changeDocument at changed
          split at changed
          · cases changed
          · cases changed
            exact ⟨rfl, [], by simp, by simp⟩
  | saved uri => exact takes_deliver same (.saved uri)
  | closed uri =>
      unfold receive
      apply takes_withWorkspace (.closed uri)
      intro _ _ same
      cases same
      exact ⟨rfl, [], by simp, by simp⟩
  | configured payload => exact takes_deliver same (.configured payload)
  | codeAction uri only diagnostics =>
      exact takes_world (noted_answer _ uri only diagnostics _).continues
  | tool tool => exact takes_world ⟨rfl, [], by simp, by simp⟩
  | advance duration => exact takes_world same

-----------------------------------------------------------------------------------------
-- What every run keeps
-----------------------------------------------------------------------------------------

/-- All parts of a server's debouncer fit together, and what waits for the clock is ahead of it. -/
structure Server.Sound (server : Server) : Prop where
  coherent : Manager.Coherent LintState.Leaving .free server
  ahead : server.agenda.Ahead

/-- A server for which nothing has happened is sound. -/
theorem Server.sound_start (disk : Disk) (delay : Time) (settings : Settings)
    (tool : Tool.Behaviour)
    : (Server.start disk delay settings tool).Sound :=
  ⟨.fresh _, List.Pairwise.nil, fun _ => nofun⟩

theorem Server.Sound.receive (sound : server.Sound) (input : Input)
    : (server.receive input).Sound := by
  obtain ⟨world, agenda, taken, _, rfl | ⟨notification, rfl⟩⟩ := server.takes_receive input
  · exact taken ▸ ⟨sound.coherent.withWorld world, sound.ahead⟩
  · have coherent := (sound.coherent.withWorld world).deliver notification
    exact taken ▸ ⟨coherent, sound.ahead.1, sound.ahead.2⟩

theorem Server.Sound.step? (sound : server.Sound) {limit : Time}
    (stepped : server.step? host limit = some after)
    : after.Sound :=
  ⟨sound.coherent.step? host_prompt stepped, (Manager.step?_now sound.ahead stepped).1⟩

theorem Server.Sound.passTo (sound : server.Sound) {instant : Time}
    (quiet : server.agenda.QuietAt instant)
    : Server.Sound { server with agenda := server.agenda.passTo instant } :=
  ⟨sound.coherent.passTo instant, (sound.ahead.passTo quiet).1⟩

/-- A run that begins with a sound server leads to sound ones only, by induction over it. -/
theorem Run.sound (run : Run gate first inputs server) (sound : first.Sound) : server.Sound := by
  induction run with
  | start => exact sound
  | receive _ _ input ih => exact ih.receive input
  | turn _ stepped ih => exact ih.step? stepped
  | pass _ quiet ih => exact ih.passTo quiet

/-- What arrivals and turns keep, every run keeps, by induction over it. -/
theorem Run.keeps {holds : World → Prop} (run : Run gate first inputs server)
    (keeps : host.Keeps (fun _ => True) holds)
    (arrives : ∀ server : Server, ∀ input ∈ inputs,
      holds server.world → holds (server.receive input).world)
    (before : holds first.world)
    : holds server.world := by
  induction run with
  | start => exact before
  | receive _ _ input ih =>
      refine arrives _ input (by simp) (ih fun server other member => ?_)
      exact arrives server other (by simp [member])
  | turn _ stepped ih => exact keeps.step? (ih arrives) (fun _ _ => trivial) stepped
  | pass _ _ ih => exact ih arrives

/-- The history only grows in the course of a run. -/
theorem Run.history_grows (run : Run gate first inputs server)
    : first.world.history <+: server.world.history := by
  refine run.keeps (host_keeps_history first.world.history) ?_ (List.prefix_refl _)
  intro server input _ before
  obtain ⟨world, agenda, taken, ⟨_, entries, grown, _⟩, _⟩ := server.takes_receive input
  rw [taken]
  exact grown ▸ before.trans (List.prefix_append _ entries)

-----------------------------------------------------------------------------------------
-- Sessions
-----------------------------------------------------------------------------------------

/-- The server after some inputs, each followed by all turns that can be taken. -/
def Server.session (server : Server) (inputs : List Input) : Server :=
  inputs.foldl Server.act server

/-- Turns that are taken one after the other are part of a run, by induction over their bound. -/
theorem Run.runFor (run : Run gate first inputs server) (limit : Time) (fuel : Nat)
    : Run gate first inputs (server.runFor host limit fuel) := by
  induction fuel generalizing server with
  | zero => exact run
  | succ fuel ih =>
      rw [Manager.runFor]
      cases stepped : server.step? host limit with
      | none => exact run
      | some after => exact ih (run.turn stepped)

/-- A step of a session is part of a run, and ends in a settled state. -/
theorem Run.act (run : Run Settled first inputs server) (sound : first.Sound)
    (settled : Settled server) (input : Input)
    : Run Settled first (inputs ++ [input]) (server.act input) ∧ Settled (server.act input) := by
  have received := run.receive settled input
  have settles : Settled ((server.receive input).settle host) := by
    have arrived := received.sound sound
    obtain ⟨same, quiet⟩ :=
      Manager.settle_now host_bounded host_prompt arrived.coherent arrived.ahead
    exact (congrArg ((server.receive input).settle host).agenda.QuietAt same).mpr quiet
  cases input with
  | advance duration =>
      have here := run.sound sound
      obtain ⟨now, quiet⟩ :=
        Manager.advance_now host_bounded host_prompt here.coherent here.ahead duration
      refine ⟨(received.runFor _ _).pass ?_, (congrArg _ now).mpr quiet⟩
      exact Manager.quietAt_runUntil host_bounded host_prompt _ here.coherent
  | _ => exact ⟨received.runFor _ _, settles⟩

/-- A session is a run, by induction over its inputs. -/
theorem Run.session (run : Run Settled first inputs server) (sound : first.Sound)
    (settled : Settled server) (more : List Input)
    : Run Settled first (inputs ++ more) (server.session more)
      ∧ Settled (server.session more) := by
  induction more generalizing inputs server with
  | nil => exact ⟨(List.append_nil inputs).symm ▸ run, settled⟩
  | cons input rest ih =>
      obtain ⟨acted, calm⟩ := run.act sound settled input
      simpa [Server.session] using ih acted calm

/-- A session with a new server is a run, and ends in a settled state. -/
theorem run_session (disk : Disk) (delay : Time) (settings : Settings)
    (tool : Tool.Behaviour) (inputs : List Input)
    : Run Settled (Server.start disk delay settings tool) inputs
        ((Server.start disk delay settings tool).session inputs)
      ∧ Settled ((Server.start disk delay settings tool).session inputs) :=
  Run.start.session (Server.sound_start disk delay settings tool) rfl inputs

end EditorLint.Session
