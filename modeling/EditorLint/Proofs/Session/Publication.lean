import EditorLint.Proofs.Session.Upkeep.Run

/-! What the editor is sent by lints. With an orderly editor that waits until no one has a turn,
each publication is for a document that is open at that moment, and is what a lint of the
document as it is then finds with the settings in force.
-/

namespace EditorLint.Session

open Debounce

/-- What is published is what a lint of an open document, as it is, with the settings in force,
has found.
-/
def Justified (gate : Server → Prop) (first : Server) (inputs : List Input)
    (server : Server) (uri : String) (version : Option Int)
    (diagnostics : List Editor.Diagnostic) : Prop :=
  ∃ document ∈ (Client.after inputs).documents,
    document.uri = uri
    ∧ document.version = version
    ∧ ∃ (lint : LintRun) (messages : List Message),
        lint.Current server.world document
        ∧ lint.adapter = Provider.adapterOf server.world.provider.settings
        ∧ lint.Launched gate first inputs server
        ∧ lint.result = .ok messages
        ∧ Editor.Diagnostic.ofMessages messages = .ok diagnostics

/-- What is published in a turn: by a task, what is justified, and by a handler, that a document
has no diagnostics.
-/
def Sent (gate : Server → Prop) (first : Server) (inputs : List Input) (server : Server)
    (uri : String) (version : Option Int) (diagnostics : List Editor.Diagnostic) :
    Turn LintJob Notification Step → Prop
  | .task _ => Justified gate first inputs server uri version diagnostics
  | _ => version = none ∧ diagnostics = []

/-- A run has come through a turn in which something was published for an address, and rightly
so.
-/
inductive HasSent (first : Server) (inputs : List Input) (server : Server) (instant : Time)
    (uri : String) (version : Option Int) (diagnostics : List Editor.Diagnostic) : Prop
  | intro {earlier since : List Input} {past next : Server} {limit : Time}
    {turn : Turn LintJob Notification Step} {agenda : Agenda (Turn LintJob Notification Step)}
    (split : inputs = earlier ++ since) (come : Run Settled first earlier past)
    (took : past.agenda.next? limit = some (turn, agenda))
    (stepped : past.step? host limit = some next)
    (fresh
      : ⟨instant, .publish uri version diagnostics⟩
        ∈ next.world.history.drop past.world.history.length)
    (sent : Sent Settled first earlier past uri version diagnostics turn)
    (later : Run Settled next since server)

variable {gate : Server → Prop} {launched : LintRun → Prop} {watched : String} {client : Client}
  {first server after : Server} {inputs : List Input} {before later : World} {entry : Stamped Event}

-----------------------------------------------------------------------------------------
-- What is new in the history
-----------------------------------------------------------------------------------------

/-- Entries that come to the history publish nothing if the change is one that publishes
nothing.
-/
theorem World.Noted.isAside (noted : World.Noted before later)
    (new : entry ∈ later.history.drop before.history.length)
    : entry.event.isAside := by
  obtain ⟨entries, rfl, aside⟩ := noted
  rw [List.drop_left] at new
  exact aside entry new

/-- Handlers publish only that a document has no diagnostics. -/
theorem host_keeps_forgotten (past : List (Stamped Event))
    : host.Keeps (fun _ => False) fun world =>
        ∃ entries,
          world.history = past ++ entries
          ∧ ∀ entry ∈ entries,
              entry.event.isAside ∨ ∃ uri, entry.event = .publish uri none [] := by
  refine host_keeps ?_ (fun _ held => held) (fun impossible => impossible.elim)
    (fun impossible => impossible.elim) ?_
  · intro _ _ noted before
    obtain ⟨new, rfl, aside⟩ := noted
    obtain ⟨entries, grown, old⟩ := before
    refine ⟨entries ++ new, by simp [grown], fun entry member => ?_⟩
    rcases List.mem_append.mp member with here | here
    · exact old entry here
    · exact Or.inl (aside entry here)
  · intro world now uri before
    obtain ⟨entries, grown, old⟩ := before
    refine ⟨entries ++ [⟨now, .publish uri none []⟩], ?_, fun entry member => ?_⟩
    · simp only [World.publish, World.note, grown, List.append_assoc]
    · rcases List.mem_append.mp member with here | here
      · exact old entry here
      · exact Or.inr ⟨uri, by rw [List.mem_singleton.mp here]⟩

/-- What a turn that is not one of a task publishes. -/
theorem Server.sends_handler (server : Server) {turn : Turn LintJob Notification Step}
    (other : ∀ id, turn ≠ .task id)
    (new : entry ∈ (server.take host turn).world.history.drop server.world.history.length)
    : entry.event.isAside ∨ ∃ uri, entry.event = .publish uri none [] := by
  have keeps := host_keeps_forgotten server.world.history
  have nothing
      : ∃ entries,
          server.world.history = server.world.history ++ entries
          ∧ ∀ entry ∈ entries,
              entry.event.isAside ∨ ∃ uri, entry.event = .publish uri none [] :=
    ⟨[], (List.append_nil _).symm, by simp⟩
  obtain ⟨entries, grown, forgotten⟩ := keeps.take_other nothing other
  rw [grown, List.drop_left] at new
  exact forgotten entry new

/-- A task that publishes in its turn is a lint that comes to its end. It publishes the images of
what it has found, for the document of its job.
-/
theorem Server.delivers_of_publish {agenda : Agenda (Turn LintJob Notification Step)} {id : Nat}
    (new
      : entry ∈ (({ server with agenda } : Server).runTask host id).world.history.drop
          server.world.history.length)
    (shows : ¬ entry.event.isAside)
    : ∃ job subject messages diagnostics,
        server.Delivers id job subject messages
        ∧ Editor.Diagnostic.ofMessages messages = .ok diagnostics
        ∧ entry.event = .publish job.uri job.version diagnostics := by
  -- A change that publishes nothing is not the one that has published the entry.
  have silent {base after : World} (same : base.history = server.world.history)
      (noted : World.Noted base after)
      (new : entry ∈ after.history.drop server.world.history.length)
      : False :=
    shows (noted.isAside (same ▸ new))
  rcases Server.runTask_cases { server with agenda } id with
    noted | ⟨job, subject, messages, delivers, ⟨_, _, noted⟩ | ⟨diagnostics, ready, noted⟩⟩
  · exact (silent rfl noted new).elim
  · have same : (job.remember server.world messages).history = server.world.history := rfl
    exact (silent same noted new).elim
  · obtain ⟨entries, same, aside⟩ := noted
    simp only [same, World.publish, World.note, LintJob.remember, List.append_assoc,
      List.drop_left] at new
    rcases List.mem_cons.mp new with rfl | behind
    · exact ⟨job, subject, messages, diagnostics, ⟨delivers.running, delivers.fresh⟩, ready, rfl⟩
    · exact (shows (aside entry behind)).elim

/-- A lint that publishes for the watched document in its turn is of that document as it is. -/
theorem Server.publish_runTask {agenda : Agenda (Turn LintJob Notification Step)} {limit : Time}
    {id : Nat} (dutiful : Manager.Dutiful (duty launched watched client) [] server)
    (sound : server.Sound)
    (next : server.agenda.next? limit = some (.task id, agenda))
    (new
      : entry ∈ (({ server with agenda } : Server).runTask host id).world.history.drop
          server.world.history.length)
    {version : Option Int} {diagnostics : List Editor.Diagnostic}
    (publishes : entry.event = .publish watched version diagnostics)
    : ∃ document ∈ client.documents, ∃ (lint : LintRun) (messages : List Message),
        document.uri = watched
        ∧ document.version = version
        ∧ lint.Current server.world document
        ∧ launched lint
        ∧ lint.result = .ok messages
        ∧ Editor.Diagnostic.ofMessages messages = .ok diagnostics := by
  obtain ⟨job, subject, messages, images, delivers, ready, shown⟩ :=
    delivers_of_publish new (by simp [publishes, Event.isAside])
  obtain ⟨task, found, stage, calm⟩ := delivers.running
  obtain ⟨same, placed, unfinished⟩ := (sound.coherent.next next).inHand
  obtain rfl := Option.some.inj (found.symm.trans placed)
  have unawaited : task.waiter = none := by
    rw [← Option.not_isSome_iff_eq_none]
    intro awaited
    rcases sound.coherent.falling_of_awaited found awaited with told | ⟨other, runs, leaving⟩
    · cases calm.symm.trans told
    · obtain rfl := Stage.running.inj (stage.symm.trans runs)
      exact leaving
  have fits := (dutiful.serves_next sound.coherent next found unfinished unawaited).fits
  rw [stage] at fits
  cases shown.symm.trans publishes
  obtain ⟨document, member, own, lint, current, rfl, _, known, outcome⟩ :=
    fits.2 (fits.1 job rfl).symm
  have same : lint.job.version = document.version := congrArg LintJob.version current.job
  exact ⟨document, member, lint, messages, own.trans (fits.1 _ rfl).symm, same.symm, current,
    known, outcome.symm, ready⟩

-----------------------------------------------------------------------------------------
-- What has ever been published
-----------------------------------------------------------------------------------------

section

variable {disk : Disk} {delay : Time} {settings : Settings} {tool : Tool.Behaviour}
  {rootUri : Option String} {options : Option Json} {uri : String} {version : Option Int}
  {diagnostics : List Editor.Diagnostic}

/-- The initialization of a server publishes nothing. -/
theorem Server.isAside_initialized
    (member
      : entry
        ∈ (Server.initialized disk delay settings tool rootUri options).world.history)
    : entry.event.isAside := by
  obtain ⟨_, entries, grown, aside⟩ :=
    continues_setUp 0 rootUri options (start disk delay settings tool).world
  change entry ∈ (setUp 0 rootUri options (start disk delay settings tool).world).history
    at member
  rw [grown] at member
  rcases List.mem_append.mp member with first | new
  · obtain rfl := List.mem_singleton.mp first
    rfl
  · exact aside entry new

/-- The adapter in force is the one of the settings in force. -/
theorem Run.adapter
    (run
      : Run gate (Server.initialized disk delay settings tool rootUri options) inputs server)
    (orderly : Client.Always Client.Orderly inputs)
    : server.world.provider.adapter = Provider.adapterOf server.world.provider.settings := by
  apply run.keeps host_keeps_adapter
  · intro server input member before
    rw [(server.alike_receive (orderly.not_initialized member)).provider]
    exact before
  · cases options with
    | none => rfl
    | some payload => cases payload <;> rfl

/-- What is published in the next turn. -/
theorem sent_step?
    (run
      : Run Settled (Server.initialized disk delay settings tool rootUri options) inputs
          server)
    (orderly : Client.Always Client.Orderly inputs)
    (plain : Client.Always (Client.PlainAt uri) inputs)
    {limit : Time} {turn : Turn LintJob Notification Step}
    {agenda : Agenda (Turn LintJob Notification Step)}
    (next : server.agenda.next? limit = some (turn, agenda)) {instant : Time}
    (new
      : ⟨instant, .publish uri version diagnostics⟩
        ∈ (({ server with agenda } : Server).take host turn).world.history.drop
            server.world.history.length)
    : Sent Settled (Server.initialized disk delay settings tool rootUri options) inputs
        server uri version diagnostics turn := by
  have handler (other : ∀ id, turn ≠ .task id) : version = none ∧ diagnostics = [] := by
    rcases Server.sends_handler { server with agenda } other new with aside | ⟨_, same⟩
    · cases aside
    · cases same
      exact ⟨rfl, rfl⟩
  cases turn with
  | handler | locked | cleared => exact handler fun _ => nofun
  | task id =>
      have sound : server.Sound :=
        run.sound (Server.sound_initialized disk delay settings tool rootUri options)
      cases run.attends orderly plain with
      | called message alone =>
          simp [Agenda.next?, alone] at next
      | going _ dutiful =>
          obtain ⟨document, member, lint, messages, own, same, current, launched, found, ready⟩ :=
            Server.publish_runTask dutiful sound next new rfl
          exact ⟨document, member, own, same, lint, messages, current,
            current.adapter.trans (run.adapter orderly), launched, found, ready⟩

theorem HasSent.goesOn {more : List Input} {instant : Time}
    (before : HasSent first inputs server instant uri version diagnostics)
    (run : Run Settled server more after)
    : HasSent first (inputs ++ more) after instant uri version diagnostics := by
  obtain ⟨rfl, come, took, stepped, fresh, sent, later⟩ := before
  exact ⟨List.append_assoc _ _ more, come, took, stepped, fresh, sent, later.trans run⟩

/-- Whatever an orderly editor has been sent for an address in the course of a run, it has been
sent in a turn of that run. If that was the turn of a lint, it was for a document that was open
then, in its version then, and was what a lint of the document, with the text and the settings
of that moment, has found. So it goes by induction over the run, as long as nothing is to be
decoded in the address when settings arrive.
-/
theorem published_of_open_document
    (run
      : Run Settled (Server.initialized disk delay settings tool rootUri options) inputs
          server)
    (orderly : Client.Always Client.Orderly inputs)
    (plain : Client.Always (Client.PlainAt uri) inputs)
    {instant : Time}
    (published : ⟨instant, .publish uri version diagnostics⟩ ∈ server.world.history)
    : HasSent (Server.initialized disk delay settings tool rootUri options) inputs server
        instant uri version diagnostics := by
  induction run with
  | start => cases Server.isAside_initialized published
  | @receive inputs server before settled input ih =>
      obtain ⟨_, _, taken, ⟨_, entries, grown, aside⟩, _⟩ := server.takes_receive input
      rw [taken] at published
      dsimp only at published
      rw [grown] at published
      rcases List.mem_append.mp published with old | new
      · have sent := ih orderly.of_concat.1 plain.of_concat.1 old
        exact sent.goesOn (Run.start.receive settled input)
      · cases aside _ new
  | @turn inputs server after before limit stepped ih =>
      have went : Run Settled server [] after := Run.start.turn stepped
      obtain ⟨entries, grown⟩ := went.history_grows
      rw [← grown] at published
      rcases List.mem_append.mp published with old | new
      · have sent := (ih orderly plain old).goesOn (Run.start.turn stepped)
        rwa [List.append_nil] at sent
      · have fresh
            : ⟨instant, .publish uri version diagnostics⟩
              ∈ after.world.history.drop server.world.history.length := by
          rw [← grown, List.drop_left]
          exact new
        have ⟨⟨turn, agenda⟩, took, same⟩ := Option.map_eq_some_iff.mp stepped
        subst same
        exact ⟨(List.append_nil inputs).symm, before, took, stepped, fresh,
          sent_step? before orderly plain took fresh, .start⟩
  | pass before quiet ih =>
      have sent := (ih orderly plain published).goesOn (Run.start.pass quiet)
      rwa [List.append_nil] at sent

/-- The publication of a document in which nothing is found. -/
theorem published_of_clean_document
    : let first := Server.initialized {} 300000000 {} ({} : Tool.Script) none none
      let inputs : List Input := [.opened "a.py" (some "python") (some 1) "a", .advance 300000000]
      HasSent first inputs (first.session inputs) 300000000 "a.py" (some 1) [] := by
  intro first inputs
  have run : Run Settled first inputs (first.session inputs) :=
    (Run.start.session (Server.sound_initialized ..) rfl inputs).1
  have orderly : Client.Always Client.Orderly inputs :=
    (Client.always_nil.concat (fun _ => nofun)).concat trivial
  have plain : Client.Always (Client.PlainAt "a.py") inputs :=
    (Client.always_nil.concat trivial).concat trivial
  exact published_of_open_document run orderly plain (by decide +kernel)

end

end EditorLint.Session
