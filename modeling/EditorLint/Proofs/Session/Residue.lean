import EditorLint.Proofs.Session.Bygone
import EditorLint.Proofs.Session.Pace
import EditorLint.Proofs.Session.SettingsInForce

/-! Closing leaves no residue. Once an editor has closed all its documents, nothing is going on in
the server and nothing is remembered, so that it goes on as a new one with the same settings does.
-/

namespace EditorLint.Session

open Debounce

/-- When settings arrive, every open document has an address with nothing in it to be decoded. -/
def Client.Plain (client : Client) : Input → Prop
  | .configured (.obj _) => ∀ document ∈ client.documents, Uri.decode document.uri = document.uri
  | _ => True

/-- The tools that are at work. -/
def Server.toolsAtWork (server : Server) : List Linting :=
  server.tasks.filterMap fun task =>
    match task.stage with
    | .running (.working _ _ linting) => some linting
    | _ => none

/-- What is seen of a server while it goes on, with times that count from now. -/
def Server.eventsIn (server : Server) (inputs : List Input) : List (Stamped Event) :=
  ((server.session inputs).world.history.drop server.world.history.length).map fun entry =>
    { entry with time := entry.time - server.now }

/-- A new server that has been initialized and has got settings, before any document. -/
def Server.fresh (disk : Disk) (delay : Time) (settings : Settings)
    (tool : Tool.Behaviour) (rootUri : Option String) (entries : Table Json) : Server :=
  (Server.start disk delay settings tool).session
    [.initialized rootUri none, .configured (.obj entries)]

-----------------------------------------------------------------------------------------
-- Servers in which nothing is left
-----------------------------------------------------------------------------------------

/-- Nothing is going on, no document is open and no messages are remembered. -/
structure Server.Vacant (server : Server) : Prop where
  ended : ∀ task ∈ server.tasks, task.stage = .ended ∧ task.waiter = none
  ready : server.agenda.ready = []
  timers : server.agenda.timers = []
  free : server.held = false
  queue : server.queue = []
  known : ∀ uri id, server.table.get? uri = some id → id < server.tasks.length
  published : server.world.published = []
  entries
    : ∀ workspace, server.world.workspace = some workspace → workspace.entries = []

/-- A server without what lies behind it. -/
def Server.bare (server : Server) : Server :=
  { world := { server.world with documents := [], history := [] } }

/-- What lies behind a server. -/
def Server.bygone (server : Server) : Bygone :=
  ⟨server.now, server.world.documents, server.world.history⟩

variable {server other : Server} {inputs more : List Input}

/-- A vacant server goes on as the one without what lies behind it. -/
theorem Server.Vacant.follows (vacant : server.Vacant)
    : Manager.Follows (server.bygone.past server.tasks vacant.ended) server.bare server where
  world := by
    have workspace
        : server.world.workspace.map server.bygone.workspace = server.world.workspace := by
      cases given : server.world.workspace with
      | none => rfl
      | some workspace =>
          obtain ⟨root, entries⟩ := workspace
          obtain rfl : entries = [] := vacant.entries _ given
          rfl
    change server.world = { server.world with
      workspace := server.world.workspace.map server.bygone.workspace
      documents := server.world.documents ++ []
      history := server.world.history ++ [] }
    rw [workspace, List.append_nil, List.append_nil]
  agenda := by
    cases same : server.agenda with
    | mk now ready timers =>
        obtain rfl : ready = [] := (congrArg Agenda.ready same).symm.trans vacant.ready
        obtain rfl : timers = [] := (congrArg Agenda.timers same).symm.trans vacant.timers
        have clock : (server.bygone.past server.tasks vacant.ended).clock = now :=
          congrArg Agenda.now same
        simp [Agenda.postponed, Server.bare, clock]
  tasks := (List.append_nil _).symm
  table uri := vacant.known uri
  held := vacant.free
  queue := vacant.queue

/-- What is seen of a vacant server is seen of the one without what lies behind it. -/
theorem Server.Vacant.eventsIn_eq (vacant : server.Vacant) (inputs : List Input)
    : server.eventsIn inputs = (server.bare.session inputs).world.history := by
  have follows := Server.follows_session vacant.follows inputs
  have history
      : (server.session inputs).world.history
        = server.world.history
          ++ (server.bare.session inputs).world.history.map server.bygone.entry := by
    rw [follows.world]
    rfl
  have back (entry : Stamped Event)
      : ({ server.bygone.entry entry with
          time := (server.bygone.entry entry).time - server.now } : Stamped Event)
        = entry := by
    simp [Bygone.entry, Server.bygone]
  rw [eventsIn, history, List.drop_left, List.map_map]
  exact (List.map_congr_left fun entry _ => back entry).trans (List.map_id _)

/-- Two vacant servers that differ only in what lies behind them go on alike. -/
theorem Server.Vacant.alike (vacant : server.Vacant) (also : other.Vacant)
    (same : server.bare = other.bare) (inputs : List Input)
    : server.eventsIn inputs = other.eventsIn inputs := by
  rw [vacant.eventsIn_eq, also.eventsIn_eq, same]

-----------------------------------------------------------------------------------------
-- Sessions after which every document is closed
-----------------------------------------------------------------------------------------

theorem Client.Always.plainAt (plain : Client.Always Client.Plain inputs) (uri : String)
    : Client.Always (Client.PlainAt uri) inputs := by
  intro before input later split
  have here := plain before input later split
  cases input with
  | configured payload =>
      cases payload with
      | obj entries => exact fun document member _ => here document member
      | _ => trivial
  | _ => trivial

variable {disk : Disk} {delay : Time} {settings : Settings} {tool : Tool.Behaviour}
  {rootUri : Option String} {options : Option Json}

/-- Where no one has a turn, all that an editor has sent has been attended to. -/
theorem Run.dutiful
    (run
      : Run Settled (Server.initialized disk delay settings tool rootUri options) inputs
          server)
    (settled : Settled server) (orderly : Client.Always Client.Orderly inputs)
    (plain : Client.Always Client.Plain inputs) (uri : String)
    : ∃ launched, Manager.Dutiful (duty launched uri (Client.after inputs)) [] server := by
  cases run.attends orderly (plain.plainAt uri) with
  | called message alone => cases alone.symm.trans settled.ready
  | going _ dutiful => exact ⟨_, dutiful⟩

/-- Once an editor has closed all its documents and no one has a turn, the server is vacant: a task
that has not ended would be for an open document, and so would messages that are remembered.
-/
theorem Run.vacant
    (run
      : Run Settled (Server.initialized disk delay settings tool rootUri options) inputs
          server)
    (settled : Settled server) (orderly : Client.Always Client.Orderly inputs)
    (plain : Client.Always Client.Plain inputs) (closed : (Client.after inputs).documents = [])
    : server.Vacant := by
  have coherent := (run.sound (Server.sound_initialized ..)).coherent
  have ready : server.agenda.ready = [] := settled.ready
  obtain ⟨free, queue, unawaited⟩ := coherent.quiet ready
  have nobody (document : Document) : document ∉ (Client.after inputs).documents := by
    rw [closed]
    exact List.not_mem_nil
  have finished {id : Nat} {task : Task LintJob LintState Step}
      (found : server.tasks[id]? = some task)
      : task.stage = .ended := by
    by_contra unfinished
    obtain ⟨_, dutiful⟩ := run.dutiful settled orderly plain task.uri
    have serves := (dutiful.calm coherent ready).1 id task found unfinished
    obtain ⟨document, member, _⟩ := serves.fits.2 rfl
    exact nobody document member
  exact {
    ended := by
      intro task member
      obtain ⟨id, found⟩ := List.getElem?_of_mem member
      exact ⟨finished found, unawaited id task found⟩
    ready
    timers := by
      rw [List.eq_nil_iff_forall_not_mem]
      intro timer member
      obtain ⟨id, own⟩ := coherent.timed timer member
      have ahead : 0 < server.slots id := by
        refine List.countP_pos_iff.mpr ⟨timer.turn, ?_, by simp [own, Turn.isOf]⟩
        exact List.mem_append_right _ (List.mem_map_of_mem member)
      have going : server.hasEnded id = false := by
        by_contra ended
        have slots := coherent.slots id
        rw [if_pos (by simpa using ended)] at slots
        omega
      obtain ⟨task, found, unfinished⟩ := Manager.hasEnded_eq_false_iff.mp going
      exact unfinished (finished found)
    free
    queue
    known := by
      intro uri id entered
      obtain ⟨task, found, _⟩ := coherent.known entered
      exact (List.getElem?_eq_some_iff.mp found).1
    published := by
      have unknown (uri : String) : server.world.published.get? uri = none := by
        obtain ⟨_, dutiful⟩ := run.dutiful settled orderly plain uri
        rcases (dutiful.calm coherent ready).2 uri with ⟨id, task, found, _, serves⟩ | done
        · exact (serves.unfinished (finished found)).elim
        · refine ((done rfl).2 ?_).2.2
          intro filed
          obtain ⟨document, member, _⟩ := filed
          exact nobody document member
      cases same : server.world.published with
      | nil => rfl
      | cons entry rest =>
          have there := unknown entry.1
          simp [same, Table.get?_cons] at there
    entries := by
      intro workspace given
      obtain ⟨_, dutiful⟩ := run.dutiful settled orderly plain ""
      rw [List.eq_nil_iff_forall_not_mem]
      intro entry member
      obtain ⟨document, here, _⟩ :=
        dutiful.holds.1.filed workspace entry.1 given (List.mem_map_of_mem member)
      exact nobody document here
  }

/-- A session keeps to the terms with which it was begun. -/
theorem Run.sameTerms
    (run
      : Run Settled (Server.initialized disk delay settings tool rootUri options) inputs
          server)
    (orderly : Client.Always Client.Orderly inputs)
    : server.world.disk = disk
      ∧ server.world.delay = delay
      ∧ server.world.workspace.map (·.root) = some (rootUri.map Uri.toPath) := by
  have begun := Server.untouched_setUp 0 rootUri options
    (Server.start disk delay settings tool).world
  have keeps
      : host.Keeps (fun _ => True) fun world =>
          World.SameTerms
            (Server.initialized disk delay settings tool rootUri options).world world :=
    host_keeps_of_untouched fun same held =>
      held.trans ⟨same.disk, same.delay, same.base, congrArg _ same.workspace⟩
  have same : World.SameTerms
      (Server.initialized disk delay settings tool rootUri options).world server.world := by
    refine run.keeps keeps ?_ ⟨rfl, rfl, rfl, rfl⟩
    intro server input member held
    exact held.trans (server.sameTerms_receive (orderly.not_initialized member))
  exact ⟨same.disk.trans begun.disk, same.delay.trans begun.delay,
    same.root.trans (congrArg (Option.map Workspace.root) begun.workspace)⟩

/-- A session is one after the initialization. -/
theorem run_initialized (disk : Disk) (delay : Time) (settings : Settings)
    (tool : Tool.Behaviour) (rootUri : Option String) (options : Option Json) (inputs : List Input)
    : Run Settled (Server.initialized disk delay settings tool rootUri options) inputs
        ((Server.start disk delay settings tool).session
          (.initialized rootUri options :: inputs)) :=
  (Run.start.session
    (Server.sound_initialized disk delay settings tool rootUri options) rfl inputs).1

/-- What is left of a session in which all documents have been closed: the terms with which it was
begun, the tool and the settings in force.
-/
theorem bare_session (disk : Disk) (delay : Time) (settings : Settings)
    (tool : Tool.Behaviour) (rootUri : Option String) (options : Option Json)
    (orderly : Client.Always Client.Orderly inputs)
    (plain : Client.Always Client.Plain inputs) (closed : (Client.after inputs).documents = [])
    : let server := (Server.start disk delay settings tool).session
        (.initialized rootUri options :: inputs)
      server.Vacant
      ∧ server.bare
        = { world :=
            { disk, delay
              base := settings
              provider := (Provider.ofSettings (settings.ofPayloads
                ((Input.initialized rootUri options :: inputs).filterMap Input.payload?))).2
              workspace := some ⟨rootUri.map Uri.toPath, []⟩
              documents := []
              published := []
              tool := server.world.tool
              history := [] } } := by
  intro server
  have run : Run Settled (Server.initialized disk delay settings tool rootUri options) inputs
      server :=
    run_initialized disk delay settings tool rootUri options inputs
  obtain ⟨whole, settled⟩ := run_session disk delay settings tool
    (.initialized rootUri options :: inputs)
  have vacant := run.vacant settled orderly plain closed
  obtain ⟨taken, _, under, all⟩ := whole.takenInOrder
  obtain rfl := all settled
  have base : server.world.base = settings := under.1
  have provider : server.world.provider = _ := under.2
  obtain ⟨sameDisk, sameDelay, root⟩ := run.sameTerms orderly
  have workspace : server.world.workspace = some ⟨rootUri.map Uri.toPath, []⟩ := by
    obtain ⟨workspace, given, same⟩ := Option.map_eq_some_iff.mp root
    rw [given, ← same, ← vacant.entries workspace given]
  refine ⟨vacant, ?_⟩
  simp only [Server.bare, sameDisk, sameDelay, base, provider, workspace, vacant.published]

/-- Whatever payloads have come, one payload gives the same settings. -/
theorem exists_payload (settings : Settings) (payloads : List Json)
    : ∃ entries,
        (Settings.ofPayload settings (.obj entries)).1 = settings.ofPayloads payloads := by
  unfold Settings.ofPayloads
  cases (payloads.filterMap Json.entries?).getLast? with
  | some entries => exact ⟨entries, rfl⟩
  | none =>
      refine ⟨[], ?_⟩
      simp only [Settings.ofPayload, Settings.sectionOf, Settings.ofSection, Settings.takeFlag,
        Settings.takeText, Settings.takeTexts, Table.get?_nil, Option.bind_none, Option.getD_none]
      split <;> rfl

/-- A server that gets settings before any document is opened is vacant, and has no more than those
settings.
-/
theorem bare_fresh (disk : Disk) (delay : Time) (settings : Settings)
    (tool : Tool.Behaviour) (rootUri : Option String) (entries : Table Json)
    : let server := Server.fresh disk delay settings tool rootUri entries
      server.Vacant
      ∧ server.bare
        = { world :=
            { disk, delay
              base := settings
              provider := (Provider.ofSettings (Settings.ofPayload settings (.obj entries)).1).2
              workspace := some ⟨rootUri.map Uri.toPath, []⟩
              documents := []
              published := []
              tool
              history := [] } } := by
  intro server
  have orderly : Client.Always Client.Orderly [.configured (.obj entries)] :=
    Client.always_nil.concat trivial
  have plain : Client.Always Client.Plain [.configured (.obj entries)] :=
    Client.always_nil.concat fun _ => nofun
  obtain ⟨vacant, bare⟩ :=
    bare_session disk delay settings tool rootUri none orderly plain rfl
  have run := run_initialized disk delay settings tool rootUri none
    [.configured (.obj entries)]
  have same : ((Server.start disk delay settings tool).session
      [.initialized rootUri none, .configured (.obj entries)]).world.tool = tool :=
    (run.same_tool orderly (by simp)).2
  have last : settings.ofPayloads
      ([Input.initialized rootUri none, .configured (.obj entries)].filterMap Input.payload?)
        = (Settings.ofPayload settings (.obj entries)).1 :=
    settings.ofPayloads_concat_obj [] entries
  refine ⟨vacant, bare.trans ?_⟩
  rw [last, same]

/-- No tool is at work where every task has ended. -/
theorem Server.Vacant.toolsAtWork (vacant : server.Vacant) : server.toolsAtWork = [] := by
  refine List.filterMap_eq_nil_iff.mpr fun task member => ?_
  rw [(vacant.ended task member).1]

/-- Closing leaves no residue. Once the editor has closed all its documents, no task is pending or
running and no tool is at work; and what is seen of the server from then on is what is seen of a new
one with the same tool that has got one payload giving the settings in force, whichever payload that
is and however the session goes on.
-/
theorem no_residue (disk : Disk) (delay : Time) (settings : Settings)
    (tool : Tool.Behaviour) (rootUri : Option String) (options : Option Json) (inputs : List Input)
    (orderly : Client.Always Client.Orderly inputs) (plain : Client.Always Client.Plain inputs)
    (closed : (Client.after inputs).documents = [])
    : let server := (Server.start disk delay settings tool).session
        (.initialized rootUri options :: inputs)
      (∀ task ∈ server.tasks, task.stage = .ended)
      ∧ server.toolsAtWork = []
      ∧ (∃ entries,
          (Settings.ofPayload settings (.obj entries)).1 = server.world.provider.settings)
      ∧ ∀ entries more,
          (Settings.ofPayload settings (.obj entries)).1 = server.world.provider.settings
          → server.eventsIn more
            = (Server.fresh disk delay settings server.world.tool rootUri entries).eventsIn
                more := by
  intro server
  obtain ⟨vacant, bare⟩ :=
    bare_session disk delay settings tool rootUri options orderly plain closed
  have inForce
      : server.world.provider.settings
        = settings.ofPayloads
          ((Input.initialized rootUri options :: inputs).filterMap Input.payload?) :=
    congrArg (fun bare : Server => bare.world.provider.settings) bare
  refine ⟨fun task member => (vacant.ended task member).1, vacant.toolsAtWork, ?_, ?_⟩
  · rw [inForce]
    exact exists_payload settings _
  · intro entries more gives
    obtain ⟨also, fresh⟩ :=
      bare_fresh disk delay settings server.world.tool rootUri entries
    have same
        : server.bare
          = (Server.fresh disk delay settings server.world.tool rootUri entries).bare := by
      rw [fresh, gives, inForce]
      exact bare
    exact vacant.alike also same more

/-- An editor has its only document linted, gets it linted anew for new settings, and closes it
while that lint is delayed.
-/
def visited : List Input :=
  [.opened "a.py" (some "python") (some 1) "a", .advance 300000000,
    .configured (.obj [("enabled", .bool true)]), .advance 100000000, .closed "a.py"]

/-- When it does so again, it sees what it sees of a new server with settings that have an entry
more, which says nothing about linting.
-/
theorem no_residue_of_visited
    : let server := (Server.start {} 300000000 {} ({} : Tool.Script)).session
        (.initialized none none :: visited)
      server.toolsAtWork = []
      ∧ server.eventsIn visited
        = (Server.fresh {} 300000000 {} server.world.tool none
            [("enabled", .bool true), ("trace", .null)]).eventsIn visited
      ∧ server.eventsIn visited ≠ [] := by
  intro server
  have orderly : Client.Always Client.Orderly visited := by
    refine ((((Client.always_nil.concat ?_).concat trivial).concat trivial).concat trivial).concat
      ⟨_, List.mem_singleton_self _, rfl⟩
    intro document member
    cases member
  have decoded : Uri.decode "a.py" = "a.py" := by decide +kernel
  have plain : Client.Always Client.Plain visited :=
    ((((Client.always_nil.concat trivial).concat trivial).concat
      fun _ member => List.mem_singleton.mp member ▸ decoded).concat trivial).concat trivial
  obtain ⟨_, idle, _, goesOn⟩ :=
    no_residue {} 300000000 {} ({} : Tool.Script) none none visited orderly plain rfl
  exact ⟨idle, goesOn _ visited (by decide +kernel), by decide +kernel⟩

end EditorLint.Session
