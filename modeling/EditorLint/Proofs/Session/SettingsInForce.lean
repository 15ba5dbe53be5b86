import EditorLint.Proofs.Session.Client
import EditorLint.Proofs.Session.Undertaking

/-! Which settings are in force. The options of an initialization are taken up as they arrive, other
payloads when their handlers come to their turn, in the order in which they have arrived. In force
are the settings of the last payload that was taken up and was an object, written over the settings
at the start, whatever came before it. The adapter is always the one that is built from them.
-/

namespace EditorLint

/-- The settings that the last object among payloads writes over the defaults; without any object,
the defaults.
-/
def Settings.ofPayloads (defaults : Settings) (payloads : List Json) : Settings :=
  match (payloads.filterMap Json.entries?).getLast? with
  | none => defaults
  | some entries => (Settings.ofPayload defaults (.obj entries)).1

/-- An object takes the place of all payloads before it. -/
theorem Settings.ofPayloads_concat_obj (defaults : Settings) (payloads : List Json)
    (entries : Table Json)
    : defaults.ofPayloads (payloads ++ [.obj entries])
      = (Settings.ofPayload defaults (.obj entries)).1 := by
  simp [ofPayloads, Json.entries?]

/-- A payload that is no object counts for nothing. -/
theorem Settings.ofPayloads_concat_other (defaults : Settings) (payloads : List Json)
    {payload : Json} (other : ∀ entries, payload ≠ .obj entries)
    : defaults.ofPayloads (payloads ++ [payload]) = defaults.ofPayloads payloads := by
  cases payload with
  | obj entries => exact (other entries rfl).elim
  | _ => simp [ofPayloads, Json.entries?]

namespace Session

open Debounce

/-- The payload with settings that an input brings along, if it does. -/
def Input.payload? : Input → Option Json
  | .initialized _ options => options
  | .configured payload => some payload
  | _ => none

/-- The payload that an input brings along for the server to take up at once. -/
def Input.options? : Input → Option Json
  | .initialized _ options => options
  | _ => none

/-- The payload that an input brings along for a handler to take up. -/
def Input.configuration? : Input → Option Json
  | .configured payload => some payload
  | _ => none

/-- The payload that the handler of a notification takes, if it takes one. -/
def Notification.payload? : Notification → Option Json
  | .configured payload => some payload
  | _ => none

/-- The settings of some payloads are in force, over base settings. -/
def World.UnderPayloads (world : World) (base : Settings) (payloads : List Json) : Prop :=
  world.base = base ∧ world.provider = (Provider.ofSettings (base.ofPayloads payloads)).2

/-- How the payloads that arrive are taken up, and which wait for that: options are taken up at
once, and configurations one after the other, each when its handler starts.
-/
inductive TakenUp : List Input → List Json → List Json → Prop
  | start : TakenUp [] [] []
  | arrives {inputs taken waiting} (before : TakenUp inputs taken waiting) (input : Input)
    : TakenUp (inputs ++ [input]) (taken ++ input.options?.toList)
        (waiting ++ input.configuration?.toList)
  | begins {inputs taken payload waiting} (before : TakenUp inputs taken (payload :: waiting))
    : TakenUp inputs (taken ++ [payload]) waiting

/-- No configuration arrives before the options of an initialization. -/
def OptionsFirst (inputs : List Input) : Prop :=
  ∀ early root payload late,
    inputs = early ++ .initialized root (some payload) :: late
    → ∀ input ∈ early, input.configuration? = none

/-- The payloads whose handlers are yet to start. -/
def Server.waiting (server : Server) : List Json :=
  server.handlers.filterMap Notification.payload?

variable {gate : Server → Prop} {base : Settings} {payloads taken waiting : List Json}
  {inputs : List Input} {server after : Server} {world later : World}

-----------------------------------------------------------------------------------------
-- The order of payloads
-----------------------------------------------------------------------------------------

/-- An input brings its payload along in one way or the other. -/
theorem payloads_concat (inputs : List Input) (input : Input)
    : (inputs ++ [input]).filterMap Input.payload?
      = inputs.filterMap Input.payload?
        ++ (input.options?.toList ++ input.configuration?.toList) := by
  rw [List.filterMap_append]
  cases input with
  | initialized root options => cases options <;> rfl
  | _ => rfl

/-- Nothing waits to be taken up where no configuration has arrived. -/
theorem TakenUp.waiting_eq_nil (takenUp : TakenUp inputs taken waiting)
    (none : ∀ input ∈ inputs, input.configuration? = none)
    : waiting = [] := by
  induction takenUp with
  | start => rfl
  | @arrives inputs taken waiting before input ih =>
      have own := none input (by simp)
      have nothing := ih fun input member => none input (by simp [member])
      simp [own, nothing]
  | begins before ih => cases ih none

/-- Payloads are taken up in the order of their arrival if options come first. -/
theorem TakenUp.inOrder (takenUp : TakenUp inputs taken waiting) (first : OptionsFirst inputs)
    : taken ++ waiting = inputs.filterMap Input.payload? := by
  induction takenUp with
  | start => rfl
  | @arrives inputs taken waiting before input ih =>
      have earlier : OptionsFirst inputs := fun early root payload late split =>
        first early root payload (late ++ [input]) (by simp [split])
      rw [payloads_concat, ← ih earlier]
      cases known : input.options? with
      | none => simp
      | some payload =>
          have nothing : waiting = [] := by
            refine before.waiting_eq_nil ?_
            cases input with
            | initialized root options => exact first inputs root payload [] (by cases known; rfl)
            | _ => cases known
          simp [nothing]
  | begins before ih => simpa using ih first

-----------------------------------------------------------------------------------------
-- What arrives
-----------------------------------------------------------------------------------------

/-- What leaves the provider and the base settings alone leaves the settings in force. -/
theorem World.UnderPayloads.congr (under : world.UnderPayloads base payloads)
    (sameBase : later.base = world.base) (same : later.provider = world.provider)
    : later.UnderPayloads base payloads :=
  ⟨sameBase.trans under.1, same.trans under.2⟩

/-- A payload that is applied is in force after those before it. -/
theorem World.UnderPayloads.applySettings (under : world.UnderPayloads base payloads) (now : Time)
    (payload : Json)
    : (world.applySettings now payload).1.UnderPayloads base (payloads ++ [payload]) := by
  by_cases isObject : ∃ entries, payload = .obj entries
  · obtain ⟨entries, rfl⟩ := isObject
    obtain ⟨noted, -⟩ := world.applySettings_obj now entries
    rw [UnderPayloads, base.ofPayloads_concat_obj, noted.untouched.base, noted.provider]
    exact ⟨under.1, by rw [under.1]⟩
  · have other : ∀ entries, payload ≠ .obj entries := fun entries same => isObject ⟨entries, same⟩
    obtain ⟨noted, -⟩ := world.applySettings_other now other
    rw [UnderPayloads, base.ofPayloads_concat_other payloads other]
    exact under.congr noted.untouched.base noted.provider

/-- The options of an initialization are in force at once. -/
theorem World.UnderPayloads.setUp (under : world.UnderPayloads base payloads) (now : Time)
    (rootUri : Option String) (options : Option Json)
    : (Server.setUp now rootUri options world).UnderPayloads base (payloads ++ options.toList) := by
  have anew
      : ({ world with workspace := some (Workspace.fresh rootUri) } : World).UnderPayloads base
          payloads :=
    under.congr rfl rfl
  cases options with
  | none => exact (List.append_nil payloads).symm ▸ anew.congr rfl rfl
  | some payload => exact (anew.applySettings now payload).congr rfl rfl

/-- What a session is begun with is the same. -/
structure World.SameTerms (before after : World) : Prop where
  disk : after.disk = before.disk
  delay : after.delay = before.delay
  base : after.base = before.base
  root : after.workspace.map (·.root) = before.workspace.map (·.root)

theorem World.SameTerms.trans {before middle after : World} (first : World.SameTerms before middle)
    (second : World.SameTerms middle after)
    : World.SameTerms before after where
  disk := second.disk.trans first.disk
  delay := second.delay.trans first.delay
  base := second.base.trans first.base
  root := second.root.trans first.root

/-- A change of the workspace that keeps to the terms, if it can be made. -/
theorem Server.sameTerms_withWorkspace (server : Server) (notification : Notification)
    {f : Workspace → World → Except Failure World}
    (same
      : ∀ workspace world,
          server.world.workspace = some workspace
          → f workspace server.world = .ok world
          → World.SameTerms server.world world)
    : World.SameTerms server.world (server.withWorkspace notification f).world := by
  rcases server.withWorkspace_cases notification f with
    ⟨failure, refused⟩ | ⟨workspace, world, given, changed, made⟩
  · rw [refused]
    exact ⟨rfl, rfl, rfl, rfl⟩
  · rw [made]
    exact same workspace world given changed

/-- What arrives after the initialization leaves the terms alone. -/
theorem Server.sameTerms_receive (server : Server) {input : Input}
    (later : ∀ root options, input ≠ .initialized root options)
    : World.SameTerms server.world (server.receive input).world := by
  cases input with
  | initialized root options => exact (later root options rfl).elim
  | opened uri language version text =>
      refine server.sameTerms_withWorkspace (.opened uri) fun workspace world given same => ?_
      rw [← Except.ok.inj same]
      exact ⟨rfl, rfl, rfl, by rw [given]; rfl⟩
  | changed uri version texts =>
      cases texts with
      | nil => exact ⟨rfl, rfl, rfl, rfl⟩
      | cons text more =>
          refine server.sameTerms_withWorkspace (.changed uri) fun workspace world _ changed => ?_
          unfold Server.changeDocument at changed
          split at changed
          · cases changed
          · rw [← Except.ok.inj changed]
            exact ⟨rfl, rfl, rfl, rfl⟩
  | closed uri =>
      refine server.sameTerms_withWorkspace (.closed uri) fun workspace world given same => ?_
      rw [← Except.ok.inj same]
      exact ⟨rfl, rfl, rfl, by rw [given]; rfl⟩
  | codeAction uri only diagnostics =>
      have same := (noted_answer server.now uri only diagnostics server.world).untouched
      exact ⟨same.disk, same.delay, same.base, congrArg _ same.workspace⟩
  | saved | configured | tool | advance => exact ⟨rfl, rfl, rfl, rfl⟩

/-- A configuration that arrives waits behind those that wait already, and nothing else does. -/
theorem Server.waiting_receive (server : Server) (input : Input)
    : (server.receive input).waiting = server.waiting ++ input.configuration?.toList := by
  unfold waiting
  by_cases configures : ∃ payload, input = .configured payload
  · obtain ⟨payload, rfl⟩ := configures
    have delivered
        : (server.receive (.configured payload)).handlers
          = server.handlers ++ [.configured payload] :=
      server.handlers_deliver _
    rw [delivered, List.filterMap_append]
    rfl
  · have none : input.configuration? = none := by
      cases input with
      | configured payload => exact (configures ⟨payload, rfl⟩).elim
      | _ => rfl
    rw [none, Option.toList_none, List.append_nil]
    rcases server.handlers_receive input with same | ⟨notification, own, more⟩
    · rw [same]
    · have other : notification.payload? = Option.none := by
        cases input with
        | configured payload => exact (configures ⟨payload, rfl⟩).elim
        | initialized | codeAction | tool | advance => cases own
        | opened | changed | saved | closed =>
            cases own
            rfl
      simp [more, other]

/-- Options that arrive are in force at once. -/
theorem World.UnderPayloads.receive (under : server.world.UnderPayloads base taken) (input : Input)
    : (server.receive input).world.UnderPayloads base (taken ++ input.options?.toList) := by
  by_cases begins : ∃ root options, input = .initialized root options
  · obtain ⟨root, options, rfl⟩ := begins
    exact under.setUp server.now root options
  · have later : ∀ root options, input ≠ .initialized root options :=
      fun root options same => begins ⟨root, options, same⟩
    have none : input.options? = none := by
      cases input with
      | initialized root options => exact (later root options rfl).elim
      | _ => rfl
    rw [none, Option.toList_none, List.append_nil]
    exact under.congr (server.sameTerms_receive later).base (server.alike_receive later).provider

-----------------------------------------------------------------------------------------
-- Turns
-----------------------------------------------------------------------------------------

/-- Steps of handlers leave the settings in force. -/
theorem host_stepsKeep_underPayloads (base : Settings) (payloads : List Json)
    : host.StepsKeep fun world => world.UnderPayloads base payloads :=
  host_stepsKeep
    (fun noted under => under.congr noted.untouched.base noted.provider)
    (fun _ _ under => under.congr rfl rfl)

/-- A handler puts its payload in force when it starts. -/
theorem World.UnderPayloads.begin (under : world.UnderPayloads base payloads) (now : Time)
    (notification : Notification)
    : (notification.begin now world).1.UnderPayloads base
        (payloads ++ notification.payload?.toList) := by
  cases notification with
  | configured payload =>
      have applied := under.applySettings now payload
      simp only [Notification.begin]
      split
      next same => exact applied.congr (by rw [same]) (by rw [same])
      next same =>
        rw [same] at applied
        split
        · exact applied.congr rfl rfl
        · exact applied
  | opened | changed | saved | closed =>
      exact (List.append_nil payloads).symm ▸ under.congr rfl rfl

/-- Turns that are not of handlers leave the settings in force. -/
theorem World.UnderPayloads.take (server : Server)
    (under : server.world.UnderPayloads base payloads) {turn : Turn LintJob Notification Step}
    (other : ∀ notification, turn ≠ .handler notification)
    : (server.take host turn).world.UnderPayloads base payloads := by
  have steps := host_stepsKeep_underPayloads base payloads
  have jobs
      : host.JobsKeep (fun _ => True) fun world => world.UnderPayloads base payloads :=
    host_jobsKeep
      (fun noted under => under.congr noted.untouched.base noted.provider)
      (fun _ _ under => under.congr rfl rfl)
      (fun _ _ under => under.congr rfl rfl)
  cases turn with
  | task id => exact jobs.runTask under fun _ _ => trivial
  | handler notification => exact (other notification rfl).elim
  | locked pending => exact steps.grant under pending
  | cleared pending => exact steps.proceed (steps.complete under _ _) _

/-- In a turn, a payload whose handler starts is taken up, and it is the first that waits. -/
theorem TakenUp.step? (takenUp : TakenUp inputs taken server.waiting)
    (under : server.world.UnderPayloads base taken) (sound : server.Sound) {limit : Time}
    (stepped : server.step? host limit = some after)
    : ∃ more,
        TakenUp inputs (taken ++ more) after.waiting
        ∧ after.world.UnderPayloads base (taken ++ more)
        ∧ more ++ after.waiting = server.waiting := by
  obtain ⟨⟨turn, agenda⟩, next, rfl⟩ := Option.map_eq_some_iff.mp stepped
  have started := sound.coherent.toConsistent.handlers_next next
  have kept := Manager.handlers_take host ({ server with agenda } : Server) turn
  have waits
      : server.waiting
        = (turn.message?.bind Notification.payload?).toList
          ++ Server.waiting (({ server with agenda } : Server).take host turn) := by
    unfold Server.waiting
    rw [kept, started, List.filterMap_append]
    cases turn with
    | handler notification => cases notification <;> rfl
    | task | locked | cleared => rfl
  refine ⟨_, ?_, ?_, waits.symm⟩
  · rw [waits] at takenUp
    cases known : turn.message?.bind Notification.payload? with
    | none => simpa [known] using takenUp
    | some payload => simpa [known] using TakenUp.begins (by simpa [known] using takenUp)
  · cases turn with
    | handler notification =>
        exact (host_stepsKeep_underPayloads base _).proceed (under.begin agenda.now notification) _
    | task | locked | cleared =>
        simpa [Turn.message?] using World.UnderPayloads.take { server with agenda } under (by simp)

/-- In every state of a run, the settings of the payloads that have been taken up are in force, by
induction over the run. Where things arrive only when no handler is yet to start, all payloads count
in the order of their arrival.
-/
theorem Run.takenUp {disk : Disk} {delay : Time} {tool : Tool.Behaviour}
    (run : Run gate (Server.start disk delay base tool) inputs server)
    : ∃ taken,
        TakenUp inputs taken server.waiting
        ∧ server.world.UnderPayloads base taken
        ∧ ((∀ server : Server, gate server → server.handlers = [])
          → taken ++ server.waiting = inputs.filterMap Input.payload?) := by
  have sound := Server.sound_start disk delay base tool
  induction run with
  | start => exact ⟨[], .start, ⟨rfl, rfl⟩, fun _ => rfl⟩
  | @receive inputs server before admits input ih =>
      obtain ⟨taken, takenUp, under, ordered⟩ := ih
      refine ⟨_, ?_, under.receive input, fun nobody => ?_⟩
      · rw [server.waiting_receive]
        exact takenUp.arrives input
      · have nothing : server.waiting = [] := by simp [Server.waiting, nobody server admits]
        rw [payloads_concat, ← ordered nobody, server.waiting_receive, nothing]
        simp
  | turn before stepped ih =>
      obtain ⟨taken, takenUp, under, ordered⟩ := ih
      obtain ⟨more, takenUp, under, waits⟩ := takenUp.step? under (before.sound sound) stepped
      refine ⟨_, takenUp, under, fun nobody => ?_⟩
      rw [List.append_assoc, waits]
      exact ordered nobody
  | pass before quiet ih => exact ih

/-- Where no one has a turn, no handler is yet to start. -/
theorem Server.handlers_of_settled (settled : Settled server) : server.handlers = [] := by
  simp [Manager.handlers, settled.ready]

/-- Where things arrive only when no one has a turn, all payloads are in force as they have come,
but for one whose handler is yet to start.
-/
theorem Run.takenInOrder {disk : Disk} {delay : Time} {tool : Tool.Behaviour}
    (run : Run Settled (Server.start disk delay base tool) inputs server)
    : ∃ taken,
        taken ++ server.waiting = inputs.filterMap Input.payload?
        ∧ server.world.UnderPayloads base taken
        ∧ (Settled server → taken = inputs.filterMap Input.payload?) := by
  obtain ⟨taken, _, under, ordered⟩ := run.takenUp
  have whole := ordered fun _ settled => Server.handlers_of_settled settled
  refine ⟨taken, whole, under, fun settled => ?_⟩
  simpa [Server.waiting, Server.handlers_of_settled settled] using whole

/-- The adapter in force is the one of the settings in force. -/
theorem Run.built {disk : Disk} {delay : Time} {tool : Tool.Behaviour}
    (run : Run gate (Server.start disk delay base tool) inputs server)
    : server.world.provider.adapter = Provider.adapterOf server.world.provider.settings := by
  obtain ⟨_, _, under, _⟩ := run.takenUp
  rw [under.2]
  rfl

-----------------------------------------------------------------------------------------
-- Payloads without settings
-----------------------------------------------------------------------------------------

/-- Where no one has a turn, none is taken. -/
theorem Server.runFor_of_settled (settled : Settled server) (fuel : Nat)
    : server.runFor host server.now fuel = server := by
  have stuck : server.step? host server.now = none := by
    unfold Settled Agenda.QuietAt at settled
    simp [Manager.step?, settled]
  cases fuel with
  | zero => rfl
  | succ fuel => simp only [Manager.runFor, stuck]

/-- The message about a payload that is no object. -/
def World.keeping (world : World) : String :=
  "No settings mapping in payload, keeping " ++ world.provider.settings.literal

/-- The handler of a configuration that is no object leaves everything as it is, but for a message
in the log.
-/
theorem Server.take_configured_other (server : Server) {payload : Json}
    (other : ∀ entries, payload ≠ .obj entries)
    : server.take host (.handler (.configured payload))
      = server.mapWorld fun world => world.debug server.now world.keeping := by
  have begun
      : Notification.begin server.now (.configured payload) server.world
        = (server.world.debug server.now server.world.keeping, []) := by
    cases payload with
    | obj entries => exact (other entries rfl).elim
    | _ => rfl
  change Manager.proceed host
    { server with world := (Notification.begin server.now (.configured payload) server.world).1 }
    (Notification.begin server.now (.configured payload) server.world).2 = _
  rw [begun, Manager.proceed]
  rfl

/-- An initialization whose options are no object begins a new workspace and leaves all else as it
is, but for a message in the log and the answer to the editor.
-/
theorem Server.receive_initialized_other (server : Server) (rootUri : Option String)
    {payload : Json} (other : ∀ entries, payload ≠ .obj entries)
    : server.receive (.initialized rootUri (some payload))
      = server.mapWorld fun world =>
          ({ world with workspace := some (Workspace.fresh rootUri) }.debug server.now
            world.keeping).note server.now .initialized := by
  cases payload with
  | obj entries => exact (other entries rfl).elim
  | _ => rfl

/-- A server with nothing to do has nothing to do after a configuration that is no object. -/
theorem Server.act_configured_other (sound : server.Sound) (settled : Settled server)
    {payload : Json} (other : ∀ entries, payload ≠ .obj entries)
    : server.act (.configured payload)
      = server.mapWorld fun world => world.debug server.now world.keeping := by
  let asked : Server := server.deliver (.configured payload)
  let told : Server := server.mapWorld fun world => world.debug server.now world.keeping
  have stepped : asked.step? host asked.now = some told := by
    have next := Agenda.next?_post settled.ready (Turn.handler (.configured payload)) server.now
    change (asked.agenda.next? server.now).map _ = some told
    rw [show asked.agenda = server.agenda.post (.handler (.configured payload)) from rfl, next]
    exact congrArg some (server.take_configured_other other)
  have fewer := Manager.turnsLeft_step? host_bounded
    (sound.coherent.deliver (.configured payload)) stepped
  obtain ⟨fuel, enough⟩ := Nat.exists_eq_add_one.mpr (Nat.zero_lt_of_lt fewer)
  change asked.runFor host asked.now (asked.turnsLeft host) = told
  rw [enough, Manager.runFor, stepped]
  have stays : Settled told := settled
  exact runFor_of_settled stays fuel

/-- A server with nothing to do has nothing to do after an initialization whose options are no
object.
-/
theorem Server.act_initialized_other (settled : Settled server) (rootUri : Option String)
    {payload : Json} (other : ∀ entries, payload ≠ .obj entries)
    : server.act (.initialized rootUri (some payload))
      = server.mapWorld fun world =>
          ({ world with workspace := some (Workspace.fresh rootUri) }.debug server.now
            world.keeping).note server.now .initialized := by
  change (server.receive (.initialized rootUri (some payload))).settle host = _
  rw [server.receive_initialized_other rootUri other]
  have stays : Settled (server.mapWorld fun world =>
      ({ world with workspace := some (Workspace.fresh rootUri) }.debug server.now
        world.keeping).note server.now .initialized) := settled
  exact runFor_of_settled stays _

end Session

end EditorLint
