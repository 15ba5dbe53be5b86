import EditorLint.Proofs.Session.Upkeep.Arrival

/-! In the course of a run in which an orderly editor waits until no one has a turn, the server
attends to all documents of the editor.
-/

namespace EditorLint.Session

open Debounce

/-- A server that an editor has initialized, and which has no documents yet. -/
def Server.initialized (disk : Disk) (delay : Time) (settings : Settings)
    (tool : Tool.Behaviour) (rootUri : Option String) (options : Option Json) : Server :=
  (Server.start disk delay settings tool).receive (.initialized rootUri options)

theorem Server.sound_initialized (disk : Disk) (delay : Time) (settings : Settings)
    (tool : Tool.Behaviour) (rootUri : Option String) (options : Option Json)
    : (Server.initialized disk delay settings tool rootUri options).Sound :=
  (sound_start disk delay settings tool).receive _

variable {launched : LintRun → Prop} {watched : String} {client : Client}
  {first server after : Server} {inputs : List Input}

-----------------------------------------------------------------------------------------
-- Turns
-----------------------------------------------------------------------------------------

/-- A turn of a task has each lint go on with its document as it is. -/
theorem Server.dutiful_runTask {agenda : Agenda (Turn LintJob Notification Step)} {limit : Time}
    {id : Nat} (dutiful : Manager.Dutiful (duty launched watched client) [] server)
    (sound : server.Sound)
    (next : server.agenda.next? limit = some (.task id, agenda))
    (launches
      : ∀ lint : LintRun, ∀ now,
          lint.tool = server.world.tool
          → server.world.history ++ lint.startEvents now
            <+: (({ server with agenda } : Server).runTask host id).world.history
          → launched lint)
    : Manager.Dutiful (duty launched watched client) []
        (({ server with agenda } : Server).runTask host id) := by
  have taken := sound.coherent.next next
  obtain ⟨task, found, unfinished⟩ := taken.inHand
  have serves (unawaited : task.waiter = none) :=
    dutiful.serves_next sound.coherent next found unfinished unawaited
  have seen (state : LintState) (stage : task.stage = .running state)
      (calm : task.interrupted = false)
      : (state.resume agenda.now server.world).1.history
        <+: (({ server with agenda } : Server).runTask host id).world.history := by
    have keeps
        : host.Keeps (fun _ => True) fun world =>
            (state.resume agenda.now server.world).1.history <+: world.history :=
      host_keeps_history _
    have resumed := keeps.afterTurn { server with agenda } id (List.prefix_refl _)
    simp only [Manager.runTask, found, stage, calm, Bool.false_eq_true, if_false]
    exact resumed
  refine (dutiful.next sound.coherent next).runTask (duty_met launched watched client) taken
    found serves ?_ ?_ ?_ ?_
  · intro job delay stage fits
    rw [stage] at fits
    exact fits
  · intro job stage
    refine .of_cases (fun unawaited => ?_) fun _ => leads_of_noted (job.noted_start _ _)
    have fits := (serves unawaited).fits
    rw [stage] at fits
    exact leads_start dutiful.holds fits
  · intro state stage calm
    refine .of_cases (fun unawaited => ?_) fun awaited => ?_
    · have fits := (serves unawaited).fits
      rw [stage] at fits
      apply leads_resume dutiful.holds fits
      intro lint tool grown
      exact launches lint agenda.now tool (grown ▸ seen state stage calm)
    · obtain ⟨pending, waits⟩ := Option.ne_none_iff_exists'.mp awaited
      have leaving : state.Leaving := by
        rcases sound.coherent.falling_of_awaited found (by simp [waits]) with
          told | ⟨other, runs, leaving⟩
        · cases calm.symm.trans told
        · obtain rfl := Stage.running.inj (stage.symm.trans runs)
          exact leaving
      refine leads_of_noted (state.noted_resume _ _ ?_)
      intro job subject messages same
      subst same
      exact leaving
  · exact fun state _ => leads_interrupt state

/-- The next turn leaves everything under way, by the kind of the turn. -/
theorem Server.Attends.step? (attends : server.Attends launched watched client)
    (sound : server.Sound) {limit : Time} (stepped : server.step? host limit = some after)
    (launches
      : ∀ lint : LintRun, ∀ now,
          lint.tool = server.world.tool
          → server.world.history ++ lint.startEvents now <+: after.world.history
          → launched lint)
    : after.Attends launched watched client := by
  obtain ⟨⟨turn, agenda⟩, next, rfl⟩ := Option.map_eq_some_iff.mp stepped
  have met := duty_met launched watched client
  cases attends with
  | going noHandler dutiful =>
      have noOther : ∀ message, .handler message ∉ agenda.ready ∧ turn ≠ .handler message := by
        intro message
        rcases Agenda.next?_cases next with ⟨ready, _⟩ | ⟨_, perm, _⟩
        · have absent := noHandler message
          rw [ready, List.mem_cons, not_or] at absent
          exact ⟨absent.2, fun same => absent.1 same.symm⟩
        · have noHandler {other : Turn LintJob Notification Step}
              (member : other ∈ turn :: agenda.turns)
              : other ≠ .handler message := by
            obtain ⟨timer, inTimers, rfl⟩ := List.mem_map.mp (perm.mem_iff.mpr member)
            obtain ⟨id, same⟩ := sound.coherent.timed timer inTimers
            rw [same]
            intro other
            cases other
          refine ⟨fun member => ?_, noHandler List.mem_cons_self⟩
          exact noHandler (List.mem_cons_of_mem _ (List.mem_append_left _ member)) rfl
      refine .going ?_ ?_
      · exact Manager.agendaKeeps_noHandler.take (m := { server with agenda })
          (fun message => (noOther message).1) host turn
      · cases turn with
        | handler message => exact ((noOther message).2 rfl).elim
        | task id => exact dutiful_runTask dutiful sound next launches
        | locked pending => exact dutiful.take_pending met sound.coherent next rfl
        | cleared pending => exact dutiful.take_pending met sound.coherent next rfl
  | called message alone dutiful =>
      have only : server.agenda.next? limit
          = some (.handler message, { server.agenda with ready := [] }) := by
        simp [Agenda.next?, alone]
      obtain ⟨rfl, rfl⟩ := Prod.mk.inj (Option.some.inj (only.symm.trans next))
      have coherent := sound.coherent.next next
      refine .going ?_ (dutiful.proceed met (coherent.withWorld _))
      exact Manager.agendaKeeps_noHandler.take
        (m := { server with agenda := { server.agenda with ready := [] } })
        (fun _ member => by cases member) host
        (.handler message)

-----------------------------------------------------------------------------------------
-- Runs
-----------------------------------------------------------------------------------------

/-- What is under way is so whatever else is known to have been launched. -/
theorem Server.Attends.mono {more : LintRun → Prop}
    (attends : server.Attends launched watched client)
    (known : ∀ lint, launched lint → more lint)
    : server.Attends more watched client := by
  have fits (world : World) (uri : String) (stage : Stage LintJob LintState)
      (fits : (duty launched watched client).fits world uri stage)
      : (duty more watched client).fits world uri stage := by
    refine ⟨fits.1, fun here => ?_⟩
    obtain ⟨document, member, own, lints⟩ := fits.2 here
    refine ⟨document, member, own, ?_⟩
    cases stage with
    | created | delayed | ended => exact lints
    | running state =>
        obtain ⟨lint, current, reaches⟩ := lints
        exact ⟨lint, current, reaches.mono (known lint)⟩
  have done (world : World) (uri : String) (done : (duty launched watched client).done world uri)
      : (duty more watched client).done world uri := by
    refine fun here => ⟨fun document member own => ?_, (done here).2⟩
    apply ((done here).1 document member own).imp_right
    intro given
    obtain ⟨lint, current, started, shown⟩ := given
    exact ⟨lint, current, known lint started, shown⟩
  have weaker {hand : List Step} {server : Server}
      (dutiful : Manager.Dutiful (duty launched watched client) hand server)
      : Manager.Dutiful (duty more watched client) hand server :=
    dutiful.mono dutiful.holds (fun _ => id) rfl rfl (fits _) (done _)
  cases attends with
  | going noHandler dutiful => exact .going noHandler (weaker dutiful)
  | called message alone dutiful => exact .called message alone (weaker dutiful)

/-- A server without documents owes nothing. -/
theorem Server.attends_initialized (disk : Disk) (delay : Time)
    (settings : Settings) (tool : Tool.Behaviour) (rootUri : Option String)
    (options : Option Json)
    : (Server.initialized disk delay settings tool rootUri options).Attends launched watched
        {} := by
  have given :=
    (untouched_setUp 0 rootUri options (start disk delay settings tool).world).workspace
  have silent (uri : String)
      : (Server.initialized disk delay settings tool rootUri options).world.lastSent? uri
        = none :=
    (continues_setUp 0 rootUri options (start disk delay settings tool).world).lastSent? uri
  have unknown
      : (Server.initialized disk delay settings tool rootUri options).world.published = [] :=
    (continues_setUp 0 rootUri options (start disk delay settings tool).world).published
  have unasked (pending : Pending LintJob Step)
      : ¬ (Server.initialized disk delay settings tool rootUri options).Waits pending :=
    (sound_initialized disk delay settings tool rootUri options).coherent.not_waits rfl
  refine .going (fun _ => nofun) ?_
  exact {
    holds := by
      refine ⟨⟨⟨_, given⟩, fun _ => nofun, ?_, fun _ => nofun, fun _ => nofun⟩, fun _ => nofun⟩
      intro workspace key same keyed
      obtain rfl := Option.some.inj (given.symm.trans same)
      cases keyed
    called := by
      intro step given
      rcases given with member | ⟨pending, waits, _⟩
      · cases member
      · exact (unasked pending waits).elim
    asked := fun pending waits => (unasked pending waits).elim
    tasks := by
      intro id task found
      change ([] : List (Task LintJob LintState Step))[id]? = some task at found
      simp at found
    all := by
      intro uri
      refine Or.inr (Or.inr fun _ =>
        ⟨fun document member => ?_, fun _ => ⟨fun gone => ?_, fun _ => silent uri, ?_⟩⟩)
      · cases member
      · cases gone
      · rw [unknown, Table.get?_nil]
  }

/-- All that has arrived from an orderly editor for a document is attended to at all times, by
induction over the run.
-/
theorem Run.attends {disk : Disk} {delay : Time} {settings : Settings}
    {tool : Tool.Behaviour} {rootUri : Option String} {options : Option Json}
    (run
      : Run Settled (Server.initialized disk delay settings tool rootUri options) inputs
          server)
    (orderly : Client.Always Client.Orderly inputs)
    (plain : Client.Always (Client.PlainAt watched) inputs)
    : server.Attends
        (fun lint =>
          lint.Launched Settled
            (Server.initialized disk delay settings tool rootUri options) inputs server)
        watched (Client.after inputs) := by
  have filed
      : (Server.initialized disk delay settings tool rootUri options).world.Filed :=
    Server.filed_receive _ (filed_start disk delay settings tool) _
  have sound := Server.sound_initialized disk delay settings tool rootUri options
  induction run with
  | start => exact Server.attends_initialized ..
  | receive before settled input ih =>
      obtain ⟨orderly, sends⟩ := orderly.of_concat
      obtain ⟨plain, clear⟩ := plain.of_concat
      rw [Client.after_concat]
      have attends := (ih orderly plain).receive (before.sound sound) (before.filed filed) settled
        sends clear
      exact attends.mono fun lint launched => launched.goesOn (Run.start.receive settled input)
  | @turn inputs server after before limit stepped ih =>
      have run : Run Settled server [] after := Run.start.turn stepped
      have attends := (ih orderly plain).mono fun lint launched => launched.goesOn run
      rw [List.append_nil] at attends
      refine attends.step? (before.sound sound) stepped fun lint now tool seen => ?_
      exact ⟨_, [], now, by simpa using before.past.goesOn run, tool.symm, seen⟩
  | @pass inputs server before instant quiet ih =>
      have run
          : Run Settled server [] { server with agenda := server.agenda.passTo instant } :=
        Run.start.pass quiet
      have attends := (ih orderly plain).mono fun lint launched => launched.goesOn run
      rw [List.append_nil] at attends
      cases attends with
      | called message alone =>
          cases alone.symm.trans quiet.ready
      | going noHandler dutiful => exact .going noHandler (dutiful.passTo _)

end EditorLint.Session
