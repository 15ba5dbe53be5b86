import EditorLint.Proofs.Debounce.Deadlines
import EditorLint.Proofs.Session.Upkeep.Run

/-! How long lints take. A document rests for the delay of the server, and then the tool is at
work; nothing else waits for the clock. So a pause in which nothing arrives brings every lint to
its end.
-/

namespace EditorLint

/-- A tool works for no longer than a duration, whatever it is given. -/
def Tool.Behaviour.WorksWithin (tool : Tool.Behaviour) (work : Time) : Prop :=
  ∀ command directory text duration,
    (tool.script command directory text).work = some duration → duration ≤ work

namespace Session

open Debounce

/-- A lint rests for the delay, and then takes as long as the tool may work. -/
def pace (delay work : Time) : Pace LintState where
  rest := delay
  work := work
  left
    | .prepared .. => work
    | _ => 0

variable {tool : Tool.Behaviour} {delay work bound : Time}

theorem host_paced (quick : tool.WorksWithin work)
    : host.Paced (pace delay work) fun world => world.delay = delay ∧ world.tool = tool where
  keeps := host_keeps_of_untouched fun same held => by
    rw [same.delay, same.tool]
    exact held
  start := by
    intro now job world duration state held waits
    obtain rfl := LintJob.duration_of_start waits
    obtain ⟨_, _, rfl⟩ := LintJob.prepared_of_start waits
    exact Nat.le_of_eq (Nat.zero_add work)
  resume := by
    intro now state world duration next held waits
    cases state with
    | prepared job subject adapter snapshot =>
        change (LintState.resume now (.prepared job subject adapter snapshot) world).2 = _ at waits
        unfold LintState.resume at waits
        dsimp only at waits
        split at waits
        · cases waits
          exact Nat.zero_le work
        next events takes linting begun =>
          cases waits
          have works := (Adapter.result_of_working (congrArg Prod.snd begun) now).2
          rw [held.2] at works
          exact quick _ _ _ _ works
    | working | landed | fallen =>
        cases waits
        exact Nat.le_refl 0
    | arriving job subject outcome =>
        have last := (LintState.resume_wait now world waits).1
        cases next <;> simp [LintState.turnsLeft] at last
    | leaving => cases waits
  interrupt := by
    intro now state world duration next _ waits
    obtain ⟨_, rfl, leaving⟩ := LintState.interrupt_wait now world waits
    cases next with
    | fallen | leaving => exact Nat.zero_le _
    | prepared | working | landed | arriving => exact leaving.elim
  request := by
    intro now step world uri job rest held asked
    cases step with
    | forget other => cases asked
    | relint feature other =>
        change (Step.request now (.relint feature other) world).2 = _ at asked
        unfold Step.request at asked
        dsimp only at asked
        split at asked
        · cases asked
        · cases asked
          exact Nat.le_of_eq held.1

/-- What arrives changes neither the tool, if it is no tool, nor the delay. -/
theorem Server.tool_receive {server : Server} {input : Input}
    (later : ∀ root options, input ≠ .initialized root options)
    (other : ∀ tool, input ≠ .tool tool)
    : (server.receive input).world.tool = server.world.tool := by
  have withWorkspace {notification : Notification} {f : Workspace → World → Except Failure World}
      (same
        : ∀ workspace world,
            f workspace server.world = .ok world → world.tool = server.world.tool)
      : (server.withWorkspace notification f).world.tool = server.world.tool := by
    rcases server.withWorkspace_cases notification f with
      ⟨failure, refused⟩ | ⟨workspace, world, _, changed, made⟩
    · rw [refused]
      rfl
    · rw [made]
      exact same workspace world changed
  cases input with
  | initialized root options => exact (later root options rfl).elim
  | tool tool => exact (other tool rfl).elim
  | opened | closed =>
      apply withWorkspace
      intro _ _ same
      cases same
      rfl
  | changed uri version texts =>
      cases texts with
      | nil => rfl
      | cons text more =>
          apply withWorkspace
          intro workspace world changed
          unfold changeDocument at changed
          split at changed
          · cases changed
          · cases changed
            rfl
  | codeAction => exact (noted_answer _ _ _ _ _).untouched.tool
  | saved | configured | advance => rfl

-----------------------------------------------------------------------------------------
-- Runs
-----------------------------------------------------------------------------------------

variable {disk : Disk} {settings : Settings} {rootUri : Option String}
  {options : Option Json} {uri : String} {gate : Server → Prop}
  {first middle server after : Server} {inputs early late : List Input}

/-- A step that waits, waits for the lint of a document that rests for the delay. -/
theorem Server.Attends.short {launched : LintRun → Prop} {client : Client}
    (attends : server.Attends launched uri client) (held : server.world.delay = delay)
    {pending : Pending LintJob Step} {other : String} {job : LintJob} {rest : Time}
    (waits : Manager.Waits server pending) (asked : pending.request = .schedule other job rest)
    : rest ≤ delay := by
  have asks (world : World) (same : world.delay = delay)
      (request : pending.request = (duty launched uri client).asks world pending.step)
      : rest ≤ delay := by
    rw [asked] at request
    cases step : pending.step with
    | forget => simp [duty, step] at request
    | relint =>
        simp only [duty, step, Request.schedule.injEq] at request
        exact Nat.le_of_eq (request.2.2.trans same)
  cases attends with
  | going _ dutiful => exact asks server.world held (dutiful.asked pending waits)
  | called message alone dutiful =>
      have untouched : host.Keeps (fun _ => True) (World.Untouched server.world) :=
        host_keeps_untouched server.world
      have same : (message.begin server.now server.world).1.delay = delay :=
        (untouched.begin server.now message server.world (.refl _)).delay.trans held
      refine asks _ same (dutiful.asked pending ?_)
      apply (Manager.waits_withWorld (m := { server with agenda := _ }) _).mpr
      refine (Manager.waits_withAgenda fun turn goesOn => ?_).mpr waits
      rw [alone]
      constructor
      · intro member
        cases member
      · intro member
        obtain rfl := List.mem_singleton.mp member
        cases goesOn

/-- A session in which the editor is orderly and does not change the tool has its tool and its
delay from the start on.
-/
theorem Run.same_tool
    (run
      : Run gate (Server.initialized disk delay settings tool rootUri options) inputs server)
    (orderly : Client.Always Client.Orderly inputs) (kept : ∀ other, .tool other ∉ inputs)
    : server.world.delay = delay ∧ server.world.tool = tool := by
  have keeps
      : host.Keeps (fun _ => True) fun world => world.delay = delay ∧ world.tool = tool :=
    host_keeps_of_untouched fun same held => by
      rw [same.delay, same.tool]
      exact held
  apply run.keeps keeps
  · intro server input member held
    have later := orderly.not_initialized member
    have other (tool : Tool.Behaviour) : input ≠ .tool tool := by
      intro same
      subst same
      exact kept tool member
    rw [(server.alike_receive later).delay, Server.tool_receive later other]
    exact held
  · have same :=
      Server.untouched_setUp 0 rootUri options (Server.start disk delay settings tool).world
    exact ⟨same.delay, same.tool⟩

section

variable
  (orderly : Client.Always Client.Orderly inputs)
  (plain : Client.Always (Client.PlainAt uri) inputs)
  (kept : ∀ other, .tool other ∉ inputs) (quick : tool.WorksWithin work)

include orderly plain kept quick

/-- The next turn in a run keeps to the time that is allowed. -/
theorem Run.within_step?
    (run
      : Run Settled (Server.initialized disk delay settings tool rootUri options) inputs
          server)
    (within : Manager.Within (pace delay work) bound server) {limit : Time}
    (stepped : server.step? host limit = some after)
    : Manager.Within (pace delay work) bound after := by
  have sound : server.Sound :=
    run.sound (Server.sound_initialized disk delay settings tool rootUri options)
  have held := run.same_tool orderly kept
  refine within.step? (host_paced quick) host_prompt sound.coherent held ?_ stepped
  intro pending other job rest waits asked
  exact (run.attends orderly plain).short held.1 waits asked

/-- All that is under way needs at most the time of a whole lint from now on, by induction over
the run.
-/
theorem Run.within
    (run
      : Run Settled (Server.initialized disk delay settings tool rootUri options) inputs
          server)
    : Manager.Within (pace delay work) (server.now + (delay + work)) server := by
  have sound := Server.sound_initialized disk delay settings tool rootUri options
  induction run with
  | start => exact ⟨fun _ => nofun, fun _ => nofun, fun waiting => (waiting rfl).elim⟩
  | receive before settled input ih =>
      have within := ih orderly.of_concat.1 plain.of_concat.1
        fun other member => kept other (List.mem_append_left _ member)
      obtain ⟨world, agenda, taken, _, rfl | ⟨notification, rfl⟩⟩ := Server.takes_receive _ input
      · rw [taken]
        exact within.withWorld world
      · rw [taken]
        exact (within.withWorld world).post (.handler notification) (Nat.le_refl _)
  | turn before stepped ih =>
      have forward := (Manager.step?_now (before.sound sound).ahead stepped).2.1
      have within := before.within_step? orderly plain kept quick (ih orderly plain kept) stepped
      exact within.mono (Nat.add_le_add_right forward _)
  | @pass _ _ before instant quiet ih =>
      have within :=
        (ih orderly plain kept).passTo (before.sound sound).coherent quiet.ready instant
      exact within.mono (Nat.add_le_add_right (Nat.le_max_left _ _) _)

end

/-- A pause leaves all that is under way the time that it has been allowed, by induction over the
run.
-/
theorem Run.within_pause
    (before
      : Run Settled (Server.initialized disk delay settings tool rootUri options) early
          middle)
    (pause : Run Settled middle late server)
    (idle : ∀ input ∈ late, ∃ duration, input = .advance duration)
    (orderly : Client.Always Client.Orderly (early ++ late))
    (plain : Client.Always (Client.PlainAt uri) (early ++ late))
    (kept : ∀ other, .tool other ∉ early ++ late) (quick : tool.WorksWithin work)
    (within : Manager.Within (pace delay work) bound middle)
    : Manager.Within (pace delay work) bound server := by
  induction pause with
  | start => exact within
  | receive later settled input ih =>
      obtain ⟨duration, rfl⟩ := idle input (by simp)
      rw [← List.append_assoc] at orderly plain
      exact ih (fun other member => idle other (List.mem_append_left _ member))
        orderly.of_concat.1 plain.of_concat.1
        fun other member => kept other (by
          rw [← List.append_assoc]
          exact List.mem_append_left _ member)
  | turn later stepped ih =>
      exact (before.trans later).within_step? orderly plain kept quick
        (ih idle orderly plain kept) stepped
  | @pass _ _ later instant quiet ih =>
      have sound := Server.sound_initialized disk delay settings tool rootUri options
      exact (ih idle orderly plain kept).passTo ((before.trans later).sound sound).coherent
        quiet.ready instant

/-- A pause moves the clock by as much as it says, by induction over its parts. -/
theorem Server.now_pauses (sound : server.Sound) (settled : Settled server) (pauses : List Time)
    : (server.session (pauses.map .advance)).now = server.now + total id pauses := by
  induction pauses generalizing server with
  | nil => rfl
  | cons duration rest ih =>
      obtain ⟨acted, calm⟩ := Run.start.act sound settled (.advance duration)
      have moved : (server.act (.advance duration)).now = server.now + duration :=
        (Manager.advance_now host_bounded host_prompt sound.coherent sound.ahead duration).1
      rw [List.map_cons, total, id, ← Nat.add_assoc, ← moved]
      exact ih (acted.sound sound) calm

/-- After a pause in which a whole lint has the time that it needs, no lint is under way any
more, and so for all documents is done what is to be done.
-/
theorem Run.done_of_pause
    (run
      : Run Settled (Server.initialized disk delay settings tool rootUri options) inputs
          middle)
    (settled : Settled middle) (orderly : Client.Always Client.Orderly inputs)
    (plain : Client.Always (Client.PlainAt uri) inputs) (kept : ∀ other, .tool other ∉ inputs)
    (quick : tool.WorksWithin work) {pauses : List Time} (long : delay + work ≤ total id pauses)
    : let server := middle.session (pauses.map .advance)
      let launched (lint : LintRun) :=
        lint.Launched Settled
          (Server.initialized disk delay settings tool rootUri options)
          (inputs ++ pauses.map .advance) server
      (duty launched uri (Client.after inputs)).holds server.world
      ∧ (duty launched uri (Client.after inputs)).done server.world uri := by
  intro server launched
  have start := Server.sound_initialized disk delay settings tool rootUri options
  obtain ⟨orderlyThroughout, same⟩ := orderly.pauses (fun _ _ => trivial) pauses
  obtain ⟨plainThroughout, _⟩ := plain.pauses (fun _ _ => trivial) pauses
  have keptThroughout : ∀ other, .tool other ∉ inputs ++ pauses.map .advance := by
    simpa using kept
  obtain ⟨pause, calm⟩ := Run.start.session (run.sound start) settled (pauses.map .advance)
  rw [List.nil_append] at pause
  have whole := run.trans pause
  have sound := whole.sound start
  have nothing : server.agenda.ready = [] := calm.ready
  have within : Manager.Within (pace delay work) (middle.now + (delay + work)) server := by
    refine run.within_pause pause ?_ orderlyThroughout plainThroughout keptThroughout quick
      (run.within orderly plain kept quick)
    intro input member
    obtain ⟨duration, _, rfl⟩ := List.mem_map.mp member
    exact ⟨duration, rfl⟩
  have passed : middle.now + (delay + work) ≤ server.now := by
    rw [Server.now_pauses (run.sound start) settled pauses]
    exact Nat.add_le_add_left long _
  have attends := whole.attends orderlyThroughout plainThroughout
  rw [same] at attends
  cases attends with
  | called message alone =>
      rw [show server.agenda.ready = [] from nothing] at alone
      cases alone
  | going _ dutiful =>
      refine ⟨dutiful.holds, ?_⟩
      obtain ⟨_, all⟩ := dutiful.calm sound.coherent nothing
      rcases all uri with ⟨id, task, found, _, serves⟩ | done
      · have ended := within.hasEnded sound.coherent sound.ahead nothing passed id
        have unfinished := Manager.hasEnded_eq_false_iff.mpr ⟨task, found, serves.unfinished⟩
        cases ended.symm.trans unfinished
      · exact done

end Session

end EditorLint
