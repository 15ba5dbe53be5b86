import EditorLint.Proofs.Adapter
import EditorLint.Proofs.Debounce.Stages
import EditorLint.Proofs.Session.Documents

/-! Where results come from. Every lint that is under way, and every result that the server
remembers, goes back to a state of the run in which the document was looked up, and to a later
one in which the tool was started with the text found then.
-/

namespace EditorLint.Session

open Debounce

/-- One run of a tool for a lint: what it was given, and by which adapter. -/
structure LintRun where
  job : LintJob
  subject : Subject
  adapter : Adapter
  snapshot : Snapshot
  tool : Tool.Behaviour

/-- What a run of the tool finds. -/
def LintRun.result (lint : LintRun) : Except Failure (List Message) :=
  lint.adapter.result lint.tool lint.snapshot

/-- What is seen of a tool that is started at an instant, until it is at work. -/
def LintRun.startEvents (lint : LintRun) (now : Time) : List (Stamped Event) :=
  (lint.adapter.begin now lint.snapshot (lint.adapter.script lint.tool lint.snapshot)).1.map
    fun event => ⟨now, .tool event⟩

/-- A lint has come as far as a state says, with its tool started if the state is behind that. -/
def LintRun.Reaches (lint : LintRun) (launched : Prop) : LintState → Prop
  | .prepared job subject adapter snapshot =>
    job = lint.job ∧ subject = lint.subject ∧ adapter = lint.adapter ∧ snapshot = lint.snapshot
  | .working job subject linting =>
    job = lint.job
    ∧ subject = lint.subject
    ∧ launched
    ∧ ∃ now duration,
        (lint.adapter.begin now lint.snapshot (lint.adapter.script lint.tool lint.snapshot)).2
          = .working duration linting
  | .landed job subject outcome | .arriving job subject outcome =>
    job = lint.job ∧ subject = lint.subject ∧ launched ∧ outcome = lint.result
  | .fallen | .leaving => False

variable {gate : Server → Prop} {first server after : Server} {inputs since : List Input}

/-- A run has come through a state, and `since` has arrived after it. -/
structure Past (gate : Server → Prop) (first : Server) (inputs : List Input) (server : Server)
    (past : Server) (since : List Input) : Prop where
  before : ∃ earlier, inputs = earlier ++ since ∧ Run gate first earlier past
  later : Run gate past since server

/-- A lint was begun in the past: what it is about was looked up then, and the adapter taken. -/
def LintRun.Begun (lint : LintRun) (gate : Server → Prop) (first : Server) (inputs : List Input)
    (server : Server) (since : List Input) : Prop :=
  ∃ past,
    Past gate first inputs server past since
    ∧ lint.job.Begins past.world lint.subject lint.snapshot
    ∧ lint.adapter = past.world.provider.adapter

/-- The tool of a lint was started in the past, the one in force then, and that has been seen. -/
def LintRun.Launched (lint : LintRun) (gate : Server → Prop) (first : Server)
    (inputs : List Input) (server : Server) : Prop :=
  ∃ past since now,
    Past gate first inputs server past since
    ∧ past.world.tool = lint.tool
    ∧ past.world.history ++ lint.startEvents now <+: server.world.history

/-- What a lint has found was remembered in a turn of its own. `between` had arrived since the lint
began, and the document was still in the version that the lint was asked for. `later` has arrived
after that turn.
-/
inductive LintRun.Published (lint : LintRun) (messages : List Message) (gate : Server → Prop)
    (first : Server) (inputs : List Input) (server : Server) (between later : List Input) : Prop
  | intro {reached : List Input} {past next : Server} {id : Nat} {limit : Time}
    {agenda : Agenda (Turn LintJob Notification Step)}
    (split : inputs = reached ++ later)
    (begun : lint.Begun gate first reached past between)
    (took : past.agenda.next? limit = some (.task id, agenda))
    (delivers : past.Delivers id lint.job lint.subject messages)
    (stepped : past.step? host limit = some next)
    (remembered : next.world.published.get? lint.job.uri = some messages)
    (goesOn : Run gate next later server)

-----------------------------------------------------------------------------------------
-- The past stays
-----------------------------------------------------------------------------------------

/-- A run has just come through the state to which it has come. -/
theorem Run.past (run : Run gate first inputs server) : Past gate first inputs server server [] :=
  ⟨⟨inputs, (List.append_nil inputs).symm, run⟩, .start⟩

variable {past : Server} {more between later : List Input} {lint : LintRun}
  {messages : List Message}

theorem Past.goesOn (before : Past gate first inputs server past since)
    (run : Run gate server more after)
    : Past gate first (inputs ++ more) after past (since ++ more) := by
  obtain ⟨⟨earlier, rfl, come⟩, later⟩ := before
  exact ⟨⟨earlier, List.append_assoc earlier since more, come⟩, later.trans run⟩

theorem LintRun.Begun.goesOn (begun : lint.Begun gate first inputs server since)
    (run : Run gate server more after)
    : lint.Begun gate first (inputs ++ more) after (since ++ more) := by
  obtain ⟨past, before, begins⟩ := begun
  exact ⟨past, before.goesOn run, begins⟩

theorem LintRun.Launched.goesOn (launched : lint.Launched gate first inputs server)
    (run : Run gate server more after)
    : lint.Launched gate first (inputs ++ more) after := by
  obtain ⟨past, since, now, before, tool, seen⟩ := launched
  exact ⟨past, _, now, before.goesOn run, tool, seen.trans run.history_grows⟩

theorem LintRun.Published.goesOn
    (published : lint.Published messages gate first inputs server between later)
    (run : Run gate server more after)
    : lint.Published messages gate first (inputs ++ more) after between (later ++ more) := by
  obtain ⟨rfl, begun, took, delivers, stepped, remembered, goesOn⟩ := published
  exact ⟨List.append_assoc _ later more, begun, took, delivers, stepped, remembered,
    goesOn.trans run⟩

/-- A lint whose result was remembered had been begun before. -/
theorem LintRun.Published.begun
    (published : lint.Published messages gate first inputs server between later)
    : lint.Begun gate first inputs server (between ++ later) := by
  obtain ⟨rfl, begun, _, _, stepped, _, goesOn⟩ := published
  simpa using begun.goesOn ((Run.start.turn stepped).trans goesOn)

-----------------------------------------------------------------------------------------
-- A turn of a lint
-----------------------------------------------------------------------------------------

/-- A lint that has come as far as a state has come as far whatever else is known of its tool. -/
theorem LintRun.Reaches.mono {launched started : Prop} {state : LintState}
    (reaches : lint.Reaches launched state) (known : launched → started)
    : lint.Reaches started state := by
  cases state with
  | prepared => exact reaches
  | working => exact ⟨reaches.1, reaches.2.1, known reaches.2.2.1, reaches.2.2.2⟩
  | landed => exact ⟨reaches.1, reaches.2.1, known reaches.2.2.1, reaches.2.2.2⟩
  | arriving => exact ⟨reaches.1, reaches.2.1, known reaches.2.2.1, reaches.2.2.2⟩
  | fallen => exact reaches
  | leaving => exact reaches

/-- A lint goes on from one state to the next: with a tool at work, then with what the tool has
found. The tool is started in the turn of a prepared lint, and what is seen of that is noted.
-/
theorem LintRun.Reaches.resume {launched : Prop} {state next : LintState} {now duration : Time}
    {world later : World} (reaches : lint.Reaches launched state)
    (goes : state.resume now world = (later, .wait duration next))
    : (lint.Reaches launched next)
      ∨ (∃ job subject adapter snapshot, state = .prepared job subject adapter snapshot)
        ∧ later.history
          = world.history ++ ({ lint with tool := world.tool } : LintRun).startEvents now
        ∧ LintRun.Reaches { lint with tool := world.tool } True next := by
  cases state with
  | prepared job subject adapter snapshot =>
      obtain ⟨rfl, rfl, rfl, rfl⟩ := reaches
      refine Or.inr ⟨⟨_, _, _, _, rfl⟩, ?_⟩
      unfold LintState.resume at goes
      dsimp only at goes
      split at goes
      next events outcome begun =>
        cases goes
        have ends := congrArg Prod.snd begun
        refine ⟨?_, rfl, rfl, trivial, Adapter.result_of_done ends⟩
        simp only [World.noteTool, LintRun.startEvents, begun]
      next events takes linting begun =>
        cases goes
        refine ⟨?_, rfl, rfl, trivial, now, duration, congrArg Prod.snd begun⟩
        simp only [World.noteTool, LintRun.startEvents, begun]
  | working job subject linting =>
      obtain ⟨rfl, rfl, started, began, takes, begun⟩ := reaches
      cases goes
      exact Or.inl ⟨rfl, rfl, started, (Adapter.result_of_working begun now).1⟩
  | landed job subject outcome =>
      cases goes
      exact Or.inl reaches
  | arriving job subject outcome =>
      have fewer := (LintState.resume_wait now world (congrArg Prod.snd goes)).1
      cases next <;> simp [LintState.turnsLeft] at fewer
  | fallen => exact reaches.elim
  | leaving => exact reaches.elim

-----------------------------------------------------------------------------------------
-- Everything goes back to a lint
-----------------------------------------------------------------------------------------

/-- The state of a job goes back to a lint that was begun, unless the job has been cancelled. -/
def Explained (gate : Server → Prop) (first : Server) (inputs : List Input) (server : Server)
    (state : LintState) : Prop :=
  state.Leaving
  ∨ ∃ (lint : LintRun) (since : List Input),
      lint.Begun gate first inputs server since
      ∧ lint.Reaches (lint.Launched gate first inputs server) state

/-- Messages of a document are what a lint of it has found, and were remembered at its end. -/
def Accounted (gate : Server → Prop) (first : Server) (inputs : List Input) (server : Server)
    (uri : String) (messages : List Message) : Prop :=
  ∃ (lint : LintRun) (between later : List Input),
    lint.Published messages gate first inputs server between later
    ∧ lint.Launched gate first inputs server
    ∧ lint.job.uri = uri
    ∧ lint.result = .ok messages

/-- All jobs that run, and all messages that are remembered, go back to lints. -/
structure Traced (gate : Server → Prop) (first : Server) (inputs : List Input) (server : Server)
    : Prop where
  running : server.RunsIn (Explained gate first inputs server)
  published
    : ∀ uri messages,
        server.world.published.get? uri = some messages
        → Accounted gate first inputs server uri messages

variable {state : LintState} {uri : String}

theorem Explained.goesOn (explained : Explained gate first inputs server state)
    (run : Run gate server more after)
    : Explained gate first (inputs ++ more) after state := by
  apply explained.imp_right
  intro given
  obtain ⟨lint, since, begun, reaches⟩ := given
  exact ⟨lint, _, begun.goesOn run, reaches.mono fun launched => launched.goesOn run⟩

theorem Accounted.goesOn (accounted : Accounted gate first inputs server uri messages)
    (run : Run gate server more after)
    : Accounted gate first (inputs ++ more) after uri messages := by
  obtain ⟨lint, between, later, published, launched, rest⟩ := accounted
  exact ⟨lint, between, _, published.goesOn run, launched.goesOn run, rest⟩

/-- What a job comes to in a turn goes back to a lint: one that is begun in this turn, or the one
before with its tool, which may have been started in this turn.
-/
theorem Traced.running_turn (traced : Traced gate first inputs server)
    (come : Run gate first inputs server) {limit : Time}
    (stepped : server.step? host limit = some after)
    : after.RunsIn (Explained gate first inputs after) := by
  have run : Run gate server [] after := Run.start.turn stepped
  have here : Past gate first inputs after server [] := by simpa using come.past.goesOn run
  intro id task state found runs
  obtain ⟨⟨turn, agenda⟩, next, took⟩ := Option.map_eq_some_iff.mp stepped
  subst took
  rcases Manager.running_take found runs with
    ⟨old, before, same⟩ | ⟨_, old, duration, before, ⟨job, _, starts⟩ | ⟨prior, ran, goes⟩⟩
  · simpa using (traced.running before same).goesOn run
  · obtain ⟨subject, snapshot, begins, rfl⟩ := LintJob.begins_of_start (congrArg Prod.snd starts)
    let lint : LintRun :=
      ⟨job, subject, server.world.provider.adapter, snapshot, server.world.tool⟩
    have begun : lint.Begun gate first inputs _ [] := ⟨server, here, begins, rfl⟩
    exact Or.inr ⟨lint, [], begun, rfl, rfl, rfl, rfl⟩
  · rcases goes with resumes | interrupts
    · rcases traced.running before ran with leaving | ⟨lint, since, begun, reaches⟩
      · have leaves := LintState.resume_wait _ _ (congrArg Prod.snd resumes)
        exact Or.inl (leaves.2 leaving).2
      · apply Or.inr
        have still := begun.goesOn run
        rw [List.append_nil] at still
        rcases reaches.resume resumes with went | ⟨_, seen, started⟩
        · refine ⟨lint, _, still, went.mono fun launched => ?_⟩
          simpa using launched.goesOn run
        · refine ⟨{ lint with tool := server.world.tool }, _, still, started.mono fun _ => ?_⟩
          exact ⟨server, [], _, here, rfl, ⟨[], by rw [List.append_nil, seen]⟩⟩
    · have leaves := LintState.interrupt_wait _ _ (congrArg Prod.snd interrupts)
      exact Or.inl leaves.2.2

/-- Handlers remember nothing new. -/
theorem host_keeps_unremembered (before : World)
    : host.Keeps (fun _ => False) fun world =>
        ∀ uri messages,
          world.published.get? uri = some messages
          → before.published.get? uri = some messages := by
  refine host_keeps ?_ (fun _ held => held) (fun impossible => impossible.elim)
    (fun impossible => impossible.elim) ?_
  · intro _ _ noted held
    rw [noted.continues.published]
    exact held
  · intro world now uri held other messages known
    simp only [World.publish, World.note, Table.get?_erase] at known
    split at known
    · cases known
    · exact held other messages known

/-- What is remembered after a turn was remembered before, or it is delivered by the task whose turn
it was.
-/
theorem Server.remembered_take {turn : Turn LintJob Notification Step}
    (known : (server.take host turn).world.published.get? uri = some messages)
    : server.world.published.get? uri = some messages
      ∨ ∃ id job subject,
          turn = .task id ∧ server.Delivers id job subject messages ∧ job.uri = uri := by
  by_cases task : ∃ id, turn = .task id
  · obtain ⟨id, rfl⟩ := task
    have remembered {after : World} {job : LintJob} {subject : Subject} {found : List Message}
        (delivers : server.Delivers id job subject found)
        (noted : after.published = (job.remember server.world found).published)
        (known : after.published.get? uri = some messages)
        : server.world.published.get? uri = some messages
          ∨ ∃ place job subject,
              Turn.task id = (.task place : Turn LintJob Notification Step)
              ∧ server.Delivers place job subject messages
              ∧ job.uri = uri := by
      rw [noted, LintJob.remember, Table.get?_insert] at known
      split at known
      next same =>
        obtain rfl := Option.some.inj known
        exact Or.inr ⟨id, job, subject, rfl, delivers, same.symm⟩
      next => exact Or.inl known
    rcases server.runTask_cases id with
      noted | ⟨job, subject, found, delivers, ⟨_, _, noted⟩ | ⟨_, _, noted⟩⟩
    · exact Or.inl (noted.continues.published ▸ known)
    · exact remembered delivers noted.continues.published known
    · exact remembered delivers noted.continues.published known
  · refine Or.inl ((host_keeps_unremembered server.world).take_other ?_ ?_ uri messages known)
    · exact fun _ _ same => same
    · exact fun id same => task ⟨id, same⟩

/-- What is remembered after a turn goes back to a lint: it was remembered before, or it is what a
lint that comes to its end has found.
-/
theorem Traced.published_turn (traced : Traced gate first inputs server) {limit : Time}
    (stepped : server.step? host limit = some after)
    (known : after.world.published.get? uri = some messages)
    : Accounted gate first inputs after uri messages := by
  have run : Run gate server [] after := Run.start.turn stepped
  obtain ⟨⟨turn, agenda⟩, next, took⟩ := Option.map_eq_some_iff.mp stepped
  have remembered := known
  rw [← took] at remembered
  rcases Server.remembered_take remembered with before | ⟨own, job, subject, rfl, delivers, rfl⟩
  · simpa using (traced.published uri messages before).goesOn run
  · obtain ⟨task, found, arrives, _⟩ := delivers.running
    obtain ⟨lint, since, begun, rfl, rfl, launched, result⟩ :=
      (traced.running found arrives).resolve_left id
    refine ⟨lint, since, [], ?_, by simpa using launched.goesOn run, rfl, result.symm⟩
    exact ⟨(List.append_nil inputs).symm, begun, next, ⟨delivers.running, delivers.fresh⟩,
      stepped, known, .start⟩

/-- In every state of a run that began with nothing under way, everything goes back to lints of
that run, by induction over the run.
-/
theorem Run.traced (run : Run gate first inputs server) (idle : first.tasks = [])
    (forgetful : first.world.published = [])
    : Traced gate first inputs server := by
  induction run with
  | start =>
      refine ⟨?_, ?_⟩
      · intro id task state found
        simp [idle] at found
      · intro uri messages known
        simp [forgetful] at known
  | @receive inputs server before admits input ih =>
      have goes : Run gate server [input] (server.receive input) := Run.start.receive admits input
      obtain ⟨world, agenda, taken, continues, _⟩ := server.takes_receive input
      refine ⟨?_, ?_⟩
      · intro id task state found runs
        rw [taken] at found
        exact (ih.running found runs).goesOn goes
      · intro uri messages known
        rw [taken] at known
        refine (ih.published uri messages ?_).goesOn goes
        rw [← continues.published]
        exact known
  | turn before stepped ih =>
      exact ⟨ih.running_turn before stepped, fun _ _ known => ih.published_turn stepped known⟩
  | @pass inputs server before instant quiet ih =>
      have goes
          : Run gate server [] { server with agenda := server.agenda.passTo instant } :=
        Run.start.pass quiet
      refine ⟨fun found runs => ?_, fun uri messages known => ?_⟩
      · simpa using (ih.running found runs).goesOn goes
      · simpa using (ih.published uri messages known).goesOn goes

end EditorLint.Session
