import EditorLint.Agenda
import EditorLint.Provider

/-!
Several documents linted at the same time through one provider. Each lint takes the adapter that is
in force when it has its first turn, and goes on turn by turn among the others. A lint that fails
leaves the others to go on, and the first to fail is the failure of them all.
-/

namespace EditorLint

/-- How far one lint of a batch has come. -/
inductive BatchStage where
  | created (snapshot : Snapshot)
  /-- The tool's part has been created. -/
  | prepared (adapter : Adapter) (snapshot : Snapshot)
  | working (linting : Linting)
  /-- The tool's part has ended. -/
  | landed (outcome : Except Failure (List Message))
  | arriving (outcome : Except Failure (List Message))
  | ended (outcome : Except Failure (List Message))

namespace BatchStage

/-- A bound on the turns that a lint still takes. -/
def turnsLeft : BatchStage → Nat
  | .created _ => 5
  | .prepared .. => 4
  | .working _ => 3
  | .landed _ => 2
  | .arriving _ => 1
  | .ended _ => 0

/-- What a lint does in a turn: the events, the next stage, and how long it waits before its next
turn, if it has one. -/
def turn (provider : Provider) (tool : Tool.Behaviour) (now : Time) :
    BatchStage → List Tool.Event × BatchStage × Option Time
  | .created snapshot => ([], .prepared provider.adapter snapshot, some 0)
  | .prepared adapter snapshot =>
    match adapter.begin now snapshot (adapter.script tool snapshot) with
    | (events, .done outcome) => (events, .landed outcome, some 0)
    | (events, .working duration linting) => (events, .working linting, some duration)
  | .working linting =>
    let (events, outcome) := linting.complete now
    (events, .landed outcome, some 0)
  | .landed outcome => ([], .arriving outcome, some 0)
  | .arriving outcome => ([], .ended outcome, none)
  | .ended outcome => ([], .ended outcome, none)

/-- The messages of a lint that has ended well. -/
def messages : BatchStage → List Message
  | .ended (.ok messages) => messages
  | _ => []

/-- The failure of a lint that has ended with one. -/
def failure? : BatchStage → Option Failure
  | .ended (.error failure) => some failure
  | _ => none

end BatchStage

/-- A batch under way. A lint is known by its place. -/
structure Batch where
  provider : Provider
  tool : Tool.Behaviour
  agenda : Agenda Nat
  stages : List BatchStage
  /-- The events so far, each with the lint that it belongs to. -/
  events : List (Nat × Tool.Event)
  /-- The failure of the first lint that has ended with one. -/
  failure : Option Failure

/-- What happens to a batch. -/
inductive BatchStep where
  /-- The lint whose turn is next has it. -/
  | turn
  /-- New settings come into force. -/
  | update (settings : Settings)
  deriving DecidableEq, Repr

namespace Batch

/-- A batch of which no lint has had a turn. -/
def start (provider : Provider) (tool : Tool.Behaviour) (snapshots : List Snapshot) : Batch :=
  { provider, tool
    agenda := { ready := List.range snapshots.length }
    stages := snapshots.map .created
    events := []
    failure := none }

/-- Puts new settings in force while the batch is under way, which leaves a record. -/
def update (batch : Batch) (settings : Settings) : Log.Record × Batch :=
  let (record, provider) := batch.provider.update settings
  (record, { batch with provider })

/-- Gives a lint its turn. -/
def take (batch : Batch) (index : Nat) : Batch :=
  match batch.stages[index]? with
  | none => batch
  | some stage =>
    let (events, stage, wait) := stage.turn batch.provider batch.tool batch.agenda.now
    { batch with
      agenda :=
        match wait with
        | none => batch.agenda
        | some duration => batch.agenda.wait duration index
      stages := batch.stages.set index stage
      events := batch.events ++ events.map fun event => (index, event)
      failure := batch.failure.or stage.failure? }

/-- The latest time that some lint waits for. -/
def horizon (batch : Batch) : Time :=
  batch.agenda.timers.foldr (fun timer latest => max timer.due latest) batch.agenda.now

/-- The next turn and the agenda without it, letting the clock pass when no lint is ready. -/
def next? (batch : Batch) : Option (Nat × Agenda Nat) :=
  batch.agenda.next? batch.horizon

/-- Does one step. When all lints have ended, no turn is left. -/
def act (batch : Batch) : BatchStep → Batch
  | .turn =>
    match batch.next? with
    | none => batch
    | some (index, agenda) => { batch with agenda }.take index
  | .update settings => (batch.update settings).2

/-- Does steps in order. -/
def after (batch : Batch) (steps : List BatchStep) : Batch :=
  steps.foldl act batch

/-- A bound on the turns until all lints have ended. -/
def turnsLeft (batch : Batch) : Nat :=
  total BatchStage.turnsLeft batch.stages

/-- Runs a batch to its end. -/
def run (batch : Batch) : Batch :=
  batch.after (List.replicate batch.turnsLeft .turn)

/-- The messages of the lints, in order, or the first failure. -/
def outcome (batch : Batch) : Except Failure (List (List Message)) :=
  match batch.failure with
  | some failure => .error failure
  | none => .ok (batch.stages.map BatchStage.messages)

end Batch

/-- Lints documents at the same time: the events in order, and the messages of each document. -/
def Provider.lintAll (provider : Provider) (snapshots : List Snapshot) (tool : Tool.Behaviour) :
    List Tool.Event × Except Failure (List (List Message)) :=
  let batch := (Batch.start provider tool snapshots).run
  (batch.events.map (·.2), batch.outcome)

end EditorLint
