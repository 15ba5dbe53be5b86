import EditorLint.Proofs.Adapter
import EditorLint.Proofs.Provider.Batch
import Mathlib.Data.List.Induction

/-! Lints that go on at the same time do not concern each other: one goes on in its turns as it
would with nothing else going on, and does not notice the others' turns. New settings concern the
lints that have not had their first turn.
-/

namespace EditorLint.Batch

variable {batch : Batch} {index : Nat} {stage : BatchStage} {snapshot : Snapshot}

-----------------------------------------------------------------------------------------
-- How one lint goes on among the others
-----------------------------------------------------------------------------------------

/-- A lint that has had its first turn goes as it does with nothing else going on: it has left the
events that it leaves then, and it will end when and as it ends then.
-/
def Underway (batch : Batch) (index : Nat) (adapter : Adapter) (snapshot : Snapshot) :
    BatchStage → Prop
  | .created _ => False
  | .prepared own document =>
    own = adapter ∧ document = snapshot ∧ batch.eventsOf index = []
  | .working linting =>
    ∃ duration,
      adapter.begin linting.began snapshot (adapter.script batch.tool snapshot)
        = (batch.eventsOf index, .working duration linting)
      ∧ ∀ timer ∈ batch.agenda.plan,
          timer.turn = index → timer.due = linting.began + duration
  | .landed outcome | .arriving outcome | .ended outcome =>
    adapter.lint snapshot (adapter.script batch.tool snapshot) none
      = (batch.eventsOf index, outcome)

variable {adapter : Adapter}

/-- A lint does not notice what leaves its events as they are and plans no turn for it. -/
theorem Underway.unnoticed {later : Batch} (underway : batch.Underway index adapter snapshot stage)
    (tool : later.tool = batch.tool) (events : later.eventsOf index = batch.eventsOf index)
    (plan
      : ∀ timer ∈ later.agenda.plan, timer.turn = index → timer ∈ batch.agenda.plan)
    : later.Underway index adapter snapshot stage := by
  cases stage with
  | working linting =>
      obtain ⟨duration, begun, due⟩ := underway
      refine ⟨duration, by rw [tool, events, begun], ?_⟩
      exact fun timer planned own => due timer (plan timer planned own) own
  | created snapshot => exact underway.elim
  | _ => simpa only [Underway, tool, events] using underway

/-- In its turn a lint goes on as it does with nothing else going on. -/
theorem Underway.turn {agenda : Agenda Nat}
    (underway : batch.Underway index adapter snapshot stage)
    (next : batch.next? = some (index, agenda)) (found : batch.stages[index]? = some stage)
    (left : stage.turnsLeft ≠ 0) (gone : index ∉ agenda.turns)
    : (({ batch with agenda } : Batch).take index).Underway index adapter snapshot
        (({ batch with agenda } : Batch).move stage).2.1 := by
  let moved : Batch := { batch with agenda }
  have here : moved.stages[index]? = some stage := found
  have events : (moved.take index).eventsOf index = batch.eventsOf index ++ (moved.move stage).1 :=
    eventsOf_take_self here
  have tool : (moved.take index).tool = batch.tool := by rw [take_eq here]
  change (moved.take index).Underway index adapter snapshot (moved.move stage).2.1
  cases stage with
  | created snapshot => exact underway.elim
  | prepared own document =>
      obtain ⟨rfl, rfl, none⟩ := underway
      rw [none, List.nil_append] at events
      cases begun : own.begin agenda.now document (own.script batch.tool document) with
      | mk first progress =>
          cases progress with
          | done outcome =>
              have move
                  : moved.move (.prepared own document) = (first, .landed outcome, some 0) := by
                simp only [Batch.move, BatchStage.turn, moved, begun]
              rw [move] at events ⊢
              rw [Underway, tool, events]
              exact Adapter.lint_of_done begun
          | working duration linting =>
              have move
                  : moved.move (.prepared own document)
                    = (first, .working linting, some duration) := by
                simp only [Batch.move, BatchStage.turn, moved, begun]
              have began := Adapter.began_of_working begun
              rw [move] at events ⊢
              refine ⟨duration, by rw [tool, events, began, begun], ?_⟩
              intro timer planned own
              rcases mem_plan_take here planned with before | ⟨waits, wait, rfl⟩
              · have turn := List.mem_map_of_mem (f := (·.turn)) before
                rw [Agenda.map_plan, own] at turn
                exact (gone turn).elim
              · rw [move] at wait
                rw [began, ← Option.some.inj wait]
  | working linting =>
      obtain ⟨duration, begun, due⟩ := underway
      have now : ⟨agenda.now, index⟩ ∈ batch.agenda.plan := by
        rw [Agenda.plan_next? next]
        exact List.mem_cons_self
      have ends : agenda.now = linting.began + duration := due _ now rfl
      have move
          : moved.move (.working linting)
            = ((linting.complete agenda.now).1, .landed (linting.complete agenda.now).2, some 0) :=
        rfl
      rw [move] at events ⊢
      rw [Underway, tool, events, ends]
      exact Adapter.lint_of_working begun
  | landed outcome =>
      have move : moved.move (.landed outcome) = ([], .arriving outcome, some 0) := rfl
      rw [move] at events ⊢
      rw [Underway, tool, events, List.append_nil]
      exact underway
  | arriving outcome =>
      have move : moved.move (.arriving outcome) = ([], .ended outcome, none) := rfl
      rw [move] at events ⊢
      rw [Underway, tool, events, List.append_nil]
      exact underway
  | ended outcome => exact (left rfl).elim

-----------------------------------------------------------------------------------------
-- The lints of a batch
-----------------------------------------------------------------------------------------

/-- The next turn is the first one of a lint. -/
structure Starts (batch : Batch) (index : Nat) : Prop where
  next : ∃ agenda, batch.next? = some (index, agenda)
  created : ∃ snapshot, batch.stages[index]? = some (.created snapshot)

/-- After steps a lint has had no turn, or it has had its first one at some place among them and
has since gone as it goes with nothing else going on.
-/
def Accounted (first : Batch) (steps : List BatchStep) (index : Nat) (snapshot : Snapshot) : Prop :=
  ((first.after steps).stages[index]? = some (.created snapshot)
    ∧ (first.after steps).eventsOf index = [])
  ∨ ∃ earlier later stage,
      steps = earlier ++ .turn :: later
      ∧ (first.after earlier).Starts index
      ∧ (first.after steps).stages[index]? = some stage
      ∧ (first.after steps).Underway index (first.after earlier).provider.adapter snapshot stage

theorem after_concat (first : Batch) (steps : List BatchStep) (step : BatchStep)
    : first.after (steps ++ [step]) = (first.after steps).act step := by
  simp [after]

/-- A step that a lint does not notice leaves it accounted for. -/
theorem Accounted.unnoticed {first : Batch} {steps : List BatchStep} {step : BatchStep}
    (accounted : Accounted first steps index snapshot)
    (tool : (first.after (steps ++ [step])).tool = (first.after steps).tool)
    (stages
      : (first.after (steps ++ [step])).stages[index]? = (first.after steps).stages[index]?)
    (events
      : (first.after (steps ++ [step])).eventsOf index = (first.after steps).eventsOf index)
    (plan
      : ∀ timer ∈ (first.after (steps ++ [step])).agenda.plan,
          timer.turn = index → timer ∈ (first.after steps).agenda.plan)
    : Accounted first (steps ++ [step]) index snapshot := by
  rcases accounted with ⟨created, none⟩ | ⟨earlier, later, stage, split, starts, found, underway⟩
  · exact Or.inl ⟨stages.trans created, events.trans none⟩
  · exact Or.inr ⟨earlier, later ++ [step], stage, by simp [split], starts, stages.trans found,
      underway.unnoticed tool events plan⟩

/-- A lint stays accounted for in a turn of its own, which may be its first. -/
theorem Accounted.turn {first : Batch} {steps : List BatchStep} {agenda : Agenda Nat}
    (accounted : Accounted first steps index snapshot)
    (next : (first.after steps).next? = some (index, agenda))
    (found : (first.after steps).stages[index]? = some stage) (left : stage.turnsLeft ≠ 0)
    (gone : index ∉ agenda.turns)
    (taken
      : first.after (steps ++ [.turn]) = ({ first.after steps with agenda } : Batch).take index)
    : Accounted first (steps ++ [.turn]) index snapshot := by
  have here : ({ first.after steps with agenda } : Batch).stages[index]? = some stage := found
  rw [Accounted, taken]
  rcases accounted with ⟨created, none⟩ | ⟨earlier, later, own, split, starts, foundOwn, underway⟩
  · obtain rfl := Option.some.inj (found.symm.trans created)
    refine Or.inr ⟨steps, [], .prepared (first.after steps).provider.adapter snapshot, rfl,
      ⟨⟨agenda, next⟩, ⟨snapshot, found⟩⟩, stages_take_self here, rfl, rfl, ?_⟩
    rw [eventsOf_take_self here]
    change (first.after steps).eventsOf index ++ [] = []
    rw [none, List.append_nil]
  · obtain rfl := Option.some.inj (found.symm.trans foundOwn)
    exact Or.inr ⟨earlier, later ++ [.turn], _, by simp [split], starts, stages_take_self here,
      underway.turn next found left gone⟩

/-- One more step leaves every lint accounted for: it is the lint's own turn, or the lint does not
notice it.
-/
theorem Accounted.act {first : Batch} {steps : List BatchStep}
    (accounted : Accounted first steps index snapshot) (orderly : (first.after steps).Orderly)
    (step : BatchStep)
    : Accounted first (steps ++ [step]) index snapshot := by
  have stepped := after_concat first steps step
  cases step with
  | update settings =>
      apply accounted.unnoticed <;> rw [stepped]
      · rfl
      · rfl
      · rfl
      · exact fun _ planned _ => planned
  | turn =>
      rcases orderly.turn_cases with
        ⟨idle, _⟩ | ⟨mover, agenda, stage, next, found, left, gone, taken⟩
      · rw [idle] at stepped
        apply accounted.unnoticed <;> rw [stepped]
        exact fun _ planned _ => planned
      · rw [taken] at stepped
        by_cases own : mover = index
        · subst own
          exact accounted.turn next found left gone stepped
        · have here
              : ({ first.after steps with agenda } : Batch).stages[mover]? = some stage := found
          apply accounted.unnoticed <;> rw [stepped]
          · rw [take_eq here]
          · exact stages_take_other here own
          · exact eventsOf_take_other here own
          · intro timer planned ours
            rcases mem_plan_take here planned with before | ⟨duration, _, rfl⟩
            · rw [Agenda.plan_next? next]
              exact List.mem_cons_of_mem _ before
            · exact (own ours).elim

/-- Every lint of a batch is accounted for at any time, by induction over the steps. -/
theorem accounted_after {first : Batch} (orderly : first.Orderly)
    (created : first.stages[index]? = some (.created snapshot)) (none : first.eventsOf index = [])
    (steps : List BatchStep)
    : Accounted first steps index snapshot := by
  induction steps using List.reverseRecOn with
  | nil => exact Or.inl ⟨created, none⟩
  | append_singleton steps step ih => exact ih.act (orderly.after steps).1 step

-----------------------------------------------------------------------------------------
-- A batch as a whole
-----------------------------------------------------------------------------------------

/-- Documents linted at the same time do not concern each other, whatever new settings come into
force among their turns. Once there have been turns enough, each lint has ended as it does with
nothing else going on and under the settings that were in force when it had its first turn, and has
left the same events. No result is lost, and all messages are in the order of the documents.
-/
theorem independent_lints (settings : Settings) (tool : Tool.Behaviour)
    (snapshots : List Snapshot) (steps : List BatchStep)
    (enough : 5 * snapshots.length ≤ steps.count .turn)
    : let first := start (Provider.ofSettings settings).2 tool snapshots
      let batch := first.after steps
      batch.stages.length = snapshots.length
      ∧ (∀ entry ∈ batch.events, entry.1 < snapshots.length)
      ∧ (∀ index snapshot,
          snapshots[index]? = some snapshot
          → ∃ earlier later outcome,
              steps = earlier ++ .turn :: later
              ∧ (first.after earlier).Starts index
              ∧ (let alone := (Provider.ofSettings (first.after earlier).provider.settings).2
                alone.lint snapshot (alone.adapter.script tool snapshot)
                  = (batch.eventsOf index, outcome))
              ∧ batch.stages[index]? = some (.ended outcome))
      ∧ match batch.outcome with
        | .ok lists => batch.stages = lists.map fun messages => .ended (.ok messages)
        | .error failure => .ended (.error failure) ∈ batch.stages := by
  intro first batch
  have orderly : first.Orderly := orderly_start _ _ _
  have complete : batch.Complete snapshots.length :=
    after_of_act (·.Complete snapshots.length) (fun _ step complete => complete.act step)
      (complete_start _ _ _) steps
  have unchanged : first.Current := rfl
  have current (some : List BatchStep) : (first.after some).Current :=
    after_of_act Current (fun _ step current => current.act step) unchanged some
  have same : batch.tool = tool :=
    after_of_act (·.tool = tool) (fun batch step same => (tool_act batch step).trans same) rfl steps
  have allEnded : ∀ stage ∈ batch.stages, ∃ outcome, stage = .ended outcome := by
    intro stage member
    have left : batch.turnsLeft ≤ first.turnsLeft - steps.count .turn := (orderly.after steps).2
    rw [turnsLeft_start] at left
    have none : batch.turnsLeft = 0 := by omega
    exact BatchStage.ended_of_turnsLeft (total_eq_zero.mp none stage member)
  refine ⟨complete.lints, complete.events, ?_,
    ((noted_start _ _ _).after orderly steps).outcome allEnded⟩
  intro index snapshot document
  have created : first.stages[index]? = some (.created snapshot) := by
    simp [first, start, document]
  rcases accounted_after orderly created rfl steps with
    ⟨waits, _⟩ | ⟨earlier, later, stage, split, starts, found, underway⟩
  · obtain ⟨_, ended⟩ := allEnded _ (List.mem_of_getElem? waits)
    cases ended
  · obtain ⟨outcome, rfl⟩ := allEnded stage (List.mem_of_getElem? found)
    refine ⟨earlier, later, outcome, split, starts, ?_, found⟩
    rw [← current earlier, ← same]
    exact underway

/-- Two documents, of which the second has its first turn when linting is off already. -/
def twoDocuments : List Snapshot :=
  [⟨"import os\n", "/w/a.py", none⟩, ⟨"import re\n", "/w/b.py", none⟩]

def disabledMidway : List BatchStep :=
  .turn :: .update { enabled := false } :: List.replicate 10 .turn

/-- A tool that finds nothing in 300 ms. -/
def slowTool : Tool.Behaviour :=
  .constant { stdout := [0x5b, 0x5d], work := some 300000000 }

theorem independent_lints_of_disabledMidway
    : 5 * twoDocuments.length ≤ disabledMidway.count .turn
      ∧ let first := start (Provider.ofSettings {}).2 slowTool twoDocuments
        let batch := first.after disabledMidway
        ∃ earlier later outcome,
          disabledMidway = earlier ++ .turn :: later
          ∧ (first.after earlier).Starts 1
          ∧ (let alone := (Provider.ofSettings (first.after earlier).provider.settings).2
            alone.lint ⟨"import re\n", "/w/b.py", none⟩
                (alone.adapter.script slowTool ⟨"import re\n", "/w/b.py", none⟩)
              = (batch.eventsOf 1, outcome))
          ∧ batch.stages[1]? = some (.ended outcome) := by
  have enough : 5 * twoDocuments.length ≤ disabledMidway.count .turn := by decide
  obtain ⟨_, _, lints, _⟩ := independent_lints {} slowTool twoDocuments disabledMidway enough
  exact ⟨enough, lints 1 _ rfl⟩

end EditorLint.Batch
