import EditorLint.Proofs.Agenda
import EditorLint.Provider.Batch

/-! A turn of a batch is what one lint does in it, and nothing else. Every lint that has not ended
has one turn ahead, so that a batch comes to its end, and none of its lints is lost on the way.
-/

namespace EditorLint

variable {index other : Nat} {stage : BatchStage}

-----------------------------------------------------------------------------------------
-- One lint in its turn
-----------------------------------------------------------------------------------------

namespace BatchStage

/-- A lint waits for another turn as long as it has not ended. -/
theorem turn_wait (stage : BatchStage) (provider : Provider) (tool : Tool.Behaviour) (now : Time)
    : (stage.turn provider tool now).2.2.isSome
      ↔ (stage.turn provider tool now).2.1.turnsLeft ≠ 0 := by
  cases stage with
  | prepared adapter snapshot =>
      simp only [turn]
      split <;> simp [turnsLeft]
  | _ => simp [turn, turnsLeft]

/-- A lint that has not ended comes nearer to its end. -/
theorem turnsLeft_turn {stage : BatchStage} (left : stage.turnsLeft ≠ 0) (provider : Provider)
    (tool : Tool.Behaviour) (now : Time)
    : (stage.turn provider tool now).2.1.turnsLeft < stage.turnsLeft := by
  cases stage with
  | prepared adapter snapshot =>
      simp only [turn]
      split <;> simp [turnsLeft]
  | ended outcome => exact (left rfl).elim
  | _ => simp [turn, turnsLeft]

theorem ended_of_failure? {stage : BatchStage} {failure : Failure}
    (failed : stage.failure? = some failure)
    : stage = .ended (.error failure) := by
  unfold failure? at failed
  split at failed
  · rw [Option.some.inj failed]
  · cases failed

/-- With no turn left a lint has ended. -/
theorem ended_of_turnsLeft {stage : BatchStage} (none : stage.turnsLeft = 0)
    : ∃ outcome, stage = .ended outcome := by
  cases stage with
  | ended outcome => exact ⟨outcome, rfl⟩
  | _ => simp [turnsLeft] at none

end BatchStage

namespace Batch

variable {batch : Batch}

/-- The events of one lint, in order. -/
def eventsOf (batch : Batch) (index : Nat) : List Tool.Event :=
  (batch.events.filter (·.1 == index)).map (·.2)

/-- What a lint does in its turn. -/
def move (batch : Batch) (stage : BatchStage) : List Tool.Event × BatchStage × Option Time :=
  stage.turn batch.provider batch.tool batch.agenda.now

/-- A turn of a lint is what the lint does, and nothing else. -/
theorem take_eq (found : batch.stages[index]? = some stage)
    : batch.take index
      = { batch with
          agenda := match (batch.move stage).2.2 with
            | none => batch.agenda
            | some duration => batch.agenda.wait duration index
          stages := batch.stages.set index (batch.move stage).2.1
          events := batch.events ++ (batch.move stage).1.map fun event => (index, event)
          failure := batch.failure.or (batch.move stage).2.1.failure? } := by
  rw [take, found]
  rfl

/-- The events of a lint are followed by those of its turn. -/
theorem eventsOf_take_self (found : batch.stages[index]? = some stage)
    : (batch.take index).eventsOf index = batch.eventsOf index ++ (batch.move stage).1 := by
  rw [take_eq found]
  simp [eventsOf, List.filter_map, Function.comp_def]

/-- A turn of one lint leaves no event of another. -/
theorem eventsOf_take_other (found : batch.stages[index]? = some stage) (apart : index ≠ other)
    : (batch.take index).eventsOf other = batch.eventsOf other := by
  rw [take_eq found]
  simp [eventsOf, List.filter_map, Function.comp_def, apart]

theorem stages_take_self (found : batch.stages[index]? = some stage)
    : (batch.take index).stages[index]? = some (batch.move stage).2.1 := by
  obtain ⟨bound, _⟩ := List.getElem?_eq_some_iff.mp found
  rw [take_eq found]
  simp [bound]

theorem stages_take_other (found : batch.stages[index]? = some stage) (apart : index ≠ other)
    : (batch.take index).stages[other]? = batch.stages[other]? := by
  rw [take_eq found]
  exact List.getElem?_set_ne apart

/-- What is planned after a turn: what was planned before, and the lint itself if it waits. -/
theorem mem_plan_take (found : batch.stages[index]? = some stage) {timer : Timer Nat}
    (planned : timer ∈ (batch.take index).agenda.plan)
    : timer ∈ batch.agenda.plan
      ∨ ∃ duration,
          (batch.move stage).2.2 = some duration
          ∧ timer = ⟨batch.agenda.now + duration, index⟩ := by
  rw [take_eq found] at planned
  dsimp only at planned
  split at planned
  · exact Or.inl planned
  next duration wait =>
    rcases List.mem_cons.mp ((Agenda.plan_wait _ duration index).mem_iff.mp planned) with
      rfl | before
    · exact Or.inr ⟨duration, wait, rfl⟩
    · exact Or.inl before

/-- A lint that waits again has one more turn, and one that has ended has none. -/
theorem turns_take (found : batch.stages[index]? = some stage)
    : (batch.take index).agenda.turns.Perm
        (if (batch.move stage).2.1.turnsLeft = 0 then batch.agenda.turns
          else index :: batch.agenda.turns) := by
  have waits := stage.turn_wait batch.provider batch.tool batch.agenda.now
  change (batch.move stage).2.2.isSome ↔ (batch.move stage).2.1.turnsLeft ≠ 0 at waits
  rw [take_eq found]
  dsimp only
  split
  next none =>
    rw [none] at waits
    rw [if_pos (by simpa using waits)]
  next duration wait =>
    rw [wait] at waits
    rw [if_neg (by simpa using waits)]
    exact Agenda.turns_wait _ duration index

-----------------------------------------------------------------------------------------
-- Which turns are left
-----------------------------------------------------------------------------------------

/-- Every lint that has not ended has one turn ahead, and the others have none. -/
structure Orderly (batch : Batch) : Prop where
  once : batch.agenda.turns.Nodup
  waits
    : ∀ index,
        index ∈ batch.agenda.turns
        ↔ ∃ stage, batch.stages[index]? = some stage ∧ stage.turnsLeft ≠ 0

/-- When there is no next turn, no lint has one ahead. -/
theorem turns_of_next?_none (nothing : batch.next? = none) : batch.agenda.turns = [] := by
  have quiet : batch.agenda.QuietAt batch.horizon := nothing
  have ready := quiet.ready
  cases timers : batch.agenda.timers with
  | nil => simp [Agenda.turns, ready, timers]
  | cons first later =>
      have head : batch.agenda.timers.head? = some first := by simp [timers]
      have ahead := quiet.due head
      simp only [horizon, timers, List.foldr_cons] at ahead
      exact (Nat.not_lt.mpr (Nat.le_max_left _ _) ahead).elim

/-- How a turn of an orderly batch goes: either all lints have ended and nothing happens, or one
that has not ended has its turn and no other turn ahead.
-/
theorem Orderly.turn_cases (orderly : batch.Orderly)
    : (batch.act .turn = batch ∧ ∀ stage ∈ batch.stages, stage.turnsLeft = 0)
      ∨ ∃ index agenda stage,
          batch.next? = some (index, agenda)
          ∧ batch.stages[index]? = some stage
          ∧ stage.turnsLeft ≠ 0
          ∧ index ∉ agenda.turns
          ∧ batch.act .turn = ({ batch with agenda } : Batch).take index := by
  cases next : batch.next? with
  | none =>
      refine Or.inl ⟨by simp [act, next], ?_⟩
      intro stage member
      obtain ⟨index, found⟩ := List.getElem?_of_mem member
      by_contra left
      have ahead := (orderly.waits index).mpr ⟨stage, found, left⟩
      rw [turns_of_next?_none next] at ahead
      cases ahead
  | some entry =>
      obtain ⟨index, agenda⟩ := entry
      have taken := Agenda.turns_next? next
      obtain ⟨stage, found, left⟩ := (orderly.waits index).mp (taken.mem_iff.mpr (by simp))
      have once := (taken.nodup_iff.mp orderly.once)
      exact Or.inr ⟨index, agenda, stage, rfl, found, left, (List.nodup_cons.mp once).1,
        by simp [act, next]⟩

/-- Each step keeps account of who has a turn ahead. -/
theorem Orderly.act (orderly : batch.Orderly) (step : BatchStep) : (batch.act step).Orderly := by
  cases step with
  | update settings => exact ⟨orderly.once, orderly.waits⟩
  | turn =>
      rcases orderly.turn_cases with
        ⟨same, _⟩ | ⟨index, agenda, stage, next, found, _, gone, taken⟩
      · rw [same]
        exact orderly
      · have before := Agenda.turns_next? next
        have here : ({ batch with agenda } : Batch).stages[index]? = some stage := found
        have after := turns_take here
        rw [taken]
        constructor
        · have once := (List.nodup_cons.mp (before.nodup_iff.mp orderly.once)).2
          rw [after.nodup_iff]
          split
          · exact once
          · exact List.nodup_cons.mpr ⟨gone, once⟩
        · intro other
          rw [after.mem_iff]
          by_cases apart : index = other
          · subst apart
            rw [stages_take_self here]
            split <;> simp [*]
          · rw [stages_take_other here apart,
              ← orderly.waits other, before.mem_iff]
            split <;> simp [Ne.symm apart]

/-- Each turn brings the batch nearer to its end. -/
theorem Orderly.turnsLeft_turn (orderly : batch.Orderly)
    : (batch.act .turn).turnsLeft ≤ batch.turnsLeft - 1 := by
  rcases orderly.turn_cases with ⟨same, none⟩ | ⟨index, agenda, stage, _, found, left, _, taken⟩
  · rw [same, turnsLeft, total_eq_zero.mpr none]
  · have fewer := BatchStage.turnsLeft_turn left batch.provider batch.tool agenda.now
    have changed := total_set found (({ batch with agenda } : Batch).move stage).2.1
      BatchStage.turnsLeft
    have here : ({ batch with agenda } : Batch).stages[index]? = some stage := found
    rw [taken, take_eq here]
    simp only [turnsLeft]
    change (({ batch with agenda } : Batch).move stage).2.1.turnsLeft < _ at fewer
    omega

/-- Steps keep account of who has a turn ahead, and each turn among them brings the batch nearer to
its end, by induction over the steps.
-/
theorem Orderly.after (orderly : batch.Orderly) (steps : List BatchStep)
    : (batch.after steps).Orderly
      ∧ (batch.after steps).turnsLeft ≤ batch.turnsLeft - steps.count .turn := by
  induction steps generalizing batch with
  | nil => exact ⟨orderly, Nat.le_refl _⟩
  | cons step rest ih =>
      obtain ⟨kept, within⟩ := ih (orderly.act step)
      refine ⟨kept, Nat.le_trans within ?_⟩
      cases step with
      | update settings => simp [Batch.act, update, turnsLeft]
      | turn =>
          have nearer := orderly.turnsLeft_turn
          rw [List.count_cons_self]
          omega

/-- At first every lint has one turn ahead. -/
theorem orderly_start (provider : Provider) (tool : Tool.Behaviour) (snapshots : List Snapshot)
    : (start provider tool snapshots).Orderly := by
  constructor
  · simp [start, Agenda.turns, List.nodup_range]
  · intro index
    simp only [start, Agenda.turns, List.map_nil, List.append_nil, List.mem_range,
      List.getElem?_map, Option.map_eq_some_iff]
    constructor
    · intro bound
      exact ⟨_, ⟨snapshots[index], List.getElem?_eq_getElem bound, rfl⟩, Nat.succ_ne_zero 4⟩
    · rintro ⟨_, ⟨snapshot, found, _⟩, _⟩
      exact (List.getElem?_eq_some_iff.mp found).1

theorem turnsLeft_start (provider : Provider) (tool : Tool.Behaviour) (snapshots : List Snapshot)
    : (start provider tool snapshots).turnsLeft = 5 * snapshots.length := by
  simp only [turnsLeft, start]
  induction snapshots with
  | nil => rfl
  | cons snapshot rest ih =>
      simp only [List.map_cons, total, BatchStage.turnsLeft, ih, List.length_cons]
      omega

-----------------------------------------------------------------------------------------
-- Failures
-----------------------------------------------------------------------------------------

/-- A batch has failed if and only if one of its lints has ended with a failure. -/
structure Noted (batch : Batch) : Prop where
  failed : ∀ failure, batch.failure = some failure → .ended (.error failure) ∈ batch.stages
  well : batch.failure = none → ∀ stage ∈ batch.stages, stage.failure? = none

theorem noted_start (provider : Provider) (tool : Tool.Behaviour) (snapshots : List Snapshot)
    : (start provider tool snapshots).Noted where
  failed := nofun
  well _ stage member := by
    obtain ⟨snapshot, _, rfl⟩ := List.mem_map.mp member
    rfl

/-- A lint that ends with a failure makes it the failure of the batch, unless there is one. -/
theorem Noted.act (noted : batch.Noted) (orderly : batch.Orderly) (step : BatchStep)
    : (batch.act step).Noted := by
  cases step with
  | update settings => exact ⟨noted.failed, noted.well⟩
  | turn =>
      rcases orderly.turn_cases with ⟨idle, _⟩ | ⟨index, agenda, stage, _, found, left, _, taken⟩
      · rw [idle]
        exact noted
      · have here : ({ batch with agenda } : Batch).stages[index]? = some stage := found
        rw [taken, take_eq here]
        generalize (({ batch with agenda } : Batch).move stage).2.1 = moved
        obtain ⟨bound, _⟩ := List.getElem?_eq_some_iff.mp found
        constructor
        · intro failure failed
          rcases Option.or_eq_some_iff.mp failed with before | ⟨_, new⟩
          · obtain ⟨other, ended⟩ := List.getElem?_of_mem (noted.failed failure before)
            have apart : index ≠ other := by
              rintro rfl
              obtain rfl := Option.some.inj (found.symm.trans ended)
              exact left rfl
            exact List.mem_of_getElem? ((List.getElem?_set_ne apart).trans ended)
          · rw [← BatchStage.ended_of_failure? new]
            exact List.mem_set bound _
        · intro none
          obtain ⟨before, new⟩ := Option.or_eq_none_iff.mp none
          intro other member
          rcases List.mem_or_eq_of_mem_set member with old | rfl
          · exact noted.well before other old
          · exact new

theorem Noted.after (noted : batch.Noted) (orderly : batch.Orderly) (steps : List BatchStep)
    : (batch.after steps).Noted := by
  induction steps generalizing batch with
  | nil => exact noted
  | cons step rest ih => exact ih (noted.act orderly step) (orderly.act step)

/-- When all lints have ended, the messages of the batch are theirs, in order, or its failure is
that of one of them.
-/
theorem Noted.outcome (noted : batch.Noted)
    (allEnded : ∀ stage ∈ batch.stages, ∃ outcome, stage = .ended outcome)
    : match batch.outcome with
      | .ok lists => batch.stages = lists.map fun messages => .ended (.ok messages)
      | .error failure => .ended (.error failure) ∈ batch.stages := by
  cases failed : batch.failure with
  | some failure =>
      simp only [Batch.outcome, failed]
      exact noted.failed failure failed
  | none =>
      have same : ∀ stage ∈ batch.stages, .ended (.ok stage.messages) = stage := by
        intro stage member
        obtain ⟨outcome, rfl⟩ := allEnded stage member
        cases outcome with
        | ok messages => rfl
        | error failure => cases noted.well failed _ member
      simp only [Batch.outcome, failed, List.map_map]
      exact ((List.map_congr_left same).trans (List.map_id _)).symm

-----------------------------------------------------------------------------------------
-- What no step changes
-----------------------------------------------------------------------------------------

/-- No lint is lost or added, and every event is of one of the lints. -/
structure Complete (batch : Batch) (count : Nat) : Prop where
  lints : batch.stages.length = count
  events : ∀ entry ∈ batch.events, entry.1 < count

theorem complete_start (provider : Provider) (tool : Tool.Behaviour) (snapshots : List Snapshot)
    : (start provider tool snapshots).Complete snapshots.length where
  lints := List.length_map ..
  events _ member := by cases member

theorem Complete.act {count : Nat} (complete : batch.Complete count) (step : BatchStep)
    : (batch.act step).Complete count := by
  cases step with
  | update settings => exact ⟨complete.lints, complete.events⟩
  | turn =>
      unfold Batch.act
      dsimp only
      split
      · exact complete
      next index agenda next =>
        cases found : batch.stages[index]? with
        | none =>
            have idle : ({ batch with agenda } : Batch).take index = { batch with agenda } := by
              simp only [take, found]
            rw [idle]
            exact ⟨complete.lints, complete.events⟩
        | some stage =>
            have here : ({ batch with agenda } : Batch).stages[index]? = some stage := found
            obtain ⟨bound, _⟩ := List.getElem?_eq_some_iff.mp found
            rw [take_eq here]
            refine ⟨(List.length_set ..).trans complete.lints, ?_⟩
            intro entry member
            rcases List.mem_append.mp member with before | new
            · exact complete.events entry before
            · obtain ⟨event, _, rfl⟩ := List.mem_map.mp new
              exact complete.lints ▸ bound

/-- The adapter is always the one that belongs to the settings in force. -/
def Current (batch : Batch) : Prop :=
  batch.provider = (Provider.ofSettings batch.provider.settings).2

theorem Current.act (current : batch.Current) (step : BatchStep) : (batch.act step).Current := by
  cases step with
  | update settings => rfl
  | turn =>
      unfold Batch.act
      dsimp only
      split
      · exact current
      · unfold take
        split
        · exact current
        · exact current

theorem tool_act (batch : Batch) (step : BatchStep) : (batch.act step).tool = batch.tool := by
  cases step with
  | update settings => rfl
  | turn =>
      unfold Batch.act
      dsimp only
      split
      · rfl
      · unfold take
        split <;> rfl

/-- What every step keeps, all of them keep, by induction over the steps. -/
theorem after_of_act (P : Batch → Prop) (keeps : ∀ batch step, P batch → P (batch.act step))
    (holds : P batch) (steps : List BatchStep)
    : P (batch.after steps) := by
  induction steps generalizing batch with
  | nil => exact holds
  | cons step rest ih => exact ih (keeps batch step holds)

end Batch

end EditorLint
