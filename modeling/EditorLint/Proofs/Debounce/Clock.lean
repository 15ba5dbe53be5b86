import EditorLint.Proofs.Debounce.Quiet

/-! The clock of a debouncer. Turns only post turns, let tasks wait and end their wait, so what
these three leave alone every turn leaves alone, the clock among it. Running ends at the time to
which it was to run.
-/

namespace EditorLint.Debounce.Manager

variable {ω κ σ μ ι : Type} {host : Host ω κ σ μ ι}

/-- A fact about an agenda that stays true when a turn is posted, and when a wait begins or ends.
No turn has a handler start, so posting one of those need not be allowed for.
-/
structure AgendaKeeps (holds : Agenda (Turn κ μ ι) → Prop) : Prop where
  post
    : ∀ agenda turn, (∀ message, turn ≠ .handler message) → holds agenda → holds (agenda.post turn)
  wait : ∀ agenda duration id, holds agenda → holds (agenda.wait duration (.task id))
  hasten : ∀ agenda id, holds agenda → holds (agenda.hasten (Turn.isOf id) (.task id))

namespace AgendaKeeps

variable {holds : Agenda (Turn κ μ ι) → Prop}

theorem complete (keeps : AgendaKeeps holds) {m : Manager ω κ σ μ ι} (before : holds m.agenda)
    (host : Host ω κ σ μ ι) (step : ι) (request : Request κ)
    : holds (m.complete host step request).agenda := by
  have carried : holds (m.carryOut request).agenda := by
    cases request with
    | schedule uri job delay => exact keeps.post m.agenda _ (fun _ => nofun) before
    | cancel uri => exact before
  change holds (m.carryOut request).release.agenda
  unfold release
  split
  · exact carried
  · exact keeps.post _ _ (fun _ => nofun) carried

theorem proceed (keeps : AgendaKeeps holds) {m : Manager ω κ σ μ ι} (before : holds m.agenda)
    (host : Host ω κ σ μ ι) (steps : List ι)
    : holds (m.proceed host steps).agenda := by
  fun_induction Manager.proceed host m steps with
  | case1 | case2 | case3 => exact before
  | case4 m step later world request asked given free id unfinished =>
      exact keeps.hasten m.agenda id before
  | case5 m step later world request asked given free cleared ih =>
      exact ih (keeps.complete (m := { given with held := true }) before host step request)

theorem endTask (keeps : AgendaKeeps holds) {m : Manager ω κ σ μ ι} (before : holds m.agenda)
    (id : Nat)
    : holds (m.endTask id).agenda := by
  dsimp only [Manager.endTask]
  split
  · exact before
  · exact keeps.post _ _ (fun _ => nofun) before

theorem afterTurn (keeps : AgendaKeeps holds) {m : Manager ω κ σ μ ι} (before : holds m.agenda)
    (host : Host ω κ σ μ ι) (id : Nat) (result : ω × Outcome σ)
    : holds (m.afterTurn host id result).agenda := by
  obtain ⟨world, outcome⟩ := result
  cases outcome with
  | wait duration state => exact keeps.wait m.agenda duration id before
  | finished | cancelled => exact keeps.endTask (m := { m with world }) before id
  | failed failure =>
      exact keeps.endTask (m := { m with world := host.report m.now failure world }) before id

theorem runTask (keeps : AgendaKeeps holds) {m : Manager ω κ σ μ ι} (before : holds m.agenda)
    (host : Host ω κ σ μ ι) (id : Nat)
    : holds (m.runTask host id).agenda := by
  unfold Manager.runTask
  split
  · exact before
  next task _ =>
    split
    · split
      · exact keeps.endTask before id
      · exact keeps.wait m.agenda _ id before
    · split
      · exact keeps.endTask before id
      · exact keeps.afterTurn before host id _
    · split
      · exact keeps.afterTurn (m := m.setTask id _) before host id _
      · exact keeps.afterTurn before host id _
    · exact before

/-- Every turn keeps such a fact, by the kind of the turn. -/
theorem take (keeps : AgendaKeeps holds) {m : Manager ω κ σ μ ι} (before : holds m.agenda)
    (host : Host ω κ σ μ ι) (turn : Turn κ μ ι)
    : holds (m.take host turn).agenda := by
  cases turn with
  | task id => exact keeps.runTask before host id
  | handler message =>
      exact keeps.proceed (m := { m with world := (host.begin m.now message m.world).1 }) before
        host _
  | cleared pending => exact keeps.proceed (keeps.complete before host _ _) host _
  | locked pending =>
      simp only [Manager.take, grant]
      split
      next id _ => exact keeps.hasten m.agenda id before
      next => exact keeps.proceed (keeps.complete before host _ _) host _

end AgendaKeeps

/-- No turn moves the clock once it is under way. -/
theorem agendaKeeps_now (instant : Time)
    : AgendaKeeps fun agenda : Agenda (Turn κ μ ι) => agenda.now = instant where
  post _ _ _ before := before
  wait agenda duration id before := by
    rw [Agenda.wait]
    split <;> exact before
  hasten agenda id before := by
    rw [Agenda.hasten]
    split <;> exact before

/-- No turn has a handler start. -/
theorem agendaKeeps_noHandler
    : AgendaKeeps fun agenda : Agenda (Turn κ μ ι) =>
        ∀ message, .handler message ∉ agenda.ready where
  post agenda turn other before message ready := by
    rcases List.mem_append.mp ready with old | new
    · exact before message old
    · exact other message (List.mem_singleton.mp new).symm
  wait agenda duration id before message ready := by
    rcases Agenda.mem_ready_wait.mp ready with old | ⟨_, new⟩
    · exact before message old
    · cases new
  hasten agenda id before message ready := by
    rcases Agenda.mem_ready_of_hasten ready with old | new
    · exact before message old
    · cases new

/-- A turn that is ready stays so while others are taken. -/
theorem agendaKeeps_mem_ready (turn : Turn κ μ ι)
    : AgendaKeeps fun agenda : Agenda (Turn κ μ ι) => turn ∈ agenda.ready where
  post _ _ _ before := List.mem_append_left _ before
  wait _ _ _ before := Agenda.mem_ready_wait.mpr (Or.inl before)
  hasten _ _ before := Agenda.mem_ready_hasten before

/-- What waits for the clock stays ahead of it. -/
theorem agendaKeeps_ahead : AgendaKeeps (Agenda.Ahead : Agenda (Turn κ μ ι) → Prop) where
  post _ _ _ before := ⟨before.sorted, before.later⟩
  wait _ duration id before := before.wait duration (.task id)
  hasten _ id before := before.hasten (Turn.isOf id) (.task id)

/-- The next turn moves the clock forward at most to the limit. -/
theorem step?_now {m after : Manager ω κ σ μ ι} {limit : Time} (ahead : m.agenda.Ahead)
    (stepped : m.step? host limit = some after)
    : after.agenda.Ahead ∧ m.now ≤ after.now ∧ (after.now = m.now ∨ after.now ≤ limit) := by
  obtain ⟨⟨turn, agenda⟩, next, rfl⟩ := Option.map_eq_some_iff.mp stepped
  obtain ⟨still, forward, bound⟩ := ahead.next? next
  have same := (agendaKeeps_now agenda.now).take (m := { m with agenda }) rfl host turn
  refine ⟨agendaKeeps_ahead.take (m := { m with agenda }) still host turn, ?_⟩
  simp only [now, same]
  exact ⟨forward, bound⟩

/-- A run does not move the clock beyond its limit, by induction over its turns. -/
theorem runFor_now (host : Host ω κ σ μ ι) {limit : Time} (fuel : Nat)
    {m : Manager ω κ σ μ ι} (ahead : m.agenda.Ahead)
    (within : m.now ≤ limit)
    : (m.runFor host limit fuel).agenda.Ahead
      ∧ m.now ≤ (m.runFor host limit fuel).now
      ∧ (m.runFor host limit fuel).now ≤ limit := by
  induction fuel generalizing m with
  | zero => exact ⟨ahead, Nat.le.refl, within⟩
  | succ fuel ih =>
      rw [runFor]
      cases stepped : m.step? host limit with
      | none => exact ⟨ahead, Nat.le.refl, within⟩
      | some after =>
          obtain ⟨still, forward, bound⟩ := step?_now ahead stepped
          have inside : after.now ≤ limit := bound.elim (fun same => same ▸ within) id
          obtain ⟨last, onward, within⟩ := ih still inside
          exact ⟨last, Nat.le_trans forward onward, within⟩

variable {falling : σ → Prop} {m : Manager ω κ σ μ ι}

/-- Taking what turns can be taken moves no clock, and leaves none that could be taken. -/
theorem settle_now (bounded : host.Bounded) (prompt : host.Prompt falling)
    (coherent : Coherent falling .free m) (ahead : m.agenda.Ahead)
    : (m.settle host).now = m.now ∧ (m.settle host).agenda.QuietAt m.now := by
  have quiet := quietAt_runUntil bounded prompt m.now coherent
  obtain ⟨_, forward, bound⟩ := runFor_now host (m.turnsLeft host) ahead Nat.le.refl
  exact ⟨Nat.le_antisymm bound forward, quiet⟩

/-- Letting a duration pass moves the clock by that duration, and leaves no turn that could be
taken then.
-/
theorem advance_now (bounded : host.Bounded) (prompt : host.Prompt falling)
    (coherent : Coherent falling .free m) (ahead : m.agenda.Ahead) (duration : Time)
    : (m.advance host duration).now = m.now + duration
      ∧ (m.advance host duration).agenda.QuietAt (m.now + duration) := by
  have quiet := quietAt_runUntil bounded prompt (m.now + duration) coherent
  obtain ⟨still, _, bound⟩ :=
    runFor_now host (m.turnsLeft host) ahead (Nat.le_add_right m.now duration)
  have latest : max (m.runUntil host (m.now + duration)).agenda.now (m.now + duration)
      = m.now + duration := Nat.max_eq_right bound
  obtain ⟨_, passed⟩ := still.passTo quiet
  exact ⟨latest, latest ▸ passed⟩

end EditorLint.Debounce.Manager
