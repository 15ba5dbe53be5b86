import EditorLint.Proofs.Debounce.Scripted
import EditorLint.Proofs.Debounce.Timing

/-! The law of a debounced call. Its function starts when its delay is over, unless another call
for its document comes before, and it comes to its end unless another call comes before that.
-/

namespace EditorLint.Debounce

/-- Whether the clock has come to an instant, and no call has come before it. -/
def Undisturbed (instant : Time) (stop : Option Time) (clock : Time) : Prop :=
  instant ≤ clock ∧ ∀ call ∈ stop, instant ≤ call

/-- When the function of a call runs that falls due at an instant, if the first later call for its
document, if there is any, comes at another, and the clock has come to a third; by the events that
it has left.
-/
structure Debounced (job : ScriptedJob) (due : Time) (stop : Option Time) (clock : Time)
    (own : History) : Prop where
  /-- It starts exactly if no later call comes before it falls due. -/
  starts
    : (∃ instant, ⟨instant, .started job.name⟩ ∈ own) ↔ Undisturbed due stop clock
  /-- It comes to its own end exactly if no later call comes before that. -/
  ends
    : own = [⟨due, .started job.name⟩, job.conclusion (due + job.takes)]
      ↔ Undisturbed (due + job.takes) stop clock
  /-- A call that comes before its end cancels it, once and at once. -/
  cancelled
    : ∀ call ∈ stop,
        due ≤ call
        → call < due + job.takes
        → own = [⟨due, .started job.name⟩, ⟨call, .cancelled job.name⟩]
  /-- A call that comes before its start leaves no trace of it. -/
  replaced : ∀ call ∈ stop, call < due → own = []
  /-- Without a later call it waits until it falls due. -/
  waits : stop = none → clock < due → own = []
  /-- Without a later call it works as long as it takes. -/
  works
    : stop = none
      → due ≤ clock
      → clock < due + job.takes
      → own = [⟨due, .started job.name⟩]

namespace ScriptedJob

variable {job : ScriptedJob} {due clock : Time} {stop : Option Time} {own : History}

theorem conclusion_time (job : ScriptedJob) (now : Time) : (job.conclusion now).time = now := by
  unfold conclusion
  split
  · rfl
  · split <;> rfl

/-- A job that does what it does by itself until it is cancelled has not started, or is at work
then, or has come to its end.
-/
theorem lives_cases {now delay : Time}
    (lives : host.Lives clock stop (some (now, .created job delay)) own)
    (begun : now ≤ stop.getD clock)
    : (stop.getD clock < now + delay ∧ own = [])
      ∨ (now + delay ≤ stop.getD clock
        ∧ stop.getD clock < now + delay + job.takes
        ∧ own = ⟨now + delay, .started job.name⟩
            :: (stop.map fun call => ⟨call, .cancelled job.name⟩).toList)
      ∨ (now + delay + job.takes ≤ stop.getD clock
        ∧ own = [⟨now + delay, .started job.name⟩, job.conclusion (now + delay + job.takes)]) := by
  have parts : own = (job.done (now + delay) (stop.getD clock)).1
      ++ (stop.map (host.leave · (job.done (now + delay) (stop.getD clock)).2)).getD [] := by
    cases lives with
    | undisturbed alone =>
        obtain ⟨rfl, rfl⟩ := alone.unique (alone_done job delay begun)
        exact (List.append_nil _).symm
    | cancelled alone =>
        obtain ⟨rfl, rfl⟩ := alone.unique (alone_done job delay begun)
        rfl
  rw [parts]
  rcases Nat.lt_or_ge (stop.getD clock) (now + delay) with early | soon
  · refine Or.inl ⟨early, ?_⟩
    rw [done, if_pos early]
    cases stop <;> rfl
  · rcases Nat.lt_or_ge (stop.getD clock) (now + delay + job.takes) with during | passed
    · refine Or.inr (Or.inl ⟨soon, during, ?_⟩)
      rw [done, if_neg (Nat.not_lt.mpr soon), if_pos during]
      cases stop <;> rfl
    · refine Or.inr (Or.inr ⟨passed, ?_⟩)
      rw [done, if_neg (Nat.not_lt.mpr soon), if_neg (Nat.not_lt.mpr passed)]
      cases stop <;> rfl

/-- A job that does what it does by itself until the first later call runs as the law says. -/
theorem debounced_of_lives {now delay : Time}
    (lives : host.Lives clock stop (some (now, .created job delay)) own)
    (within : ∀ call ∈ stop, now ≤ call ∧ call ≤ clock) (begun : now ≤ clock)
    : Debounced job (now + delay) stop clock own := by
  have atCall {call : Time} (member : call ∈ stop) : stop.getD clock = call := by
    rw [Option.mem_def.mp member]
    rfl
  have atClock (none : stop = none) : stop.getD clock = clock := by
    rw [none]
    rfl
  have undisturbed_iff (instant : Time)
      : Undisturbed instant stop clock ↔ instant ≤ stop.getD clock := by
    cases stop with
    | none => simp [Undisturbed]
    | some call =>
        have late := (within call rfl).2
        simp only [Undisturbed, Option.mem_some_iff, forall_eq', Option.getD_some]
        exact ⟨And.right, fun before => ⟨Nat.le_trans before late, before⟩⟩
  have begun : now ≤ stop.getD clock := by
    cases stop with
    | none => exact begun
    | some call => exact (within call rfl).1
  have cases := lives_cases lives begun
  generalize now + delay = due at cases
  rcases cases with ⟨early, rfl⟩ | ⟨soon, during, rfl⟩ | ⟨passed, rfl⟩
  · have late : ¬ due ≤ stop.getD clock := Nat.not_le.mpr early
    have later : ¬ due + job.takes ≤ stop.getD clock :=
      fun passed => late (Nat.le_trans (Nat.le_add_right _ _) passed)
    exact {
      starts := by simp [undisturbed_iff, late]
      ends := by simp [undisturbed_iff, later]
      cancelled := fun call member soon => absurd soon (Nat.not_le.mpr (atCall member ▸ early))
      replaced := fun _ _ _ => rfl
      waits := fun _ _ => rfl
      works := fun none soon => absurd soon (Nat.not_le.mpr (atClock none ▸ early))
    }
  · exact {
      starts := by simp [undisturbed_iff, soon]
      ends := by
        rw [undisturbed_iff]
        refine ⟨fun ended => ?_, fun passed => absurd passed (Nat.not_le.mpr during)⟩
        cases stop with
        | none => simp at ended
        | some call =>
            have last : (⟨call, .cancelled job.name⟩ : Stamped JobEvent)
                = job.conclusion (due + job.takes) := by
              simpa using ended
            have same : call = due + job.takes :=
              (congrArg Stamped.time last).trans (conclusion_time job _)
            exact Nat.le_of_eq same.symm
      cancelled := fun call member _ _ => by
        rw [Option.mem_def.mp member]
        rfl
      replaced := fun call member before => absurd (atCall member ▸ soon) (Nat.not_le.mpr before)
      waits := fun none before => absurd (atClock none ▸ soon) (Nat.not_le.mpr before)
      works := fun none _ _ => by
        rw [none]
        rfl
    }
  · have soon : due ≤ stop.getD clock := Nat.le_trans (Nat.le_add_right _ _) passed
    exact {
      starts := by simp [undisturbed_iff, soon]
      ends := by simp [undisturbed_iff, passed]
      cancelled := fun call member _ before =>
        absurd (atCall member ▸ passed) (Nat.not_le.mpr before)
      replaced := fun call member before => absurd (atCall member ▸ soon) (Nat.not_le.mpr before)
      waits := fun none before => absurd (atClock none ▸ soon) (Nat.not_le.mpr before)
      works := fun none _ before => absurd (atClock none ▸ passed) (Nat.not_le.mpr before)
    }

end ScriptedJob

open Manager in
/-- Every function that is scheduled in any run, with any delay, runs as the law says: it falls due
when the delay is over, one below zero being none at all, and the first later call for its document
stops it. The chronicle from which that is read has all that has happened.
-/
theorem ScriptedManager.debounced_call (before after : List ScriptedStep) (uri : String)
    (job : ScriptedJob) (delay : Int)
    : let steps := before ++ .request (.schedule uri job delay.toNat) :: after
      let id := (fresh.afterAll ScriptedJob.host before).tasks.length
      let chronicle := fresh.chronicle ScriptedJob.host steps
      chronicle.map (·.2) = (fresh.afterAll ScriptedJob.host steps).world
      ∧ Debounced job (elapsed before + delay.toNat) (firstCall? uri (elapsed before) after)
          (elapsed steps) (eventsOf (· == id) chronicle) := by
  intro steps id chronicle
  have separate := ScriptedJob.host_separate
  have bounded := ScriptedJob.host_bounded
  have begun : ScriptedManager.fresh.Idle := .fresh []
  obtain ⟨idle, now⟩ := begun.afterAll separate bounded before
  have start : ScriptedManager.fresh.now + elapsed before = elapsed before := Nat.zero_add _
  rw [start] at now
  have whole : elapsed steps = elapsed before + elapsed after := by
    rw [elapsed_append, elapsed_request]
  refine ⟨?_, ?_⟩
  · exact (begun.world_afterAll separate bounded steps).symm
  · have absent : eventsOf (· == id) (fresh.chronicle ScriptedJob.host before) = [] := by
      apply begun.eventsOf_absent separate bounded
      exact Nat.le_of_eq (length_documents _)
    have lives := idle.lives_schedule separate bounded uri job delay.toNat after
    rw [now, ← whole] at lives
    have parts := @chronicle_append _ _ _ ScriptedJob.host fresh before
      (.request (.schedule uri job delay.toNat) :: after)
    simp only [chronicle, steps, parts, eventsOf_append, absent, List.nil_append]
    apply ScriptedJob.debounced_of_lives lives
    · intro call member
      rw [whole]
      exact firstCall?_within member
    · rw [whole]
      exact Nat.le_add_right _ _

end EditorLint.Debounce
