import EditorLint.Debounce.Scripted
import EditorLint.Proofs.Debounce.Alone
import EditorLint.Proofs.Debounce.Quiet

/-! Scripted jobs keep apart and take few turns, and what one of them leaves, if nobody cancels it,
is known from the time at which it falls due.
-/

namespace EditorLint.Debounce.ScriptedJob

/-- Scripted jobs only add to what has happened. -/
theorem host_separate : host.Separate where
  start now job past := by
    cases work : job.work with
    | some duration => simp [host, start, note, work]
    | none =>
        cases failure : job.failure with
        | none => simp [host, start, note, work, conclude, failure]
        | some incident =>
            by_cases own : incident.kind = .cancelled <;>
              simp [host, start, note, work, conclude, failure, own]
  resume now job past := by
    cases failure : job.failure with
    | none => simp [host, note, conclude, failure]
    | some incident =>
        by_cases own : incident.kind = .cancelled <;> simp [host, note, conclude, failure, own]
  interrupt now job past := by simp [host, note]
  report now failure past := by simp [host, note]
  leaves _ _ _ _ := nofun
  begin _ _ _ := rfl
  request _ _ _ := rfl
  finish _ _ _ := rfl

/-- The last turn of a job is its last. -/
theorem conclude_ne_wait (now : Time) (job : ScriptedJob) (history : History) (duration : Time)
    (next : ScriptedJob)
    : (job.conclude now history).2 ≠ .wait duration next := by
  unfold conclude
  split
  · nofun
  · split <;> nofun

/-- A scripted job takes two turns at most. -/
theorem host_bounded : host.Bounded where
  start _ := Nat.one_lt_two
  resume waits := (conclude_ne_wait _ _ _ _ _ waits).elim
  interrupt waits := nomatch waits
  begin _ _ _ := Nat.le_refl 1
  steps _ :=
    { start := fun _ _ _ => id
      resume := fun _ _ _ _ => id
      interrupt := fun _ _ _ _ => id
      report := fun _ _ _ => id
      begin := fun _ _ _ => id
      request := fun _ _ _ => id
      finish := fun _ _ _ => id }

-----------------------------------------------------------------------------------------
-- What a scripted job leaves by itself
-----------------------------------------------------------------------------------------

/-- How long a job works. -/
def takes (job : ScriptedJob) : Time :=
  job.work.getD 0

/-- What a job leaves at its end, be it that it returns or that it fails. -/
def conclusion (job : ScriptedJob) (now : Time) : Stamped JobEvent :=
  match job.failure with
  | none => ⟨now, .ended job.name⟩
  | some incident =>
    if incident.kind = .cancelled then ⟨now, .cancelled job.name⟩
    else ⟨now, .log (failureRecord (.incident incident))⟩

/-- What a job leaves until an instant that falls due at another, and where it stands then. -/
def done (job : ScriptedJob) (due limit : Time) : History × Standing ScriptedJob ScriptedJob :=
  if limit < due then ([], some (due, .delayed job))
  else if limit < due + job.takes then
    ([⟨due, .started job.name⟩], some (due + job.takes, .running job))
  else ([⟨due, .started job.name⟩, job.conclusion (due + job.takes)], none)

/-- At its end a job leaves one event. -/
theorem follow_conclude (now : Time) (job : ScriptedJob) (history : History)
    : host.follow now (job.conclude now history) = (history ++ [job.conclusion now], none) := by
  cases failure : job.failure with
  | none => simp [conclude, conclusion, failure, Host.follow, note]
  | some incident =>
      by_cases own : incident.kind = .cancelled <;>
        simp [conclude, conclusion, failure, own, Host.follow, note, host]

/-- A job that nobody cancels starts when it falls due, and works as long as it takes. -/
theorem alone_done (job : ScriptedJob) {now limit : Time} (delay : Time) (begun : now ≤ limit)
    : host.Alone limit (some (now, .created job delay)) (job.done (now + delay) limit).1
        (job.done (now + delay) limit).2 := by
  have rests : host.turn now (.created job delay) = ([], some (now + delay, .delayed job)) := rfl
  refine .of_turn begun rests ?_
  generalize now + delay = due
  unfold done
  split
  next late => exact .later late
  next notLate =>
    have soon : due ≤ limit := Nat.le_of_not_lt notLate
    cases work : job.work with
    | none =>
        have starts : host.turn due (.delayed job)
            = ([⟨due, .started job.name⟩, job.conclusion due], none) := by
          simp only [Host.turn, host, start, work]
          exact follow_conclude due job _
        have takes : due + job.takes = due := by simp [takes, work]
        rw [takes, if_neg notLate]
        exact .of_turn soon starts .ended
    | some duration =>
        have starts : host.turn due (.delayed job)
            = ([⟨due, .started job.name⟩], some (due + duration, .running job)) := by
          simp only [Host.turn, host, start, work]
          rfl
        have takes : due + job.takes = due + duration := by simp [takes, work]
        rw [takes]
        split
        next still => exact .of_turn soon starts (.later still)
        next past =>
          have ends : host.turn (due + duration) (.running job)
              = ([job.conclusion (due + duration)], none) :=
            follow_conclude (due + duration) job []
          exact .of_turn soon starts (.of_turn (Nat.le_of_not_lt past) ends .ended)

end EditorLint.Debounce.ScriptedJob
