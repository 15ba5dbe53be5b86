import EditorLint.Adapter

/-! No process outlives the call that has started it. However the exchange with a process is left,
by its end, by a failure or by a cancellation at any moment, a process that has no exit code then
is killed and waited for, and what the call gives is what it would give if that could not fail.
-/

namespace EditorLint.Tool

/-- How a call of a tool can go: it is cancelled before it begins, no process starts, or the
exchange with the process is left, in whatever way. With its events and with what it gives.
-/
inductive Call (logger : String) (command : Command) (text : String) (directory : Option String)
    (script : Script) : Option Exchange → List Event → Except Failure String → Prop
  | unbegun : Call logger command text directory script none [] (.error .cancelled)
  | refused {events failure}
    (starts : Process.start logger command text directory script = (events, .error failure))
    : Call logger command text directory script none events (.error failure)
  | left {events process more output} (exchange : Exchange)
    (starts : Process.start logger command text directory script = (events, .ok process))
    (ends : process.finish exchange = (more, output))
    : Call logger command text directory script (some exchange) (events ++ more) output

namespace Process

variable {logger : String} {command : Command} {text : String} {directory : Option String}
  {script : Script} {process : Process}

/-- A process that will be gone when it is killed. -/
def withGone (process : Process) (gone : Bool) : Process :=
  { process with script := { process.script with alreadyGone := gone } }

/-- Whether a process will be gone when it is killed makes no difference to how it starts. -/
theorem start_withGone (logger : String) (command : Command) (text : String)
    (directory : Option String) (script : Script) (gone : Bool)
    : start logger command text directory { script with alreadyGone := gone }
      = ((start logger command text directory script).1,
          (start logger command text directory script).2.map (withGone · gone)) := by
  cases noStart : script.noStart with
  | none => simp [start, noStart, withGone, Except.map]
  | some incident =>
      cases system : incident.kind.isOperatingSystem <;> simp [start, noStart, system, Except.map]

/-- Whether a process is gone when it is killed makes no difference to how it is left. -/
theorem finish_withGone (process : Process) (gone : Bool) (exchange : Exchange)
    : (process.withGone gone).finish exchange = process.finish exchange := by
  cases exchange <;> rfl

end Process

namespace Call

variable {logger : String} {command : Command} {text : String} {directory : Option String}
  {script : Script} {exchange? : Option Exchange} {events : List Event}
  {output : Except Failure String}

/-- A call goes the same way if the process is gone already when it is killed. -/
theorem withGone (call : Call logger command text directory script exchange? events output)
    (gone : Bool)
    : Call logger command text directory { script with alreadyGone := gone } exchange? events
        output := by
  have same := Process.start_withGone logger command text directory script gone
  cases call with
  | unbegun => exact .unbegun
  | refused starts =>
      apply Call.refused
      rw [same, starts]
      rfl
  | @left events process _ _ exchange starts ends =>
      have starts : Process.start logger command text directory { script with alreadyGone := gone }
          = (events, .ok (process.withGone gone)) := by
        rw [same, starts]
        rfl
      exact .left exchange starts (by rw [Process.finish_withGone, ends])

end Call

/-- The whole life of a process that nobody breaks off is a call. -/
theorem call_run (logger : String) (command : Command) (text : String)
    (directory : Option String) (script : Script)
    : ∃ exchange?,
        Call logger command text directory script exchange?
          (run logger command text directory script).1
          (run logger command text directory script).2 := by
  unfold run
  split
  next events failure starts => exact ⟨none, .refused starts⟩
  next events process starts => exact ⟨_, .left process.exchange starts rfl⟩

end EditorLint.Tool

namespace EditorLint.Adapter

open Tool

/-- What becomes of a run is at most told in the log. -/
theorem conclude_logs (adapter : Adapter) (path : String) (duration : Time)
    (outcome : Except Failure (List Message))
    : ∃ records : List Log.Record, (adapter.conclude path duration outcome).1 = records.map .log := by
  unfold conclude
  split
  · exact ⟨[_], rfl⟩
  · split
    · exact ⟨[_], rfl⟩
    · exact ⟨[], rfl⟩

/-- Whatever way the exchange with its tool is left, a lint only writes to the log after it. -/
theorem finish_logs (linting : Linting) (now : Time) (exchange : Exchange)
    : ∃ records : List Log.Record,
        (linting.finish now exchange).1
        = (linting.process.finish exchange).1 ++ records.map .log := by
  obtain ⟨records, logs⟩ := conclude_logs linting.adapter linting.path (now - linting.began)
    ((linting.process.finish exchange).2.bind (linting.adapter.messages linting.path))
  exact ⟨records, congrArg (_ ++ ·) logs⟩

/-- A lint, with any limit on its time, calls its tool as calls go, and else only writes to the log.
-/
theorem call_of_lint {adapter : Adapter} {snapshot : Snapshot} {limit : Option Int}
    (wanted : adapter.info.isEnabled snapshot.path) (hasTime : limit.any (· ≤ 0) = false)
    (script : Script)
    : ∃ exchange? events output, ∃ records : List Log.Record,
        Call adapter.logger (adapter.command snapshot.path) snapshot.text snapshot.directory script
          exchange? events output
        ∧ (adapter.lint snapshot script limit).1 = events ++ records.map .log := by
  unfold lint begin
  simp only [hasTime, Bool.false_eq_true, if_false, wanted, if_true]
  cases starts : Process.start adapter.logger (adapter.command snapshot.path) snapshot.text
      snapshot.directory script with
  | mk events started =>
      cases started with
      | error failure =>
          obtain ⟨records, logs⟩ := conclude_logs adapter snapshot.path 0 (.error failure)
          exact ⟨none, events, _, records, .refused starts, congrArg (events ++ ·) logs⟩
      | ok process =>
          have leaves (now : Time) (exchange : Exchange)
              : ∃ output, ∃ records : List Log.Record,
                  Call adapter.logger (adapter.command snapshot.path) snapshot.text
                    snapshot.directory script (some exchange)
                    (events ++ (process.finish exchange).1) output
                  ∧ events ++ ((⟨adapter, snapshot.path, 0, process⟩ : Linting).finish now exchange).1
                    = events ++ (process.finish exchange).1 ++ records.map .log := by
            obtain ⟨records, logs⟩ := finish_logs ⟨adapter, snapshot.path, 0, process⟩ now exchange
            refine ⟨_, records, .left exchange starts rfl, ?_⟩
            rw [logs, List.append_assoc]
          cases work : script.work with
          | none =>
              obtain ⟨output, records, call, same⟩ := leaves 0 process.exchange
              exact ⟨_, _, output, records, call, same⟩
          | some duration =>
              dsimp only
              split
              · obtain ⟨output, records, call, same⟩ := leaves duration process.exchange
                exact ⟨_, _, output, records, call, same⟩
              · obtain ⟨output, records, call, same⟩ := leaves duration (.cancelled none)
                exact ⟨_, _, output, records, call, same⟩

end EditorLint.Adapter
