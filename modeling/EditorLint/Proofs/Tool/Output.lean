import EditorLint.Tool.Process

/-! What a run of a tool gives that nobody breaks off: the output that the tool delivers, or the
reason why there is none.
-/

namespace EditorLint.Tool

/-- A tool starts, the exchange with it goes well, and what it has written is UTF-8 and, without the
blank characters at its ends, not empty or that of a tool that went well.
-/
structure Script.Delivers (script : Script) (output : String) : Prop where
  started : script.noStart = none
  exchanged : script.brokenExchange = none
  decoded : ∃ text, Text.Utf8.decode script.stdout = .ok text ∧ output = Text.trim text
  usable : output ≠ "" ∨ script.exit = 0

/-- Why a tool that is started by a command delivers nothing. -/
inductive Script.Fails (script : Script) (command : Command) : Failure → Prop
  | noStart {incident} (refused : script.noStart = some incident)
    (system : incident.kind.isOperatingSystem = true)
    : Fails script command (.tool (.noStart command.executable incident) (some command.text))
  | brokenStart {incident} (refused : script.noStart = some incident)
    (other : incident.kind.isOperatingSystem = false)
    : Fails script command (.incident incident)
  | brokenExchange {incident} (started : script.noStart = none)
    (broken : script.brokenExchange = some incident)
    : Fails script command (.incident incident)
  | notUtf8 {fault} (started : script.noStart = none) (exchanged : script.brokenExchange = none)
    (undecoded : Text.Utf8.decode script.stdout = .error fault)
    : Fails script command (.tool (.notUtf8 fault) (some command.text))
  | noOutput {text} (started : script.noStart = none) (exchanged : script.brokenExchange = none)
    (decoded : Text.Utf8.decode script.stdout = .ok text) (blank : Text.trim text = "")
    (exits : script.exit ≠ 0)
    : Fails script command
        (.tool (.noOutput script.exit (Text.trim (Text.Utf8.decodeLossy script.stderr)))
          (some command.text))

variable {command : Command} {script : Script}

/-- Every tool delivers something or fails, by the stages of its run. -/
theorem Script.delivers_or_fails (script : Script) (command : Command)
    : (∃ output, script.Delivers output) ∨ ∃ failure, script.Fails command failure := by
  cases refused : script.noStart with
  | some incident =>
      apply Or.inr
      cases system : incident.kind.isOperatingSystem with
      | true => exact ⟨_, .noStart refused system⟩
      | false => exact ⟨_, .brokenStart refused system⟩
  | none =>
      cases broken : script.brokenExchange with
      | some incident => exact Or.inr ⟨_, .brokenExchange refused broken⟩
      | none =>
          cases decoded : Text.Utf8.decode script.stdout with
          | error fault => exact Or.inr ⟨_, .notUtf8 refused broken decoded⟩
          | ok text =>
              by_cases useless : script.exit ≠ 0 ∧ Text.trim text = ""
              · exact Or.inr ⟨_, .noOutput refused broken decoded useless.2 useless.1⟩
              · have usable : Text.trim text ≠ "" ∨ script.exit = 0 := by
                  by_cases exits : script.exit = 0
                  · exact Or.inr exits
                  · exact Or.inl fun blank => useless ⟨exits, blank⟩
                exact Or.inl ⟨_, refused, broken, ⟨text, decoded, rfl⟩, usable⟩

/-- A run gives what the tool delivers. -/
theorem run_of_delivers {output : String} (delivers : script.Delivers output) (logger : String)
    (command : Command) (text : String) (directory : Option String)
    : (run logger command text directory script).2 = .ok output := by
  obtain ⟨started, exchanged, ⟨raw, decoded, rfl⟩, usable⟩ := delivers
  have useful : ¬ (script.exit ≠ 0 ∧ Text.trim raw = "") := by
    intro useless
    rcases usable with some | well
    · exact some useless.2
    · exact useless.1 well
  simp only [run, Process.start, started, Process.exchange, exchanged, Process.finish,
    Process.result, decoded, if_neg useful]

/-- A run fails as the tool does. -/
theorem run_of_fails {failure : Failure} (fails : script.Fails command failure) (logger : String)
    (text : String) (directory : Option String)
    : (run logger command text directory script).2 = .error failure := by
  cases fails with
  | noStart refused system => simp only [run, Process.start, refused, system, if_true]
  | brokenStart refused other =>
      simp only [run, Process.start, refused, other, Bool.false_eq_true, if_false]
  | brokenExchange started broken =>
      simp only [run, Process.start, started, Process.exchange, broken, Process.finish]
  | notUtf8 started exchanged undecoded =>
      simp only [run, Process.start, started, Process.exchange, exchanged, Process.finish,
        Process.result, undecoded]
  | noOutput started exchanged decoded blank exits =>
      have useless : script.exit ≠ 0 ∧ Text.trim _ = "" := ⟨exits, blank⟩
      simp only [run, Process.start, started, Process.exchange, exchanged, Process.finish,
        Process.result, decoded, if_pos useless]

/-- A failure of the tool shows the command that has started it. -/
theorem Script.Fails.command_eq {cause : ToolCause} {shown : Option String}
    (fails : script.Fails command (.tool cause shown))
    : shown = some command.text := by
  cases fails <;> rfl

-----------------------------------------------------------------------------------------
-- What is seen of a run
-----------------------------------------------------------------------------------------

/-- The starts that are attempted, each with its directory. -/
def starts (events : List Event) : List (Command × Option String) :=
  events.filterMap fun
    | .start command directory => some (command, directory)
    | _ => none

/-- The records at error level. -/
def errors (events : List Event) : List Log.Record :=
  events.filterMap fun
    | .log record => if record.level = .error then some record else none
    | _ => none

@[simp]
theorem starts_append (events more : List Event)
    : starts (events ++ more) = starts events ++ starts more :=
  List.filterMap_append

@[simp]
theorem errors_append (events more : List Event)
    : errors (events ++ more) = errors events ++ errors more :=
  List.filterMap_append

/-- A process is started in one attempt, and nothing goes to the log at error level. -/
theorem starts_start (logger : String) (command : Command) (text : String)
    (directory : Option String) (script : Script)
    : starts (Process.start logger command text directory script).1 = [(command, directory)]
      ∧ errors (Process.start logger command text directory script).1 = [] := by
  unfold Process.start
  split
  · exact ⟨rfl, rfl⟩
  · split <;> exact ⟨rfl, rfl⟩

/-- What ends a process by force starts none, and is not in the log. -/
theorem starts_leave (process : Process) (exit? : Option Int)
    : starts (process.leave exit?) = [] ∧ errors (process.leave exit?) = [] := by
  cases exit? <;> exact ⟨rfl, rfl⟩

/-- When a process is left, none is started, and nothing goes to the log at error level. -/
theorem starts_finish (process : Process) (exchange : Exchange)
    : starts (process.finish exchange).1 = [] ∧ errors (process.finish exchange).1 = [] := by
  cases exchange with
  | broken incident exit => exact starts_leave process exit
  | cancelled exit => exact starts_leave process exit
  | delivered exit stdout stderr =>
      simp only [Process.finish, Process.result, starts_append, errors_append]
      split
      · exact ⟨rfl, rfl⟩
      · split <;> exact ⟨rfl, rfl⟩

/-- A run attempts one start, and nothing goes to the log at error level. -/
theorem starts_run (logger : String) (command : Command) (text : String)
    (directory : Option String) (script : Script)
    : starts (run logger command text directory script).1 = [(command, directory)]
      ∧ errors (run logger command text directory script).1 = [] := by
  have begun := starts_start logger command text directory script
  unfold run
  split
  next events failure starts => rwa [starts] at begun
  next events process starts =>
    rw [starts] at begun
    have left := starts_finish process process.exchange
    simp [begun, left]

end EditorLint.Tool
