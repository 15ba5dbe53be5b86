import EditorLint.Adapter
import EditorLint.Proofs.Finding
import EditorLint.Proofs.Tool.Output

/-! What comes of a lint, by what its tool does. The messages are those of the findings of a report
that arrives whole; in every other case there are none, and an ordinary failure leaves one record
at error level, which shows the command if it is the tool that has failed.
-/

namespace EditorLint

/-- A tool delivers a text that is read as an array of well-formed items, which stand for some
findings, one each and in this order.
-/
def Tool.Script.Reports (script : Tool.Script) (findings : List Finding) : Prop :=
  ∃ output items,
    script.Delivers output
    ∧ Json.read output = .ok (.arr items)
    ∧ List.Forall₂ Describes items findings

namespace Adapter

variable {adapter : Adapter} {snapshot : Snapshot} {path : String} {script : Tool.Script}

/-- Why a lint has no result: its tool has failed, or has delivered something that is no report. -/
inductive Fails (adapter : Adapter) (path : String) (script : Tool.Script) : Failure → Prop
  | tool {failure} (fails : script.Fails (adapter.command path) failure)
    : Fails adapter path script failure
  | badReport {output fault} (delivers : script.Delivers output)
    (unread : Finding.ofReport output = .error (.tool (.badReport fault) none))
    : Fails adapter path script (.tool (.badReport fault) (some (adapter.command path).text))
  | beyondLimits {output fault} (delivers : script.Delivers output)
    (unread : Finding.ofReport output = .error (.reportLimit fault))
    : Fails adapter path script (.reportLimit fault)

-----------------------------------------------------------------------------------------
-- What a run gives before it is concluded
-----------------------------------------------------------------------------------------

/-- What a run of the tool gives, as messages. -/
def gives (adapter : Adapter) (snapshot : Snapshot) (script : Tool.Script) :
    Except Failure (List Message) :=
  (Tool.run adapter.logger (adapter.command snapshot.path) snapshot.text snapshot.directory
    script).2.bind (adapter.messages snapshot.path)

/-- A lint with no limit is a run that is concluded. -/
theorem lint_eq (wanted : adapter.info.isEnabled snapshot.path) (script : Tool.Script)
    : ∃ duration events,
        adapter.lint snapshot script none
          = (events ++ (adapter.conclude snapshot.path duration (adapter.gives snapshot script)).1,
            (adapter.conclude snapshot.path duration (adapter.gives snapshot script)).2)
        ∧ Tool.starts events = [(adapter.command snapshot.path, snapshot.directory)]
        ∧ Tool.errors events = [] := by
  have seen := Tool.starts_run adapter.logger (adapter.command snapshot.path) snapshot.text
    snapshot.directory script
  unfold lint begin gives
  simp only [Option.any_none, Bool.false_eq_true, if_false, wanted, if_true]
  cases starts : Tool.Process.start adapter.logger (adapter.command snapshot.path) snapshot.text
      snapshot.directory script with
  | mk events started =>
      cases started with
      | error failure =>
          simp only [Tool.run, starts] at seen ⊢
          exact ⟨0, events, rfl, seen⟩
      | ok process =>
          simp only [Tool.run, starts] at seen ⊢
          have whole (now : Time)
              : (events ++ ((⟨adapter, snapshot.path, 0, process⟩ : Linting).complete now).1,
                  ((⟨adapter, snapshot.path, 0, process⟩ : Linting).complete now).2)
                = (events ++ (process.finish process.exchange).1
                    ++ (adapter.conclude snapshot.path (now - 0)
                      ((process.finish process.exchange).2.bind
                        (adapter.messages snapshot.path))).1,
                  (adapter.conclude snapshot.path (now - 0)
                    ((process.finish process.exchange).2.bind
                      (adapter.messages snapshot.path))).2) := by
            simp only [Linting.complete, Linting.finish, List.append_assoc]
          cases work : script.work with
          | none => exact ⟨_, _, whole 0, seen⟩
          | some duration => exact ⟨_, _, whole duration, seen⟩

/-- A report that arrives whole gives the messages of its findings. -/
theorem gives_of_reports {findings : List Finding} (reports : script.Reports findings)
    (adapter : Adapter) (snapshot : Snapshot)
    : adapter.gives snapshot script
      = .ok (findings.map (Message.ofFinding adapter.profile snapshot.path)) := by
  obtain ⟨output, items, delivers, read, described⟩ := reports
  have found : Finding.ofReport output = .ok findings :=
    Finding.ofReport_eq_ok_iff.mpr ⟨items, read, described⟩
  rw [gives, Tool.run_of_delivers delivers]
  simp only [Except.bind, messages, found]

/-- A failure is what a run gives that fails so. -/
theorem gives_of_fails {failure : Failure} (fails : adapter.Fails snapshot.path script failure)
    : adapter.gives snapshot script = .error failure := by
  unfold gives
  cases fails with
  | tool fails =>
      rw [Tool.run_of_fails fails]
      rfl
  | badReport delivers unread | beyondLimits delivers unread =>
      rw [Tool.run_of_delivers delivers]
      simp only [Except.bind, messages, unread]

/-- A lint has a report or fails. -/
theorem reports_or_fails (adapter : Adapter) (path : String) (script : Tool.Script)
    : (∃ findings, script.Reports findings) ∨ ∃ failure, adapter.Fails path script failure := by
  rcases script.delivers_or_fails (adapter.command path) with ⟨output, delivers⟩ | ⟨_, fails⟩
  · cases read : Finding.ofReport output with
    | ok findings =>
        obtain ⟨items, array, described⟩ := Finding.ofReport_eq_ok_iff.mp read
        exact Or.inl ⟨findings, output, items, delivers, array, described⟩
    | error failure =>
        apply Or.inr
        rcases Finding.ofReport_error_cases read with ⟨fault, rfl⟩ | ⟨fault, rfl⟩
        · exact ⟨_, .badReport delivers read⟩
        · exact ⟨_, .beyondLimits delivers read⟩
  · exact Or.inr ⟨_, .tool fails⟩

-----------------------------------------------------------------------------------------
-- How a run is concluded
-----------------------------------------------------------------------------------------

/-- Messages are handed on, and nothing goes to the log at error level. -/
theorem conclude_ok (adapter : Adapter) (path : String) (duration : Time)
    (messages : List Message)
    : (adapter.conclude path duration (.ok messages)).2 = .ok messages
      ∧ Tool.errors (adapter.conclude path duration (.ok messages)).1 = [] :=
  ⟨rfl, rfl⟩

/-- An ordinary failure leaves its record, and no messages. -/
theorem conclude_ordinary {failure : Failure} (ordinary : failure.isOrdinary = true)
    (adapter : Adapter) (path : String) (duration : Time)
    : (adapter.conclude path duration (.error failure)).2 = .ok []
      ∧ Tool.errors (adapter.conclude path duration (.error failure)).1
        = [adapter.failureRecord failure] := by
  have level : (adapter.failureRecord failure).level = .error := by cases failure <;> rfl
  simp [conclude, ordinary, Tool.errors, level]

/-- A failure that is not ordinary passes. -/
theorem conclude_other {failure : Failure} (other : failure.isOrdinary = false)
    (adapter : Adapter) (path : String) (duration : Time)
    : (adapter.conclude path duration (.error failure)).2 = .error failure
      ∧ Tool.errors (adapter.conclude path duration (.error failure)).1 = [] := by
  simp [conclude, other, Tool.errors]

/-- Nothing is started when a run is concluded. -/
theorem starts_conclude (adapter : Adapter) (path : String) (duration : Time)
    (outcome : Except Failure (List Message))
    : Tool.starts (adapter.conclude path duration outcome).1 = [] := by
  unfold conclude
  split
  · rfl
  · split <;> rfl

/-- A command with arguments is not an empty text. -/
theorem text_command_ne_empty (adapter : Adapter) (path : String)
    : (adapter.command path).text ≠ "" := by
  unfold command Tool.Command.text
  cases adapter.info.arguments with
  | nil => simp [Text.joined]
  | cons => simp [Text.joined]

/-- The record of a failure of the tool shows the whole command. -/
theorem failureRecord_of_tool {cause : ToolCause} {shown : Option String}
    (fails : adapter.Fails path script (.tool cause shown))
    : ∃ before,
        (adapter.failureRecord (.tool cause shown)).message
          = before ++ "\ncommand: " ++ (adapter.command path).text := by
  have same : shown = some (adapter.command path).text := by
    cases fails with
    | tool fails => exact fails.command_eq
    | badReport => rfl
  subst same
  refine ⟨"Linting with " ++ adapter.info.id ++ " failed" ++ ": " ++ cause.message, ?_⟩
  simp only [failureRecord, Log.record, shownCommand, if_neg (text_command_ne_empty adapter path)]

-----------------------------------------------------------------------------------------
-- What comes of a lint
-----------------------------------------------------------------------------------------

/-- Where a tool is not wanted, it is not started and nothing is found. -/
theorem lint_of_disabled (disabled : adapter.info.isEnabled snapshot.path = false)
    (script : Tool.Script)
    : Tool.starts (adapter.lint snapshot script none).1 = []
      ∧ (adapter.lint snapshot script none).2 = .ok [] := by
  simp only [lint, begin, disabled, Option.any_none, Bool.false_eq_true, if_false, and_true]
  rfl

/-- A lint attempts one start, of the command for the path. -/
theorem starts_lint (wanted : adapter.info.isEnabled snapshot.path = true)
    (script : Tool.Script)
    : Tool.starts (adapter.lint snapshot script none).1
      = [(adapter.command snapshot.path, snapshot.directory)] := by
  obtain ⟨duration, events, whole, started, -⟩ := lint_eq wanted script
  rw [whole, Tool.starts_append, started, starts_conclude, List.append_nil]

/-- A report that arrives whole becomes the messages of its findings. -/
theorem lint_of_reports (wanted : adapter.info.isEnabled snapshot.path = true)
    {findings : List Finding} (reports : script.Reports findings)
    : (adapter.lint snapshot script none).2
        = .ok (findings.map (Message.ofFinding adapter.profile snapshot.path))
      ∧ Tool.errors (adapter.lint snapshot script none).1 = [] := by
  obtain ⟨duration, events, whole, -, quiet⟩ := lint_eq wanted script
  rw [whole, gives_of_reports reports]
  obtain ⟨result, silent⟩ := conclude_ok adapter snapshot.path duration
    (findings.map (Message.ofFinding adapter.profile snapshot.path))
  exact ⟨result, by rw [Tool.errors_append, quiet, silent, List.append_nil]⟩

/-- A lint that fails for an ordinary reason leaves one record and no messages. -/
theorem lint_of_ordinary (wanted : adapter.info.isEnabled snapshot.path = true)
    {failure : Failure} (fails : adapter.Fails snapshot.path script failure)
    (ordinary : failure.isOrdinary = true)
    : (adapter.lint snapshot script none).2 = .ok []
      ∧ Tool.errors (adapter.lint snapshot script none).1 = [adapter.failureRecord failure] := by
  obtain ⟨duration, events, whole, -, quiet⟩ := lint_eq wanted script
  rw [whole, gives_of_fails fails]
  obtain ⟨result, recorded⟩ := conclude_ordinary ordinary adapter snapshot.path duration
  exact ⟨result, by rw [Tool.errors_append, quiet, recorded, List.nil_append]⟩

/-- A failure that is not ordinary passes. -/
theorem lint_of_other (wanted : adapter.info.isEnabled snapshot.path = true)
    {failure : Failure} (fails : adapter.Fails snapshot.path script failure)
    (other : failure.isOrdinary = false)
    : (adapter.lint snapshot script none).2 = .error failure
      ∧ Tool.errors (adapter.lint snapshot script none).1 = [] := by
  obtain ⟨duration, events, whole, -, quiet⟩ := lint_eq wanted script
  rw [whole, gives_of_fails fails]
  obtain ⟨result, silent⟩ := conclude_other other adapter snapshot.path duration
  exact ⟨result, by rw [Tool.errors_append, quiet, silent, List.append_nil]⟩

/-- Messages without a record are those of a report that has arrived whole. -/
theorem lint_found_iff (wanted : adapter.info.isEnabled snapshot.path = true)
    (script : Tool.Script) (messages : List Message)
    : ((adapter.lint snapshot script none).2 = .ok messages
        ∧ Tool.errors (adapter.lint snapshot script none).1 = [])
      ↔ ∃ findings,
          script.Reports findings
          ∧ messages = findings.map (Message.ofFinding adapter.profile snapshot.path) := by
  constructor
  · intro found
    rcases adapter.reports_or_fails snapshot.path script with ⟨findings, reports⟩ | ⟨failure, fails⟩
    · have same := found.1.symm.trans (lint_of_reports wanted reports).1
      exact ⟨findings, reports, Except.ok.inj same⟩
    · cases kind : failure.isOrdinary with
      | true =>
          have recorded := (lint_of_ordinary wanted fails kind).2
          rw [found.2] at recorded
          cases recorded
      | false =>
          have passed := (lint_of_other wanted fails kind).1
          rw [found.1] at passed
          cases passed
  · intro reported
    obtain ⟨findings, reports, rfl⟩ := reported
    exact lint_of_reports wanted reports

/-- Whatever is found is what a report says that has arrived whole. -/
theorem reports_of_lint {messages : List Message}
    (found : (adapter.lint snapshot script none).2 = .ok messages) (some : messages ≠ [])
    : ∃ findings,
        script.Reports findings
        ∧ messages = findings.map (Message.ofFinding adapter.profile snapshot.path) := by
  cases wanted : adapter.info.isEnabled snapshot.path with
  | false =>
      have nothing := found.symm.trans (lint_of_disabled wanted script).2
      exact (some (Except.ok.inj nothing)).elim
  | true =>
      refine (lint_found_iff wanted script messages).mp ⟨found, ?_⟩
      rcases adapter.reports_or_fails snapshot.path script with ⟨_, reports⟩ | ⟨failure, fails⟩
      · exact (lint_of_reports wanted reports).2
      · cases kind : failure.isOrdinary with
        | true =>
            have nothing := found.symm.trans (lint_of_ordinary wanted fails kind).1
            exact (some (Except.ok.inj nothing)).elim
        | false => exact (lint_of_other wanted fails kind).2

/-- A lint that is cancelled while its tool is at work gives the cancellation, without a record. -/
theorem abandon_cancels (linting : Linting) (now : Time)
    : (linting.abandon now).2 = .error .cancelled ∧ Tool.errors (linting.abandon now).1 = [] := by
  have other : Failure.cancelled.isOrdinary = false := rfl
  obtain ⟨result, silent⟩ := conclude_other other linting.adapter linting.path
    (now - linting.began)
  have left := (Tool.starts_finish linting.process (.cancelled none)).2
  refine ⟨result, ?_⟩
  simp only [Linting.abandon, Linting.finish, Tool.errors_append, left, List.nil_append]
  exact silent

-----------------------------------------------------------------------------------------
-- The contract
-----------------------------------------------------------------------------------------

/-- What a lint under some settings of a tool owes to whoever asks for it, by its events and by what
comes of it.
-/
structure Contract (info : ToolInfo) (adapter : Adapter) (snapshot : Snapshot)
    (script : Tool.Script) (events : List Tool.Event) (outcome : Except Failure (List Message))
    : Prop where
  /-- Where the tool is not wanted it is not started, and nothing is found. -/
  disabled : info.isEnabled snapshot.path = false → Tool.starts events = [] ∧ outcome = .ok []
  /-- Elsewhere exactly one start is attempted, of the executable with these arguments. -/
  started
    : info.isEnabled snapshot.path = true
      → Tool.starts events
        = [({ executable := info.executable
              arguments := info.arguments
                ++ ["--format", "json", "--exit-zero", "--stdin-filename", snapshot.path, "-"] },
            snapshot.directory)]
  /-- There are messages and no record at error level exactly if a report arrives whole, and then
  they are those of its findings, in order. -/
  found
    : info.isEnabled snapshot.path = true
      → ∀ messages,
          (outcome = .ok messages ∧ Tool.errors events = [])
          ↔ ∃ findings,
              script.Reports findings
              ∧ messages = findings.map (Message.ofFinding adapter.profile snapshot.path)
  /-- In every other case there is a failure. -/
  failed
    : (∃ findings, script.Reports findings)
      ∨ ∃ failure, adapter.Fails snapshot.path script failure
  /-- An ordinary failure leaves one record at error level and no messages. -/
  absorbed
    : info.isEnabled snapshot.path = true
      → ∀ failure,
          adapter.Fails snapshot.path script failure
          → failure.isOrdinary = true
          → outcome = .ok [] ∧ Tool.errors events = [adapter.failureRecord failure]
  /-- The record of a failure of the tool ends with the whole command. -/
  blamed
    : ∀ cause shown,
        adapter.Fails snapshot.path script (.tool cause shown)
        → ∃ before,
            (adapter.failureRecord (.tool cause shown)).message
              = before ++ "\ncommand: " ++ (adapter.command snapshot.path).text
  /-- A failure that is not ordinary passes, without a record. -/
  passed
    : info.isEnabled snapshot.path = true
      → ∀ failure,
          adapter.Fails snapshot.path script failure
          → failure.isOrdinary = false
          → outcome = .error failure ∧ Tool.errors events = []
  /-- So does a cancellation that comes while the tool is at work. -/
  cancelled
    : ∀ start events duration linting now,
        adapter.begin start snapshot script = (events, .working duration linting)
        → (linting.abandon now).2 = .error .cancelled
          ∧ Tool.errors (linting.abandon now).1 = []

/-- An adapter has the settings that it has been made of. -/
theorem info_of_ofInfo {info : ToolInfo} (proper : ofInfo info = .ok adapter)
    : adapter.info = info := by
  obtain ⟨logger, _, same⟩ := bind_eq_ok_iff.mp proper
  exact congrArg Adapter.info (Except.ok.inj same).symm

/-- Under any settings of a tool with a proper identifier, whatever the document is and whatever the
tool does, a lint keeps its contract.
-/
theorem lint_keeps_contract {info : ToolInfo} (proper : ofInfo info = .ok adapter)
    (snapshot : Snapshot) (script : Tool.Script)
    : Contract info adapter snapshot script (adapter.lint snapshot script none).1
        (adapter.lint snapshot script none).2 := by
  obtain rfl := info_of_ofInfo proper
  exact
    { disabled := fun disabled => lint_of_disabled disabled script
      started := fun wanted => starts_lint wanted script
      found := fun wanted => lint_found_iff wanted script
      failed := adapter.reports_or_fails snapshot.path script
      absorbed := fun wanted _ fails => lint_of_ordinary wanted fails
      blamed := fun _ _ fails => failureRecord_of_tool fails
      passed := fun wanted _ fails => lint_of_other wanted fails
      cancelled := fun _ _ _ linting now _ => abandon_cancels linting now }

/-- A tool that is not there leaves one record, with the command that was tried, and no messages. -/
theorem lint_keeps_contract_of_missing_tool
    : let info : ToolInfo := { id := "ruff", executable := "/opt/ruff" }
      let adapter : Adapter := ⟨info, "lintbridge.linters.ruff"⟩
      let snapshot : Snapshot := ⟨"x = 1", "/a.py", none⟩
      let incident : Incident := ⟨.noSuchFile, some "No such file or directory"⟩
      let script : Tool.Script := { noStart := some incident }
      let failure : Failure :=
        .tool (.noStart "/opt/ruff" incident) (some (adapter.command "/a.py").text)
      ofInfo info = .ok adapter
      ∧ info.isEnabled "/a.py" = true
      ∧ (adapter.lint snapshot script none).2 = .ok []
      ∧ Tool.errors (adapter.lint snapshot script none).1 = [adapter.failureRecord failure] := by
  intro info adapter snapshot incident script failure
  have proper : ofInfo info = .ok adapter := by decide
  have wanted : info.isEnabled "/a.py" = true := rfl
  have fails : adapter.Fails "/a.py" script failure := .tool (.noStart rfl rfl)
  have contract := lint_keeps_contract proper snapshot script
  exact ⟨proper, wanted, contract.absorbed wanted failure fails rfl⟩

end Adapter

end EditorLint
