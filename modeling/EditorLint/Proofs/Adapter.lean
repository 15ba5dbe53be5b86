import EditorLint.Adapter

/-! What comes of a lint depends on the document and on the tool, and not on when it is begun or
on how long the tool takes.
-/

namespace EditorLint.Adapter

/-- What a tool finds in a document under the settings of an adapter, with nothing else going
on.
-/
def result (adapter : Adapter) (tool : Tool.Behaviour) (snapshot : Snapshot) :
    Except Failure (List Message) :=
  (adapter.lint snapshot (adapter.script tool snapshot) none).2

variable {adapter : Adapter} {now : Time} {snapshot : Snapshot} {script : Tool.Script}

/-- The time that a run has taken is told in the log alone. -/
theorem conclude_result (adapter : Adapter) (path : String) (duration other : Time)
    (outcome : Except Failure (List Message))
    : (adapter.conclude path duration outcome).2 = (adapter.conclude path other outcome).2 := by
  cases outcome <;> rfl

/-- Two exchanges with the same process have the same result, whenever they began and end. -/
theorem complete_result (adapter : Adapter) (path : String) (process : Tool.Process)
    (began begun later late : Time)
    : ((⟨adapter, path, began, process⟩ : Linting).complete later).2
      = ((⟨adapter, path, begun, process⟩ : Linting).complete late).2 :=
  conclude_result adapter path _ _ _

/-- The tool that an adapter has started on a document. -/
def started (adapter : Adapter) (now : Time) (snapshot : Snapshot) (script : Tool.Script) :
    Linting :=
  { adapter, path := snapshot.path, began := now
    process := ⟨adapter.logger, adapter.command snapshot.path, script⟩ }

/-- A process that starts is handed the text; one that does not fails. -/
theorem start_cases (logger : String) (command : Tool.Command) (text : String)
    (directory : Option String) (script : Tool.Script)
    : (∃ events,
        .input text ∈ events
        ∧ Tool.Process.start logger command text directory script
          = (events, .ok ⟨logger, command, script⟩))
      ∨ ∃ events failure,
          Tool.Process.start logger command text directory script = (events, .error failure) := by
  unfold Tool.Process.start
  cases script.noStart with
  | none => exact Or.inl ⟨_, List.mem_append_right _ List.mem_cons_self, rfl⟩
  | some incident =>
      apply Or.inr
      cases system : incident.kind.isOperatingSystem with
      | true => exact ⟨_, _, if_pos system⟩
      | false => exact ⟨_, _, if_neg (by simp [system])⟩

/-- A run that has failed finds nothing. -/
theorem conclude_error {path : String} {duration : Time} {failure : Failure}
    {messages : List Message}
    (found : (adapter.conclude path duration (.error failure)).2 = .ok messages)
    : messages = [] := by
  unfold conclude at found
  dsimp only at found
  split at found
  · exact (Except.ok.inj found).symm
  · cases found

/-- How a document begins to be linted: with a tool that is then at work for a while or at once,
or with none, since it is not wanted or does not start, and then nothing is found.
-/
theorem begin_cases (adapter : Adapter) (snapshot : Snapshot) (script : Tool.Script)
    : (∀ now,
        .input snapshot.text ∈ (adapter.begin now snapshot script).1
        ∧ (adapter.begin now snapshot script).2
          = match script.work with
            | some duration => .working duration (adapter.started now snapshot script)
            | none => .done ((adapter.started now snapshot script).complete now).2)
      ∨ ∃ outcome,
          (∀ now, (adapter.begin now snapshot script).2 = .done outcome)
          ∧ ∀ messages, outcome = .ok messages → messages = [] := by
  unfold begin
  dsimp only
  cases adapter.info.isEnabled snapshot.path with
  | false => exact Or.inr ⟨.ok [], fun _ => rfl, fun _ same => (Except.ok.inj same).symm⟩
  | true =>
      rcases start_cases adapter.logger (adapter.command snapshot.path) snapshot.text
        snapshot.directory script with ⟨events, handed, starts⟩ | ⟨events, failure, fails⟩
      · simp only [if_true, starts]
        apply Or.inl
        intro now
        cases script.work with
        | some duration => exact ⟨handed, rfl⟩
        | none => exact ⟨List.mem_append_left _ handed, rfl⟩
      · simp only [if_true, fails]
        exact Or.inr ⟨_, fun _ => rfl, fun _ => conclude_error⟩

/-- What a tool leaves in the end depends on how long it has been at work, and not on when it was
started.
-/
theorem complete_started (adapter : Adapter) (snapshot : Snapshot) (script : Tool.Script)
    (now duration : Time)
    : (adapter.started now snapshot script).complete (now + duration)
      = (adapter.started 0 snapshot script).complete duration := by
  simp [started, Linting.complete, Linting.finish]

/-- A document begins to be linted in the same way at any time. -/
theorem begin_alike (adapter : Adapter) (snapshot : Snapshot) (script : Tool.Script)
    : (∃ events outcome,
        ∀ now, adapter.begin now snapshot script = (events, .done outcome))
      ∨ ∃ events duration,
          ∀ now,
            adapter.begin now snapshot script
              = (events, .working duration (adapter.started now snapshot script)) := by
  unfold begin
  dsimp only
  cases adapter.info.isEnabled snapshot.path with
  | false => exact Or.inl ⟨_, _, fun _ => rfl⟩
  | true =>
      rcases start_cases adapter.logger (adapter.command snapshot.path) snapshot.text
        snapshot.directory script with ⟨events, _, starts⟩ | ⟨events, failure, fails⟩
      · simp only [if_true, starts]
        cases script.work with
        | some duration => exact Or.inr ⟨events, duration, fun _ => rfl⟩
        | none =>
            let alone := (adapter.started 0 snapshot script).complete 0
            refine Or.inl ⟨events ++ alone.1, alone.2, ?_⟩
            intro now
            have same : (adapter.started now snapshot script).complete now = alone :=
              complete_started adapter snapshot script now 0
            rw [← same]
            rfl
      · simp only [if_true, fails]
        exact Or.inl ⟨_, _, fun _ => rfl⟩

theorem began_of_working {events : List Tool.Event} {duration : Time} {linting : Linting}
    (begun : adapter.begin now snapshot script = (events, .working duration linting))
    : linting.began = now := by
  rcases begin_alike adapter snapshot script with ⟨_, _, done⟩ | ⟨_, _, working⟩
  · rw [done now] at begun
    cases begun
  · rw [working now] at begun
    cases begun
    rfl

/-- A lint that is over as soon as it is begun goes as it does on its own. -/
theorem lint_of_done {events : List Tool.Event} {outcome : Except Failure (List Message)}
    (begun : adapter.begin now snapshot script = (events, .done outcome))
    : adapter.lint snapshot script none = (events, outcome) := by
  rcases begin_alike adapter snapshot script with ⟨_, _, done⟩ | ⟨_, _, working⟩
  · rw [done now] at begun
    obtain ⟨rfl, rfl⟩ : _ ∧ _ := by simpa using begun
    simp [lint, done 0]
  · rw [working now] at begun
    cases begun

/-- A lint that ends when the tool has done its work goes as it does on its own. -/
theorem lint_of_working {events : List Tool.Event} {duration : Time} {linting : Linting}
    (begun : adapter.begin now snapshot script = (events, .working duration linting))
    : adapter.lint snapshot script none
      = (events ++ (linting.complete (now + duration)).1,
          (linting.complete (now + duration)).2) := by
  rcases begin_alike adapter snapshot script with ⟨_, _, done⟩ | ⟨_, _, working⟩
  · rw [done now] at begun
    cases begun
  · rw [working now] at begun
    obtain ⟨rfl, rfl, rfl⟩ : _ ∧ _ ∧ _ := by simpa using begun
    rw [complete_started]
    simp [lint, working 0]

variable {tool : Tool.Behaviour}

/-- A lint that is over as soon as it is begun has its result. -/
theorem result_of_done {outcome : Except Failure (List Message)}
    (begun : (adapter.begin now snapshot (adapter.script tool snapshot)).2 = .done outcome)
    : outcome = adapter.result tool snapshot := by
  rw [result, lint_of_done (Prod.ext rfl begun)]

/-- A tool that works for a while works as long as it says, and has its result in the end,
whenever that comes.
-/
theorem result_of_working {duration : Time} {linting : Linting}
    (begun : (adapter.begin now snapshot (adapter.script tool snapshot)).2
      = .working duration linting)
    (later : Time)
    : (linting.complete later).2 = adapter.result tool snapshot
      ∧ (adapter.script tool snapshot).work = some duration := by
  constructor
  · rw [result, lint_of_working (Prod.ext rfl begun)]
    exact complete_result linting.adapter linting.path linting.process _ _ _ _
  · rcases begin_cases adapter snapshot (adapter.script tool snapshot) with
      starts | ⟨none, ends, _⟩
    · rw [(starts now).2] at begun
      cases work : (adapter.script tool snapshot).work with
      | none => simp [work] at begun
      | some takes =>
          simp only [work, Progress.working.injEq] at begun
          rw [begun.1]
    · rw [ends now] at begun
      cases begun

/-- A tool that finds anything has been handed the text of the document. -/
theorem input_of_result {messages : List Message} (now : Time)
    (found : adapter.result tool snapshot = .ok messages) (some : messages ≠ [])
    : .input snapshot.text ∈ (adapter.begin now snapshot (adapter.script tool snapshot)).1 := by
  rcases begin_cases adapter snapshot (adapter.script tool snapshot) with
    starts | ⟨outcome, ends, nothing⟩
  · exact (starts now).1
  · rw [result, lint_of_done (Prod.ext rfl (ends 0))] at found
    exact (some (nothing messages found)).elim

end EditorLint.Adapter
