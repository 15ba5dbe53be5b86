import EditorLint.Proofs.Adapter.Contract
import EditorLint.Proofs.Editor.WorkspaceEdit
import EditorLint.Proofs.Session.FixAll

/-! Which files the action for all fixes of a document edits. They are those that the findings of
the latest lint name. Nothing keeps them to the document: a tool that names another file makes the
server offer edits of that file.
-/

namespace EditorLint

/-- A finding names no file, or one that has a given address. -/
def Finding.Stays (finding : Finding) (uri : String) : Prop :=
  ∀ file, finding.file = some file → file = "" ∨ Editor.fileUri file = .ok uri

/-- The message of a finding is about a file of the address of the one that was checked exactly if
the finding names none of another address.
-/
theorem fileUri_fileOf_iff {finding : Finding} {path uri : String}
    (canonical : Editor.fileUri path = .ok uri)
    : Editor.fileUri (Message.fileOf finding path) = .ok uri ↔ finding.Stays uri := by
  unfold Message.fileOf Finding.Stays
  cases finding.file with
  | none => simp [canonical]
  | some file =>
      by_cases empty : file = ""
      · simp [empty, canonical]
      · simp [empty]

/-- The fixes of messages are those of findings, each in the file that its finding is about. -/
theorem exists_fix_iff (findings : List Finding) (profile : Profile) (path : String)
    (p : String → Prop)
    : (∃ fix ∈ (findings.map (Message.ofFinding profile path)).filterMap (·.fix), p fix.file)
      ↔ ∃ finding ∈ findings, finding.fix ≠ none ∧ p (Message.fileOf finding path) := by
  simp only [List.mem_filterMap, List.mem_map, exists_exists_and_eq_and]
  constructor
  · intro given
    obtain ⟨fix, ⟨finding, member, suggests⟩, holds⟩ := given
    obtain ⟨own, suggested, rfl⟩ := Option.map_eq_some_iff.mp suggests
    exact ⟨finding, member, by simp [suggested], holds⟩
  · intro given
    obtain ⟨finding, member, suggests, holds⟩ := given
    obtain ⟨own, suggested⟩ := Option.ne_none_iff_exists'.mp suggests
    exact ⟨_, ⟨finding, member, Option.map_eq_some_iff.mpr ⟨own, suggested, rfl⟩⟩, holds⟩

namespace Session

variable {inputs : List Input} {server : Server}

/-- The files of the action for all fixes, however what arrives and what is done are interleaved.
They are those that the findings with a fix of the latest lint of the document are about. If the
address that is asked for is the one of the linted path, it alone is edited exactly if no such
finding names a file of another address.
-/
theorem files_of_fixAll {disk : Disk} {delay : Time} {settings : Settings}
    {tool : Tool.Behaviour}
    (run : Run AtAnyTime (Server.start disk delay settings tool) inputs server)
    {uri : String} {only : List String} {diagnostics : List Editor.Diagnostic}
    {action : Editor.CodeAction} (offered : action ∈ server.offers uri only diagnostics)
    (all : action.kind = Editor.fixAllKind)
    : ∃ (lint : LintRun) (since : List Input) (findings : List Finding),
        lint.Begun AtAnyTime (Server.start disk delay settings tool) inputs server since
        ∧ lint.Launched AtAnyTime (Server.start disk delay settings tool) inputs server
        ∧ lint.job.uri = uri
        ∧ (lint.adapter.script lint.tool lint.snapshot).Reports findings
        ∧ server.world.published.get? uri
          = some (findings.map (Message.ofFinding lint.adapter.profile lint.snapshot.path))
        ∧ (∀ file,
            file ∈ action.edit.keys
            ↔ ∃ finding ∈ findings,
                finding.fix ≠ none
                ∧ Editor.fileUri (Message.fileOf finding lint.snapshot.path) = .ok file)
        ∧ (Editor.fileUri lint.snapshot.path = .ok uri
          → (action.edit.keys = [uri]
            ↔ ∀ finding ∈ findings, finding.fix ≠ none → finding.Stays uri)) := by
  obtain ⟨actions, answered, member⟩ := codeActions_of_offers offered
  have made := Editor.edit_of_fixAll answered member all
  have selected := Editor.selectedFixes_ne_nil answered member all
  cases known : server.world.published.get? uri with
  | none => simp [known, Editor.selectedFixes, Fix.select, Fix.ordered, Fix.keepAfter] at selected
  | some messages =>
      rw [known] at made selected
      simp only [Option.getD_some] at made selected
      obtain ⟨lint, between, later, published, launched, rfl, result⟩ :=
        (run.traced rfl rfl).published uri messages known
      have some : messages ≠ [] := by
        rintro rfl
        exact selected rfl
      obtain ⟨findings, reports, rfl⟩ := Adapter.reports_of_lint result some
      refine ⟨lint, _, findings, published.begun, launched, rfl, reports, rfl, ?_, ?_⟩
      · intro file
        rw [Editor.mem_keys_of_fixAll made]
        exact exists_fix_iff findings _ _ fun named => Editor.fileUri named = .ok file
      · intro canonical
        rw [Editor.keys_of_fixAll_eq_singleton_iff made selected]
        have strays := not_congr <| exists_fix_iff findings lint.adapter.profile
          lint.snapshot.path fun named => ¬ Editor.fileUri named = .ok lint.job.uri
        simpa only [not_exists, not_and, not_not, fileUri_fileOf_iff canonical] using strays

-----------------------------------------------------------------------------------------
-- A tool that names another file
-----------------------------------------------------------------------------------------

/-- A tool that reports one finding about another file than it is handed, with a fix for it. -/
def strayingTool : Tool.Script :=
  { stdout := Text.Utf8.encode <|
      "[\x7b\"code\":\"\",\"message\":\"\",\"location\":\x7b\"row\":1,\"column\":1\x7d,"
        ++ "\"end_location\":\x7b\"row\":1,\"column\":1\x7d,\"filename\":\"/b.py\","
        ++ "\"fix\":\x7b\"content\":\"\",\"location\":\x7b\"row\":1,\"column\":1\x7d,"
        ++ "\"end_location\":\x7b\"row\":1,\"column\":1\x7d\x7d\x7d]" }

/-- A document is opened and rests until it is linted. -/
def openedInputs : List Input :=
  [.initialized none none, .opened "file:///a.py" none none "", .advance 300000000]

/-- A server that has linted a document with this tool. -/
def strayingServer : Server :=
  (Server.start {} 300000000 { ignorePatterns := [] } strayingTool).session openedInputs

/-- The action that applies the fix that the tool suggests. -/
def strayingAction : Editor.CodeAction :=
  { title := "lintbridge: fix all auto-fixable problems"
    kind := Editor.fixAllKind
    diagnostics := none
    edit := [("file:///b.py", [⟨⟨⟨.int 0, .int 1⟩, ⟨.int 0, .int 1⟩⟩, ""⟩])]
    isPreferred := none }

/-- That server offers it for the document that was linted. -/
theorem strayingServer_offers
    : strayingServer.offers "file:///a.py" [Editor.fixAllKind] [] = [strayingAction] := by
  decide +kernel

/-- It edits the other file and not the document, and this goes back to a finding of the latest
lint of the document.
-/
theorem files_of_strayingAction
    : strayingAction ∈ strayingServer.offers "file:///a.py" [Editor.fixAllKind] []
      ∧ strayingAction.edit.keys = ["file:///b.py"]
      ∧ ∃ (lint : LintRun) (findings : List Finding),
          lint.job.uri = "file:///a.py"
          ∧ (lint.adapter.script lint.tool lint.snapshot).Reports findings
          ∧ (∃ finding ∈ findings,
              finding.fix ≠ none
              ∧ Editor.fileUri (Message.fileOf finding lint.snapshot.path) = .ok "file:///b.py")
          ∧ (Editor.fileUri lint.snapshot.path = .ok "file:///a.py"
            → ∃ finding ∈ findings, finding.fix ≠ none ∧ ¬ finding.Stays "file:///a.py") := by
  have offered : strayingAction ∈ strayingServer.offers "file:///a.py" [Editor.fixAllKind] [] := by
    simp [strayingServer_offers]
  have run
      : Run AtAnyTime (Server.start {} 300000000 { ignorePatterns := [] } strayingTool)
          openedInputs strayingServer :=
    (run_session {} 300000000 { ignorePatterns := [] } strayingTool openedInputs).1.mono
      fun _ _ => True.intro
  obtain ⟨lint, _, findings, _, _, about, reports, _, files, alone⟩ :=
    files_of_fixAll run offered rfl
  refine ⟨offered, rfl, lint, findings, about, reports, ?_, ?_⟩
  · exact (files "file:///b.py").mp List.mem_cons_self
  · intro canonical
    by_contra none
    have only : strayingAction.edit.keys = ["file:///a.py"] := by
      refine (alone canonical).mpr fun finding member suggests => ?_
      by_contra strays
      exact none ⟨finding, member, suggests, strays⟩
    exact absurd only (by decide)

end Session

end EditorLint
