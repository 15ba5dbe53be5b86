import EditorLint.Proofs.Editor.CodeAction
import EditorLint.Proofs.Editor.Diagnostic
import EditorLint.Proofs.Session.FixAll

/-! What diagnostics contribute to the actions that fix one problem each. As long as every fix that
can be read can also be made, each diagnostic contributes its own action or nothing, whatever the
others bring along. A single diagnostic that fails otherwise takes all actions away.
-/

namespace EditorLint

open Editor

/-- No coordinate of a fix is out of bounds, and its file has an address. -/
structure Fix.Applicable (fix : Fix) : Prop where
  address : (Uri.ofPath? fix.file).isSome
  start : 0 ≤ fix.span.start.row.value ∧ fix.span.start.row.value ≤ coordLimit
  startColumn : 0 ≤ fix.span.start.column.value ∧ fix.span.start.column.value ≤ coordLimit
  stop : 0 ≤ fix.span.stop.row.value ∧ fix.span.stop.row.value ≤ coordLimit
  stopColumn : 0 ≤ fix.span.stop.column.value ∧ fix.span.stop.column.value ≤ coordLimit

namespace Editor

/-- A diagnostic brings along no fix, or one that can be made. -/
def Diagnostic.Harmless (diagnostic : Diagnostic) : Prop :=
  ∃ fix?, diagnostic.fix? = .ok fix? ∧ ∀ fix ∈ fix?, fix.Applicable

/-- The action that makes the edit of a diagnostic's fix. -/
def Diagnostic.action (diagnostic : Diagnostic) (file : String) (edit : TextEdit) : CodeAction :=
  { title := quickFixTitle diagnostic
    kind := quickFixKind
    diagnostics := some [diagnostic]
    edit := [(file, [edit])]
    isPreferred := some true }

-----------------------------------------------------------------------------------------
-- One diagnostic
-----------------------------------------------------------------------------------------

/-- A fix has an edit exactly if it can be made. -/
theorem exists_isOf_iff {fix : Fix}
    : (∃ (file : String) (edit : TextEdit), edit.IsOf file fix) ↔ fix.Applicable := by
  constructor
  · intro given
    obtain ⟨file, edit, named, made⟩ := given
    obtain ⟨start, startColumn, stop, stopColumn⟩ := exists_ofFix_iff.mp ⟨edit, made⟩
    have address : (Uri.ofPath? fix.file).isSome := by
      unfold fileUri at named
      split at named <;> simp_all
    exact ⟨address, start, startColumn, stop, stopColumn⟩
  · intro given
    obtain ⟨address, start, startColumn, stop, stopColumn⟩ := given
    obtain ⟨file, named⟩ := Option.isSome_iff_exists.mp address
    obtain ⟨edit, made⟩ := exists_ofFix_iff.mpr ⟨start, startColumn, stop, stopColumn⟩
    exact ⟨file, edit, by simp [fileUri, named], made⟩

/-- A diagnostic that brings along no fix is harmless. -/
theorem harmless_of_none {diagnostic : Diagnostic} (without : diagnostic.fix? = .ok none)
    : diagnostic.Harmless :=
  ⟨none, without, by simp⟩

/-- So is one that brings along a fix that can be made. -/
theorem harmless_of_some {diagnostic : Diagnostic} {fix : Fix}
    (brought : diagnostic.fix? = .ok (some fix)) (applicable : fix.Applicable)
    : diagnostic.Harmless :=
  ⟨some fix, brought, fun _ found => Option.some.inj found ▸ applicable⟩

/-- A diagnostic without a fix has no action. -/
theorem quickFix_of_none {diagnostic : Diagnostic} (without : diagnostic.fix? = .ok none)
    : quickFix diagnostic = .ok none := by
  simp only [quickFix, without]
  rfl

/-- A diagnostic with a fix has the action that makes the fix's edit. -/
theorem quickFix_of_some {diagnostic : Diagnostic} {fix : Fix} {file : String} {edit : TextEdit}
    (brought : diagnostic.fix? = .ok (some fix)) (own : edit.IsOf file fix)
    : quickFix diagnostic = .ok (some (diagnostic.action file edit)) := by
  have made : WorkspaceEdit.ofFixes [fix] = .ok [(file, [edit])] := by
    simp only [WorkspaceEdit.ofFixes, List.foldlM_cons, WorkspaceEdit.addFix, own.1, own.2]
    rfl
  simp only [quickFix, brought, bind, Except.bind, made]
  rfl

/-- A diagnostic is tried with a result exactly if it is harmless. -/
theorem exists_quickFix_iff {diagnostic : Diagnostic}
    : (∃ action?, quickFix diagnostic = .ok action?) ↔ diagnostic.Harmless := by
  constructor
  · intro given
    obtain ⟨action?, tried⟩ := given
    obtain ⟨fix?, brought, more⟩ := bind_eq_ok_iff.mp tried
    refine ⟨fix?, brought, ?_⟩
    intro fix found
    obtain rfl : fix? = some fix := found
    obtain ⟨changes, made, _⟩ := bind_eq_ok_iff.mp more
    obtain ⟨_, added, _⟩ := bind_eq_ok_iff.mp made
    obtain ⟨file, named, further⟩ := bind_eq_ok_iff.mp added
    obtain ⟨edit, ranged, _⟩ := bind_eq_ok_iff.mp further
    exact exists_isOf_iff.mp ⟨file, edit, named, ranged⟩
  · intro harmless
    obtain ⟨fix?, brought, applicable⟩ := harmless
    cases fix? with
    | none => exact ⟨none, quickFix_of_none brought⟩
    | some fix =>
        obtain ⟨file, edit, own⟩ := exists_isOf_iff.mpr (applicable fix rfl)
        exact ⟨_, quickFix_of_some brought own⟩

end Editor

namespace Session

variable {first second : List Diagnostic}

-----------------------------------------------------------------------------------------
-- All diagnostics of a request
-----------------------------------------------------------------------------------------

/-- Where only fixes of one problem are asked for, these are all that is offered. -/
theorem Server.offers_quickFix (server : Server) (uri : String) (diagnostics : List Diagnostic)
    : server.offers uri [quickFixKind] diagnostics
      = ((quickFixes diagnostics).toOption).getD [] := by
  have asked : kindRequested quickFixKind [quickFixKind] = true := by decide
  have unasked : kindRequested fixAllKind [quickFixKind] = false := by decide
  rw [Server.offers_eq, codeActions_eq, asked, unasked]
  cases quickFixes diagnostics with
  | ok actions => simp [bind, Except.bind]
  | error failure => rfl

/-- Diagnostics have actions together exactly if each of them is harmless. -/
theorem exists_quickFixes_iff {diagnostics : List Diagnostic}
    : (∃ actions, quickFixes diagnostics = .ok actions) ↔ ∀ d ∈ diagnostics, d.Harmless := by
  simp only [← exists_quickFix_iff, ← exists_mapM_eq_ok_iff, quickFixes, bind_eq_ok_iff]
  constructor
  · intro given
    obtain ⟨_, found, tried, _⟩ := given
    exact ⟨found, tried⟩
  · intro given
    obtain ⟨found, tried⟩ := given
    exact ⟨_, found, tried, rfl⟩

/-- Harmless diagnostics have the actions that each part of them has. -/
theorem quickFixes_append {actions more : List CodeAction}
    (begun : quickFixes first = .ok actions) (went : quickFixes second = .ok more)
    : quickFixes (first ++ second) = .ok (actions ++ more) := by
  obtain ⟨found, tried, same⟩ := bind_eq_ok_iff.mp begun
  obtain ⟨others, retried, equal⟩ := bind_eq_ok_iff.mp went
  cases same
  cases equal
  refine bind_eq_ok_iff.mpr ⟨found ++ others, ?_, by simp [pure, Except.pure]⟩
  rw [List.mapM_append, tried, retried]
  rfl

/-- One diagnostic that is not harmless takes away every action, those of the others too. -/
theorem Server.offers_eq_nil_of_not_harmless (server : Server) (uri : String)
    (spoiled : ∃ diagnostic ∈ first, ¬ diagnostic.Harmless)
    : server.offers uri [quickFixKind] first = [] := by
  rw [Server.offers_quickFix]
  cases made : quickFixes first with
  | error failure => rfl
  | ok actions =>
      obtain ⟨diagnostic, member, harmful⟩ := spoiled
      exact absurd (exists_quickFixes_iff.mp ⟨actions, made⟩ diagnostic member) harmful

/-- Harmless diagnostics leave each other's actions in place: what is offered for some and more of
them is what is offered for the ones and for the others. A diagnostic without a fix contributes
nothing, and one with a fix its own action, with the edit of that fix.
-/
theorem Server.offers_append_of_harmless (server : Server) (uri : String)
    (harmless : ∀ diagnostic ∈ first ++ second, diagnostic.Harmless)
    : server.offers uri [quickFixKind] (first ++ second)
        = server.offers uri [quickFixKind] first ++ server.offers uri [quickFixKind] second
      ∧ ∀ diagnostic ∈ first ++ second,
          (diagnostic.fix? = .ok none ∧ server.offers uri [quickFixKind] [diagnostic] = [])
          ∨ ∃ fix file edit,
              diagnostic.fix? = .ok (some fix) ∧ edit.IsOf file fix
              ∧ server.offers uri [quickFixKind] [diagnostic] = [diagnostic.action file edit] := by
  obtain ⟨actions, begun⟩ := exists_quickFixes_iff.mpr fun diagnostic member =>
    harmless diagnostic (List.mem_append_left second member)
  obtain ⟨more, went⟩ := exists_quickFixes_iff.mpr fun diagnostic member =>
    harmless diagnostic (List.mem_append_right first member)
  simp only [Server.offers_quickFix]
  refine ⟨by simp [quickFixes_append begun went, begun, went, Except.toOption], ?_⟩
  intro diagnostic member
  obtain ⟨fix?, brought, applicable⟩ := harmless diagnostic member
  cases fix? with
  | none =>
      refine Or.inl ⟨brought, ?_⟩
      simp [quickFixes, quickFix_of_none brought, bind, Except.bind, pure, Except.pure,
        Except.toOption]
  | some fix =>
      obtain ⟨file, edit, own⟩ := exists_isOf_iff.mpr (applicable fix rfl)
      refine Or.inr ⟨fix, file, edit, brought, own, ?_⟩
      simp [quickFixes, quickFix_of_some brought own, bind, Except.bind, pure, Except.pure,
        Except.toOption]

-----------------------------------------------------------------------------------------
-- A diagnostic that spoils the others
-----------------------------------------------------------------------------------------

/-- A diagnostic with the data that an editor sends back for it. -/
def diagnosticWith (data : Json) : Diagnostic :=
  { range := ⟨⟨.int 0, .int 0⟩, ⟨.int 0, .int 1⟩⟩, text := "", data := some data }

/-- A fix that takes the rows of a document away, up to a given one. -/
def fixUpTo (row : Int) : Fix :=
  ⟨"/a.py", ⟨⟨.int 0, .int 0⟩, ⟨.int row, .int 0⟩⟩, ""⟩

/-- A diagnostic with a fix that can be made. -/
def fixedDiagnostic : Diagnostic :=
  diagnosticWith (fixUpTo 1).toData

/-- A diagnostic whose data is no fix. -/
def garbledDiagnostic : Diagnostic :=
  diagnosticWith (.obj [(Fix.dataKey, .str "nonsense")])

/-- A diagnostic with a fix that ends above the first row. -/
def spoiledDiagnostic : Diagnostic :=
  diagnosticWith (fixUpTo (-1)).toData

/-- The action of the fix that can be made. -/
def fixedAction : CodeAction :=
  fixedDiagnostic.action "file:///a.py" ⟨⟨⟨.int 0, .int 0⟩, ⟨.int 1, .int 0⟩⟩, ""⟩

/-- A server at its start. -/
def idleServer : Server :=
  Server.start {} 0 {} ({} : Tool.Script)

/-- What is offered there for each of these diagnostics alone. -/
theorem offers_alone
    : idleServer.offers "file:///a.py" [quickFixKind] [fixedDiagnostic] = [fixedAction]
      ∧ idleServer.offers "file:///a.py" [quickFixKind] [garbledDiagnostic] = [] := by
  decide +kernel

/-- Next to a diagnostic whose data is no fix, the other one keeps its action. -/
theorem offers_beside_garbled
    : (∀ diagnostic ∈ [fixedDiagnostic] ++ [garbledDiagnostic], diagnostic.Harmless)
      ∧ idleServer.offers "file:///a.py" [quickFixKind] ([fixedDiagnostic] ++ [garbledDiagnostic])
          = [fixedAction] := by
  have applicable : (fixUpTo 1).Applicable :=
    ⟨by decide +kernel, by decide, by decide, by decide, by decide⟩
  have fixed : fixedDiagnostic.Harmless := harmless_of_some (by decide +kernel) applicable
  have garbled : garbledDiagnostic.Harmless := harmless_of_none (by decide +kernel)
  have harmless
      : ∀ diagnostic ∈ [fixedDiagnostic] ++ [garbledDiagnostic], diagnostic.Harmless := by
    simp [fixed, garbled]
  refine ⟨harmless, ?_⟩
  obtain ⟨parts, _⟩ := idleServer.offers_append_of_harmless "file:///a.py" harmless
  rw [parts, offers_alone.1, offers_alone.2]
  rfl

/-- Next to one with a fix that cannot be made, it loses its action. -/
theorem offers_beside_spoiled
    : idleServer.offers "file:///a.py" [quickFixKind] [fixedDiagnostic] = [fixedAction]
      ∧ idleServer.offers "file:///a.py" [quickFixKind] ([fixedDiagnostic] ++ [spoiledDiagnostic])
          = [] := by
  decide +kernel

end Session

end EditorLint
