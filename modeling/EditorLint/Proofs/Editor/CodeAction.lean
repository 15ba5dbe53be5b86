import EditorLint.Editor.CodeAction
import EditorLint.Proofs.Fix.Selection
import EditorLint.Proofs.Outcome

/-! Where the edits of code actions come from. Each is the edit of one fix, in the file of that
fix.
-/

namespace EditorLint.Editor

/-- An edit of a file is the one that a fix says. -/
def TextEdit.IsOf (edit : TextEdit) (file : String) (fix : Fix) : Prop :=
  fileUri fix.file = .ok file ∧ TextEdit.ofFix fix = .ok edit

/-- An edit that comes with a fix is the fix's, or was there before. -/
theorem WorkspaceEdit.mem_addFix {changes after : WorkspaceEdit} {fix : Fix} {file : String}
    {edits : List TextEdit} {edit : TextEdit}
    (added : changes.addFix fix = .ok after) (entry : (file, edits) ∈ after) (part : edit ∈ edits)
    : edit.IsOf file fix ∨ ∃ old, (file, old) ∈ changes ∧ edit ∈ old := by
  obtain ⟨uri, named, more⟩ := bind_eq_ok_iff.mp added
  obtain ⟨own, made, same⟩ := bind_eq_ok_iff.mp more
  obtain rfl : changes.add uri own = after := Except.ok.inj same
  rcases Table.mem_insert entry with new | old
  · obtain ⟨rfl, rfl⟩ := Prod.mk.inj new
    rcases List.mem_append.mp part with before | last
    · cases found : changes.get? file with
      | none => simp [found] at before
      | some old =>
          rw [found] at before
          exact Or.inr ⟨old, Table.mem_of_get? found, before⟩
    · obtain rfl := List.mem_singleton.mp last
      exact Or.inl ⟨named, made⟩
  · exact Or.inr ⟨edits, old, part⟩

/-- Every edit of several fixes is the edit of one of them, by induction over the fixes. -/
theorem WorkspaceEdit.mem_ofFixes {fixes : List Fix} {changes after : WorkspaceEdit}
    {file : String} {edits : List TextEdit} {edit : TextEdit}
    (made : fixes.foldlM addFix changes = .ok after) (entry : (file, edits) ∈ after)
    (part : edit ∈ edits)
    : (∃ fix ∈ fixes, edit.IsOf file fix) ∨ ∃ old, (file, old) ∈ changes ∧ edit ∈ old := by
  induction fixes generalizing changes with
  | nil =>
      obtain rfl : changes = after := Except.ok.inj made
      exact Or.inr ⟨edits, entry, part⟩
  | cons first rest ih =>
      rw [List.foldlM_cons] at made
      obtain ⟨middle, added, more⟩ := bind_eq_ok_iff.mp made
      rcases ih more with ⟨fix, member, own⟩ | ⟨old, before, inside⟩
      · exact Or.inl ⟨fix, List.mem_cons_of_mem first member, own⟩
      · rcases mem_addFix added before inside with own | older
        · exact Or.inl ⟨first, List.mem_cons_self, own⟩
        · exact Or.inr older

/-- An action for a single diagnostic is no action for all fixes. -/
theorem kind_of_mem_quickFixes {diagnostics : List Diagnostic} {actions : List CodeAction}
    {action : CodeAction}
    (answered : quickFixes diagnostics = .ok actions) (offered : action ∈ actions)
    : action.kind = quickFixKind := by
  obtain ⟨found, tried, same⟩ := bind_eq_ok_iff.mp answered
  obtain rfl : found.filterMap id = actions := Except.ok.inj same
  obtain ⟨_, member, rfl⟩ := List.mem_filterMap.mp offered
  obtain ⟨diagnostic, _, fixed⟩ := exists_of_mem_mapM tried member
  obtain ⟨fix?, _, rest⟩ := bind_eq_ok_iff.mp fixed
  cases fix? with
  | none => cases rest
  | some fix =>
      obtain ⟨edit, _, result⟩ := bind_eq_ok_iff.mp rest
      cases result
      rfl

/-- Actions for diagnostics come before the one for all fixes, each if it is asked for. -/
theorem codeActions_eq (diagnostics : List Diagnostic) (only : List String)
    (messages : List Message)
    : codeActions diagnostics only messages
      = ((if kindRequested quickFixKind only then quickFixes diagnostics else .ok [])
        >>= fun quick =>
          (if kindRequested fixAllKind only then fixAll messages else .ok [])
          >>= fun all => .ok (quick ++ all)) := by
  unfold codeActions
  split <;> split <;> rfl

/-- An action for all fixes is there if there are any, and makes the edits of those selected from
the messages.
-/
theorem edit_of_mem_fixAll {messages : List Message} {actions : List CodeAction}
    {action : CodeAction} (made : fixAll messages = .ok actions) (member : action ∈ actions)
    : selectedFixes messages ≠ []
      ∧ WorkspaceEdit.ofFixes (selectedFixes messages) = .ok action.edit := by
  unfold fixAll at made
  split at made
  · cases made
    cases member
  next some =>
    obtain ⟨changes, grouped, result⟩ := bind_eq_ok_iff.mp made
    cases result
    obtain rfl := List.mem_singleton.mp member
    exact ⟨some, grouped⟩

/-- An offered action for all fixes is the one that is made from the messages. -/
theorem mem_fixAll_of_codeActions {diagnostics : List Diagnostic} {only : List String}
    {messages : List Message} {actions : List CodeAction} {action : CodeAction}
    (answered : codeActions diagnostics only messages = .ok actions) (offered : action ∈ actions)
    (all : action.kind = fixAllKind)
    : ∃ whole, fixAll messages = .ok whole ∧ action ∈ whole := by
  rw [codeActions_eq] at answered
  obtain ⟨quick, quickly, more⟩ := bind_eq_ok_iff.mp answered
  obtain ⟨whole, wholly, same⟩ := bind_eq_ok_iff.mp more
  obtain rfl : quick ++ whole = actions := Except.ok.inj same
  rcases List.mem_append.mp offered with single | every
  · split at quickly
    · have other := kind_of_mem_quickFixes quickly single
      rw [all] at other
      exact absurd other (by decide)
    · cases quickly
      cases single
  · split at wholly
    · exact ⟨whole, wholly, every⟩
    · cases wholly
      cases every

/-- The action for all fixes of a document makes the edits of the fixes selected from its
messages.
-/
theorem edit_of_fixAll {diagnostics : List Diagnostic} {only : List String}
    {messages : List Message} {actions : List CodeAction} {action : CodeAction}
    (answered : codeActions diagnostics only messages = .ok actions) (offered : action ∈ actions)
    (all : action.kind = fixAllKind)
    : WorkspaceEdit.ofFixes (selectedFixes messages) = .ok action.edit := by
  obtain ⟨whole, made, member⟩ := mem_fixAll_of_codeActions answered offered all
  exact (edit_of_mem_fixAll made member).2

/-- It is offered only if one of these messages has a fix. -/
theorem selectedFixes_ne_nil {diagnostics : List Diagnostic} {only : List String}
    {messages : List Message} {actions : List CodeAction} {action : CodeAction}
    (answered : codeActions diagnostics only messages = .ok actions) (offered : action ∈ actions)
    (all : action.kind = fixAllKind)
    : selectedFixes messages ≠ [] := by
  obtain ⟨whole, made, member⟩ := mem_fixAll_of_codeActions answered offered all
  exact (edit_of_mem_fixAll made member).1

/-- Every edit of the action for all fixes of a document is the edit of the fix of one of the
messages of that document.
-/
theorem exists_fix_of_fixAll {diagnostics : List Diagnostic} {only : List String}
    {messages : List Message} {actions : List CodeAction} {action : CodeAction} {file : String}
    {edits : List TextEdit} {edit : TextEdit}
    (answered : codeActions diagnostics only messages = .ok actions) (offered : action ∈ actions)
    (all : action.kind = fixAllKind) (entry : (file, edits) ∈ action.edit) (part : edit ∈ edits)
    : ∃ message ∈ messages, ∃ fix, message.fix = some fix ∧ edit.IsOf file fix := by
  have made := edit_of_fixAll answered offered all
  rcases WorkspaceEdit.mem_ofFixes made entry part with ⟨fix, selected, own⟩ | ⟨_, none, _⟩
  · obtain ⟨message, member, suggests⟩ := List.mem_filterMap.mp (Fix.mem_select selected)
    exact ⟨message, member, fix, suggests, own⟩
  · cases none

end EditorLint.Editor
