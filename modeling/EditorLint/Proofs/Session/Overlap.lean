import EditorLint.Proofs.Editor.WorkspaceEdit
import EditorLint.Proofs.Session.FixAll

/-! Which edits of the action for all fixes overlap. Fixes are told apart by the names of their
files and edits by addresses, so only fixes that name one file differently can be offered together
although they overlap. A tool that does so makes the server offer such edits.
-/

namespace EditorLint.Session

variable {server : Server}

/-- Of two edits of an address in the action for all fixes, the later one starts where the earlier
one ends or behind it, unless they are those of fixes of remembered messages that name the file
differently.
-/
theorem Server.pairwise_edits_of_offers {uri : String} {only : List String}
    {diagnostics : List Editor.Diagnostic} {action : Editor.CodeAction} {file : String}
    {edits : List Editor.TextEdit}
    (offered : action ∈ server.offers uri only diagnostics)
    (all : action.kind = Editor.fixAllKind) (entry : (file, edits) ∈ action.edit)
    : edits.Pairwise fun earlier later =>
        later.Follows earlier
        ∨ ∃ messages f g,
            server.world.published.get? uri = some messages
            ∧ f ∈ messages.filterMap (·.fix) ∧ g ∈ messages.filterMap (·.fix)
            ∧ f.file ≠ g.file ∧ earlier.IsOf file f ∧ later.IsOf file g := by
  obtain ⟨actions, answered, member⟩ := codeActions_of_offers offered
  have made := Editor.edit_of_fixAll answered member all
  refine (Editor.pairwise_of_fixAll made entry).imp ?_
  intro earlier later apart
  apply apart.imp_right
  intro spelled
  obtain ⟨f, first, g, second, differ, own⟩ := spelled
  cases known : server.world.published.get? uri with
  | none => simp [known] at first
  | some messages =>
      rw [known] at first second
      exact ⟨messages, f, g, rfl, first, second, differ, own⟩

-----------------------------------------------------------------------------------------
-- A file that is named in two ways
-----------------------------------------------------------------------------------------

/-- A finding about the first letter of a document, with a fix that replaces it. -/
def findingOf (file : Option String) (replacement : String) : Finding :=
  let start : Position := ⟨.int 1, .int 0⟩
  let stop : Position := ⟨.int 1, .int 1⟩
  { code := "E", text := "", start, stop, file, fix := some ⟨replacement, start, stop⟩ }

/-- The messages of two findings at the same place, of which the second one gives the file a name
that does not start at the root.
-/
def spelledMessages : List Message :=
  let profile : Profile := ⟨"ruff", Adapter.convention, Adapter.unnecessary, .warning⟩
  [findingOf none "x", findingOf (some "a.py") "y"].map (Message.ofFinding profile "/a.py")

/-- A server that remembers these messages. -/
def spelledServer : Server :=
  (Server.start {} 0 {} ({} : Tool.Script)).mapWorld fun world =>
    { world with published := [("file:///a.py", spelledMessages)] }

/-- The action that applies both fixes. -/
def overlappingAction : Editor.CodeAction :=
  let range : Editor.Range := ⟨⟨.int 0, .int 0⟩, ⟨.int 0, .int 1⟩⟩
  { title := "lintbridge: fix all auto-fixable problems"
    kind := Editor.fixAllKind
    diagnostics := none
    edit := [("file:///a.py", [⟨range, "x"⟩, ⟨range, "y"⟩])]
    isPreferred := none }

/-- That server offers it. -/
theorem spelledServer_offers
    : spelledServer.offers "file:///a.py" [Editor.fixAllKind] [] = [overlappingAction] := by
  decide +kernel

/-- Its two edits overlap, and they are those of fixes that name the file differently. -/
theorem overlappingAction_of_spellings
    : overlappingAction ∈ spelledServer.offers "file:///a.py" [Editor.fixAllKind] []
      ∧ ∃ earlier later,
          overlappingAction.edit = [("file:///a.py", [earlier, later])]
          ∧ ¬ later.Follows earlier
          ∧ ∃ f g, f ∈ spelledMessages.filterMap (·.fix) ∧ g ∈ spelledMessages.filterMap (·.fix)
              ∧ f.file ≠ g.file
              ∧ earlier.IsOf "file:///a.py" f ∧ later.IsOf "file:///a.py" g := by
  have offered
      : overlappingAction ∈ spelledServer.offers "file:///a.py" [Editor.fixAllKind] [] := by
    simp [spelledServer_offers]
  have apart := Server.pairwise_edits_of_offers offered rfl List.mem_cons_self
  refine ⟨offered, _, _, rfl, by decide, ?_⟩
  rcases List.rel_of_pairwise_cons apart List.mem_cons_self with follows | spelled
  · exact absurd follows (by decide)
  · obtain ⟨messages, f, g, known, first, second, differ, own⟩ := spelled
    obtain rfl : spelledMessages = messages := Option.some.inj known
    exact ⟨f, g, first, second, differ, own⟩

end EditorLint.Session
