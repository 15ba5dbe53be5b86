import EditorLint.Editor.Diagnostic
import EditorLint.Fix.Selection

/-!
Code actions: the fix of each diagnostic that has one, and one action for all fixes of a document
that can be applied together. An editor may ask for some kinds only; a kind includes those below
it.
-/

namespace EditorLint.Editor

def quickFixKind : String := "quickfix"

def fixAllKind : String := "source.fixAll.lintbridge"

/-- Whether `asked` is `kind` or a kind above it. -/
def includesKind (asked kind : String) : Bool :=
  kind == asked || (asked.toList ++ ['.']).isPrefixOf kind.toList

/-- Whether a kind is asked for; no kinds at all ask for every kind. -/
def kindRequested (kind : String) (only : List String) : Bool :=
  only.isEmpty || only.any fun asked => includesKind asked kind

structure CodeAction where
  title : String
  kind : String
  diagnostics : Option (List Diagnostic)
  edit : WorkspaceEdit
  isPreferred : Option Bool
  deriving DecidableEq, Repr

/-- The word for something absent in a title. -/
def absent : String := "None"

/-- The title of the action that fixes a diagnostic. -/
def quickFixTitle (diagnostic : Diagnostic) : String :=
  diagnostic.source.getD absent ++ ": fix "
    ++ (diagnostic.code.map Code.shown).getD absent

/-- The fix that a diagnostic brings along, if it does. -/
def Diagnostic.fix? (diagnostic : Diagnostic) : Except Failure (Option Fix) :=
  match diagnostic.data with
  | none => .ok none
  | some data => Fix.ofData data

/-- The action for the fix of a diagnostic, if it has one. -/
def quickFix (diagnostic : Diagnostic) : Except Failure (Option CodeAction) := do
  match ← diagnostic.fix? with
  | none => return none
  | some fix =>
    let edit ← WorkspaceEdit.ofFixes [fix]
    return some {
      title := quickFixTitle diagnostic
      kind := quickFixKind
      diagnostics := some [diagnostic]
      edit
      isPreferred := some true }

/-- The actions for the fixes of diagnostics, in order. -/
def quickFixes (diagnostics : List Diagnostic) : Except Failure (List CodeAction) := do
  let actions ← diagnostics.mapM quickFix
  return actions.filterMap id

/-- The fixes of messages that are applied together. -/
def selectedFixes (messages : List Message) : List Fix :=
  Fix.select (messages.filterMap (·.fix))

/-- The action that applies the fixes of messages together, if there are any. -/
def fixAll (messages : List Message) : Except Failure (List CodeAction) :=
  match selectedFixes messages with
  | [] => .ok []
  | fixes => do
    let edit ← WorkspaceEdit.ofFixes fixes
    return [{
      title := "lintbridge: fix all auto-fixable problems"
      kind := fixAllKind
      diagnostics := none
      edit
      isPreferred := none }]

/-- The actions for diagnostics of a document and for its latest messages, of the kinds asked
for. -/
def codeActions (diagnostics : List Diagnostic) (only : List String) (messages : List Message) :
    Except Failure (List CodeAction) := do
  let quick ← if kindRequested quickFixKind only then quickFixes diagnostics else .ok []
  let all ← if kindRequested fixAllKind only then fixAll messages else .ok []
  return quick ++ all

end EditorLint.Editor
