import EditorLint.Failure
import EditorLint.Path
import EditorLint.Table
import EditorLint.Uri

/-!
Documents and the workspace. A document is open under its decoded address. Opening it again under
that address puts a new document in its place, while whoever holds the old one keeps it.
-/

namespace EditorLint.Session

/-- A document as the editor has it. -/
structure Document where
  uri : String
  language : Option String
  version : Option Int
  text : String
  deriving DecidableEq, Repr

def Document.path (document : Document) : String :=
  Uri.toPath document.uri

/-- The suffixes of Python files. -/
def pythonSuffixes : List String := [".py", ".pyi"]

/-- Whether a document is linted: by its language or else by the suffix of its path. -/
def isPython (language : Option String) (path : String) : Bool :=
  language == some "python" || pythonSuffixes.contains (Path.ofText path).suffix

/-- What is on disk while a session goes on: the directories that exist, by normal path, and what
reading the file of a path gives. -/
structure Disk where
  directories : List String := []
  files : String → Except Failure String := fun path => .error (.noSuchFile path)

/-- The folder that an editor has open, and the documents open in it by decoded address, in the
order of opening. A document is known by its place among all documents ever opened. -/
structure Workspace where
  root : Option String
  entries : Table Nat
  deriving DecidableEq, Repr

namespace Workspace

/-- A workspace without documents. -/
def fresh (rootUri : Option String) : Workspace :=
  { root := rootUri.map Uri.toPath, entries := [] }

def get? (workspace : Workspace) (uri : String) : Option Nat :=
  workspace.entries.get? (Uri.decode uri)

def insert (workspace : Workspace) (uri : String) (id : Nat) : Workspace :=
  { workspace with entries := workspace.entries.insert (Uri.decode uri) id }

def erase (workspace : Workspace) (uri : String) : Workspace :=
  { workspace with entries := workspace.entries.erase (Uri.decode uri) }

/-- The decoded addresses of the open documents. -/
def uris (workspace : Workspace) : List String :=
  workspace.entries.keys

/-- The directory in which a tool runs on a path: the root if that is a directory, else the
directory of the path. -/
def directoryFor (workspace : Workspace) (directories : List String) (path : String) : String :=
  match workspace.root with
  | some root =>
    if root ≠ "" ∧ directories.contains (normalPath root) then root
    else (Path.ofText path).parent.text
  | none => (Path.ofText path).parent.text

end Workspace

end EditorLint.Session
