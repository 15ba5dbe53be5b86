import EditorLint.Settings

/-!
Settings from an editor. A payload is an object, or an object that holds the settings under the
program's name. Each key is taken on its own: a value of the wrong kind is refused with a warning
and the default stays.
-/

namespace EditorLint.Settings

/-- Under this key a payload may hold the settings. -/
def sectionKey : String := Log.rootName

/-- The kinds of values that keys have. -/
inductive Expectation where
  | flag
  | filledText
  | texts
  deriving DecidableEq, Repr

def Expectation.text : Expectation → String
  | .flag => "a boolean"
  | .filledText => "a non-empty string"
  | .texts => "a list of strings"

/-- A value that was not taken. -/
structure Refused where
  key : String
  shown : String
  expected : Expectation
  deriving DecidableEq, Repr

/-- The warning about a refused value. -/
def Refused.record (refused : Refused) : Log.Record :=
  Log.record .warning (Log.plainName "config")
    ("Ignoring setting " ++ refused.key ++ "=" ++ refused.shown ++ ": expected "
      ++ refused.expected.text)

/-- A truth value under a key. -/
def takeFlag (entries : Table Json) (key : String) (default : Bool) : Bool × List Refused :=
  match entries.get? key with
  | none => (default, [])
  | some (.bool value) => (value, [])
  | some value => (default, [⟨key, value.literal, .flag⟩])

/-- A text under a key. A missing key falls back on the default, which is put to the same test. -/
def takeText (entries : Table Json) (key default : String) : String × List Refused :=
  match entries.get? key with
  | none =>
    if default = "" then (default, [⟨key, Text.quoted default, .filledText⟩]) else (default, [])
  | some (.str text) =>
    if text = "" then (default, [⟨key, Text.quoted text, .filledText⟩]) else (text, [])
  | some value => (default, [⟨key, value.literal, .filledText⟩])

/-- A list of texts under a key. -/
def takeTexts (entries : Table Json) (key : String) (default : List String) :
    List String × List Refused :=
  match entries.get? key with
  | none => (default, [])
  | some (.arr items) =>
    match items.mapM Json.text? with
    | some texts => (texts, [])
    | none => (default, [⟨key, (Json.arr items).literal, .texts⟩])
  | some value => (default, [⟨key, value.literal, .texts⟩])

/-- The entries that hold the settings: those of the section if it is an object, and else all. -/
def sectionOf (entries : Table Json) : Table Json :=
  ((entries.get? sectionKey).bind Json.entries?).getD entries

/-- The settings that entries write over the defaults, and the values refused on the way. -/
def ofSection (defaults : Settings) (entries : Table Json) : Settings × List Refused :=
  let (enabled, refusedEnabled) := takeFlag entries "enabled" defaults.enabled
  let (patterns, refusedPatterns) := takeTexts entries "ignorePatterns" defaults.ignorePatterns
  let (toolEnabled, refusedTool) := takeFlag entries "ruffEnabled" defaults.toolEnabled
  let (toolPath, refusedPath) := takeText entries "ruffPath" defaults.toolPath
  let (toolArguments, refusedArguments) :=
    takeTexts entries "ruffArgs" defaults.toolArguments
  ({ enabled, ignorePatterns := patterns, toolEnabled, toolPath, toolArguments },
    refusedEnabled ++ refusedPatterns ++ refusedTool ++ refusedPath ++ refusedArguments)

/-- The settings of a payload. One that is no object leaves the defaults. -/
def ofPayload (defaults : Settings) : Json → Settings × List Refused
  | .obj entries => ofSection defaults (sectionOf entries)
  | _ => (defaults, [])

end EditorLint.Settings
