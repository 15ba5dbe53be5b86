import EditorLint.Failure
import EditorLint.Glob
import EditorLint.Log.Record

/-!
Settings, and what of them concerns one tool. A tool runs on a path when linting and the tool are
both enabled and no ignore pattern matches the path.
-/

namespace EditorLint

structure Settings where
  enabled : Bool := true
  ignorePatterns : List String := [".vscode/*.py", "**/site-packages/**/*.py"]
  toolEnabled : Bool := true
  toolPath : String := "ruff"
  toolArguments : List String := []
  deriving DecidableEq, Repr

/-- What one tool needs to know of the settings. -/
structure ToolInfo where
  id : String
  executable : String
  arguments : List String := []
  toolEnabled : Bool := true
  lintingEnabled : Bool := true
  ignorePatterns : List String := []
  deriving DecidableEq, Repr

/-- Whether the tool runs on a path. -/
def ToolInfo.isEnabled (info : ToolInfo) (path : String) : Bool :=
  info.lintingEnabled && info.toolEnabled && !info.ignorePatterns.any (Glob.isMatch path)

namespace Settings

/-- The tool that is registered. -/
def toolId : String := "ruff"

/-- The settings of the registered tool. -/
def ruff (settings : Settings) : ToolInfo :=
  { id := toolId
    executable := settings.toolPath
    arguments := settings.toolArguments
    toolEnabled := settings.toolEnabled
    lintingEnabled := settings.enabled
    ignorePatterns := settings.ignorePatterns }

/-- The settings of a tool by its identifier. -/
def toolInfo (settings : Settings) (id : String) : Except Failure ToolInfo :=
  if id = toolId then .ok settings.ruff else .error (.unknownTool id)

/-- The word for a truth value in literal text. -/
def literalFlag (flag : Bool) : String :=
  if flag then "True" else "False"

/-- Settings as logs show them. -/
def literal (settings : Settings) : String :=
  "LintSettings(enabled=" ++ literalFlag settings.enabled
    ++ ", ignore_patterns=" ++ Text.quotedTuple settings.ignorePatterns
    ++ ", ruff_enabled=" ++ literalFlag settings.toolEnabled
    ++ ", ruff_path=" ++ Text.quoted settings.toolPath
    ++ ", ruff_args=" ++ Text.quotedTuple settings.toolArguments ++ ")"

end Settings

end EditorLint
