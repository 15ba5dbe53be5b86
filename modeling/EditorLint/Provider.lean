import EditorLint.Adapter
import EditorLint.Settings.Payload

/-!
The provider of lint results: the settings in force, and the adapter built from them.
-/

namespace EditorLint

structure Provider where
  settings : Settings
  adapter : Adapter
  deriving DecidableEq, Repr

namespace Provider

/-- The adapter of the registered tool under some settings. Its identifier is a proper one. -/
def adapterOf (settings : Settings) : Adapter :=
  { info := settings.ruff, logger := Log.plainName ("linters." ++ Settings.toolId) }

/-- The record of new settings. -/
def updated (settings : Settings) : Log.Record :=
  Log.record .debug (Log.plainName "linters") ("Linter settings updated: " ++ settings.literal)

/-- A provider with settings, and the record that it leaves. -/
def ofSettings (settings : Settings) : Log.Record × Provider :=
  (updated settings, { settings, adapter := adapterOf settings })

/-- Puts new settings in force and builds the adapter anew. -/
def update (_ : Provider) (settings : Settings) : Log.Record × Provider :=
  ofSettings settings

/-- Lints one document with nothing else going on. -/
def lint (provider : Provider) (snapshot : Snapshot) (script : Tool.Script) :
    List Tool.Event × Except Failure (List Message) :=
  provider.adapter.lint snapshot script none

end Provider

end EditorLint
