/-!
What the program says about its command line.
-/

namespace EditorLint.CommandLine

/-- The lines that show how the program is called. -/
def usageLines : List String :=
  ["usage: lintbridge [-h] [--transport \x7bstdio,tcp\x7d] [--host HOST] [--port PORT]",
    "                  [--log-level \x7bDEBUG,INFO,WARNING,ERROR,CRITICAL\x7d]",
    "                  [--log-file LOG_FILE] [-v] [--ruff-path RUFF_PATH]",
    "                  [--ruff-arg ARG]"]

/-- The lines that explain the flags. -/
def flagLines : List String :=
  ["options:",
    "  -h, --help            show this help message and exit",
    "  --transport \x7bstdio,tcp\x7d",
    "                        Transport mode (default: stdio)",
    "  --host HOST           Host for TCP transport (default: 127.0.0.1)",
    "  --port PORT           Port for TCP transport (default: 4390)",
    "  --log-level \x7bDEBUG,INFO,WARNING,ERROR,CRITICAL\x7d",
    "                        Log level (default: INFO, or DEBUG if --debug is set)",
    "  --log-file LOG_FILE   Log file path (default: stderr)",
    "  -v, --debug           Enable debug mode (sets log level to DEBUG unless",
    "                        --log-level is specified)",
    "  --ruff-path RUFF_PATH",
    "                        ruff executable (default: ruff); editor settings",
    "                        override it",
    "  --ruff-arg ARG        Extra argument passed to ruff (repeatable; use --ruff-",
    "                        arg=--flag for flags)"]

def helpLines : List String :=
  usageLines
    ++ ["", "Language server publishing diagnostics from external linters", ""]
    ++ flagLines

/-- Lines as text, each with its end. -/
def textOfLines (lines : List String) : String :=
  String.join (lines.map (· ++ "\n"))

def usage : String := textOfLines usageLines

def help : String := textOfLines helpLines

/-- The line about what is wrong with a command line. -/
def errorLine (text : String) : String :=
  "lintbridge: error: " ++ text

end EditorLint.CommandLine
