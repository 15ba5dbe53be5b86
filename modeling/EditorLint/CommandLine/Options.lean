import EditorLint.Path
import EditorLint.Settings

/-!
What the command line sets, and the flags that set it.
-/

namespace EditorLint.CommandLine

inductive Transport where
  | stdio
  | tcp
  deriving DecidableEq, Repr

def Transport.text : Transport → String
  | .stdio => "stdio"
  | .tcp => "tcp"

def Transport.all : List Transport := [.stdio, .tcp]

structure Options where
  transport : Transport
  host : String
  port : Int
  logLevel : Log.Level
  logFile : Option String
  debug : Bool
  toolPath : String
  toolArguments : List String
  deriving DecidableEq, Repr

/-- Options as the log shows them. -/
def Options.literal (options : Options) : String :=
  let logFile :=
    match options.logFile with
    | none => "None"
    | some path => "PosixPath(" ++ Text.quoted path ++ ")"
  "CliArgs(transport=" ++ Text.quoted options.transport.text
    ++ ", host=" ++ Text.quoted options.host
    ++ ", port=" ++ toString options.port
    ++ ", log_level=" ++ Text.quoted options.logLevel.text
    ++ ", log_file=" ++ logFile
    ++ ", debug=" ++ Settings.literalFlag options.debug
    ++ ", ruff_path=" ++ Text.quoted options.toolPath
    ++ ", ruff_args=" ++ Text.quotedTuple options.toolArguments ++ ")"

/-- The settings that options start the server with. -/
def Options.settings (options : Options) : Settings :=
  { toolPath := options.toolPath, toolArguments := options.toolArguments }

/-- A flag of the command line. -/
inductive Flag where
  | help
  | transport
  | host
  | port
  | logLevel
  | logFile
  | debug
  | toolPath
  | toolArgument
  deriving DecidableEq, Repr

namespace Flag

/-- All flags, in the order in which they are listed. -/
def all : List Flag :=
  [.help, .transport, .host, .port, .logLevel, .logFile, .debug, .toolPath, .toolArgument]

def long : Flag → String
  | .help => "--help"
  | .transport => "--transport"
  | .host => "--host"
  | .port => "--port"
  | .logLevel => "--log-level"
  | .logFile => "--log-file"
  | .debug => "--debug"
  | .toolPath => "--ruff-path"
  | .toolArgument => "--ruff-arg"

/-- The letter of a flag that can be written short. -/
def letter? : Flag → Option Char
  | .help => some 'h'
  | .debug => some 'v'
  | _ => none

def takesValue : Flag → Bool
  | .help | .debug => false
  | _ => true

/-- A flag as error messages name it. -/
def name (flag : Flag) : String :=
  match flag.letter? with
  | none => flag.long
  | some letter => String.ofList ['-', letter] ++ "/" ++ flag.long

/-- The flag of a letter. -/
def ofLetter? (letter : Char) : Option Flag :=
  all.find? fun flag => flag.letter? == some letter

/-- The flag that is written like this, long or short. -/
def ofWord? (word : List Char) : Option Flag :=
  match word with
  | ['-', letter] => ofLetter? letter
  | _ => all.find? fun flag => flag.long.toList == word

end Flag

/-- What has been set so far, before defaults are filled in. -/
structure Draft where
  transport : Transport := .stdio
  host : String := "127.0.0.1"
  port : Int := 4390
  logLevel : Option Log.Level := none
  logFile : Option String := none
  debug : Bool := false
  toolPath : String := "ruff"
  toolArguments : List String := []
  deriving DecidableEq, Repr

/-- The options of a draft. Without a log level it depends on the debug mode. -/
def Draft.options (draft : Draft) : Options :=
  { transport := draft.transport
    host := draft.host
    port := draft.port
    logLevel := draft.logLevel.getD (if draft.debug then .debug else .info)
    logFile := draft.logFile
    debug := draft.debug
    toolPath := draft.toolPath
    toolArguments := draft.toolArguments }

end EditorLint.CommandLine
