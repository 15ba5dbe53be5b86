import EditorLint.Failure

/-!
Log records. A record has a level, the name of the logger it goes through, a message, and the
failure it is about, if there is one.
-/

namespace EditorLint.Log

inductive Level where
  | debug
  | info
  | warning
  | error
  | critical
  deriving DecidableEq, Repr

namespace Level

/-- The rank of a level: the more severe, the higher. -/
def number : Level → Nat
  | .debug => 10
  | .info => 20
  | .warning => 30
  | .error => 40
  | .critical => 50

def text : Level → String
  | .debug => "DEBUG"
  | .info => "INFO"
  | .warning => "WARNING"
  | .error => "ERROR"
  | .critical => "CRITICAL"

def all : List Level := [.debug, .info, .warning, .error, .critical]

def ofText? (text : String) : Option Level :=
  all.find? fun level => level.text == text

end Level

structure Record where
  level : Level
  logger : String
  message : String
  failure : Option Failure
  deriving DecidableEq, Repr

/-- A record without a failure. -/
def record (level : Level) (logger message : String) : Record :=
  { level, logger, message, failure := none }

/-- A record at error level about a failure. -/
def failed (logger message : String) (failure : Failure) : Record :=
  { level := .error, logger, message, failure := some failure }

/-- The line about the failure of a record, if it has one. -/
def Record.failureLine (r : Record) : String :=
  match r.failure with
  | none => ""
  | some failure => failure.summary ++ "\n"

/-- The lines of a record in a log, after a time stamp; a failure has a line of its own. -/
def Record.lines (stamp : String) (r : Record) : String :=
  stamp ++ " - " ++ r.logger ++ " - " ++ r.level.text ++ " - " ++ r.message ++ "\n"
    ++ r.failureLine

/-- The name above all loggers of the program. -/
def rootName : String := "lintbridge"

/-- The name of the logger of a part of the program. -/
def plainName (part : String) : String :=
  rootName ++ "." ++ part

/-- The name of the logger of a tool, which must have an identifier without dots. -/
def toolName (id : String) : Except Failure String :=
  if id = "" ∨ '.' ∈ id.toList then .error (.badToolId id)
  else .ok (plainName ("linters." ++ id))

end EditorLint.Log
