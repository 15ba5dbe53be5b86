import EditorLint.Log.Hierarchy

/-!
The logger above all others of the program, and what it is set up to do. Setting it up takes four
steps, in this order: the level, the removal of the old handlers, the opening of the new one, and
the end of passing records on. A failure leaves the steps before it done.

Records come to this logger through the loggers below it, none of which is set up in any way. A
logger that is not below it leaves its records to loggers that take warnings and have no handlers.
-/

namespace EditorLint.Log

/-- Where a handler writes. -/
inductive Sink where
  /-- A handler that somebody else has installed. -/
  | foreign
  | standardError
  | file (path : String)
  /-- Standard error as well, for records that no logger has a handler for. -/
  | lastResort
  deriving DecidableEq, Repr

/-- A handler writes the records from its level on. `serial` tells handlers apart by the set-up
that installed them. -/
structure Handler where
  sink : Sink
  level : Nat
  serial : Nat
  deriving DecidableEq, Repr

structure Logger where
  level : Nat
  passesOn : Bool
  handlers : List Handler
  /-- How many handlers set-ups have installed so far. -/
  installed : Nat
  /-- The names of the other loggers that have been asked for. -/
  named : List String := []
  deriving DecidableEq, Repr

/-- What a level text stands for. -/
inductive LevelMeaning where
  | number (n : Nat)
  /-- The text names something that is a text itself and no level. -/
  | text (value : String)
  /-- The text names a table, which is no level either. -/
  | table (shown : String)
  deriving DecidableEq, Repr

/-- The upper-case form of the letters that level names are written with. -/
def upperLetters (c : Char) : List Char :=
  if 'a' ≤ c && c ≤ 'z' then [Char.ofNat (c.toNat - 0x20)]
  else if c = 'ı' then ['I']
  else if c = 'ſ' then ['S']
  else if c = 'ﬅ' || c = 'ﬆ' then ['S', 'T']
  else [c]

/-- The table of the ways to write a record, as messages show it. -/
def stylesShown : String :=
  "\x7b'%': (<class 'logging.PercentStyle'>, '%(levelname)s:%(name)s:%(message)s'), "
    ++ "'\x7b': (<class 'logging.StrFormatStyle'>, "
    ++ "'\x7blevelname\x7d:\x7bname\x7d:\x7bmessage\x7d'), "
    ++ "'$': (<class 'logging.StringTemplateStyle'>, "
    ++ "'$\x7blevelname\x7d:$\x7bname\x7d:$\x7bmessage\x7d')\x7d"

/-- The names that a level text can have, in upper case. -/
def levelNames : List (String × LevelMeaning) :=
  [("DEBUG", .number 10), ("INFO", .number 20), ("WARNING", .number 30), ("WARN", .number 30),
    ("ERROR", .number 40), ("CRITICAL", .number 50), ("FATAL", .number 50),
    ("NOTSET", .number 0), ("BASIC_FORMAT", .text "%(levelname)s:%(name)s:%(message)s"),
    ("_STYLES", .table stylesShown)]

/-- The meaning of a level text in any letter case; an unknown one means the level of
information. -/
def levelMeaning (text : String) : LevelMeaning :=
  (levelNames.lookup (String.ofList (text.toList.flatMap upperLetters))).getD (.number 20)

namespace Logger

/-- A logger that nobody has set up. -/
def untouched : Logger :=
  { level := 0, passesOn := true, handlers := [], installed := 0 }

/-- The least level that the logger takes. Level zero leaves it to the loggers above, which take
warnings. -/
def threshold (logger : Logger) : Nat :=
  if logger.level = 0 then Level.warning.number else logger.level

/-- The logger when the one of a name has been asked for. -/
def ask (logger : Logger) (name : String) : Logger :=
  { logger with named := logger.named.insert name }

/-- Whether the records of a logger come to this one. -/
def governs (logger : Logger) (name : String) : Bool :=
  isBelowRoot logger.named name

/-- The least level that the logger of a name takes. -/
def thresholdOf (logger : Logger) (name : String) : Nat :=
  if logger.governs name then logger.threshold else Level.warning.number

/-- Whether the logger of a record takes it. A decision is not remembered here. The logging library
remembers it for the name and the level until the next set-up, so that there a record is still
refused where a name that was asked for after the decision has put its logger below this one.
-/
def takes (logger : Logger) (r : Record) : Bool :=
  logger.thresholdOf r.logger ≤ r.level.number

/-- The handler for records that come to none. -/
def lastResort : Handler :=
  { sink := .lastResort, level := Level.warning.number, serial := 0 }

/-- The handlers that the records of a logger come to. -/
def handlersOf (logger : Logger) (name : String) : List Handler :=
  match if logger.governs name then logger.handlers else [] with
  | [] => [lastResort]
  | handlers => handlers

/-- Sets the logger up to write to `sink` from a level on. `opening` says why the sink cannot be
opened, if it cannot. -/
def configure (logger : Logger) (levelText : String) (sink : Sink) (opening : Option Failure) :
    Logger × Except Failure Unit :=
  match levelMeaning levelText with
  | .text value => (logger, .error (.badLevel value))
  | .table shown => (logger, .error (.noLevel shown))
  | .number level =>
    let cleared := { logger with level, handlers := [] }
    match opening with
    | some failure => (cleared, .error failure)
    | none =>
      ({ cleared with
          handlers := [⟨sink, level, logger.installed⟩]
          installed := logger.installed + 1
          passesOn := false }, .ok ())

/-- The handlers that write a record. -/
def writers (logger : Logger) (r : Record) : List Handler :=
  if logger.takes r then (logger.handlersOf r.logger).filter fun h => h.level ≤ r.level.number
  else []

end Logger

/-- A value as a whole number: a truth value counts as one, and a fraction is cut off. -/
def wholeNumberText : Json → String
  | .bool value => if value then "1" else "0"
  | .float value =>
    match value.truncate with
    | .ok n => toString n
    | .error _ => value.text
  | value => value.literal

/-- A text with its places filled by arguments in order: as running text, as a whole number, or
literally. -/
def fill : List Char → List Json → List Char
  | [], _ => []
  | '%' :: '%' :: rest, arguments => '%' :: fill rest arguments
  | '%' :: 's' :: rest, argument :: arguments =>
    argument.display.toList ++ fill rest arguments
  | '%' :: 'd' :: rest, argument :: arguments =>
    (wholeNumberText argument).toList ++ fill rest arguments
  | '%' :: 'r' :: rest, argument :: arguments =>
    argument.literal.toList ++ fill rest arguments
  | c :: rest, arguments => c :: fill rest arguments

/-- The message of a text and its arguments; without arguments the text stands as it is. -/
def messageOf (text : String) (arguments : List Json) : String :=
  if arguments.isEmpty then text else String.ofList (fill text.toList arguments)

/-- One thing done with the logger. -/
inductive Action where
  | configure (level : String) (sink : Sink) (opening : Option Failure)
  | log (record : Record)
  deriving Repr

/-- What an action shows at once. -/
inductive Reaction where
  | configured (logger : Logger)
  | refused (failure : Failure)
  | logged (taken : Bool)
  deriving Repr

/-- A record that a handler has written. -/
structure Entry where
  handler : Handler
  record : Record
  deriving DecidableEq, Repr

/-- What is written of an entry, after a time stamp. As a last resort it is the bare message. -/
def Entry.text (stamp : String) (entry : Entry) : String :=
  if entry.handler.sink = .lastResort then
    entry.record.message ++ "\n" ++ entry.record.failureLine
  else entry.record.lines stamp

/-- Whether an entry is written to a sink. -/
def Entry.goesTo (sink : Sink) (entry : Entry) : Bool :=
  entry.handler.sink = sink || (entry.handler.sink = .lastResort && sink = .standardError)

/-- What entries write to a sink. -/
def output (stamp : String) (sink : Sink) (entries : List Entry) : String :=
  String.join ((entries.filter (·.goesTo sink)).map (·.text stamp))

/-- Does one action: the logger after it, what it shows, and the records written. -/
def Logger.act (logger : Logger) : Action → Logger × Reaction × List Entry
  | .configure level sink opening =>
    match logger.configure level sink opening with
    | (logger, .ok ()) => (logger, .configured logger, [])
    | (logger, .error failure) => (logger, .refused failure, [])
  | .log r =>
    let logger := logger.ask r.logger
    (logger, .logged (logger.takes r), (logger.writers r).map fun h => ⟨h, r⟩)

/-- Does actions in order. -/
def Logger.run (logger : Logger) : List Action → List Reaction × List Entry
  | [] => ([], [])
  | action :: rest =>
    let (logger, reaction, entries) := logger.act action
    let (reactions, more) := logger.run rest
    (reaction :: reactions, entries ++ more)

end EditorLint.Log
