import EditorLint.CommandLine.Reader
import EditorLint.Proofs.Text.Numeral
import Mathlib.Data.List.Forall2

/-! Command lines that set options one after the other. What stands behind the equals sign of a
flag is its value, whatever it looks like. The arguments of the tool are collected, of every other
option the last value holds, and the order in which different options are set makes no difference.
-/

namespace EditorLint.CommandLine

-----------------------------------------------------------------------------------------
-- Setting options
-----------------------------------------------------------------------------------------

/-- Whether a value stands in the same word as its flag, after an equals sign, or in the next. -/
inductive Spelling where
  | joined
  | apart
  deriving DecidableEq, Repr

def Spelling.words (spelling : Spelling) (flag : Flag) (value : String) : List String :=
  match spelling with
  | .joined => [flag.long ++ "=" ++ value]
  | .apart => [flag.long, value]

/-- A place of a command line where an option is set. -/
inductive Occurrence where
  | transport (spelling : Spelling) (transport : Transport)
  | host (value : String)
  | port (numeral : Text.Numeral)
  | logLevel (spelling : Spelling) (level : Log.Level)
  | logFile (path : String)
  | debug
  | verbose
  | toolPath (value : String)
  | toolArgument (value : String)
  deriving DecidableEq, Repr

namespace Occurrence

/-- The option that is set. -/
def flag : Occurrence → Flag
  | .transport .. => .transport
  | .host _ => .host
  | .port _ => .port
  | .logLevel .. => .logLevel
  | .logFile _ => .logFile
  | .debug | .verbose => .debug
  | .toolPath _ => .toolPath
  | .toolArgument _ => .toolArgument

def words : Occurrence → List String
  | .transport spelling choice => spelling.words .transport choice.text
  | .host value => Spelling.joined.words .host value
  | .port numeral => Spelling.joined.words .port numeral.text
  | .logLevel spelling level => spelling.words .logLevel level.text
  | .logFile path => Spelling.joined.words .logFile path
  | .debug => ["--debug"]
  | .verbose => ["-v"]
  | .toolPath value => Spelling.joined.words .toolPath value
  | .toolArgument value => Spelling.joined.words .toolArgument value

def transport? : Occurrence → Option Transport
  | .transport _ choice => some choice
  | _ => none

def host? : Occurrence → Option String
  | .host value => some value
  | _ => none

def port? : Occurrence → Option Text.Numeral
  | .port numeral => some numeral
  | _ => none

def logLevel? : Occurrence → Option Log.Level
  | .logLevel _ level => some level
  | _ => none

def logFile? : Occurrence → Option String
  | .logFile path => some (normalPath path)
  | _ => none

def toolPath? : Occurrence → Option String
  | .toolPath value => some value
  | _ => none

def toolArgument? : Occurrence → Option String
  | .toolArgument value => some value
  | _ => none

end Occurrence

/-- The options that are set: of each the last value or else its default, and all arguments of the
tool in order. Without a log level of its own it depends on the debug mode.
-/
def settled (given : List Occurrence) : Options :=
  let debug := given.any fun occurrence => occurrence.flag = .debug
  { transport := (given.filterMap Occurrence.transport?).getLastD .stdio
    host := (given.filterMap Occurrence.host?).getLastD "127.0.0.1"
    port := ((given.filterMap Occurrence.port?).map Text.Numeral.value).getLastD 4390
    logLevel := (given.filterMap Occurrence.logLevel?).getLastD (if debug then .debug else .info)
    logFile := (given.filterMap Occurrence.logFile?).getLast?
    debug
    toolPath := (given.filterMap Occurrence.toolPath?).getLastD "ruff"
    toolArguments := given.filterMap Occurrence.toolArgument? }

/-- The first port with more digits than are read. -/
def overlong? (given : List Occurrence) : Option Text.Numeral :=
  (given.filterMap Occurrence.port?).find? fun numeral =>
    Text.digitLimit < numeral.digits.length

/-- Two command lines set each option in the same way, in whatever order they set different ones. -/
def Reordered (given other : List Occurrence) : Prop :=
  ∀ flag : Flag,
    given.filter (fun occurrence => occurrence.flag = flag)
    = other.filter (fun occurrence => occurrence.flag = flag)

-----------------------------------------------------------------------------------------
-- The words
-----------------------------------------------------------------------------------------

theorem ofWord?_long (flag : Flag) : Flag.ofWord? flag.long.toList = some flag := by
  cases flag <;> decide

/-- No flag is written with an equals sign. -/
theorem equals_not_mem_long (flag : Flag) : '=' ∉ flag.long.toList := by
  cases flag <;> decide

/-- What stands before the first equals sign and what stands behind it. -/
theorem assignment_append {start : List Char} (none : '=' ∉ start) (value : List Char)
    : Word.assignment (start ++ '=' :: value) = (start, some value) := by
  unfold Word.assignment
  induction start with
  | nil => simp [Text.cutAt]
  | cons c rest ih =>
      obtain ⟨other, more⟩ := List.ne_and_not_mem_of_not_mem_cons none
      simp [Text.cutAt, other.symm, ih more]

/-- A word with an equals sign is no flag. -/
theorem ofWord?_eq_none {word : List Char} (assigns : '=' ∈ word) (long : 2 < word.length)
    : Flag.ofWord? word = none := by
  unfold Flag.ofWord?
  split
  next => simp at long
  next =>
    refine List.find?_eq_none.mpr fun flag _ same => equals_not_mem_long flag ?_
    rwa [beq_iff_eq.mp same]

theorem ofText_long (flag : Flag) : Word.ofText flag.long = .ok (.option flag .none) := by
  cases flag <;> decide

theorem toList_assigned (flag : Flag) (value : String)
    : (flag.long ++ "=" ++ value).toList = flag.long.toList ++ '=' :: value.toList := by
  simp

/-- A flag with an equals sign is that flag, and all that stands behind the sign is its value. -/
theorem ofText_assigned (flag : Flag) (value : String)
    : Word.ofText (flag.long ++ "=" ++ value) = .ok (.option flag (.assigned value.toList)) := by
  have start : ∃ rest, flag.long.toList = '-' :: '-' :: rest := by
    cases flag <;> exact ⟨_, rfl⟩
  obtain ⟨rest, dashes⟩ := start
  have whole : Flag.ofWord? (flag.long.toList ++ '=' :: value.toList) = none :=
    ofWord?_eq_none (by simp) (by simp [dashes])
  have cut := assignment_append (equals_not_mem_long flag) value.toList
  have known := ofWord?_long flag
  rw [dashes] at whole cut known
  simp only [Word.ofText, toList_assigned, dashes, List.cons_append] at whole cut ⊢
  simp only [whole, cut, known]

/-- A word that is read as it is. -/
def Tells (text : String) (word : Word) : Prop :=
  text ≠ "--" ∧ Word.ofText text = .ok word

/-- Words before the separator are told apart one by one. -/
theorem ofWords_of_forall₂ {texts : List String} {words : List Word}
    (told : List.Forall₂ Tells texts words)
    : Word.ofWords texts = .ok words := by
  induction told with
  | nil => rfl
  | cons first _ ih =>
      simp [Word.ofWords, first.1, first.2, ih, bind, Except.bind, pure, Except.pure]

def Spelling.read (spelling : Spelling) (flag : Flag) (value : String) : List Word :=
  match spelling with
  | .joined => [.option flag (.assigned value.toList)]
  | .apart => [.option flag .none, .plain value]

theorem tells_assigned (flag : Flag) (value : String)
    : Tells (flag.long ++ "=" ++ value) (.option flag (.assigned value.toList)) := by
  refine ⟨fun same => ?_, ofText_assigned flag value⟩
  have signs := congrArg String.toList same
  rw [toList_assigned] at signs
  have member : '=' ∈ "--".toList := signs ▸ by simp
  exact absurd member (by decide)

/-- A value that is a word of its own is told apart from its flag if it does not look like one. -/
theorem tells_spelling {spelling : Spelling} {flag : Flag} {value : String}
    (plain : spelling = .joined ∨ Tells value (.plain value))
    : List.Forall₂ Tells (spelling.words flag value) (spelling.read flag value) := by
  cases spelling with
  | joined => exact .cons (tells_assigned flag value) .nil
  | apart =>
      have long : flag.long ≠ "--" := by cases flag <;> decide
      exact .cons ⟨long, ofText_long flag⟩ (.cons (plain.resolve_left nofun) .nil)

namespace Occurrence

/-- The words of an occurrence, told apart. -/
def read : Occurrence → List Word
  | .transport spelling choice => spelling.read .transport choice.text
  | .host value => Spelling.joined.read .host value
  | .port numeral => Spelling.joined.read .port numeral.text
  | .logLevel spelling level => spelling.read .logLevel level.text
  | .logFile path => Spelling.joined.read .logFile path
  | .debug | .verbose => [.option .debug .none]
  | .toolPath value => Spelling.joined.read .toolPath value
  | .toolArgument value => Spelling.joined.read .toolArgument value

theorem tells_read (occurrence : Occurrence)
    : List.Forall₂ Tells occurrence.words occurrence.read := by
  cases occurrence with
  | transport spelling choice =>
      exact tells_spelling (Or.inr (by cases choice <;> exact ⟨by decide, by decide⟩))
  | logLevel spelling level =>
      exact tells_spelling (Or.inr (by cases level <;> exact ⟨by decide, by decide⟩))
  | host | port | logFile | toolPath | toolArgument => exact tells_spelling (Or.inl rfl)
  | debug | verbose => exact .cons ⟨by decide, by decide⟩ .nil

end Occurrence

theorem ofWords_flatMap (given : List Occurrence)
    : Word.ofWords (given.flatMap Occurrence.words) = .ok (given.flatMap Occurrence.read) := by
  apply ofWords_of_forall₂
  induction given with
  | nil => exact .nil
  | cons first rest ih => exact List.rel_append first.tells_read ih

-----------------------------------------------------------------------------------------
-- The draft
-----------------------------------------------------------------------------------------

/-- What an occurrence sets in a draft. -/
def Draft.add (draft : Draft) : Occurrence → Draft
  | .transport _ choice => { draft with transport := choice }
  | .host value => { draft with host := value }
  | .port numeral => { draft with port := numeral.value }
  | .logLevel _ level => { draft with logLevel := some level }
  | .logFile path => { draft with logFile := some (normalPath path) }
  | .debug | .verbose => { draft with debug := true }
  | .toolPath value => { draft with toolPath := value }
  | .toolArgument value => { draft with toolArguments := draft.toolArguments ++ [value] }

/-- A flag and its value set the option of the flag. -/
theorem Reading.read_spelling (reading : Reading) (spelling : Spelling) {flag : Flag}
    (takes : flag.takesValue = true) (value : String) (rest : List Word)
    : reading.read (spelling.read flag value ++ rest)
      = reading.draft.set flag value >>= fun draft => { reading with draft }.read rest := by
  cases spelling <;> simp [Spelling.read, Reading.read, takes]

/-- An occurrence adds to the draft, unless it is a port with too many digits. -/
theorem Reading.read_occurrence (reading : Reading) (occurrence : Occurrence) (rest : List Word)
    (short : ∀ numeral,
      occurrence = .port numeral → numeral.digits.length ≤ Text.digitLimit)
    : reading.read (occurrence.read ++ rest)
      = { reading with draft := reading.draft.add occurrence }.read rest := by
  cases occurrence with
  | transport spelling choice =>
      refine (reading.read_spelling spelling rfl _ rest).trans ?_
      cases choice <;> rfl
  | logLevel spelling level =>
      refine (reading.read_spelling spelling rfl _ rest).trans ?_
      cases level <;> rfl
  | port numeral =>
      refine (reading.read_spelling .joined rfl _ rest).trans ?_
      simp [Draft.set, Text.integer?_text, short numeral rfl, Draft.add, bind, Except.bind]
  | host | logFile | toolPath | toolArgument =>
      exact (reading.read_spelling .joined rfl _ rest).trans rfl
  | debug | verbose =>
      rw [Reading.read.eq_def]
      rfl

/-- A port with too many digits ends the reading. -/
theorem Reading.read_overlong (reading : Reading) {numeral : Text.Numeral}
    (long : Text.digitLimit < numeral.digits.length) (rest : List Word)
    : reading.read ((Occurrence.port numeral).read ++ rest)
      = .error (.error (.badNumber .port numeral.text)) := by
  refine (reading.read_spelling .joined rfl _ rest).trans ?_
  simp [Draft.set, Text.integer?_text, Nat.not_le.mpr long, bind, Except.bind]

theorem overlong?_cons_of_long {numeral : Text.Numeral} (rest : List Occurrence)
    (long : Text.digitLimit < numeral.digits.length)
    : overlong? (.port numeral :: rest) = some numeral := by
  simp [overlong?, Occurrence.port?, long]

theorem overlong?_cons_of_short {first : Occurrence} (rest : List Occurrence)
    (short : ∀ numeral, first = .port numeral → numeral.digits.length ≤ Text.digitLimit)
    : overlong? (first :: rest) = overlong? rest := by
  cases first with
  | port numeral => simp [overlong?, Occurrence.port?, Nat.not_lt.mpr (short numeral rfl)]
  | _ => rfl

/-- All occurrences add to the draft, up to the first port with too many digits, by induction over
the occurrences.
-/
theorem Reading.read_flatMap (reading : Reading) (given : List Occurrence)
    : reading.read (given.flatMap Occurrence.read)
      = match overlong? given with
        | some numeral => .error (.error (.badNumber .port numeral.text))
        | none => .ok { reading with draft := given.foldl Draft.add reading.draft } := by
  induction given generalizing reading with
  | nil => rfl
  | cons first rest ih =>
      rw [List.flatMap_cons, List.foldl_cons]
      by_cases short : ∀ numeral,
        first = .port numeral → numeral.digits.length ≤ Text.digitLimit
      · rw [reading.read_occurrence first _ short, ih, overlong?_cons_of_short rest short]
      · push Not at short
        obtain ⟨numeral, rfl, long⟩ := short
        rw [reading.read_overlong long, overlong?_cons_of_long rest long]

-----------------------------------------------------------------------------------------
-- The options
-----------------------------------------------------------------------------------------

/-- A part of the draft that each occurrence either sets or leaves has the value that was set last,
by induction over the occurrences.
-/
theorem foldl_add_eq_getLastD {α : Type} (part : Draft → α) (value? : Occurrence → Option α)
    (given : List Occurrence) (draft : Draft)
    (sets : ∀ draft occurrence,
        part (draft.add occurrence) = (value? occurrence).getD (part draft) := by
      intro draft occurrence
      cases occurrence <;> rfl)
    : part (given.foldl Draft.add draft) = (given.filterMap value?).getLastD (part draft) := by
  induction given generalizing draft with
  | nil => rfl
  | cons first rest ih =>
      rw [List.foldl_cons, ih, sets]
      cases found : value? first with
      | none => rw [List.filterMap_cons_none found, Option.getD_none]
      | some value => rw [List.filterMap_cons_some found, Option.getD_some, List.getLastD_cons]

theorem toolArguments_foldl_add (given : List Occurrence) (draft : Draft)
    : (given.foldl Draft.add draft).toolArguments
      = draft.toolArguments ++ given.filterMap Occurrence.toolArgument? := by
  induction given generalizing draft with
  | nil => simp
  | cons first rest ih =>
      rw [List.foldl_cons, ih]
      cases first <;> simp [Draft.add, Occurrence.toolArgument?, List.filterMap_cons]

theorem debug_foldl_add (given : List Occurrence) (draft : Draft)
    : (given.foldl Draft.add draft).debug
      = (draft.debug || given.any fun occurrence => occurrence.flag = .debug) := by
  induction given generalizing draft with
  | nil => simp
  | cons first rest ih =>
      rw [List.foldl_cons, ih]
      cases first <;> simp [Draft.add, Occurrence.flag]

/-- The last of values that are there is the last value, if there is one. -/
theorem getLastD_map_some {α : Type} (values : List α)
    : (values.map some).getLastD none = values.getLast? := by
  rw [List.getLastD_eq_getLast?, List.getLast?_map]
  cases values.getLast? <;> rfl

/-- The draft that all occurrences make has the options that they set. -/
theorem options_foldl_add (given : List Occurrence)
    : (given.foldl Draft.add {}).options = settled given := by
  have transport := foldl_add_eq_getLastD Draft.transport Occurrence.transport? given {}
  have host := foldl_add_eq_getLastD Draft.host Occurrence.host? given {}
  have port := foldl_add_eq_getLastD Draft.port
    (fun occurrence => occurrence.port?.map Text.Numeral.value) given {}
  have logLevel := foldl_add_eq_getLastD Draft.logLevel
    (fun occurrence => occurrence.logLevel?.map some) given {}
  have logFile := foldl_add_eq_getLastD Draft.logFile
    (fun occurrence => occurrence.logFile?.map some) given {}
  have toolPath := foldl_add_eq_getLastD Draft.toolPath Occurrence.toolPath? given {}
  rw [← List.map_filterMap, getLastD_map_some] at logLevel logFile
  rw [← List.map_filterMap] at port
  simp only [Draft.options, transport, host, port, logLevel, logFile, toolPath,
    debug_foldl_add, toolArguments_foldl_add, settled, List.getLastD_eq_getLast?, Bool.false_or,
    List.nil_append]

-----------------------------------------------------------------------------------------
-- The order of different options
-----------------------------------------------------------------------------------------

/-- What is collected from the occurrences of one option does not depend on the others. -/
theorem Reordered.filterMap_eq {given other : List Occurrence} (same : Reordered given other)
    {α : Type} (value? : Occurrence → Option α) (flag : Flag)
    (own : ∀ occurrence, occurrence.flag ≠ flag → value? occurrence = none := by
      intro occurrence other
      cases occurrence <;> first | rfl | exact absurd rfl other)
    : other.filterMap value? = given.filterMap value? := by
  have restricted (occurrences : List Occurrence)
      : (occurrences.filter fun occurrence => occurrence.flag = flag).filterMap value?
        = occurrences.filterMap value? := by
    rw [List.filterMap_filter]
    refine List.filterMap_congr fun occurrence _ => ?_
    by_cases of : occurrence.flag = flag
    · simp [of]
    · simp [of, own occurrence of]
  rw [← restricted other, ← same flag, restricted given]

theorem Reordered.any_eq {given other : List Occurrence} (same : Reordered given other)
    (flag : Flag)
    : (other.any fun occurrence => occurrence.flag = flag)
      = given.any fun occurrence => occurrence.flag = flag := by
  have restricted (occurrences : List Occurrence)
      : (occurrences.any fun occurrence => occurrence.flag = flag)
        = (occurrences.filter fun occurrence => occurrence.flag = flag).any fun _ => true := by
    rw [List.any_filter]
    simp
  rw [restricted other, ← same flag, restricted given]

/-- Different options can be set in any order. -/
theorem Reordered.settled_eq {given other : List Occurrence} (same : Reordered given other)
    : settled other = settled given := by
  simp only [settled, same.any_eq .debug,
    same.filterMap_eq Occurrence.transport? .transport,
    same.filterMap_eq Occurrence.host? .host,
    same.filterMap_eq Occurrence.port? .port,
    same.filterMap_eq Occurrence.logLevel? .logLevel,
    same.filterMap_eq Occurrence.logFile? .logFile,
    same.filterMap_eq Occurrence.toolPath? .toolPath,
    same.filterMap_eq Occurrence.toolArgument? .toolArgument]

theorem Reordered.overlong?_eq {given other : List Occurrence} (same : Reordered given other)
    : overlong? other = overlong? given := by
  rw [overlong?, same.filterMap_eq Occurrence.port? .port, overlong?]

-----------------------------------------------------------------------------------------
-- Command lines
-----------------------------------------------------------------------------------------

/-- The options of a command line that sets options one after the other. -/
theorem ofWords_flatMap_words (given : List Occurrence)
    : Options.ofWords (given.flatMap Occurrence.words)
      = match overlong? given with
        | some numeral => .error (.error (.badNumber .port numeral.text))
        | none => .ok (settled given) := by
  rw [Options.ofWords, ofWords_flatMap]
  dsimp only
  rw [Reading.read_flatMap]
  cases overlong? given with
  | some numeral => rfl
  | none => simp [options_foldl_add]

theorem overlong?_eq_none_iff {given : List Occurrence}
    : overlong? given = none
      ↔ ∀ numeral, .port numeral ∈ given → numeral.digits.length ≤ Text.digitLimit := by
  have ports (numeral : Text.Numeral)
      : numeral ∈ given.filterMap Occurrence.port? ↔ .port numeral ∈ given := by
    rw [List.mem_filterMap]
    constructor
    · rintro ⟨occurrence, member, found⟩
      cases occurrence <;> cases found
      exact member
    · exact fun member => ⟨_, member, rfl⟩
  rw [overlong?, List.find?_eq_none]
  simp only [ports, decide_eq_true_eq, Nat.not_lt]

/-- A command line that sets options one after the other, in any number and order and with values
that look like flags or like anything else, is understood exactly if no port has more digits than
are read. The arguments of the tool are then all those given, in order, each other option has the
value that was given last or its default, and the debug mode is on if it is named at all; the log
level depends on it if none is given. The order of different options makes no difference.
-/
theorem ofWords_occurrences (given : List Occurrence)
    : (∀ options,
        Options.ofWords (given.flatMap Occurrence.words) = .ok options
        ↔ (∀ numeral, .port numeral ∈ given → numeral.digits.length ≤ Text.digitLimit)
          ∧ options = settled given)
      ∧ ∀ other,
          Reordered given other
          → Options.ofWords (other.flatMap Occurrence.words)
            = Options.ofWords (given.flatMap Occurrence.words) := by
  constructor
  · intro options
    rw [ofWords_flatMap_words, ← overlong?_eq_none_iff]
    cases overlong? given with
    | some numeral => simp
    | none => simp [eq_comm]
  · intro other same
    rw [ofWords_flatMap_words, ofWords_flatMap_words, same.overlong?_eq, same.settled_eq]

/-- Arguments of the tool that look like the separator or like a flag are handed on as they are, the
last port holds, and the debug mode and the transport can be moved about between them.
-/
theorem ofWords_occurrences_of_mixed
    : Options.ofWords
          ["--ruff-arg=--", "--port=-5", "-v", "--ruff-arg=-q=x", "--port=007", "--transport",
            "tcp"]
        = .ok
            { transport := .tcp
              host := "127.0.0.1"
              port := 7
              logLevel := .debug
              logFile := none
              debug := true
              toolPath := "ruff"
              toolArguments := ["--", "-q=x"] }
      ∧ Options.ofWords
          ["-v", "--transport", "tcp", "--ruff-arg=--", "--ruff-arg=-q=x", "--port=-5",
            "--port=007"]
        = Options.ofWords
          ["--ruff-arg=--", "--port=-5", "-v", "--ruff-arg=-q=x", "--port=007", "--transport",
            "tcp"]
    := by
  let first : Text.Numeral := ⟨some .minus, [5], by decide⟩
  let last : Text.Numeral := ⟨none, [0, 0, 7], by decide⟩
  obtain ⟨understood, reordered⟩ := ofWords_occurrences
    [.toolArgument "--", .port first, .verbose, .toolArgument "-q=x", .port last,
      .transport .apart .tcp]
  constructor
  · refine (understood _).mpr ⟨?_, by decide⟩
    simp [first, last, Text.digitLimit]
  · refine reordered
      [.verbose, .transport .apart .tcp, .toolArgument "--", .toolArgument "-q=x", .port first,
        .port last] fun flag => ?_
    cases flag <;> decide

/-- One, with zeros in front of it. -/
def paddedOne (zeros : Nat) : Text.Numeral :=
  { sign := none
    digits := List.replicate zeros 0 ++ [1]
    filled := List.append_ne_nil_of_right_ne_nil _ (List.cons_ne_nil 1 []) }

theorem value_paddedOne (zeros : Nat) : (paddedOne zeros).value = 1 := by
  simp [paddedOne, Text.Numeral.value, Text.Numeral.size, Nat.ofDigits_cons,
    Nat.ofDigits_replicate_zero]

/-- So there is a decimal number that is refused as a port. -/
theorem refused_of_paddedOne
    : (paddedOne 4300).value = 1
      ∧ Options.ofWords (Occurrence.port (paddedOne 4300)).words
        = .error (.error (.badNumber .port (paddedOne 4300).text)) := by
  have long : Text.digitLimit < (paddedOne 4300).digits.length := by
    rw [paddedOne, List.length_append, List.length_replicate]
    decide
  have words := ofWords_flatMap_words [.port (paddedOne 4300)]
  rw [overlong?_cons_of_long [] long, List.flatMap_singleton] at words
  exact ⟨value_paddedOne 4300, words⟩

end EditorLint.CommandLine
