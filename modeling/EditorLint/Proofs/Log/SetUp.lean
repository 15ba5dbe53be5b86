import EditorLint.Log.Logger
import EditorLint.Proofs.Log.Hierarchy
import Mathlib.Data.List.Basic

/-! Setting up the log. After it has been done the logger has a single handler, which writes each
record of the parts of the program from its level on, and no record reaches a handler from before.
If it fails because the new handler cannot be opened, the old ones are gone nevertheless.
-/

namespace EditorLint.Log

-----------------------------------------------------------------------------------------
-- Level texts
-----------------------------------------------------------------------------------------

/-- The name of a level in any letter case. -/
def Level.IsSpelled (level : Level) (text : String) : Prop :=
  text.toList.map Char.toUpper = level.text.toList

theorem isUpper_of_mem_text {level : Level} {c : Char} (member : c ∈ level.text.toList)
    : c.isUpper = true := by
  have capitals : level.text.toList.all Char.isUpper = true := by cases level <;> decide
  exact List.all_eq_true.mp capitals c member

/-- A letter whose upper-case form is a plain capital is put into that form. -/
theorem upperLetters_of_isUpper {c : Char} (capital : c.toUpper.isUpper = true)
    : upperLetters c = [c.toUpper] := by
  have small : c.toNat < 128 := by
    unfold Char.toUpper at capital
    split at capital
    next lower => exact Nat.lt_of_le_of_lt lower.2 (by decide)
    next => exact Nat.lt_of_le_of_lt (of_decide_eq_true capital).2 (by decide)
  have basic : ∀ n < 128,
      (Char.ofNat n).toUpper.isUpper = true
      → upperLetters (Char.ofNat n) = [(Char.ofNat n).toUpper] := by
    decide
  simpa using basic c.toNat small (by simpa using capital)

/-- The name of a level in any letter case means that level. -/
theorem Level.IsSpelled.levelMeaning_eq {level : Level} {text : String}
    (spelled : level.IsSpelled text)
    : levelMeaning text = .number level.number := by
  have upper : text.toList.flatMap upperLetters = level.text.toList := by
    rw [← spelled, List.map_eq_flatMap]
    refine List.flatMap_congr fun c member => upperLetters_of_isUpper ?_
    exact isUpper_of_mem_text (spelled ▸ List.mem_map_of_mem member)
  rw [levelMeaning, upper, String.ofList_toList]
  cases level <;> rfl

-----------------------------------------------------------------------------------------
-- Doing things with the logger
-----------------------------------------------------------------------------------------

namespace Logger

/-- The logger after actions. -/
def after (logger : Logger) (actions : List Action) : Logger :=
  actions.foldl (fun logger action => (logger.act action).1) logger

theorem after_append (logger : Logger) (first second : List Action)
    : logger.after (first ++ second) = (logger.after first).after second :=
  List.foldl_append

theorem run_cons (logger : Logger) (action : Action) (rest : List Action)
    : (logger.run (action :: rest)).2
      = (logger.act action).2.2 ++ ((logger.act action).1.run rest).2 :=
  rfl

theorem after_cons (logger : Logger) (action : Action) (rest : List Action)
    : logger.after (action :: rest) = (logger.act action).1.after rest :=
  rfl

/-- What later actions write comes behind what earlier ones have written. -/
theorem run_append (logger : Logger) (first second : List Action)
    : (logger.run (first ++ second)).2
      = (logger.run first).2 ++ ((logger.after first).run second).2 := by
  induction first generalizing logger with
  | nil => rfl
  | cons action rest ih =>
      rw [List.cons_append, run_cons, run_cons, ih, List.append_assoc]
      rfl

-----------------------------------------------------------------------------------------
-- Failing to set the logger up
-----------------------------------------------------------------------------------------

variable {logger : Logger} {text : String} {sink : Sink} {opening : Option Failure}

/-- Setting the logger up ends in one of three ways: the text means no level, the sink cannot be
opened, or all is done.
-/
theorem configure_cases (logger : Logger) (text : String) (sink : Sink) (opening : Option Failure)
    : ((∀ level, levelMeaning text ≠ .number level)
        ∧ ∃ failure, logger.configure text sink opening = (logger, .error failure))
      ∨ ∃ level, levelMeaning text = .number level
        ∧ ((∃ failure, opening = some failure
            ∧ logger.configure text sink opening
              = ({ logger with level, handlers := [] }, .error failure))
          ∨ (opening = none
            ∧ logger.configure text sink opening
              = ({ logger with
                    level
                    passesOn := false
                    handlers := [⟨sink, level, logger.installed⟩]
                    installed := logger.installed + 1 }, .ok ()))) := by
  unfold configure
  cases levelMeaning text with
  | text value => exact Or.inl ⟨nofun, _, rfl⟩
  | table shown => exact Or.inl ⟨nofun, _, rfl⟩
  | number level =>
      refine Or.inr ⟨level, rfl, ?_⟩
      cases opening with
      | some failure => exact Or.inl ⟨failure, rfl, rfl⟩
      | none => exact Or.inr ⟨rfl, rfl⟩

/-- A failure over the level text leaves the logger as it was. A failure to open the sink leaves it
with the new level and without handlers, so that it is as before only if it had no handlers and this
very level.
-/
theorem configure_refused {after : Logger} {failure : Failure}
    (refused : logger.configure text sink opening = (after, .error failure))
    : ((∀ level, levelMeaning text ≠ .number level) ∧ after = logger
        ∨ ∃ level, levelMeaning text = .number level ∧ opening = some failure
          ∧ after = { logger with level, handlers := [] })
      ∧ (after = logger
        ↔ (∀ level, levelMeaning text ≠ .number level)
          ∨ levelMeaning text = .number logger.level ∧ logger.handlers = []) := by
  rcases logger.configure_cases text sink opening with
    ⟨meaningless, _, same⟩ | ⟨level, means, ⟨_, rfl, same⟩ | ⟨_, same⟩⟩
  · obtain ⟨rfl, _⟩ := Prod.mk.inj (refused.symm.trans same)
    exact ⟨Or.inl ⟨meaningless, rfl⟩, iff_of_true rfl (Or.inl meaningless)⟩
  · obtain ⟨rfl, failed⟩ := Prod.mk.inj (refused.symm.trans same)
    obtain rfl := Except.error.inj failed
    refine ⟨Or.inr ⟨level, means, rfl, rfl⟩, ?_⟩
    rw [means, LevelMeaning.number.injEq]
    constructor
    · intro unchanged
      exact Or.inr ⟨congrArg Logger.level unchanged, (congrArg Logger.handlers unchanged).symm⟩
    · rintro (other | ⟨rfl, empty⟩)
      · exact absurd rfl (other level)
      · rw [← empty]
  · cases refused.symm.trans same

/-- A logger that somebody else has given a handler. -/
def occupied : Logger :=
  { level := Level.warning.number
    passesOn := true
    handlers := [⟨.foreign, 0, 0⟩]
    installed := 1 }

/-- Such a logger is as it was after a text that means no level, and is not after a file that cannot
be opened.
-/
theorem configure_refused_of_occupied
    : (∃ failure,
          occupied.configure "basic_format" .standardError none = (occupied, .error failure))
      ∧ ∃ after failure,
          occupied.configure "warning" (.file "/x/y.log") (some (.noSuchFile "/x/y.log"))
            = (after, .error failure)
          ∧ after ≠ occupied := by
  constructor
  · have meaning
        : levelMeaning "basic_format" = .text "%(levelname)s:%(name)s:%(message)s" := by
      decide
    have meaningless : ∀ level, levelMeaning "basic_format" ≠ .number level := by
      intro level
      rw [meaning]
      nofun
    obtain ⟨after, failure, refused⟩
        : ∃ after failure,
            occupied.configure "basic_format" .standardError none = (after, .error failure) :=
      ⟨_, _, rfl⟩
    obtain rfl : after = occupied := (configure_refused refused).2.mpr (Or.inl meaningless)
    exact ⟨failure, refused⟩
  · obtain ⟨after, failure, refused⟩
        : ∃ after failure,
            occupied.configure "warning" (.file "/x/y.log") (some (.noSuchFile "/x/y.log"))
              = (after, .error failure) :=
      ⟨_, _, rfl⟩
    refine ⟨after, failure, refused, fun same => ?_⟩
    rcases (configure_refused refused).2.mp same with meaningless | ⟨_, empty⟩
    · exact meaningless 30 (by decide)
    · cases empty

/-- So a failure to set the logger up can cost it its level and its handler. -/
theorem cleared_of_missing_directory
    : occupied.configure "INFO" (.file "/x/y.log") (some (.noSuchFile "/x/y.log"))
      = ({ occupied with level := Level.info.number, handlers := [] },
          .error (.noSuchFile "/x/y.log")) := by
  decide

-----------------------------------------------------------------------------------------
-- Handlers of different set-ups
-----------------------------------------------------------------------------------------

/-- The handlers of a logger are somebody else's or have been installed by earlier set-ups. -/
def Dated (logger : Logger) : Prop :=
  ∀ handler ∈ logger.handlers, handler.sink = .foreign ∨ handler.serial < logger.installed

/-- An action leaves the count of set-ups or adds one to it, and handlers that it installs bear the
count before.
-/
theorem dated_act (dated : logger.Dated) (action : Action)
    : (logger.act action).1.Dated ∧ logger.installed ≤ (logger.act action).1.installed := by
  cases action with
  | log r => exact ⟨dated, le_rfl⟩
  | configure text sink opening =>
      rcases logger.configure_cases text sink opening with
        ⟨_, _, same⟩ | ⟨level, _, ⟨_, _, same⟩ | ⟨_, same⟩⟩
      · simpa [act, same] using dated
      · simp [act, same, Dated]
      · simp [act, same, Dated]

theorem dated_after (dated : logger.Dated) (actions : List Action)
    : (logger.after actions).Dated ∧ logger.installed ≤ (logger.after actions).installed := by
  induction actions generalizing logger with
  | nil => exact ⟨dated, le_rfl⟩
  | cons action rest ih =>
      obtain ⟨still, more⟩ := dated_act dated action
      obtain ⟨last, most⟩ := ih still
      exact ⟨last, Nat.le_trans more most⟩

/-- A handler of the next set-up is not among those of an earlier moment. -/
theorem not_mem_handlers_of_earlier (dated : logger.Dated) {past earlier : List Action}
    (before : earlier <+: past) {handler : Handler} (own : handler.sink ≠ .foreign)
    (serial : handler.serial = (logger.after past).installed)
    : handler ∉ (logger.after earlier).handlers := by
  intro member
  obtain ⟨rest, rfl⟩ := before
  obtain ⟨datedEarlier, _⟩ := dated_after dated earlier
  have grown := (dated_after datedEarlier rest).2
  rw [← after_append, ← serial] at grown
  exact (datedEarlier handler member).elim own (Nat.not_lt.mpr grown)

-----------------------------------------------------------------------------------------
-- A logger that is set up
-----------------------------------------------------------------------------------------

/-- The logger has one handler, takes records from the level of the handler on, and passes none
on.
-/
structure IsSetUp (logger : Logger) (handler : Handler) : Prop where
  handlers : logger.handlers = [handler]
  level : logger.level = handler.level
  positive : handler.level ≠ 0
  keeps : logger.passesOn = false

variable {handler : Handler}

theorem isSetUp_configure {level : Level} (spelled : level.IsSpelled text)
    : (logger.act (.configure text sink none)).1.IsSetUp
        ⟨sink, level.number, logger.installed⟩ := by
  have positive : level.number ≠ 0 := by cases level <;> decide
  simp only [act, configure, spelled.levelMeaning_eq]
  exact ⟨rfl, rfl, positive, rfl⟩

theorem IsSetUp.ask (setUp : logger.IsSetUp handler) (name : String)
    : (logger.ask name).IsSetUp handler :=
  ⟨setUp.handlers, setUp.level, setUp.positive, setUp.keeps⟩

/-- Setting the logger up writes nothing. -/
theorem entries_configure (logger : Logger) (text : String) (sink : Sink)
    (opening : Option Failure)
    : (logger.act (.configure text sink opening)).2.2 = [] := by
  simp only [act]
  split <;> rfl

/-- A record of a logger below is written by the one handler from its level on. -/
theorem IsSetUp.writers_of_governed (setUp : logger.IsSetUp handler) {r : Record}
    (governed : logger.governs r.logger = true)
    : logger.writers r = if handler.level ≤ r.level.number then [handler] else [] := by
  have least : logger.thresholdOf r.logger = handler.level := by
    simp [thresholdOf, threshold, governed, setUp.level, setUp.positive]
  have handlers : logger.handlersOf r.logger = [handler] := by
    simp [handlersOf, governed, setUp.handlers]
  by_cases severe : handler.level ≤ r.level.number <;>
    simp [writers, takes, least, handlers, severe]

/-- A record of any other logger is written as a last resort, if at all. -/
theorem writer_of_apart {r : Record} (apart : logger.governs r.logger = false) {writer : Handler}
    (member : writer ∈ logger.writers r)
    : writer = lastResort := by
  have handlers : logger.handlersOf r.logger = [lastResort] := by simp [handlersOf, apart]
  unfold writers at member
  split at member
  · rw [handlers] at member
    exact List.mem_singleton.mp (List.mem_filter.mp member).1
  · cases member

/-- So it does not come to the handler. -/
theorem not_mem_writers_of_apart (own : handler.sink ≠ .lastResort) {r : Record}
    (apart : logger.governs r.logger = false)
    : handler ∉ logger.writers r := by
  intro member
  obtain rfl := writer_of_apart apart member
  exact own rfl

/-- The handler writes exactly the records of loggers below, from its level on. -/
theorem IsSetUp.mem_writers_iff (setUp : logger.IsSetUp handler) (own : handler.sink ≠ .lastResort)
    {r : Record}
    : handler ∈ logger.writers r
      ↔ logger.governs r.logger = true ∧ handler.level ≤ r.level.number := by
  cases governed : logger.governs r.logger with
  | true => simp [setUp.writers_of_governed governed]
  | false => simpa using not_mem_writers_of_apart own governed

/-- Logging changes nothing of what is set up, by induction over the records. -/
theorem IsSetUp.after_logs (setUp : logger.IsSetUp handler) (records : List Record)
    : (logger.after (records.map .log)).IsSetUp handler := by
  induction records generalizing logger with
  | nil => exact setUp
  | cons r rest ih => exact ih (setUp.ask r.logger)

/-- A record is written by the handler or as a last resort, if at all. -/
theorem IsSetUp.handler_of_mem_log (setUp : logger.IsSetUp handler) {r : Record} {entry : Entry}
    (member : entry ∈ (logger.act (.log r)).2.2)
    : entry.handler = handler ∨ entry.handler = lastResort := by
  obtain ⟨writer, among, rfl⟩ := List.mem_map.mp member
  cases governed : (logger.ask r.logger).governs r.logger with
  | true =>
      rw [(setUp.ask r.logger).writers_of_governed governed] at among
      split at among
      · exact Or.inl (List.mem_singleton.mp among)
      · cases among
  | false => exact Or.inr (writer_of_apart governed among)

theorem IsSetUp.handler_of_mem_logs (setUp : logger.IsSetUp handler) {records : List Record}
    : ∀ entry ∈ (logger.run (records.map .log)).2,
        entry.handler = handler ∨ entry.handler = lastResort := by
  induction records generalizing logger with
  | nil => exact fun _ member => absurd member List.not_mem_nil
  | cons r rest ih =>
      intro entry member
      rw [List.map_cons, run_cons, List.mem_append] at member
      exact member.elim setUp.handler_of_mem_log (ih (setUp.ask r.logger) entry)

/-- A record that is chosen, and is one of a part of the program, is written by the handler, once,
from its level on; any other one leaves no entry of a chosen record.
-/
theorem IsSetUp.filter_entries_log (setUp : logger.IsSetUp handler) {chosen : Record → Bool}
    {r : Record} (part : chosen r = true → IsPartName r.logger)
    : (logger.act (.log r)).2.2.filter (fun entry => chosen entry.record)
      = if chosen r && handler.level ≤ r.level.number then [⟨handler, r⟩] else [] := by
  rw [act, List.filter_map]
  cases selected : chosen r with
  | false => simp [Function.comp_def, selected]
  | true =>
      have written := (setUp.ask r.logger).writers_of_governed (part selected).isBelowRoot
      rw [written]
      by_cases severe : handler.level ≤ r.level.number <;>
        simp [Function.comp_def, selected, severe]

/-- Of any selection of records of parts of the program each one from the level of the handler on is
written by it, once and in order, and the others are not written at all, whatever else is logged.
The induction is over all records.
-/
theorem IsSetUp.run_logs (setUp : logger.IsSetUp handler) {records : List Record}
    {chosen : Record → Bool} (parts : ∀ r ∈ records, chosen r = true → IsPartName r.logger)
    : (logger.run (records.map .log)).2.filter (fun entry => chosen entry.record)
      = (records.filter fun r => chosen r && handler.level ≤ r.level.number).map
          fun r => ⟨handler, r⟩ := by
  induction records generalizing logger with
  | nil => rfl
  | cons r rest ih =>
      have asked : (logger.act (.log r)).1.IsSetUp handler := setUp.ask r.logger
      have others := ih asked fun r member => parts r (List.mem_cons_of_mem _ member)
      rw [List.map_cons, run_cons, List.filter_append,
        setUp.filter_entries_log (parts r List.mem_cons_self), others, List.filter_cons]
      split <;> rfl

/-- What a handler has written to its sink are the lines of its records, in order. -/
theorem output_map {stamp : String} (own : handler.sink ≠ .lastResort) (records : List Record)
    : output stamp handler.sink (records.map fun r => ⟨handler, r⟩)
      = String.join (records.map (·.lines stamp)) := by
  simp [output, Entry.goesTo, Entry.text, own, List.filter_map, Function.comp_def]

/-- Once the logger has been set up, it has one handler and passes nothing on until it is set up
again, whoever had installed handlers before and whatever had been done. This handler is none of
those of earlier moments, and besides it only the last resort writes anything. Of the records that
tools and parts of the program log, whichever of them are looked at, the handler writes each one
from its level on, once and in the order of logging, behind all that was written before; the others
are not written. This takes names of parts that do not begin with a dot: with dots in front a record
comes to the handler only if their number is even, as long as nobody has asked for a name of the
program and dots alone.
-/
theorem written_by_latest_setUp (dated : logger.Dated) {level : Level}
    (spelled : level.IsSpelled text) (own : sink = .standardError ∨ ∃ path, sink = .file path)
    (past : List Action) (records : List Record)
    : let actions := past ++ .configure text sink none :: records.map .log
      let handler : Handler := ⟨sink, level.number, (logger.after past).installed⟩
      (logger.after actions).handlers = [handler]
      ∧ (logger.after actions).passesOn = false
      ∧ (∀ earlier, earlier <+: past → handler ∉ (logger.after earlier).handlers)
      ∧ (∃ written,
          (logger.run actions).2 = (logger.run past).2 ++ written
          ∧ (∀ entry ∈ written, entry.handler = handler ∨ entry.handler = lastResort)
          ∧ ∀ chosen : Record → Bool,
              (∀ r ∈ records, chosen r = true → IsPartName r.logger)
              → let severe := records.filter fun r => chosen r && level.number ≤ r.level.number
                let entries := written.filter fun entry => chosen entry.record
                entries = severe.map (fun r => ⟨handler, r⟩)
                ∧ ∀ stamp,
                    output stamp sink entries = String.join (severe.map (·.lines stamp)))
      ∧ ∀ (r : Record) (dots : Nat) (rest : List Char),
          r.logger = plainName (String.ofList (List.replicate dots '.' ++ rest))
          → rest.head? ≠ some '.'
          → let asked := (logger.after actions).ask r.logger
            (∀ more, dotted (more + 1) ∉ asked.named)
            → (handler ∈ asked.writers r ↔ Even dots ∧ level.number ≤ r.level.number) := by
  intro actions handler
  have foreign : handler.sink ≠ .foreign := by rcases own with rfl | ⟨_, rfl⟩ <;> nofun
  have last : handler.sink ≠ .lastResort := by rcases own with rfl | ⟨_, rfl⟩ <;> nofun
  have begun : ((logger.after past).act (.configure text sink none)).1.IsSetUp handler :=
    isSetUp_configure spelled
  have setUp : (logger.after actions).IsSetUp handler := by
    rw [after_append, after_cons]
    exact begun.after_logs records
  have since : (logger.run actions).2
      = (logger.run past).2
        ++ (((logger.after past).act (.configure text sink none)).1.run (records.map .log)).2 := by
    rw [run_append, run_cons, entries_configure, List.nil_append]
  refine ⟨setUp.handlers, setUp.keeps, ?_, ⟨_, since, begun.handler_of_mem_logs, ?_⟩, ?_⟩
  · intro earlier before
    exact not_mem_handlers_of_earlier dated before foreign rfl
  · intro chosen parts severe entries
    have written : entries = severe.map fun r => ⟨handler, r⟩ := begun.run_logs parts
    exact ⟨written, fun stamp => written ▸ output_map last severe⟩
  · intro r dots rest name start asked free
    have below := isBelowRoot_dots_iff free dots start
    rw [← name] at below
    rw [(setUp.ask r.logger).mem_writers_iff last]
    exact and_congr_left' below

/-- When the log is moved from standard error to a file in the middle of a run, and only warnings
and worse are wanted there, a later error of a tool comes to the file alone, and all else that is
logged later is left out.
-/
theorem written_by_latest_setUp_of_moved
    : let opened := record .info (plainName "lsp") "opened"
      let failed := record .error (plainName "linters.ruff") "no output"
      let actions : List Action :=
        [.configure "debug" .standardError none, .log opened,
          .configure "Warning" (.file "/x/y.log") none, .log opened, .log failed]
      occupied.Dated
      ∧ Level.warning.IsSpelled "Warning"
      ∧ IsPartName failed.logger
      ∧ (occupied.after actions).handlers = [⟨.file "/x/y.log", 30, 2⟩]
      ∧ (occupied.run actions).2
        = [⟨⟨.standardError, 10, 1⟩, opened⟩, ⟨⟨.file "/x/y.log", 30, 2⟩, failed⟩] := by
  intro opened failed actions
  have dated : occupied.Dated := by
    intro handler member
    obtain rfl := List.mem_singleton.mp member
    exact Or.inl rfl
  have spelled : Level.warning.IsSpelled "Warning" := by
    unfold Level.IsSpelled
    decide
  have tool : IsPartName failed.logger := Or.inl ⟨"ruff", by decide⟩
  have server : IsPartName opened.logger := Or.inr ⟨"lsp", rfl, by decide⟩
  have own : Sink.file "/x/y.log" = .standardError ∨ ∃ path, Sink.file "/x/y.log" = .file path :=
    Or.inr ⟨_, rfl⟩
  obtain ⟨handlers, _, _, ⟨written, whole, _, parts⟩, _⟩ :=
    written_by_latest_setUp dated spelled own
      [.configure "debug" .standardError none, .log opened] [opened, failed]
  have all := (parts (fun _ => true) ?_).1
  · rw [List.filter_true] at all
    exact ⟨dated, spelled, tool, handlers, whole.trans (all ▸ by decide)⟩
  · rw [List.forall_mem_cons, List.forall_mem_singleton]
    exact ⟨fun _ => server, fun _ => tool⟩

/-- A record of a part whose name begins with a dot is not heard. -/
theorem unheard_of_leading_dot
    : let r := record .info (plainName ".x") "hi"
      (occupied.run [.configure "INFO" .standardError none, .log r]).2 = [] := by
  decide

end Logger

end EditorLint.Log
