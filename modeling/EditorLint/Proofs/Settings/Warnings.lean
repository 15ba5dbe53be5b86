import EditorLint.CommandLine.Run
import EditorLint.Proofs.Finding.Grammar
import EditorLint.Proofs.Settings.Payload
import Mathlib.Data.Set.List

/-! What an editor is warned about. There is one warning for each key of a setting under which the
section has a value of the wrong kind, in the order of the settings, and with one exception there
are no others: a program that was started with an empty path of its tool warns about this path
when the section has none, as if the editor had sent it.
-/

namespace EditorLint.Settings

-----------------------------------------------------------------------------------------
-- Values of the wrong kind
-----------------------------------------------------------------------------------------

/-- Whether a value is of the kind that is expected. -/
def Expectation.takes : Expectation → Json → Bool
  | .flag, .bool _ => true
  | .filledText, .str text => text ≠ ""
  | .texts, .arr items => items.all fun item => item.text?.isSome
  | _, _ => false

/-- The warning about the entry under one key, if it has to be warned about. -/
def blame (entries : Table Json) (setting : String × Expectation) : List Refused :=
  match entries.get? setting.1 with
  | none => []
  | some value =>
    if setting.2.takes value then [] else [⟨setting.1, value.literal, setting.2⟩]

/-- The warnings about all values of the wrong kind. -/
def mistaken (entries : Table Json) : List Refused :=
  recognised.flatMap (blame entries)

/-- There is a warning exactly about each value of the wrong kind under the key of a setting. -/
theorem mem_mistaken_iff {entries : Table Json} {refused : Refused}
    : refused ∈ mistaken entries
      ↔ ∃ setting ∈ recognised, ∃ value,
          entries.get? setting.1 = some value
          ∧ setting.2.takes value = false
          ∧ refused = ⟨setting.1, value.literal, setting.2⟩ := by
  simp only [mistaken, List.mem_flatMap]
  refine exists_congr fun setting => and_congr_right fun _ => ?_
  unfold blame
  cases entries.get? setting.1 with
  | none => simp
  | some value => cases kind : setting.2.takes value <;> simp [kind]

theorem isKindOf_flag : IsKindOf (fun value => Expectation.flag.takes value = true) IsFlag := by
  intro value
  cases value <;> simp [Expectation.takes, IsFlag]

theorem isKindOf_filledText
    : IsKindOf (fun value => Expectation.filledText.takes value = true) IsFilledText := by
  intro value
  cases value <;> simp [Expectation.takes, IsFilledText]

/-- Items are texts exactly if each of them is one. -/
theorem exists_eq_map_str_iff {items : List Json}
    : (∃ texts : List String, items = texts.map .str) ↔ ∀ item ∈ items, item.text?.isSome := by
  have isText (item : Json) : item.text?.isSome ↔ item ∈ Set.range Json.str := by
    cases item <;> simp [Json.text?]
  have listed := Set.ext_iff.mp (Set.range_list_map Json.str) items
  simpa only [Set.mem_range, Set.mem_ofPred_eq, isText, eq_comm (a := items)] using listed

theorem isKindOf_texts : IsKindOf (fun value => Expectation.texts.takes value = true) IsTexts := by
  intro value
  cases value with
  | arr items => simp [Expectation.takes, IsTexts, exists_eq_map_str_iff]
  | null | bool | int | float | str | obj => simp [Expectation.takes, IsTexts]

/-- What is refused of an entry is what is warned about. -/
theorem Taken.refused_eq {α : Type} {stands : Json → α → Prop} {key : String}
    {expected : Expectation} {default : α} {entries : Table Json} {entry : Option Json}
    {taken : α × List Refused} (done : Taken stands key expected default entry taken)
    (isKind : IsKindOf (fun value => expected.takes value = true) stands)
    (there : entries.get? key = entry)
    : taken.2 = blame entries (key, expected) := by
  simp only [blame, there]
  cases done with
  | absent => rfl
  | given means => simp [(isKind _).mpr ⟨_, means⟩]
  | refused nothing =>
      have unfit : ¬ expected.takes _ = true := (isKind _).not.mpr (not_exists.mpr nothing)
      simp [unfit]

-----------------------------------------------------------------------------------------
-- The path that a program is started with
-----------------------------------------------------------------------------------------

/-- The entries that are warned about: those of the section, and an empty path of the tool if this
is the default and the section has none.
-/
def warnedAbout (defaults : Settings) (entries : Table Json) : Table Json :=
  if defaults.toolPath = "" ∧ entries.get? "ruffPath" = none then
    entries.insert "ruffPath" (.str "")
  else entries

theorem get?_warnedAbout_path (defaults : Settings) (entries : Table Json)
    : (warnedAbout defaults entries).get? "ruffPath"
      = orEmpty (entries.get? "ruffPath") defaults.toolPath := by
  unfold warnedAbout orEmpty
  split
  next both => simp [Table.get?_insert, both.1, both.2]
  next other =>
    by_cases empty : defaults.toolPath = ""
    · obtain ⟨value, there⟩ := Option.ne_none_iff_exists'.mp fun missing => other ⟨empty, missing⟩
      simp [there]
    · simp [empty]

theorem get?_warnedAbout_other (defaults : Settings) (entries : Table Json) {key : String}
    (other : key ≠ "ruffPath")
    : (warnedAbout defaults entries).get? key = entries.get? key := by
  unfold warnedAbout
  split
  · rw [Table.get?_insert, if_neg other]
  · rfl

/-- All warnings about a section are about values of the wrong kind there, or about the default. -/
theorem refused_ofSection (defaults : Settings) (entries : Table Json)
    : (ofSection defaults entries).2 = mistaken (warnedAbout defaults entries) := by
  have same {key : String} (other : key ≠ "ruffPath") :=
    get?_warnedAbout_other defaults entries other
  have enabled := (taken_takeFlag entries "enabled" defaults.enabled).refused_eq isKindOf_flag
    (same (by decide))
  have patterns := (taken_takeTexts entries "ignorePatterns" defaults.ignorePatterns).refused_eq
    isKindOf_texts (same (by decide))
  have toolEnabled := (taken_takeFlag entries "ruffEnabled" defaults.toolEnabled).refused_eq
    isKindOf_flag (same (by decide))
  have path := (taken_takeText entries "ruffPath" defaults.toolPath).refused_eq isKindOf_filledText
    (get?_warnedAbout_path defaults entries)
  have arguments := (taken_takeTexts entries "ruffArgs" defaults.toolArguments).refused_eq
    isKindOf_texts (same (by decide))
  simp [mistaken, recognised, ofSection, enabled, patterns, toolEnabled, path, arguments]

/-- Nothing else is warned about exactly if the default is a path or the section has one of its
own, be it of the wrong kind.
-/
theorem mistaken_warnedAbout_iff {defaults : Settings} {entries : Table Json}
    : mistaken (warnedAbout defaults entries) = mistaken entries
      ↔ defaults.toolPath ≠ "" ∨ entries.get? "ruffPath" ≠ none := by
  constructor
  · intro same
    by_contra neither
    obtain ⟨empty, missing⟩ := not_or.mp neither
    have warned : ⟨"ruffPath", (Json.str "").literal, .filledText⟩ ∈ mistaken entries := by
      refine same ▸ mem_mistaken_iff.mpr
        ⟨("ruffPath", .filledText), by decide, .str "", ?_, rfl, rfl⟩
      rw [get?_warnedAbout_path, orEmpty, not_not.mp empty, not_not.mp missing]
      rfl
    obtain ⟨setting, _, value, there, _, about⟩ := mem_mistaken_iff.mp warned
    rw [← (Refused.mk.inj about).1, not_not.mp missing] at there
    cases there
  · intro other
    rw [warnedAbout, if_neg fun both => other.elim (absurd both.1) (absurd both.2)]

-----------------------------------------------------------------------------------------
-- Command lines
-----------------------------------------------------------------------------------------

open CommandLine (Options Surroundings Effect)

variable {words : List String} {options : Options} {payload entries : Table Json}

theorem eq_of_mem_serving {surroundings : Surroundings} {settings : Settings}
    (created : Effect.createServer settings ∈ (CommandLine.serving surroundings options).1)
    : settings = options.settings := by
  unfold CommandLine.serving at created
  cases refused : surroundings.create with
  | some failure => simpa [Provider.ofSettings, refused] using created
  | none =>
      cases kind : options.transport <;> simpa [Provider.ofSettings, refused, kind] using created

theorem not_mem_conclusion (failure : Option Failure) (settings : Settings)
    : Effect.createServer settings ∉ (CommandLine.conclusion failure).1 := by
  cases failure with
  | none => simp [CommandLine.conclusion]
  | some failure =>
      unfold CommandLine.conclusion
      dsimp only
      split
      · simp
      · split <;> simp

/-- A server that is created by a run has the settings of the options of its command line. -/
theorem eq_of_createServer {surroundings : Surroundings} {logger : Log.Logger} {settings : Settings}
    (parsed : Options.ofWords words = .ok options)
    (created : Effect.createServer settings ∈ (CommandLine.run surroundings logger words).2.1)
    : settings = options.settings := by
  simp only [CommandLine.run, parsed] at created
  split at created
  next => cases created
  next =>
    simp only [CommandLine.runOptions, List.mem_append] at created
    rcases created with (announced | served) | concluded
    · simp at announced
    · exact eq_of_mem_serving served
    · exact (not_mem_conclusion _ settings concluded).elim

/-- A command line, however it sets the path and the arguments of the tool, starts servers with
these settings as their defaults. Over them an editor is warned once about each key of a setting
under which it has sent a value of the wrong kind, in the order of the settings, and about an
empty path of the tool as if it had been sent, if the command line sets this and the editor sends
none. In all other cases there are no other warnings.
-/
theorem refused_over_commandLine (parsed : Options.ofWords words = .ok options)
    (held : IsSection payload entries)
    : (∀ surroundings logger settings,
        Effect.createServer settings ∈ (CommandLine.run surroundings logger words).2.1
        → settings = options.settings)
      ∧ (ofPayload options.settings (.obj payload)).2
        = mistaken (warnedAbout options.settings entries)
      ∧ ((ofPayload options.settings (.obj payload)).2 = mistaken entries
        ↔ options.toolPath ≠ "" ∨ entries.get? "ruffPath" ≠ none) := by
  rw [ofPayload_of_isSection held, refused_ofSection]
  exact ⟨fun _ _ _ created => eq_of_createServer parsed created, rfl, mistaken_warnedAbout_iff⟩

/-- Over an empty path of the tool, an editor that sends one setting of the wrong kind and no path
is warned about both.
-/
theorem refused_over_commandLine_of_emptyPath
    : ∃ options,
        Options.ofWords ["--ruff-path=", "--ruff-arg=-x"] = .ok options
        ∧ IsSection [("ruffArgs", .str "-y")] [("ruffArgs", .str "-y")]
        ∧ (ofPayload options.settings (.obj [("ruffArgs", .str "-y")])).2
          = [⟨"ruffPath", "''", .filledText⟩, ⟨"ruffArgs", "'-y'", .texts⟩] := by
  have parsed
      : Options.ofWords ["--ruff-path=", "--ruff-arg=-x"]
        = .ok (CommandLine.Draft.options { toolPath := "", toolArguments := ["-x"] }) := by
    decide +kernel
  have held : IsSection [("ruffArgs", .str "-y")] [("ruffArgs", .str "-y")] :=
    Or.inr ⟨fun _ there => (nomatch there), rfl⟩
  refine ⟨_, parsed, held, (refused_over_commandLine parsed held).2.1.trans ?_⟩
  decide +kernel

/-- So an editor that sends nothing is warned about the path that the program was started with. -/
theorem refused_of_emptyPath
    : ∃ options,
        Options.ofWords ["--ruff-path="] = .ok options
        ∧ (ofPayload options.settings (.obj [])).2 = [⟨"ruffPath", "''", .filledText⟩]
        ∧ mistaken [] = [] := by
  refine ⟨CommandLine.Draft.options { toolPath := "" }, ?_, ?_, rfl⟩
  · decide +kernel
  · decide +kernel

end EditorLint.Settings
