import EditorLint.Proofs.Finding
import EditorLint.Settings.Payload

/-! What an editor's payload makes of settings. Each setting is told by the entry under its own key
alone: a value of the right kind is taken, and at anything else the default stays. It makes no
difference whether the entries stand by themselves or under the name of the section, whatever
stands beside that.
-/

namespace EditorLint.Settings

-----------------------------------------------------------------------------------------
-- What entries stand for
-----------------------------------------------------------------------------------------

/-- The entries of a payload that hold settings: those under the name of the section if they are an
object, or else all.
-/
def IsSection (payload entries : Table Json) : Prop :=
  payload.get? sectionKey = some (.obj entries)
    ∨ (∀ inner, payload.get? sectionKey ≠ some (.obj inner)) ∧ entries = payload

def IsFlag (value : Json) (flag : Bool) : Prop :=
  value = .bool flag

/-- A text that is not empty. -/
def IsFilledText (value : Json) (text : String) : Prop :=
  value = .str text ∧ text ≠ ""

/-- An array of texts, in their order. -/
def IsTexts (value : Json) (texts : List String) : Prop :=
  value = .arr (texts.map .str)

/-- A setting is what its entry stands for, or the default if that is nothing. -/
def IsChosen {α : Type} (stands : Json → α → Prop) (entry : Option Json) (default value : α)
    : Prop :=
  IsGiven stands entry value ∨ (∀ other, ¬ IsGiven stands entry other) ∧ value = default

/-- The keys that settings have, in the order of the settings, with the kinds of their values. -/
def recognised : List (String × Expectation) :=
  [("enabled", .flag), ("ignorePatterns", .texts), ("ruffEnabled", .flag),
    ("ruffPath", .filledText), ("ruffArgs", .texts)]

/-- Every setting is what the entry under its key stands for, or the default. -/
structure ChosenFrom (defaults : Settings) (entries : Table Json) (settings : Settings)
    : Prop where
  enabled : IsChosen IsFlag (entries.get? "enabled") defaults.enabled settings.enabled
  ignorePatterns
    : IsChosen IsTexts (entries.get? "ignorePatterns") defaults.ignorePatterns
        settings.ignorePatterns
  toolEnabled
    : IsChosen IsFlag (entries.get? "ruffEnabled") defaults.toolEnabled settings.toolEnabled
  toolPath : IsChosen IsFilledText (entries.get? "ruffPath") defaults.toolPath settings.toolPath
  toolArguments
    : IsChosen IsTexts (entries.get? "ruffArgs") defaults.toolArguments settings.toolArguments

/-- Wherever two objects have the same under the key of a setting, this setting is the same,
whatever they have under other keys.
-/
structure AgreesByKey (entries others : Table Json) (settings those : Settings) : Prop where
  enabled : entries.get? "enabled" = others.get? "enabled" → settings.enabled = those.enabled
  ignorePatterns
    : entries.get? "ignorePatterns" = others.get? "ignorePatterns"
      → settings.ignorePatterns = those.ignorePatterns
  toolEnabled
    : entries.get? "ruffEnabled" = others.get? "ruffEnabled"
      → settings.toolEnabled = those.toolEnabled
  toolPath : entries.get? "ruffPath" = others.get? "ruffPath" → settings.toolPath = those.toolPath
  toolArguments
    : entries.get? "ruffArgs" = others.get? "ruffArgs"
      → settings.toolArguments = those.toolArguments

-----------------------------------------------------------------------------------------
-- Taking one entry
-----------------------------------------------------------------------------------------

/-- What is made of an entry, and what is refused: the default stands where there is none, a value
is taken as what it stands for, and one that stands for nothing is refused.
-/
inductive Taken {α : Type} (stands : Json → α → Prop) (key : String) (expected : Expectation)
    (default : α)
    : Option Json → α × List Refused → Prop
  | absent : Taken stands key expected default none (default, [])
  | given {value meant} (means : stands value meant)
    : Taken stands key expected default (some value) (meant, [])
  | refused {value} (nothing : ∀ meant, ¬ stands value meant)
    : Taken stands key expected default (some value)
        (default, [⟨key, value.literal, expected⟩])

variable {α : Type} {stands : Json → α → Prop} {key : String} {expected : Expectation} {default : α}
  {entry : Option Json} {taken : α × List Refused}

/-- What is made of an entry is what it stands for, or the default. -/
theorem Taken.isChosen (done : Taken stands key expected default entry taken)
    : IsChosen stands entry default taken.1 := by
  cases done with
  | absent => exact Or.inr ⟨fun _ given => (nomatch given), rfl⟩
  | given means => exact Or.inl ⟨_, rfl, means⟩
  | refused nothing =>
      refine Or.inr ⟨?_, rfl⟩
      intro other given
      obtain ⟨_, same, means⟩ := given
      exact nothing other (Option.some.inj same ▸ means)

/-- A value that stands for nothing is as good as none. -/
theorem IsChosen.of_or {value : Json} {chosen : α} (nothing : ∀ meant, ¬ stands value meant)
    (choice : IsChosen stands (entry.or (some value)) default chosen)
    : IsChosen stands entry default chosen := by
  cases entry with
  | some _ => exact choice
  | none =>
      have none : ∀ meant, ¬ IsGiven stands (some value) meant := by
        intro meant given
        obtain ⟨_, same, means⟩ := given
        exact nothing meant (Option.some.inj same ▸ means)
      rcases choice with given | ⟨_, same⟩
      · exact (none chosen given).elim
      · exact Or.inr ⟨fun _ given => (nomatch given), same⟩

/-- Items are read as texts exactly if they are these texts. -/
theorem mapM_text?_eq_some_iff {items : List Json} {texts : List String}
    : items.mapM Json.text? = some texts ↔ items = texts.map .str := by
  induction items generalizing texts with
  | nil => cases texts <;> simp
  | cons first rest ih =>
      rw [List.mapM_cons]
      cases first with
      | str text =>
          cases texts with
          | nil => simp [Json.text?, Option.bind_eq_some_iff]
          | cons head more => simp [Json.text?, Option.bind_eq_some_iff, ih, and_comm]
      | null | bool | int | float | arr | obj => cases texts <;> simp [Json.text?]

theorem taken_takeFlag (entries : Table Json) (key : String) (default : Bool)
    : Taken IsFlag key .flag default (entries.get? key) (takeFlag entries key default) := by
  unfold takeFlag
  cases entries.get? key with
  | none => exact .absent
  | some value =>
      cases value with
      | bool flag => exact .given rfl
      | null | int | float | str | arr | obj => exact .refused fun _ same => nomatch same

theorem taken_takeTexts (entries : Table Json) (key : String) (default : List String)
    : Taken IsTexts key .texts default (entries.get? key) (takeTexts entries key default) := by
  unfold takeTexts
  cases entries.get? key with
  | none => exact .absent
  | some value =>
      cases value with
      | arr items =>
          dsimp only
          split
          next texts read => exact .given (congrArg Json.arr (mapM_text?_eq_some_iff.mp read))
          next unread =>
            refine .refused fun texts same => ?_
            rw [mapM_text?_eq_some_iff.mpr (Json.arr.inj same)] at unread
            cases unread
      | null | bool | int | float | str | obj => exact .refused fun _ same => nomatch same

/-- An empty default takes the place of a missing text, and is put to the same test. -/
def orEmpty (entry : Option Json) (default : String) : Option Json :=
  entry.or (if default = "" then some (.str "") else none)

theorem not_isFilledText_empty (text : String) : ¬ IsFilledText (.str "") text :=
  fun filled => filled.2 (Json.str.inj filled.1).symm

theorem taken_takeText (entries : Table Json) (key default : String)
    : Taken IsFilledText key .filledText default (orEmpty (entries.get? key) default)
        (takeText entries key default) := by
  unfold takeText orEmpty
  cases entries.get? key with
  | none =>
      dsimp only
      split
      next empty =>
        subst empty
        exact .refused not_isFilledText_empty
      next => exact .absent
  | some value =>
      rw [Option.some_or]
      cases value with
      | str text =>
          dsimp only
          split
          next empty =>
            subst empty
            exact .refused not_isFilledText_empty
          next filled => exact .given ⟨rfl, filled⟩
      | null | bool | int | float | arr | obj =>
          refine .refused ?_
          intro _ given
          cases given.1

/-- A text is what its entry stands for or the default, which may be empty. -/
theorem isChosen_takeText (entries : Table Json) (key default : String)
    : IsChosen IsFilledText (entries.get? key) default (takeText entries key default).1 := by
  have choice := (taken_takeText entries key default).isChosen
  unfold orEmpty at choice
  split at choice
  next => exact choice.of_or not_isFilledText_empty
  next => simpa using choice

-----------------------------------------------------------------------------------------
-- Payloads
-----------------------------------------------------------------------------------------

variable {defaults : Settings} {payload entries : Table Json}

/-- Every payload has one section. -/
theorem isSection_iff : IsSection payload entries ↔ sectionOf payload = entries := by
  unfold IsSection sectionOf
  cases found : payload.get? sectionKey with
  | none => simp [eq_comm]
  | some value => cases value <;> simp [Json.entries?, eq_comm]

/-- A payload comes to what its section comes to. -/
theorem ofPayload_of_isSection (held : IsSection payload entries)
    : ofPayload defaults (.obj payload) = ofSection defaults entries := by
  rw [ofPayload, isSection_iff.mp held]

/-- The settings of a section are chosen key by key. -/
theorem chosenFrom_ofSection (defaults : Settings) (entries : Table Json)
    : ChosenFrom defaults entries (ofSection defaults entries).1 where
  enabled := (taken_takeFlag entries "enabled" defaults.enabled).isChosen
  ignorePatterns := (taken_takeTexts entries "ignorePatterns" defaults.ignorePatterns).isChosen
  toolEnabled := (taken_takeFlag entries "ruffEnabled" defaults.toolEnabled).isChosen
  toolPath := isChosen_takeText entries "ruffPath" defaults.toolPath
  toolArguments := (taken_takeTexts entries "ruffArgs" defaults.toolArguments).isChosen

/-- No setting depends on any key but its own. -/
theorem agreesByKey_ofSection (defaults : Settings) (entries others : Table Json)
    : AgreesByKey entries others (ofSection defaults entries).1 (ofSection defaults others).1 where
  enabled := fun same => by simp [ofSection, takeFlag, same]
  ignorePatterns := fun same => by simp [ofSection, takeTexts, same]
  toolEnabled := fun same => by simp [ofSection, takeFlag, same]
  toolPath := fun same => by simp [ofSection, takeText, same]
  toolArguments := fun same => by simp [ofSection, takeTexts, same]

/-- And no other keys lead to warnings. -/
theorem ofSection_congr {others : Table Json}
    (same : ∀ setting ∈ recognised, entries.get? setting.1 = others.get? setting.1)
    : ofSection defaults entries = ofSection defaults others := by
  simp only [recognised, List.forall_mem_cons] at same
  obtain ⟨enabled, patterns, toolEnabled, path, arguments, _⟩ := same
  simp only [ofSection, takeFlag, takeText, takeTexts, enabled, patterns, toolEnabled, path,
    arguments]

/-- Settings are chosen key by key from the section of a payload. No setting depends on what is
under any key but its own, and under other keys than those of settings nothing has any effect. An
object without a section comes to the same settings and the same warnings as every payload that
has it as its section.
-/
theorem ofPayload_by_key (held : IsSection payload entries)
    : ChosenFrom defaults entries (ofPayload defaults (.obj payload)).1
      ∧ (∀ other others,
          IsSection other others
          → AgreesByKey entries others (ofPayload defaults (.obj payload)).1
              (ofPayload defaults (.obj other)).1
            ∧ ((∀ setting ∈ recognised, entries.get? setting.1 = others.get? setting.1)
              → ofPayload defaults (.obj payload) = ofPayload defaults (.obj other)))
      ∧ ((∀ inner, payload.get? sectionKey ≠ some (.obj inner))
        → ∀ outer : Table Json,
            outer.get? sectionKey = some (.obj payload)
            → ofPayload defaults (.obj outer) = ofPayload defaults (.obj payload)) := by
  rw [ofPayload_of_isSection held]
  refine ⟨chosenFrom_ofSection defaults entries, ?_, ?_⟩
  · intro other others elsewhere
    rw [ofPayload_of_isSection elsewhere]
    exact ⟨agreesByKey_ofSection defaults entries others, ofSection_congr⟩
  · intro flat outer nested
    obtain ⟨_, rfl⟩ := held.resolve_left (flat entries)
    exact ofPayload_of_isSection (Or.inl nested)

/-- Entries of which one is of a wrong kind and one is null, and some are no settings. -/
def mixedEntries : Table Json :=
  [("ruffPath", .str "/opt/ruff"), ("enabled", .str "no"), ("lintbridge", .null),
    ("ignorePatterns", .null), ("ruffArgs", .arr [.str "--select", .str "E"]),
    ("color", .bool true)]

/-- The same entries as a section, with entries beside it that look like settings. -/
def mixedPayload : Table Json :=
  [("enabled", .bool false), ("lintbridge", .obj mixedEntries), ("ruffPath", .str "/bin/ruff")]

/-- Both come to the same, and what stands beside the section does not count. -/
theorem ofPayload_by_key_of_mixed
    : IsSection mixedPayload mixedEntries
      ∧ IsSection mixedEntries mixedEntries
      ∧ ChosenFrom { toolEnabled := false } mixedEntries
          (ofPayload { toolEnabled := false } (.obj mixedPayload)).1
      ∧ (ofPayload { toolEnabled := false } (.obj mixedPayload)).1
        = { toolEnabled := false, toolPath := "/opt/ruff", toolArguments := ["--select", "E"] }
      ∧ ofPayload { toolEnabled := false } (.obj mixedPayload)
        = ofPayload { toolEnabled := false } (.obj mixedEntries) := by
  have flat : ∀ inner, Table.get? mixedEntries sectionKey ≠ some (.obj inner) := by
    intro inner there
    cases there
  have held : IsSection mixedPayload mixedEntries := Or.inl rfl
  have whole : IsSection mixedEntries mixedEntries := Or.inr ⟨flat, rfl⟩
  refine ⟨held, whole, (ofPayload_by_key held).1, rfl, ?_⟩
  exact (ofPayload_by_key whole).2.2 flat mixedPayload rfl

end EditorLint.Settings
