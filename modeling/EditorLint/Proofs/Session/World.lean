import EditorLint.Session.Server
import Mathlib.Data.List.Basic

/-! What the editor is shown, and what each operation on a server's state does to it. Most of them
only add entries to the history that show the editor nothing.
-/

namespace EditorLint.Session

/-- What an event publishes for an address, if it does. -/
def Event.sentTo? (uri : String) : Event → Option (Option Int × List Editor.Diagnostic)
  | .publish other version diagnostics => if other = uri then some (version, diagnostics) else none
  | _ => none

/-- Whether an event publishes nothing. -/
def Event.isAside : Event → Bool
  | .publish .. => false
  | _ => true

/-- An event that publishes nothing is sent to no address. -/
theorem Event.sentTo?_eq_none {event : Event} (aside : event.isAside) (uri : String)
    : event.sentTo? uri = none := by
  cases event <;> simp_all [isAside, sentTo?]

namespace World

/-- The version and the diagnostics that were published last for an address. -/
def lastSent? (world : World) (uri : String) : Option (Option Int × List Editor.Diagnostic) :=
  (world.history.filterMap fun entry => entry.event.sentTo? uri).getLast?

/-- Nothing has changed but that entries came to the history which publish nothing. -/
def Noted (before after : World) : Prop :=
  ∃ entries : List (Stamped Event),
    after = { before with history := before.history ++ entries }
    ∧ ∀ entry ∈ entries, entry.event.isAside

/-- The editor has been shown no diagnostics, and those that the server remembers are the same. -/
structure Continues (before after : World) : Prop where
  published : after.published = before.published
  history
    : ∃ entries,
        after.history = before.history ++ entries ∧ ∀ entry ∈ entries, entry.event.isAside

/-- What no turn changes: documents, and what a session is begun with. -/
structure Untouched (before after : World) : Prop where
  workspace : after.workspace = before.workspace
  documents : after.documents = before.documents
  disk : after.disk = before.disk
  delay : after.delay = before.delay
  base : after.base = before.base
  tool : after.tool = before.tool

/-- What a tool is given of a document, once there is a workspace. -/
def snapshot? (world : World) (document : Document) : Option Snapshot :=
  world.workspace.map fun workspace =>
    ⟨document.text, document.path, some (workspace.directoryFor world.disk.directories document.path)⟩

-----------------------------------------------------------------------------------------
-- Entries that publish nothing
-----------------------------------------------------------------------------------------

variable {before middle after world : World}

/-- A world differs from itself by no entries. -/
theorem Noted.refl (world : World) : Noted world world :=
  ⟨[], by simp, by simp⟩

/-- Entries that came one after the other have come together. -/
theorem Noted.trans (first : Noted before middle) (second : Noted middle after)
    : Noted before after := by
  obtain ⟨early, rfl, earlyAside⟩ := first
  obtain ⟨late, rfl, lateAside⟩ := second
  refine ⟨early ++ late, by simp, ?_⟩
  intro entry member
  rcases List.mem_append.mp member with here | here
  · exact earlyAside entry here
  · exact lateAside entry here

/-- Entries that publish nothing show nothing. -/
theorem Noted.continues (noted : Noted before after) : Continues before after := by
  obtain ⟨entries, rfl, aside⟩ := noted
  exact ⟨rfl, entries, rfl, aside⟩

/-- Where nothing is shown, what was sent last stays. -/
theorem Continues.lastSent? (continues : Continues before after) (uri : String)
    : after.lastSent? uri = before.lastSent? uri := by
  obtain ⟨entries, grown, aside⟩ := continues.history
  have nothing : (entries.filterMap fun entry => entry.event.sentTo? uri) = [] := by
    rw [List.filterMap_eq_nil_iff]
    exact fun entry member => Event.sentTo?_eq_none (aside entry member) uri
  simp [World.lastSent?, grown, List.filterMap_append, nothing]

/-- Entries that publish nothing leave what was sent last. -/
theorem Noted.lastSent? (noted : Noted before after) (uri : String)
    : after.lastSent? uri = before.lastSent? uri :=
  noted.continues.lastSent? uri

/-- Entries in the history touch nothing else. -/
theorem Noted.untouched (noted : Noted before after) : Untouched before after := by
  obtain ⟨entries, rfl, _⟩ := noted
  exact ⟨rfl, rfl, rfl, rfl, rfl, rfl⟩

/-- Entries in the history leave the settings in force. -/
theorem Noted.provider (noted : Noted before after) : after.provider = before.provider := by
  obtain ⟨entries, rfl, _⟩ := noted
  rfl

/-- An entry that publishes nothing. -/
theorem noted_note (world : World) (now : Time) {event : Event} (aside : event.isAside)
    : Noted world (world.note now event) :=
  ⟨[⟨now, event⟩], rfl, by simpa using aside⟩

/-- Records of the log publish nothing. -/
theorem noted_log (world : World) (now : Time) (record : Log.Record)
    : Noted world (world.log now record) :=
  noted_note world now rfl

/-- What is seen of a tool publishes nothing. -/
theorem noted_noteTool (world : World) (now : Time) (events : List Tool.Event)
    : Noted world (world.noteTool now events) := by
  refine ⟨events.map fun event => ⟨now, .tool event⟩, rfl, ?_⟩
  intro entry member
  obtain ⟨event, _, rfl⟩ := List.mem_map.mp member
  rfl

/-- Records of the log that are written one after the other publish nothing, by induction. -/
theorem noted_foldl_log {α : Type} (record : α → Log.Record) (now : Time) (items : List α)
    (world : World)
    : Noted world (items.foldl (fun world item => world.log now (record item)) world) := by
  induction items generalizing world with
  | nil => exact .refl world
  | cons item rest ih => exact (noted_log world now (record item)).trans (ih _)

/-- Published diagnostics are what was sent last for their address, and for no other. -/
theorem lastSent?_publish (world : World) (now : Time) (uri other : String)
    (version : Option Int) (diagnostics : List Editor.Diagnostic)
    : (world.publish now uri version diagnostics).lastSent? other
      = if uri = other then some (version, diagnostics) else world.lastSent? other := by
  simp only [lastSent?, publish, note, List.filterMap_append, List.filterMap_cons,
    List.filterMap_nil, Event.sentTo?]
  split <;> simp_all

/-- What is found under an address is filed under the decoded address. -/
theorem document?_eq_some_iff {uri : String} {id : Nat} {document : Document}
    : world.document? uri = some (id, document)
      ↔ ∃ workspace,
          world.workspace = some workspace
          ∧ workspace.entries.get? (Uri.decode uri) = some id
          ∧ world.documents[id]? = some document := by
  cases given : world.workspace with
  | none => simp [World.document?, given]
  | some workspace =>
      simp only [World.document?, given, Option.bind_eq_bind, Option.bind_some, Workspace.get?,
        Option.bind_eq_some_iff, Option.some.injEq, exists_eq_left']
      constructor
      · intro given
        obtain ⟨place, filed, other, found, same⟩ := given
        cases same
        exact ⟨filed, found⟩
      · intro given
        obtain ⟨filed, found⟩ := given
        exact ⟨id, filed, document, found, rfl⟩

-----------------------------------------------------------------------------------------
-- What no turn touches
-----------------------------------------------------------------------------------------

/-- Nothing touches what stays as it is. -/
theorem Untouched.refl (world : World) : Untouched world world :=
  ⟨rfl, rfl, rfl, rfl, rfl, rfl⟩

/-- What is left alone twice is left alone. -/
theorem Untouched.trans (first : Untouched before middle) (second : Untouched middle after)
    : Untouched before after where
  workspace := second.workspace.trans first.workspace
  documents := second.documents.trans first.documents
  disk := second.disk.trans first.disk
  delay := second.delay.trans first.delay
  base := second.base.trans first.base
  tool := second.tool.trans first.tool

/-- The same documents are found. -/
theorem Untouched.document? (same : Untouched before after) (uri : String)
    : after.document? uri = before.document? uri := by
  simp only [World.document?, same.workspace, same.documents]

/-- A tool is given the same of a document. -/
theorem Untouched.snapshot? (same : Untouched before after) (document : Document)
    : after.snapshot? document = before.snapshot? document := by
  simp only [World.snapshot?, same.workspace, same.disk]

/-- New settings are over the base settings, and the adapter is built from them. -/
theorem applySettings_obj (world : World) (now : Time) (entries : Table Json)
    : Noted
        { world with
          provider := (Provider.ofSettings (Settings.ofPayload world.base (.obj entries)).1).2 }
        (world.applySettings now (.obj entries)).1
      ∧ (world.applySettings now (.obj entries)).2 = true := by
  refine ⟨?_, rfl⟩
  obtain ⟨warnings, warned, aside⟩ := noted_foldl_log Settings.Refused.record now
    (Settings.ofPayload world.base (.obj entries)).2 world
  simp only [applySettings, warned]
  refine (?_ : Noted _ _).trans ((noted_log _ now _).trans (noted_log _ now _))
  exact ⟨warnings, rfl, aside⟩

/-- A payload that is no object changes no settings. -/
theorem applySettings_other (world : World) (now : Time) {payload : Json}
    (other : ∀ entries, payload ≠ .obj entries)
    : Noted world (world.applySettings now payload).1
      ∧ (world.applySettings now payload).2 = false := by
  cases payload with
  | obj entries => exact (other entries rfl).elim
  | _ => exact ⟨noted_log world now _, rfl⟩

end World

end EditorLint.Session
