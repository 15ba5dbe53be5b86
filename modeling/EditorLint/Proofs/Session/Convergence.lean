import EditorLint.Proofs.Editor.Diagnostic
import EditorLint.Proofs.Session.Pace
import EditorLint.Proofs.Session.Publication
import Mathlib.Data.List.Induction

/-! What an editor is shown once it has been quiet for the time of a whole lint. That depends on
the documents that it has open then and on the settings in force then, and on nothing that has
been before.
-/

namespace EditorLint.Session

open Debounce

/-- What a lint of a document finds with some settings in force. -/
def Document.lint (document : Document) (disk : Disk) (rootUri : Option String)
    (tool : Tool.Behaviour) (settings : Settings) : Except Failure (List Message) :=
  (Provider.adapterOf settings).result tool
    ⟨document.text, document.path,
      some ((Workspace.fresh rootUri).directoryFor disk.directories document.path)⟩

/-- What the editor shows for an address: the diagnostics that it has been sent last. -/
def World.shown (world : World) (uri : String) : List Editor.Diagnostic :=
  (world.lastSent? uri).elim [] (·.2)

/-- A session in which an orderly editor keeps to one tool, and which ends with a pause that
leaves the time of a whole lint.
-/
structure Visit (disk : Disk) (rootUri : Option String) (tool : Tool.Behaviour) where
  delay : Time
  settings : Settings
  options : Option Json
  inputs : List Input
  /-- The pause at the end, in one or several parts. -/
  pauses : List Time
  /-- How long the tool works at most. -/
  work : Time
  quick : tool.WorksWithin work
  orderly : Client.Always Client.Orderly inputs
  kept : ∀ other, .tool other ∉ inputs
  long : delay + work ≤ total id pauses

namespace Visit

variable {disk : Disk} {rootUri : Option String} {tool : Tool.Behaviour}

/-- The server after some inputs that follow its initialization. -/
def serverAfter (visit : Visit disk rootUri tool) (inputs : List Input) : Server :=
  (Server.start disk visit.delay visit.settings tool).session
    (.initialized rootUri visit.options :: inputs)

/-- The server at the end. -/
def server (visit : Visit disk rootUri tool) : Server :=
  visit.serverAfter (visit.inputs ++ visit.pauses.map .advance)

/-- What the editor knows at the end. -/
def client (visit : Visit disk rootUri tool) : Client :=
  Client.after visit.inputs

/-- What a lint of a document finds with the settings in force at the end. -/
def lint (visit : Visit disk rootUri tool) (document : Document) :
    Except Failure (List Message) :=
  document.lint disk rootUri tool visit.server.world.provider.settings

/-- The editor is shown in the end what it ought to be shown. -/
structure Settles (visit : Visit disk rootUri tool) (uri : String) : Prop where
  linted
    : ∀ document ∈ visit.client.documents, ∀ messages,
        document.uri = uri
        → isPython document.language document.path = true
        → visit.lint document = .ok messages
        → (∀ message ∈ messages, message.Displayable)
        → ∃ diagnostics,
            Editor.Diagnostic.ofMessages messages = .ok diagnostics
            ∧ visit.server.world.lastSent? uri = some (document.version, diagnostics)
  closed : uri ∈ visit.client.closed → visit.server.world.lastSent? uri = some (none, [])
  /-- Since a document that is no Python document was opened, none has been shown for it. -/
  unlinted
    : ∀ early language version text late,
        visit.inputs = early ++ .opened uri language version text :: late
        → .closed uri ∉ late
        → isPython language (Uri.toPath uri) = false
        → ∀ instant sent diagnostics,
            ⟨instant, .publish uri sent diagnostics⟩
              ∈ visit.server.world.history.drop (visit.serverAfter early).world.history.length
            → diagnostics = []

/-- Two sessions end alike for an address: with the same documents open, the same settings in
force and a lint that can be shown.
-/
structure EndsAlike (visit other : Visit disk rootUri tool) (uri : String) : Prop where
  documents : ∀ document, document ∈ visit.client.documents ↔ document ∈ other.client.documents
  settings : visit.server.world.provider.settings = other.server.world.provider.settings
  displayable
    : ∀ document ∈ visit.client.documents,
        document.uri = uri
        → isPython document.language document.path = true
        → ∃ messages,
            visit.lint document = .ok messages ∧ ∀ message ∈ messages, message.Displayable

end Visit

variable {disk : Disk} {delay : Time} {settings : Settings} {tool : Tool.Behaviour}
  {rootUri : Option String} {options : Option Json} {uri : String} {gate : Server → Prop}
  {first middle server : Server} {inputs early late : List Input} {version : Option Int}
  {diagnostics : List Editor.Diagnostic}

-----------------------------------------------------------------------------------------
-- The language of an open document
-----------------------------------------------------------------------------------------

/-- An address under which a document of some language is open. -/
structure Client.HasLanguage (client : Client) (uri : String) (language : Option String) :
    Prop where
  opened : client.HasOpen uri
  language
    : ∀ document ∈ client.documents, document.uri = uri → document.language = language

/-- An open document keeps its language until it is closed. -/
theorem Client.HasLanguage.send {client : Client} {language : Option String} {input : Input}
    (has : client.HasLanguage uri language) (orderly : client.Orderly input)
    (stays : input ≠ .closed uri)
    : (client.send input).HasLanguage uri language := by
  by_cases elsewhere : input.about? = some uri
  · cases input with
    | opened other _ _ _ =>
        obtain rfl := Option.some.inj elsewhere
        obtain ⟨document, member, same⟩ := has.opened
        exact (orderly document member (congrArg Uri.decode same)).elim
    | changed other version texts =>
        obtain rfl := Option.some.inj elsewhere
        refine ⟨?_, ?_⟩
        · obtain ⟨document, member, rfl⟩ := has.opened
          refine ⟨_, List.mem_map_of_mem member, ?_⟩
          rw [if_pos rfl, Document.uri_withTexts]
        · intro document member own
          obtain ⟨old, there, rfl⟩ := List.mem_map.mp member
          by_cases changed : old.uri = other
          · rw [if_pos changed, Document.language_withTexts]
            exact has.language old there changed
          · rw [if_neg changed] at own
            exact (changed own).elim
    | saved => exact has
    | closed other => exact (stays (congrArg Input.closed (Option.some.inj elsewhere))).elim
    | initialized | configured | codeAction | tool | advance => cases elsewhere
  · refine ⟨(client.hasOpen_send_iff elsewhere).mpr has.opened, ?_⟩
    intro document member own
    subst own
    exact has.language document ((client.mem_send_iff elsewhere).mp member) rfl

/-- A document that has been opened and not closed has its language still, by induction over
what has been sent since.
-/
theorem Client.hasLanguage_since {language : Option String} {text : String}
    (orderly : Client.Always Client.Orderly (early ++ .opened uri language version text :: late))
    (stays : .closed uri ∉ late)
    : (Client.after (early ++ .opened uri language version text :: late)).HasLanguage uri
        language := by
  induction late using List.reverseRecOn with
  | nil =>
      rw [after_concat]
      refine ⟨⟨_, List.mem_append_right _ List.mem_cons_self, rfl⟩, ?_⟩
      intro document member own
      rcases List.mem_append.mp member with old | new
      · exact (orderly.of_concat.2 document old (congrArg Uri.decode own)).elim
      · obtain rfl := List.mem_singleton.mp new
        rfl
  | append_singleton late input ih =>
      have split : early ++ .opened uri language version text :: (late ++ [input])
          = (early ++ .opened uri language version text :: late) ++ [input] := by simp
      rw [split] at orderly ⊢
      rw [after_concat]
      have before := ih orderly.of_concat.1 fun member => stays (List.mem_append_left _ member)
      apply before.send orderly.of_concat.2
      intro same
      subst same
      exact stays (by simp)

-----------------------------------------------------------------------------------------
-- In the course of a run
-----------------------------------------------------------------------------------------

/-- What a tool is given of a document depends on the document alone, once a server is
initialized.
-/
theorem Run.snapshot?
    (run
      : Run gate (Server.initialized disk delay settings tool rootUri options) inputs server)
    (orderly : Client.Always Client.Orderly inputs) (document : Document)
    : server.world.snapshot? document
      = some ⟨document.text, document.path,
          some ((Workspace.fresh rootUri).directoryFor disk.directories document.path)⟩ := by
  have keeps
      : host.Keeps (fun _ => True) fun world =>
          world.snapshot? document
          = some ⟨document.text, document.path,
              some ((Workspace.fresh rootUri).directoryFor disk.directories document.path)⟩ :=
    host_keeps_of_untouched fun same held => (same.snapshot? document).trans held
  apply run.keeps keeps
  · intro server input member held
    exact ((server.alike_receive (orderly.not_initialized member)).snapshot document).trans held
  · exact (Server.untouched_setUp 0 rootUri options _).snapshot? document

/-- A lint of a document as it is, whose tool has been started in the course of a run, has found
what the settings in force have it find.
-/
theorem Run.result_of_current
    (run
      : Run gate (Server.initialized disk delay settings tool rootUri options) inputs server)
    (orderly : Client.Always Client.Orderly inputs) (kept : ∀ other, .tool other ∉ inputs)
    {lint : LintRun} {document : Document} (current : lint.Current server.world document)
    (launched
      : lint.Launched gate (Server.initialized disk delay settings tool rootUri options)
          inputs server)
    : lint.result = document.lint disk rootUri tool server.world.provider.settings := by
  obtain ⟨past, since, now, ⟨⟨earlier, rfl, come⟩, _⟩, started, _⟩ := launched
  have used : lint.tool = tool := by
    refine started.symm.trans (come.same_tool orderly.of_append ?_).2
    exact fun other member => kept other (List.mem_append_left _ member)
  have given : some lint.snapshot = _ :=
    current.snapshot.symm.trans (run.snapshot? orderly document)
  rw [LintRun.result, used, Option.some.inj given, current.adapter, run.adapter orderly]
  rfl

/-- While no Python document is open under an address, no diagnostics are sent for it, by
induction over the run.
-/
theorem Run.sends_none
    (before
      : Run Settled (Server.initialized disk delay settings tool rootUri options) early
          middle)
    (later : Run Settled middle late server)
    (orderly : Client.Always Client.Orderly (early ++ late))
    (plain : Client.Always (Client.PlainAt uri) (early ++ late))
    (other
      : ∀ past since,
          late = past ++ since
          → ∀ document ∈ (Client.after (early ++ past)).documents,
            document.uri = uri → isPython document.language document.path = false)
    {instant : Time}
    (sent
      : ⟨instant, .publish uri version diagnostics⟩
        ∈ server.world.history.drop middle.world.history.length)
    : diagnostics = [] := by
  induction later with
  | start => simp at sent
  | @receive late server later settled input ih =>
      obtain ⟨_, _, taken, ⟨_, entries, grown, aside⟩, _⟩ := server.takes_receive input
      rw [taken] at sent
      dsimp only at sent
      rw [grown, List.drop_append_of_le_length later.history_grows.length_le] at sent
      rcases List.mem_append.mp sent with old | new
      · rw [← List.append_assoc] at orderly plain
        refine ih orderly.of_concat.1 plain.of_concat.1 (fun past since split => ?_) old
        exact other past (since ++ [input]) (by simp [split])
      · cases aside _ new
  | @turn late server after later limit stepped ih =>
      have went : Run Settled server [] after := Run.start.turn stepped
      obtain ⟨entries, grown⟩ := went.history_grows
      rw [← grown, List.drop_append_of_le_length later.history_grows.length_le] at sent
      rcases List.mem_append.mp sent with old | new
      · exact ih orderly plain other old
      · have fresh
            : ⟨instant, .publish uri version diagnostics⟩
              ∈ after.world.history.drop server.world.history.length := by
          rw [← grown, List.drop_left]
          exact new
        obtain ⟨⟨turn, agenda⟩, next, rfl⟩ := Option.map_eq_some_iff.mp stepped
        have justified := sent_step? (before.trans later) orderly plain next fresh
        cases turn with
        | handler | locked | cleared => exact justified.2
        | task id =>
            obtain ⟨document, member, own, _, lint, _, current, _⟩ := justified
            have python := other late [] (List.append_nil late).symm document member own
            cases python.symm.trans current.python
  | pass later quiet ih => exact ih orderly plain other sent

-----------------------------------------------------------------------------------------
-- In the end
-----------------------------------------------------------------------------------------

namespace Visit

variable {visit other : Visit disk rootUri tool}

/-- A session after some of what is sent is a run that has settled. -/
theorem run_serverAfter (visit : Visit disk rootUri tool) (inputs : List Input)
    : Run Settled
        (Server.initialized disk visit.delay visit.settings tool rootUri visit.options)
        inputs (visit.serverAfter inputs)
      ∧ Settled (visit.serverAfter inputs) := by
  have sound :=
    Server.sound_initialized disk visit.delay visit.settings tool rootUri visit.options
  exact Run.start.session sound rfl inputs

/-- In the end nothing is left to be done for an address. -/
theorem done (visit : Visit disk rootUri tool)
    (plain : Client.Always (Client.PlainAt uri) visit.inputs)
    : ∃ launched : LintRun → Prop,
        (∀ lint document,
          launched lint
          → lint.Current visit.server.world document
          → lint.result = visit.lint document)
        ∧ (duty launched uri visit.client).holds visit.server.world
        ∧ (duty launched uri visit.client).done visit.server.world uri := by
  obtain ⟨run, settled⟩ := visit.run_serverAfter visit.inputs
  have ended := run.done_of_pause settled visit.orderly plain visit.kept visit.quick visit.long
  have same : (visit.serverAfter visit.inputs).session (visit.pauses.map .advance)
      = visit.server := by
    simp [server, serverAfter, Server.session]
  rw [same] at ended
  refine ⟨_, fun lint document launched current => ?_, ended⟩
  refine (visit.run_serverAfter _).1.result_of_current ?_ ?_ current launched
  · exact (visit.orderly.pauses (fun _ _ => trivial) visit.pauses).1
  · simpa using visit.kept

/-- An open Python document is shown as its last lint has found it. -/
theorem lastSent_of_open (visit : Visit disk rootUri tool)
    (plain : Client.Always (Client.PlainAt uri) visit.inputs) {document : Document}
    {messages : List Message} (member : document ∈ visit.client.documents)
    (own : document.uri = uri) (python : isPython document.language document.path = true)
    (found : visit.lint document = .ok messages)
    (displayable : ∀ message ∈ messages, message.Displayable)
    : ∃ diagnostics,
        Editor.Diagnostic.ofMessages messages = .ok diagnostics
        ∧ visit.server.world.lastSent? uri = some (document.version, diagnostics) := by
  obtain ⟨launched, results, _, done⟩ := visit.done plain
  obtain ⟨diagnostics, ready⟩ := Editor.exists_ofMessages_iff.mpr displayable
  refine ⟨diagnostics, ready, ?_⟩
  rcases (done rfl).1 document member own with other | ⟨lint, current, started, shown⟩
  · cases other.symm.trans python
  · have result : lint.result = .ok messages := (results lint document started current).trans found
    rw [← own]
    exact shown messages diagnostics result ready

/-- Nothing is shown for an address under which no Python document is open. -/
theorem shown_eq_nil (visit : Visit disk rootUri tool)
    (plain : Client.Always (Client.PlainAt uri) visit.inputs)
    (other
      : ∀ document ∈ visit.client.documents,
          document.uri = uri → isPython document.language document.path = false)
    : visit.server.world.shown uri = [] := by
  obtain ⟨_, _, ⟨_, unlinted⟩, done⟩ := visit.done plain
  unfold World.shown
  cases sent : visit.server.world.lastSent? uri with
  | none => rfl
  | some last =>
      by_cases isOpen : visit.client.HasOpen uri
      · obtain ⟨document, member, own⟩ := isOpen
        exact unlinted document member own (other document member own) last (own ▸ sent)
      · obtain ⟨gone, never, _⟩ := (done rfl).2 isOpen
        by_cases closed : uri ∈ visit.client.closed
        · obtain rfl := Option.some.inj (sent.symm.trans (gone closed))
          rfl
        · cases sent.symm.trans (never closed)

/-- No diagnostics have been sent for a document that is no Python document since it was opened. -/
theorem unlinted_since (visit : Visit disk rootUri tool)
    (plain : Client.Always (Client.PlainAt uri) visit.inputs) {language : Option String}
    {text : String} (split : visit.inputs = early ++ .opened uri language version text :: late)
    (stays : .closed uri ∉ late) (python : isPython language (Uri.toPath uri) = false)
    {instant : Time} {sent : Option Int}
    (published
      : ⟨instant, .publish uri sent diagnostics⟩
        ∈ visit.server.world.history.drop (visit.serverAfter early).world.history.length)
    : diagnostics = [] := by
  obtain ⟨come, settled⟩ := visit.run_serverAfter early
  have sound : (visit.serverAfter early).Sound :=
    come.sound (Server.sound_initialized ..)
  let rest := .opened uri language version text :: late ++ visit.pauses.map .advance
  have whole : visit.inputs ++ visit.pauses.map .advance = early ++ rest := by
    simp [rest, split]
  have same : (visit.serverAfter early).session rest = visit.server := by
    simp only [server, whole]
    simp [serverAfter, Server.session]
  have later := (Run.start.session sound settled rest).1
  rw [List.nil_append, same] at later
  have orderly := (visit.orderly.pauses (fun _ _ => trivial) visit.pauses).1
  have clear := (plain.pauses (fun _ _ => trivial) visit.pauses).1
  rw [whole] at orderly clear
  refine come.sends_none later orderly clear (fun past since parts document member own => ?_)
    published
  cases past with
  | nil =>
      rw [List.append_nil] at member
      exact (orderly early _ _ rfl document member (congrArg Uri.decode own)).elim
  | cons first past =>
      simp only [rest, List.cons_append, List.cons.injEq] at parts
      obtain ⟨rfl, tail⟩ := parts
      have silent : .closed uri ∉ past := by
        intro member
        have there : .closed uri ∈ late ++ visit.pauses.map .advance :=
          tail ▸ List.mem_append_left since member
        simp [stays] at there
      have sends
          : early ++ rest = (early ++ .opened uri language version text :: past) ++ since := by
        simp [rest, tail]
      rw [sends] at orderly
      have same := (Client.hasLanguage_since orderly.of_append silent).language document member own
      rw [same, Document.path, own]
      exact python

/-- After a pause in which a whole lint has the time that it needs, an orderly editor is shown
each open Python document as a lint of its final text with the final settings finds it, and each
closed document without diagnostics. It has been shown none for any other document that is open.
So two sessions that end alike end with the same diagnostics, whatever has been sent in them, as
long as nothing is to be decoded in the address when settings arrive.
-/
theorem settles (visit : Visit disk rootUri tool)
    (plain : Client.Always (Client.PlainAt uri) visit.inputs)
    : visit.Settles uri
      ∧ ∀ other : Visit disk rootUri tool,
          Client.Always (Client.PlainAt uri) other.inputs
          → visit.EndsAlike other uri
          → other.server.world.shown uri = visit.server.world.shown uri := by
  refine ⟨?_, fun other plainToo alike => ?_⟩
  · exact {
      linted := fun document member messages => visit.lastSent_of_open plain member
      closed := by
        intro gone
        obtain ⟨_, _, ⟨shows, _⟩, done⟩ := visit.done plain
        exact ((done rfl).2 (shows.closed uri gone)).1 gone
      unlinted := by
        intro early language version text late split stays python instant sent diagnostics
        exact visit.unlinted_since plain split stays python
    }
  · by_cases lints : ∃ document ∈ visit.client.documents,
        document.uri = uri ∧ isPython document.language document.path = true
    · obtain ⟨document, member, own, python⟩ := lints
      obtain ⟨messages, found, displayable⟩ := alike.displayable document member own python
      have foundToo : other.lint document = .ok messages := by
        rw [lint, ← alike.settings]
        exact found
      obtain ⟨diagnostics, ready, sent⟩ :=
        visit.lastSent_of_open plain member own python found displayable
      obtain ⟨images, readyToo, sentToo⟩ := other.lastSent_of_open plainToo
        ((alike.documents document).mp member) own python foundToo displayable
      obtain rfl := Except.ok.inj (ready.symm.trans readyToo)
      simp [World.shown, sent, sentToo]
    · have none (document : Document) (member : document ∈ visit.client.documents)
          (own : document.uri = uri)
          : isPython document.language document.path = false := by
        rw [← Bool.not_eq_true]
        exact fun python => lints ⟨document, member, own, python⟩
      have noneToo (document : Document) (member : document ∈ other.client.documents) :=
        none document ((alike.documents document).mpr member)
      rw [visit.shown_eq_nil plain none, other.shown_eq_nil plainToo noneToo]

/-- A document in which nothing is found is opened as it is in the end. -/
def opening : Visit {} none ({} : Tool.Script) where
  delay := 300000000
  settings := {}
  options := none
  inputs := [.opened "a.py" (some "python") (some 2) "a"]
  pauses := [300000000]
  work := 0
  quick _ _ _ _ := nofun
  orderly := Client.always_nil.concat fun _ => nofun
  kept := by simp
  long := by decide

/-- The same document is opened with another text, and changed before it has been linted. -/
def changing : Visit {} none ({} : Tool.Script) where
  delay := 300000000
  settings := {}
  options := none
  inputs := [.opened "a.py" (some "python") (some 1) "b", .changed "a.py" (some 2) ["a"]]
  pauses := [100000000, 200000000]
  work := 0
  quick _ _ _ _ := nofun
  orderly :=
    (Client.always_nil.concat fun _ => nofun).concat ⟨_, List.mem_singleton_self _, rfl⟩
  kept := by simp
  long := by decide

/-- Both sessions settle, and end alike. -/
theorem changing_settles
    : changing.Settles "a.py"
      ∧ changing.server.world.lastSent? "a.py" = some (some 2, [])
      ∧ opening.server.world.shown "a.py" = changing.server.world.shown "a.py" := by
  have plain : Client.Always (Client.PlainAt "a.py") changing.inputs :=
    (Client.always_nil.concat trivial).concat trivial
  have plainToo : Client.Always (Client.PlainAt "a.py") opening.inputs :=
    Client.always_nil.concat trivial
  have documents : changing.client.documents = [⟨"a.py", some "python", some 2, "a"⟩] := by decide
  have documentsToo : opening.client.documents = changing.client.documents := by decide
  have found : changing.lint ⟨"a.py", some "python", some 2, "a"⟩ = .ok [] := by decide +kernel
  have member : ⟨"a.py", some "python", some 2, "a"⟩ ∈ changing.client.documents := by
    simp [documents]
  obtain ⟨settles, same⟩ := changing.settles plain
  refine ⟨settles, ?_, same opening plainToo ?_⟩
  · obtain ⟨diagnostics, ready, sent⟩ :=
      settles.linted _ member [] rfl (by decide +kernel) found fun _ => nofun
    cases ready
    exact sent
  · exact {
      documents := fun document => by rw [documentsToo]
      settings := by decide +kernel
      displayable := by
        intro document here _ _
        rw [documents] at here
        obtain rfl := List.mem_singleton.mp here
        exact ⟨[], found, fun _ => nofun⟩
    }

end Visit

end EditorLint.Session
