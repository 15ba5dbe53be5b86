import EditorLint.Proofs.Editor.CodeAction
import EditorLint.Proofs.Session.Provenance

/-! What the action for all fixes of a document offers. It is made from what the latest lint of
the document has found, whose tool was handed the document as it was when that lint began. The
check of versions at the end of the lint sees to it that this was the document's text still. While
the document has changed after that and is not yet linted anew, it is not.
-/

namespace EditorLint.Session

/-- The actions that an event gives. -/
def Event.given : Event → List Editor.CodeAction
  | .actions offered => offered
  | _ => []

/-- The text that a tool is handed by an event, if it is. -/
def Event.handed? : Event → Option String
  | .tool (.input text) => some text
  | _ => none

/-- The actions with which a server answers a request for code actions. -/
def Server.offers (server : Server) (uri : String) (only : List String)
    (diagnostics : List Editor.Diagnostic) : List Editor.CodeAction :=
  let answered := server.receive (.codeAction uri only diagnostics)
  (answered.world.history.drop server.world.history.length).flatMap (·.event.given)

variable {inputs : List Input} {server : Server}

/-- What is offered is what is made from the diagnostics and from the messages that the server
remembers, and nothing where that fails.
-/
theorem Server.offers_eq (server : Server) (uri : String) (only : List String)
    (diagnostics : List Editor.Diagnostic)
    : server.offers uri only diagnostics
      = (Editor.codeActions diagnostics only
          ((server.world.published.get? uri).getD [])).toOption.getD [] := by
  change ((Server.answer server.now uri only diagnostics server.world).history.drop
    server.world.history.length).flatMap (·.event.given) = _
  unfold Server.answer
  cases made
      : Editor.codeActions diagnostics only ((server.world.published.get? uri).getD []) with
  | ok actions => simp [made, Handler.shield, World.note, Event.given, Except.toOption]
  | error failure =>
      simp only [made, Handler.shield]
      cases failure.isOrdinary <;> simp [World.log, World.note, Event.given, Except.toOption]

/-- What is offered is made from the messages that the server remembers. -/
theorem codeActions_of_offers {uri : String} {only : List String}
    {diagnostics : List Editor.Diagnostic} {action : Editor.CodeAction}
    (offered : action ∈ server.offers uri only diagnostics)
    : ∃ actions,
        Editor.codeActions diagnostics only ((server.world.published.get? uri).getD [])
          = .ok actions
        ∧ action ∈ actions := by
  rw [Server.offers_eq] at offered
  cases made
      : Editor.codeActions diagnostics only ((server.world.published.get? uri).getD []) with
  | ok actions => exact ⟨actions, rfl, by simpa [made, Except.toOption] using offered⟩
  | error failure => simp [made, Except.toOption] at offered

/-- A version that the check of a lint does not tell from the one that was asked for. -/
def LintJob.Takes (job : LintJob) (version : Option Int) : Prop :=
  job.version = none ∨ version = job.version

theorem LintJob.isStale_eq_false_iff {job : LintJob} {world : World} {subject : Subject}
    : job.isStale world subject = false ↔ job.Takes (versionOf world subject) := by
  simp [isStale, Takes, or_iff_not_imp_left, Option.isSome_iff_ne_none]

/-- A result that was remembered is about the text that the document has now. It was so when the
lint began, and again at its end, since a text that had been put in its place by then would have
come with a version that the check does not take.
-/
theorem LintRun.Published.holdsAt {gate : Server → Prop} {first : Server} {lint : LintRun}
    {messages : List Message} {between later : List Input}
    (published : lint.Published messages gate first inputs server between later)
    (filed : first.world.Filed)
    (seen : ∀ input ∈ between, ¬ input.Rewrites lint.job.uri lint.job.Takes)
    (kept : ∀ input ∈ later, ¬ input.Rewrites lint.job.uri fun _ => True)
    : server.world.HoldsAt lint.job.uri fun _ document => document.text = lint.snapshot.text := by
  obtain @⟨_, past, _, _, _, _, _, begun, _, delivers, stepped, _, goesOn⟩ := published
  obtain ⟨origin, ⟨⟨_, _, come⟩, meanwhile⟩, begins, _⟩ := begun
  -- Until the lint ends: its text, or a version that will not pass.
  have before
      : past.world.HoldsAt lint.job.uri fun id document =>
          lint.subject = .opened id
          ∧ (document.text = lint.snapshot.text ∨ ¬ lint.job.Takes document.version) := by
    refine meanwhile.holdsAt (come.filed filed) ?_ seen fun id document found => ?_
    · intro id document version texts new other given
      refine ⟨given.1, Or.inr ?_⟩
      rw [Document.version_withTexts version new]
      exact other
    · have same := lint.job.source_open origin.world found
      have text := begins.text
      rw [same] at text
      exact ⟨by rw [← begins.about, same], Or.inl (Except.ok.inj text)⟩
  have filed : past.world.Filed := meanwhile.filed (come.filed filed)
  refine ((Run.start.turn stepped).trans goesOn).holdsAt filed ?_ kept fun id document found => ?_
  · exact fun _ _ _ other => (other trivial).elim
  · obtain ⟨own, same | stale⟩ := before id document found
    · exact same
    · obtain ⟨_, _, _, placed⟩ := World.document?_eq_some_iff.mp found
      have takes := LintJob.isStale_eq_false_iff.mp delivers.fresh
      rw [own, LintJob.versionOf, placed] at takes
      exact (stale takes).elim

/-- Where an edit of the action for all fixes comes from, however what arrives and what is done
are interleaved: it is the edit of the fix of a message that the latest lint of the document has
found. The tool of that lint was handed the document's text as it was when the lint began. This is
the text that the document has now, unless it has been rewritten since the result was remembered, or
had been rewritten before with the version that was asked for, of which the check sees nothing.
-/
theorem fixAll_of_latest_lint {disk : Disk} {delay : Time} {settings : Settings}
    {tool : Tool.Behaviour}
    (run : Run AtAnyTime (Server.start disk delay settings tool) inputs server)
    {uri : String} {only : List String} {diagnostics : List Editor.Diagnostic}
    {action : Editor.CodeAction} {file : String} {edits : List Editor.TextEdit}
    {edit : Editor.TextEdit}
    (offered : action ∈ server.offers uri only diagnostics)
    (all : action.kind = Editor.fixAllKind) (entry : (file, edits) ∈ action.edit)
    (part : edit ∈ edits)
    : ∃ (lint : LintRun) (between later : List Input) (messages : List Message),
        lint.Published messages AtAnyTime (Server.start disk delay settings tool) inputs server
          between later
        ∧ lint.Launched AtAnyTime (Server.start disk delay settings tool) inputs server
        ∧ lint.job.uri = uri
        ∧ lint.result = .ok messages
        ∧ server.world.published.get? uri = some messages
        ∧ (∃ message ∈ messages, ∃ fix, message.fix = some fix ∧ edit.IsOf file fix)
        ∧ (∃ instant, ⟨instant, .tool (.input lint.snapshot.text)⟩ ∈ server.world.history)
        ∧ ((∀ input ∈ between, ¬ input.Rewrites uri lint.job.Takes)
          → (∀ input ∈ later, ¬ input.Rewrites uri fun _ => True)
          → ∀ id document,
              server.world.document? uri = some (id, document)
              → document.text = lint.snapshot.text) := by
  obtain ⟨actions, made, member⟩ := codeActions_of_offers offered
  obtain ⟨message, found, fix, suggests, own⟩ :=
    Editor.exists_fix_of_fixAll made member all entry part
  cases known : server.world.published.get? uri with
  | none => simp [known] at found
  | some messages =>
      rw [known] at found
      obtain ⟨lint, between, later, published, launched, rfl, result⟩ :=
        (run.traced rfl rfl).published uri messages known
      have handed
          : ∃ instant, ⟨instant, .tool (.input lint.snapshot.text)⟩ ∈ server.world.history := by
        obtain ⟨_, _, instant, _, _, seen⟩ := launched
        refine ⟨instant, seen.subset (List.mem_append_right _ ?_)⟩
        refine List.mem_map.mpr ⟨_, Adapter.input_of_result instant result ?_, rfl⟩
        exact List.ne_nil_of_mem found
      exact ⟨lint, between, later, messages, published, launched, rfl, result, rfl,
        ⟨message, found, fix, suggests, own⟩, handed,
        published.holdsAt (filed_start disk delay settings tool)⟩

-- A change that keeps its version is not seen: while the document is linted under its decoded
-- address, its text is replaced, and the result of the old text is remembered after that.
example
    : let server := (Server.start {} 300000000 { ignorePatterns := [] }
          ({ work := some 100000000 } : Tool.Script)).session
        [.initialized none none, .opened "a%20b.py" (some "python") (some 1) "a",
          .configured (.obj []), .advance 300000000, .changed "a%20b.py" (some 1) ["b"],
          .advance 100000000]
      (server.world.document? "a b.py").map (·.2.text) = some "b"
        ∧ server.world.history.filterMap (·.event.handed?) = ["a", "a"]
        ∧ server.world.published.get? "a b.py" = some [] := by
  decide +kernel

-----------------------------------------------------------------------------------------
-- A document that has changed since its lint
-----------------------------------------------------------------------------------------

/-- A tool that reports one finding, and suggests a fix for it. -/
def fixingTool : Tool.Script :=
  { stdout := Text.Utf8.encode <|
      "[\x7b\"code\":\"E\",\"message\":\"\",\"location\":\x7b\"row\":1,\"column\":1\x7d,"
        ++ "\"end_location\":\x7b\"row\":1,\"column\":1\x7d,\"fix\":\x7b\"content\":\"\","
        ++ "\"location\":\x7b\"row\":1,\"column\":1\x7d,"
        ++ "\"end_location\":\x7b\"row\":1,\"column\":1\x7d\x7d\x7d]" }

/-- A document is opened, rests until it is linted, and is then changed. -/
def changedInputs : List Input :=
  [.initialized none none, .opened "a.py" (some "python") (some 1) "a", .advance 300000000,
    .changed "a.py" (some 2) ["b"]]

/-- A server whose document is linted and then changed, and not yet linted anew. -/
def changedServer : Server :=
  (Server.start {} 300000000 { ignorePatterns := [] } fixingTool).session changedInputs

/-- The action that applies the fix that the tool suggests. -/
def fixingAction : Editor.CodeAction :=
  { title := "lintbridge: fix all auto-fixable problems"
    kind := Editor.fixAllKind
    diagnostics := none
    edit := [("file:///a.py", [⟨⟨⟨.int 0, .int 1⟩, ⟨.int 0, .int 1⟩⟩, ""⟩])]
    isPreferred := none }

/-- What that server has and does. -/
theorem changedServer_offers
    : (changedServer.world.document? "a.py").map (·.2.text) = some "b"
      ∧ changedServer.world.history.filterMap (·.event.handed?) = ["a"]
      ∧ changedServer.offers "a.py" [Editor.fixAllKind] [] = [fixingAction] := by
  decide +kernel

/-- Right after a change, fixes are offered although the tool has never been handed the text
that the document has now.
-/
theorem fixAll_of_changed_document
    : ∃ id document,
        changedServer.world.document? "a.py" = some (id, document)
        ∧ (∀ entry ∈ changedServer.world.history, entry.event.handed? ≠ some document.text)
        ∧ ∃ action ∈ changedServer.offers "a.py" [Editor.fixAllKind] [],
            action.kind = Editor.fixAllKind ∧ ∃ entry ∈ action.edit, entry.2 ≠ [] := by
  obtain ⟨text, handed, offers⟩ := changedServer_offers
  obtain ⟨⟨id, document⟩, found, changed⟩ := Option.map_eq_some_iff.mp text
  refine ⟨id, document, found, ?_, fixingAction, by simp [offers], rfl, _,
    List.mem_cons_self, nofun⟩
  intro entry member same
  have old : document.text ∈ changedServer.world.history.filterMap (·.event.handed?) :=
    List.mem_filterMap.mpr ⟨entry, member, same⟩
  rw [handed, changed] at old
  exact absurd old (by decide)

/-- The fix that is offered then goes back to the lint of the text before the change. -/
theorem fixingAction_of_latest_lint
    : fixingAction ∈ changedServer.offers "a.py" [Editor.fixAllKind] []
      ∧ ∃ (lint : LintRun) (messages : List Message),
          lint.result = .ok messages
          ∧ changedServer.world.published.get? "a.py" = some messages
          ∧ ∃ instant,
              ⟨instant, .tool (.input lint.snapshot.text)⟩ ∈ changedServer.world.history := by
  have offered : fixingAction ∈ changedServer.offers "a.py" [Editor.fixAllKind] [] := by
    simp [changedServer_offers.2.2]
  have all : fixingAction.kind = Editor.fixAllKind := rfl
  have run
      : Run AtAnyTime (Server.start {} 300000000 { ignorePatterns := [] } fixingTool) changedInputs
          changedServer :=
    (run_session {} 300000000 { ignorePatterns := [] } fixingTool changedInputs).1.mono
      fun _ _ => True.intro
  obtain ⟨lint, _, _, messages, _, _, _, result, known, _, handed, _⟩ :=
    fixAll_of_latest_lint run offered all List.mem_cons_self List.mem_cons_self
  exact ⟨offered, lint, messages, result, known, handed⟩

end EditorLint.Session
