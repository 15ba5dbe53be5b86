import EditorLint.Proofs.Debounce.Duties.Turn
import EditorLint.Proofs.Session.Client
import EditorLint.Proofs.Session.Provenance

/-! What a server owes to the documents of an editor: an open document is linted as it is, with
the settings in force, and a closed one is shown without diagnostics. All steps of handlers and
all turns of lints keep that duty.
-/

namespace EditorLint.Session

open Debounce

/-- A lint of a document as it is, with the adapter in force. -/
structure LintRun.Current (lint : LintRun) (world : World) (document : Document) : Prop where
  job : lint.job = ⟨document.uri, document.version⟩
  subject
    : ∃ id, lint.subject = .opened id ∧ world.document? document.uri = some (id, document)
  python : isPython document.language document.path = true
  snapshot : world.snapshot? document = some lint.snapshot
  adapter : lint.adapter = world.provider.adapter

/-- A task in a stage lints a document as it is. -/
def World.Lints (launched : LintRun → Prop) (world : World) (document : Document) :
    Stage LintJob LintState → Prop
  | .created job _ | .delayed job => job = ⟨document.uri, document.version⟩
  | .running state =>
    ∃ lint : LintRun, lint.Current world document ∧ lint.Reaches (launched lint) state
  | .ended => False

/-- A document needs no lint, or has been linted as it is; what that has found is shown, if it
can be shown.
-/
def World.UpToDate (launched : LintRun → Prop) (world : World) (document : Document) : Prop :=
  isPython document.language document.path = false
  ∨ ∃ lint : LintRun,
      lint.Current world document
      ∧ launched lint
      ∧ ∀ messages diagnostics,
          lint.result = .ok messages
          → Editor.Diagnostic.ofMessages messages = .ok diagnostics
          → world.lastSent? document.uri = some (document.version, diagnostics)

/-- An open document that needs no lint is shown without diagnostics. -/
def World.Unlinted (watched : String) (world : World) (client : Client) : Prop :=
  ∀ document ∈ client.documents,
    document.uri = watched
    → isPython document.language document.path = false
    → ∀ last, world.lastSent? document.uri = some last → last.2 = []

/-- The document that a step is about. -/
def Step.uri : Step → String
  | .relint _ uri | .forget uri => uri

/-- The job of a lint that is not cancelled. -/
def LintState.job? : LintState → Option LintJob
  | .prepared job .. | .working job .. | .landed job .. | .arriving job .. => some job
  | .fallen | .leaving => none

/-- The job of a task in a stage is one for an address. -/
def IsFor (uri : String) : Stage LintJob LintState → Prop
  | .created job _ | .delayed job => job.uri = uri
  | .running state => ∀ job, state.job? = some job → job.uri = uri
  | .ended => True

/-- A document that is watched is to be linted when it is open, and to be forgotten when it is
closed. Of all others it is enough that their lints do nothing for the one that is watched.
-/
def duty (launched : LintRun → Prop) (watched : String) (client : Client) :
    Duty World LintJob LintState Step where
  holds world := world.Shows client ∧ world.Unlinted watched client
  calls
    | .relint _ uri => uri = watched → client.HasOpen uri
    | .forget uri => uri ∈ client.closed
  about := Step.uri
  asks world
    | .relint _ uri => .schedule uri ⟨uri, (world.document? uri).bind (·.2.version)⟩ world.delay
    | .forget uri => .cancel uri
  fits world uri stage :=
    IsFor uri stage
    ∧ (uri = watched
      → ∃ document ∈ client.documents,
          document.uri = uri ∧ world.Lints launched document stage)
  done world uri :=
    uri = watched
    → (∀ document ∈ client.documents, document.uri = uri → world.UpToDate launched document)
      ∧ (¬ client.HasOpen uri
        → (uri ∈ client.closed → world.lastSent? uri = some (none, []))
          ∧ (uri ∉ client.closed → world.lastSent? uri = none)
          ∧ world.published.get? uri = none)

variable {launched : LintRun → Prop} {watched : String} {client : Client}
  {world before after : World} {document : Document} {lint : LintRun}

-----------------------------------------------------------------------------------------
-- Where lints are made alike
-----------------------------------------------------------------------------------------

/-- A lint that is up to date is so wherever lints are made alike and the document is the same. -/
theorem LintRun.Current.alike (current : lint.Current before document)
    (alike : World.Alike before after)
    (same : after.document? document.uri = before.document? document.uri)
    : lint.Current after document where
  job := current.job
  subject := by
    rw [same]
    exact current.subject
  python := current.python
  snapshot := by
    rw [alike.snapshot]
    exact current.snapshot
  adapter := by
    rw [alike.provider]
    exact current.adapter

theorem World.Lints.alike {stage : Stage LintJob LintState}
    (lints : before.Lints launched document stage) (alike : World.Alike before after)
    (same : after.document? document.uri = before.document? document.uri)
    : after.Lints launched document stage := by
  cases stage with
  | created | delayed => exact lints
  | running state =>
      obtain ⟨lint, current, reaches⟩ := lints
      exact ⟨lint, current.alike alike same, reaches⟩
  | ended => exact lints

theorem World.UpToDate.alike (upToDate : before.UpToDate launched document)
    (alike : World.Alike before after)
    (same : after.document? document.uri = before.document? document.uri)
    (sent : after.lastSent? document.uri = before.lastSent? document.uri)
    : after.UpToDate launched document := by
  apply upToDate.imp_right
  intro given
  obtain ⟨lint, current, known, shown⟩ := given
  refine ⟨lint, current.alike alike same, known, ?_⟩
  rw [sent]
  exact shown

/-- A turn that changes neither documents nor settings changes nothing for the documents to
which it sends nothing.
-/
theorem frame_of_untouched {uri : String} (same : World.Untouched before after)
    (provider : after.provider = before.provider)
    (sent : ∀ other, other ≠ uri → after.lastSent? other = before.lastSent? other)
    (known : ∀ other, other ≠ uri → after.published.get? other = before.published.get? other)
    (unlinted
      : before.Shows client
        → before.Unlinted watched client
        → after.Unlinted watched client)
    : (duty launched watched client).Frame uri before after where
  holds held := ⟨held.1.untouched same, unlinted held.1 held.2⟩
  asks step := by
    cases step with
    | relint feature other => simp only [duty, same.document?, same.delay]
    | forget other => rfl
  fits := by
    intro other stage _ given
    obtain ⟨own, lints⟩ := given
    refine ⟨own, fun here => ?_⟩
    obtain ⟨document, member, at_other, lints⟩ := lints here
    exact ⟨document, member, at_other, lints.alike (same.alike provider) (same.document? _)⟩
  done := by
    intro other apart done here
    obtain ⟨linted, closed⟩ := done here
    refine ⟨?_, ?_⟩
    · intro document member own
      subst own
      exact (linted document member rfl).alike (same.alike provider) (same.document? _)
        (sent _ apart)
    · rw [sent other apart, known other apart]
      exact closed

/-- Entries that publish nothing change nothing for any document. -/
theorem frame_of_noted (noted : World.Noted before after) (uri : String)
    : (duty launched watched client).Frame uri before after := by
  refine frame_of_untouched noted.untouched noted.provider (fun other _ => noted.lastSent? other)
    (fun other _ => congrArg (·.get? other) noted.continues.published) ?_
  intro _ unlinted document member own other last sent
  rw [noted.lastSent?] at sent
  exact unlinted document member own other last sent

/-- What is done for a document stays done when nothing is published. -/
theorem done_of_noted {uri : String} (done : (duty launched watched client).done before uri)
    (noted : World.Noted before after)
    : (duty launched watched client).done after uri := by
  intro here
  obtain ⟨linted, closed⟩ := done here
  refine ⟨?_, ?_⟩
  · intro document member own
    subst own
    exact (linted document member rfl).alike noted.alike (noted.untouched.document? _)
      (noted.lastSent? _)
  · rw [noted.lastSent?, noted.continues.published]
    exact closed

-----------------------------------------------------------------------------------------
-- Steps of handlers
-----------------------------------------------------------------------------------------

/-- The steps of handlers do what is to be done: a document is linted in the version that it
has, and a closed one is shown without diagnostics.
-/
theorem duty_met (launched : LintRun → Prop) (watched : String) (client : Client)
    : (duty launched watched client).Met host where
  about world step := by cases step <;> rfl
  request := by
    intro world step now held _
    obtain ⟨workspace, given⟩ := held.1.initialized
    cases step with
    | relint feature uri => exact Step.request_relint now given
    | forget uri => rfl
  finish := by
    intro world step now held called
    cases step with
    | relint feature uri => exact .refl _ uri world
    | forget uri =>
        refine frame_of_untouched ⟨rfl, rfl, rfl, rfl, rfl, rfl⟩ rfl ?_ ?_ ?_
        · intro other apart
          exact (World.lastSent?_publish _ now uri other none []).trans (if_neg apart.symm)
        · intro other apart
          exact (Table.get?_erase world.published uri other).trans (if_neg apart)
        · intro shows unlinted document member own other last sent
          have apart : uri ≠ document.uri := fun same =>
            shows.closed uri called ⟨document, member, same.symm⟩
          have old := (World.lastSent?_publish { world with
            published := world.published.erase uri } now uri document.uri none []).trans
              (if_neg apart)
          exact unlinted document member own other last (old.symm.trans sent)
  schedule := by
    intro world step uri job delay now held called asked
    cases step with
    | forget uri => cases asked
    | relint feature uri =>
        cases asked
        refine ⟨rfl, fun here => ?_⟩
        obtain ⟨document, member, rfl⟩ := called here
        obtain ⟨id, found⟩ := held.1.found document member
        refine ⟨document, member, rfl, ?_⟩
        simp [World.Lints, found]
  cancel := by
    intro world step uri now held called asked
    cases step with
    | relint feature uri => cases asked
    | forget uri =>
        cases asked
        refine fun _ => ⟨?_, fun _ => ⟨fun _ => ?_, fun never => (never called).elim, ?_⟩⟩
        · intro document member own
          subst own
          exact (held.1.closed _ called ⟨document, member, rfl⟩).elim
        · exact (World.lastSent?_publish _ now uri uri none []).trans (if_pos rfl)
        · exact (Table.get?_erase world.published uri uri).trans (if_pos rfl)

-----------------------------------------------------------------------------------------
-- Turns of lints
-----------------------------------------------------------------------------------------

variable {now : Time} {uri : String} {serves : Prop}

/-- A turn of a job that publishes nothing changes nothing for any document. -/
theorem leads_of_noted {result : World × Outcome LintState} (noted : World.Noted world result.1)
    : (duty launched watched client).Leads host now uri world False result := by
  obtain ⟨later, outcome⟩ := result
  cases outcome with
  | wait | finished | cancelled => exact ⟨frame_of_noted noted uri, False.elim⟩
  | failed failure =>
      exact ⟨frame_of_noted (noted.trans (World.noted_log later now _)) uri, False.elim⟩

/-- What is up to date is done for the only document of an address. -/
theorem done_of_upToDate (shows : world.Shows client) (member : document ∈ client.documents)
    (upToDate : after.UpToDate launched document)
    : (duty launched watched client).done after document.uri := by
  refine fun _ => ⟨?_, fun closed => (closed ⟨document, member, rfl⟩).elim⟩
  intro other also same
  obtain rfl := shows.unique also member same
  exact upToDate

/-- A document is in the version that it has. -/
theorem isStale_eq_false {id : Nat} (found : world.document? document.uri = some (id, document))
    : LintJob.isStale ⟨document.uri, document.version⟩ world (.opened id) = false := by
  obtain ⟨_, _, _, placed⟩ := World.document?_eq_some_iff.mp found
  simp [LintJob.isStale, LintJob.versionOf, placed]

/-- A turn of a job for a document that is not watched only has to keep to its document. -/
theorem leads_elsewhere {result : World × Outcome LintState} (apart : uri ≠ watched)
    (frame
      : ∀ {after},
          World.Noted result.1 after → (duty launched watched client).Frame uri world after)
    (isFor : ∀ {duration state}, result.2 = .wait duration state → IsFor uri (.running state))
    : (duty launched watched client).Leads host now uri world True result := by
  obtain ⟨later, outcome⟩ := result
  cases outcome with
  | wait duration state =>
      exact ⟨frame (.refl later), fun _ => ⟨isFor rfl, fun here => (apart here).elim⟩⟩
  | finished | cancelled => exact ⟨frame (.refl later), fun _ here => (apart here).elim⟩
  | failed failure =>
      exact ⟨frame (World.noted_log later now _), fun _ here => (apart here).elim⟩

/-- A lint that is asked for in the version that the document has takes the document as it is. -/
theorem leads_start (held : (duty launched watched client).holds world) {job : LintJob}
    (fits : (duty launched watched client).fits world uri (.delayed job))
    : (duty launched watched client).Leads host now uri world True (job.start now world) := by
  obtain ⟨own, lints⟩ := fits
  by_cases here : uri = watched
  · obtain ⟨document, member, rfl, rfl⟩ := lints here
    obtain ⟨id, found⟩ := held.1.found document member
    rcases LintJob.start_open now ⟨document.uri, document.version⟩ world found with
      ⟨python, _, snapshot, drawn, begun⟩ | ⟨never, noted, ends⟩
    · rw [begun]
      refine ⟨.refl _ _ world, fun _ => ⟨?_, fun _ => ⟨document, member, rfl, ?_⟩⟩⟩
      · exact fun _ same => congrArg LintJob.uri (Option.some.inj same).symm
      · let lint : LintRun :=
          ⟨⟨document.uri, document.version⟩, .opened id, world.provider.adapter, snapshot,
            world.tool⟩
        have current : lint.Current world document :=
          ⟨rfl, ⟨id, rfl, found⟩, python, drawn, rfl⟩
        exact ⟨lint, current, rfl, rfl, rfl, rfl⟩
    · have other : isPython document.language document.path = false :=
        never.resolve_right (by simp [isStale_eq_false found])
      generalize LintJob.start now ⟨document.uri, document.version⟩ world = result
        at noted ends ⊢
      obtain ⟨later, outcome⟩ := result
      obtain rfl := ends
      exact ⟨frame_of_noted noted _, fun _ => done_of_upToDate held.1 member (Or.inl other)⟩
  · refine leads_elsewhere here (fun more => ?_) fun waits => ?_
    · exact frame_of_noted ((job.noted_start now world).trans more) uri
    · obtain ⟨_, _, rfl⟩ := LintJob.prepared_of_start waits
      exact fun _ same => Option.some.inj same ▸ own

/-- The publication of a lint's result changes nothing for other documents. -/
theorem frame_publish {job : LintJob} {subject : Subject} {messages : List Message}
    (python
      : ∀ document ∈ client.documents,
          document.uri = job.uri
          → job.uri = watched
          → isPython document.language document.path = true)
    {after : World} (more : World.Noted (job.publish now subject messages world).1 after)
    : (duty launched watched client).Frame job.uri world after := by
  have remembered : (duty launched watched client).Frame job.uri world
      (job.remember world messages) :=
    frame_of_untouched ⟨rfl, rfl, rfl, rfl, rfl, rfl⟩ rfl (fun _ _ => rfl)
      (fun other apart => (Table.get?_insert ..).trans (if_neg apart)) fun _ unlinted => unlinted
  rcases job.publish_cases now world subject messages with
    ⟨_, dropped, _⟩ | ⟨_, failure, _, refused⟩ | ⟨_, diagnostics, _, noted, _⟩
  · exact frame_of_noted (dropped.trans more) job.uri
  · rw [refused] at more
    exact remembered.trans (frame_of_noted more job.uri)
  · refine remembered.trans (.trans ?_ (frame_of_noted (noted.trans more) job.uri))
    have shown (other : String) := World.lastSent?_publish (job.remember world messages) now
      job.uri other job.version diagnostics
    refine frame_of_untouched ⟨rfl, rfl, rfl, rfl, rfl, rfl⟩ rfl ?_ (fun _ _ => rfl) ?_
    · intro other apart
      rw [shown, if_neg apart.symm]
    · intro _ unlinted document member own other last sent
      rw [shown] at sent
      split at sent
      next same =>
        cases (python document member same.symm (same.trans own)).symm.trans other
      next => exact unlinted document member own other last sent

/-- A lint of a document as it is that comes to its end has that document up to date. -/
theorem leads_publish (held : (duty launched watched client).holds world)
    (member : document ∈ client.documents) (current : lint.Current world document)
    (known : launched lint) {messages : List Message} (found : lint.result = .ok messages)
    : (duty launched watched client).Leads host now document.uri world True
        (lint.job.publish now lint.subject messages world) := by
  have own : lint.job.uri = document.uri := congrArg LintJob.uri current.job
  have frame {after : World}
      (more : World.Noted (lint.job.publish now lint.subject messages world).1 after)
      : (duty launched watched client).Frame document.uri world after := by
    rw [← own]
    refine frame_publish (fun other also same _ => ?_) more
    exact held.1.unique member also (own.symm.trans same.symm) ▸ current.python
  obtain ⟨id, subject, placed⟩ := current.subject
  have fresh : lint.job.isStale world lint.subject = false := by
    rw [current.job, subject]
    exact isStale_eq_false placed
  have sent {published : Table (List Message)} {history : List (Stamped Event)}
      (shown
        : ∀ diagnostics,
            Editor.Diagnostic.ofMessages messages = .ok diagnostics
            → ({ world with published, history } : World).lastSent? document.uri
              = some (document.version, diagnostics))
      : (duty launched watched client).done { world with published, history } document.uri := by
    refine done_of_upToDate held.1 member (Or.inr ⟨lint, ?_, known, ?_⟩)
    · exact current.alike ⟨rfl, rfl, fun _ => rfl⟩ rfl
    · intro others diagnostics same images
      obtain rfl := Except.ok.inj (found.symm.trans same)
      exact shown diagnostics images
  rcases lint.job.publish_cases now world lint.subject messages with
    ⟨stale, _⟩ | ⟨_, failure, failed, result⟩ | ⟨_, diagnostics, ready, noted, ends⟩
  · cases fresh.symm.trans stale
  · have logged := World.noted_log (lint.job.remember world messages) now
      (Log.failed (Log.plainName "lsp.debounce") "Debounced lint task failed" failure)
    rw [result] at frame ⊢
    refine ⟨frame logged, fun _ => done_of_noted (sent ?_) logged⟩
    intro diagnostics images
    cases failed.symm.trans images
  · generalize lint.job.publish now lint.subject messages world = result
      at noted ends frame ⊢
    obtain ⟨later, outcome⟩ := result
    obtain rfl := ends
    refine ⟨frame (.refl later), fun _ => done_of_noted (sent ?_) noted⟩
    intro others images
    obtain rfl := Except.ok.inj (ready.symm.trans images)
    refine (World.lastSent?_publish (lint.job.remember world messages) now lint.job.uri document.uri
      lint.job.version diagnostics).trans ?_
    rw [current.job, if_pos rfl]

/-- A lint that neither goes on nor has anything to publish has failed. -/
theorem LintRun.Reaches.failed {started : Prop} {state : LintState}
    (reaches : lint.Reaches started state)
    (nothing : ∀ job subject messages, state ≠ .arriving job subject (.ok messages))
    (ends : ∀ duration next, (state.resume now world).2 ≠ .wait duration next)
    : started ∧ ∃ failure, lint.result = .error failure := by
  cases state with
  | prepared job subject adapter snapshot =>
      unfold LintState.resume at ends
      dsimp only at ends
      split at ends <;> exact (ends _ _ rfl).elim
  | working | landed => exact (ends _ _ rfl).elim
  | arriving job subject outcome =>
      obtain ⟨_, _, known, result⟩ := reaches
      cases outcome with
      | ok messages => exact (nothing job subject messages rfl).elim
      | error failure => exact ⟨known, failure, result.symm⟩
  | fallen | leaving => exact reaches.elim

/-- A lint stays with its job. -/
theorem LintState.job?_resume {state next : LintState} {duration : Time}
    (waits : (state.resume now world).2 = .wait duration next)
    : next.job? = state.job? := by
  cases state with
  | prepared job subject adapter snapshot =>
      unfold resume at waits
      dsimp only at waits
      split at waits <;> cases waits <;> rfl
  | working | landed | fallen => cases waits; rfl
  | arriving job subject outcome =>
      cases outcome with
      | ok messages => exact (LintJob.publish_ends now job world subject messages waits).elim
      | error failure =>
          unfold resume at waits
          dsimp only at waits
          split at waits <;> cases waits
  | leaving => cases waits

/-- A lint of a document as it is goes on with the document as it is. The tool of a prepared
lint is started in this turn.
-/
theorem leads_resume (held : (duty launched watched client).holds world) {state : LintState}
    (fits : (duty launched watched client).fits world uri (.running state))
    (starts
      : ∀ lint : LintRun,
          lint.tool = world.tool
          → (state.resume now world).1.history = world.history ++ lint.startEvents now
          → launched lint)
    : (duty launched watched client).Leads host now uri world True (state.resume now world) := by
  obtain ⟨own, lints⟩ := fits
  have isFor {duration : Time} {next : LintState}
      (waits : (state.resume now world).2 = .wait duration next)
      : IsFor uri (.running next) := by
    intro job same
    exact own job ((LintState.job?_resume waits).symm.trans same)
  by_cases arrives : ∃ job subject messages, state = .arriving job subject (.ok messages)
  · obtain ⟨job, subject, messages, rfl⟩ := arrives
    obtain rfl := own job rfl
    by_cases here : job.uri = watched
    · obtain ⟨document, member, same, lint, current, rfl, rfl, known, result⟩ := lints here
      rw [← same]
      exact leads_publish held member current known result.symm
    · exact leads_elsewhere here
        (fun more => frame_publish (fun _ _ _ here' => (here here').elim) more) isFor
  · have nothing (job : LintJob) (subject : Subject) (messages : List Message)
        : state ≠ .arriving job subject (.ok messages) :=
      fun same => arrives ⟨job, subject, messages, same⟩
    have noted := state.noted_resume now world nothing
    by_cases here : uri = watched
    · obtain ⟨document, member, rfl, lint, current, reaches⟩ := lints here
      have done {after : World} (noted : World.Noted world after)
          (ends : ∀ duration next, (state.resume now world).2 ≠ .wait duration next)
          : (duty launched watched client).done after document.uri := by
        obtain ⟨known, failure, failed⟩ := reaches.failed nothing ends
        refine done_of_upToDate held.1 member (Or.inr ⟨lint, ?_, known, ?_⟩)
        · exact current.alike noted.alike (noted.untouched.document? _)
        · intro messages diagnostics found
          cases failed.symm.trans found
      generalize resumed : state.resume now world = result at noted starts done isFor ⊢
      obtain ⟨later, outcome⟩ := result
      have frame : (duty launched watched client).Frame document.uri world later :=
        frame_of_noted noted document.uri
      cases outcome with
      | wait duration next =>
          refine ⟨frame, fun _ => ⟨isFor rfl, fun _ => ⟨document, member, rfl, ?_⟩⟩⟩
          have still := current.alike noted.alike (noted.untouched.document? _)
          rcases reaches.resume resumed with went | ⟨_, seen, started⟩
          · exact ⟨lint, still, went⟩
          · refine ⟨{ lint with tool := world.tool }, ?_, started.mono fun _ => starts _ rfl seen⟩
            exact ⟨still.job, still.subject, still.python, still.snapshot, still.adapter⟩
      | finished | cancelled => exact ⟨frame, fun _ => done noted fun _ _ => nofun⟩
      | failed failure =>
          have logged := noted.trans (World.noted_log later now
            (Log.failed (Log.plainName "lsp.debounce") "Debounced lint task failed" failure))
          exact ⟨frame_of_noted logged _, fun _ => done logged fun _ _ => nofun⟩
    · exact leads_elsewhere here (fun more => frame_of_noted (noted.trans more) uri) isFor

/-- A cancelled lint publishes nothing. -/
theorem leads_interrupt (state : LintState)
    : (duty launched watched client).Leads host now uri world False
        (host.interrupt now state world) :=
  leads_of_noted (state.noted_interrupt now world)

end EditorLint.Session
