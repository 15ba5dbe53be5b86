import EditorLint.Proofs.Editor.Diagnostic
import EditorLint.Proofs.Session.Run

/-! What a server remembers of the documents that it has linted, and what the editor was sent
last. The two agree, but for messages that no diagnostics can show: the server remembers them
before it finds that out, and the editor is left with what it had.
-/

namespace EditorLint.Session

variable {gate : Server → Prop} {first server : Server} {inputs : List Input}

/-- A document of which nothing is remembered has been sent no diagnostics, or none since. What is
remembered of a document is what it was sent last, if that can be sent.
-/
structure World.Remembers (world : World) : Prop where
  forgotten
    : ∀ {uri version diagnostics},
        world.published.get? uri = none
        → world.lastSent? uri = some (version, diagnostics)
        → diagnostics = []
  remembered
    : ∀ {uri messages diagnostics},
        world.published.get? uri = some messages
        → Editor.Diagnostic.ofMessages messages = .ok diagnostics
        → ∃ version, world.lastSent? uri = some (version, diagnostics)

namespace World.Remembers

variable {world after : World}

/-- Nothing is shown, and nothing forgotten. -/
theorem goesOn (remembers : world.Remembers) (continues : World.Continues world after)
    : after.Remembers where
  forgotten := by
    intro uri version last unknown sent
    rw [continues.published] at unknown
    rw [continues.lastSent? uri] at sent
    exact remembers.forgotten unknown sent
  remembered := by
    intro uri kept images known shown
    rw [continues.published] at known
    rw [continues.lastSent? uri]
    exact remembers.remembered known shown

/-- Messages that cannot be shown are remembered all the same. -/
theorem refused (remembers : world.Remembers) (job : LintJob) {messages : List Message}
    {failure : Failure} (failed : Editor.Diagnostic.ofMessages messages = .error failure)
    : (job.remember world messages).Remembers where
  forgotten := by
    intro uri version last unknown sent
    simp only [LintJob.remember, Table.get?_insert] at unknown
    split at unknown
    · cases unknown
    · exact remembers.forgotten unknown sent
  remembered := by
    intro uri kept images known shown
    simp only [LintJob.remember, Table.get?_insert] at known
    split at known
    · obtain rfl := Option.some.inj known
      cases failed.symm.trans shown
    · exact remembers.remembered known shown

/-- Messages that are shown are remembered as they are shown. -/
theorem shown (remembers : world.Remembers) (now : Time) (job : LintJob)
    {messages : List Message} {diagnostics : List Editor.Diagnostic}
    (ready : Editor.Diagnostic.ofMessages messages = .ok diagnostics)
    : ((job.remember world messages).publish now job.uri job.version diagnostics).Remembers where
  forgotten := by
    intro uri version last unknown sent
    rw [lastSent?_publish] at sent
    simp only [publish, note, LintJob.remember, Table.get?_insert] at unknown
    split at unknown
    · cases unknown
    next other =>
      rw [if_neg (Ne.symm other)] at sent
      exact remembers.forgotten unknown sent
  remembered := by
    intro uri kept images known shown
    rw [lastSent?_publish]
    simp only [publish, note, LintJob.remember, Table.get?_insert] at known
    split at known
    next same =>
      obtain rfl := Option.some.inj known
      obtain rfl := Except.ok.inj (ready.symm.trans shown)
      exact ⟨job.version, if_pos same.symm⟩
    next other =>
      rw [if_neg (Ne.symm other)]
      exact remembers.remembered known shown

/-- A document that is forgotten is sent that it has no diagnostics. -/
theorem forget (remembers : world.Remembers) (now : Time) (uri : String)
    : ({ world with published := world.published.erase uri }.publish now uri none []).Remembers
    where
  forgotten := by
    intro other version last unknown sent
    rw [lastSent?_publish] at sent
    split at sent
    · cases sent
      rfl
    next apart =>
      simp only [publish, note, Table.get?_erase, if_neg (Ne.symm apart)] at unknown
      exact remembers.forgotten unknown sent
  remembered := by
    intro other kept images known shown
    rw [lastSent?_publish]
    simp only [publish, note, Table.get?_erase] at known
    split at known
    · cases known
    next apart =>
      rw [if_neg (Ne.symm apart)]
      exact remembers.remembered known shown

end World.Remembers

/-- No turn makes the server's memory disagree with what was sent. -/
theorem host_keeps_remembers : host.Keeps (fun _ => True) World.Remembers :=
  host_keeps
    (fun noted remembers => remembers.goesOn noted.continues)
    (fun _ remembers => ⟨remembers.forgotten, remembers.remembered⟩)
    (fun _ failed remembers => remembers.refused _ failed)
    (fun _ ready remembers => remembers.shown _ _ ready)
    (fun now uri remembers => remembers.forget now uri)

/-- What arrives makes the server's memory disagree with what was sent no more than a turn. -/
theorem World.Remembers.receive (remembers : server.world.Remembers) (input : Input)
    : (server.receive input).world.Remembers := by
  obtain ⟨world, agenda, taken, continues, _⟩ := server.takes_receive input
  rw [taken]
  exact remembers.goesOn continues

/-- In whatever state a server comes, the editor was sent last exactly the diagnostics of the
messages that the server remembers of a document, if all of these can be displayed, and else it
was not. A document of which the server remembers nothing was sent nothing, or last that it has
no diagnostics.
-/
theorem lastSent_of_published {disk : Disk} {delay : Time} {settings : Settings}
    {tool : Tool.Behaviour}
    (run : Run AtAnyTime (Server.start disk delay settings tool) inputs server)
    (uri : String)
    : match server.world.published.get? uri with
      | none =>
        server.world.lastSent? uri = none
        ∨ ∃ version, server.world.lastSent? uri = some (version, [])
      | some messages =>
        (∃ version diagnostics,
          Editor.Diagnostic.ofMessages messages = .ok diagnostics
          ∧ server.world.lastSent? uri = some (version, diagnostics))
        ↔ ∀ message ∈ messages, message.Displayable := by
  have remembers : server.world.Remembers := by
    apply run.keeps host_keeps_remembers (fun _ input _ before => before.receive input)
    exact ⟨fun _ => nofun, nofun⟩
  cases known : server.world.published.get? uri with
  | none =>
      cases sent : server.world.lastSent? uri with
      | none => exact Or.inl rfl
      | some last =>
          obtain ⟨version, diagnostics⟩ := last
          obtain rfl := remembers.forgotten known sent
          exact Or.inr ⟨version, rfl⟩
  | some messages =>
      dsimp only
      rw [← Editor.exists_ofMessages_iff]
      constructor
      · intro given
        obtain ⟨_, diagnostics, ready, _⟩ := given
        exact ⟨diagnostics, ready⟩
      · intro given
        obtain ⟨diagnostics, ready⟩ := given
        obtain ⟨version, sent⟩ := remembers.remembered known ready
        exact ⟨version, diagnostics, ready, sent⟩

/-- A document in which nothing is found is remembered, and shown, without any. -/
theorem lastSent_of_clean_document
    : let server := (Server.start {} 300000000 {} ({} : Tool.Script)).session
        [.initialized none none, .opened "a.py" (some "python") (some 1) "a", .advance 300000000]
      server.world.published.get? "a.py" = some []
        ∧ ∃ version diagnostics,
            Editor.Diagnostic.ofMessages [] = .ok diagnostics
            ∧ server.world.lastSent? "a.py" = some (version, diagnostics) := by
  intro server
  have known : server.world.published.get? "a.py" = some [] := by decide +kernel
  have run := (run_session {} 300000000 {} ({} : Tool.Script)
    [.initialized none none, .opened "a.py" (some "python") (some 1) "a",
      .advance 300000000]).1.mono fun _ _ => True.intro
  have shown := lastSent_of_published run "a.py"
  rw [known] at shown
  exact ⟨known, shown.mpr fun _ => nofun⟩

end EditorLint.Session
