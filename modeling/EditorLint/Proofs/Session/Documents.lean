import EditorLint.Proofs.Session.Run

/-! Documents are filed under their decoded addresses. Only what arrives for a document's own
address changes it, whatever else happens meanwhile.
-/

namespace EditorLint.Session

/-- Every entry of the workspace is for a document with an address that decodes to its key. -/
def World.Filed (world : World) : Prop :=
  ∀ workspace key id,
    world.workspace = some workspace
    → workspace.entries.get? key = some id
    → ∃ document, world.documents[id]? = some document ∧ Uri.decode document.uri = key

/-- A document with new texts, the last of which counts, and with them the version. -/
def Document.withTexts (version : Option Int) (texts : List String) (document : Document) :
    Document :=
  texts.foldl (fun document text => { document with text, version }) document

/-- Whether an input may change what is found under an address. -/
def Input.Alters (uri : String) : Input → Prop
  | .initialized .. => True
  | .opened other .. | .changed other .. | .closed other => Uri.decode other = Uri.decode uri
  | _ => False

/-- Whether an input puts a text under an address: with a document that is opened there, or in place
of the text that an open document had, with a version that fits.
-/
def Input.Rewrites (uri : String) (fits : Option Int → Prop) : Input → Prop
  | .opened other .. => Uri.decode other = Uri.decode uri
  | .changed other version texts => Uri.decode other = Uri.decode uri ∧ texts ≠ [] ∧ fits version
  | _ => False

/-- If a document is open under an address, something holds of it and of its place. -/
def World.HoldsAt (uri : String) (held : Nat → Document → Prop) (world : World) : Prop :=
  ∀ id document, world.document? uri = some (id, document) → held id document

variable {gate : Server → Prop} {first server : Server} {inputs : List Input} {world : World}

-----------------------------------------------------------------------------------------
-- What arrives
-----------------------------------------------------------------------------------------

/-- A document that is opened is filed behind all others, whatever was under its address. -/
theorem Server.receive_opened {workspace : Workspace}
    (given : server.world.workspace = some workspace) (document : Document)
    : server.receive (.opened document.uri document.language document.version document.text)
      = ({ server with world := openDocument document workspace server.world } : Server).deliver
          (.opened document.uri) := by
  simp [receive, withWorkspace, given]

/-- A document that is changed gets its texts, and with them the version. -/
theorem Server.receive_changed {workspace : Workspace} {uri : String} {id : Nat}
    (given : server.world.workspace = some workspace) (filed : workspace.get? uri = some id)
    (version : Option Int) (texts : List String)
    : server.receive (.changed uri version texts)
      = ({ server with
          world := { server.world with
            documents := server.world.documents.modify id (Document.withTexts version texts) }
        } : Server).deliver (.changed uri) := by
  cases texts with
  | nil =>
      have same : server.world.documents.modify id (Document.withTexts version [])
          = server.world.documents := List.modify_id id _
      simp only [receive, List.isEmpty_nil, if_true, same]
  | cons text more =>
      simp only [receive, List.isEmpty_cons, withWorkspace, changeDocument, given, filed]
      rfl

/-- A document that is closed is filed no more. -/
theorem Server.receive_closed {workspace : Workspace}
    (given : server.world.workspace = some workspace) (uri : String)
    : server.receive (.closed uri)
      = ({ server with
          world := { server.world with workspace := some (workspace.erase uri) }
        } : Server).deliver (.closed uri) := by
  simp [receive, withWorkspace, given]

/-- An initialized server has an empty workspace, and all else but its settings as before. -/
theorem Server.untouched_setUp (now : Time) (rootUri : Option String) (options : Option Json)
    (world : World)
    : World.Untouched { world with workspace := some (Workspace.fresh rootUri) }
        (setUp now rootUri options world) := by
  cases options with
  | none => exact ⟨rfl, rfl, rfl, rfl, rfl, rfl⟩
  | some payload =>
      cases payload with
      | obj entries =>
          have applied := World.applySettings_obj
            { world with workspace := some (Workspace.fresh rootUri) } now entries
          have same := applied.1.untouched
          exact ⟨same.workspace, same.documents, same.disk, same.delay, same.base, same.tool⟩
      | _ => exact ⟨rfl, rfl, rfl, rfl, rfl, rfl⟩

/-- What does not alter what is under an address leaves the document found there. -/
theorem Server.document?_receive {uri : String} {id : Nat} {document : Document} {input : Input}
    (filed : server.world.Filed) (found : server.world.document? uri = some (id, document))
    (unaltered : ¬ input.Alters uri)
    : (server.receive input).world.document? uri = some (id, document) := by
  have noted {after : World} (noted : World.Noted server.world after)
      : after.document? uri = some (id, document) := by
    rw [noted.untouched.document?]
    exact found
  obtain ⟨workspace, given, entered, placed⟩ := World.document?_eq_some_iff.mp found
  cases input with
  | initialized root options => exact (unaltered trivial).elim
  | opened other language version text =>
      rw [receive_opened given ⟨other, language, version, text⟩]
      have apart : Uri.decode uri ≠ Uri.decode other := fun same => unaltered same.symm
      refine World.document?_eq_some_iff.mpr ⟨_, rfl, ?_, ?_⟩
      · simpa [Workspace.insert, Table.get?_insert, apart] using entered
      · have inside := (List.getElem?_eq_some_iff.mp placed).1
        exact (List.getElem?_append_left inside).trans placed
  | changed other version texts =>
      cases sought : workspace.get? other with
      | none =>
          cases texts with
          | nil => exact found
          | cons text more =>
              simp only [receive, List.isEmpty_cons, withWorkspace, changeDocument, given, sought]
              exact noted (World.noted_note _ _ rfl)
      | some place =>
          rw [receive_changed given sought]
          refine World.document?_eq_some_iff.mpr ⟨workspace, given, entered, ?_⟩
          have apart : place ≠ id := by
            intro same
            subst same
            obtain ⟨_, one, key⟩ := filed workspace _ _ given sought
            obtain ⟨_, two, other⟩ := filed workspace _ _ given entered
            obtain rfl := Option.some.inj (one.symm.trans two)
            exact unaltered (key.symm.trans other)
          exact (List.getElem?_modify_ne _ _ apart).trans placed
  | closed other =>
      rw [receive_closed given other]
      have apart : Uri.decode uri ≠ Uri.decode other := fun same => unaltered same.symm
      refine World.document?_eq_some_iff.mpr ⟨_, rfl, ?_, placed⟩
      simpa [Workspace.erase, Table.get?_erase, apart] using entered
  | saved other => exact found
  | configured payload => exact found
  | codeAction other only diagnostics => exact noted (noted_answer _ _ _ _ _)
  | tool tool => exact found
  | advance duration => exact found

/-- New texts do not move a document. -/
theorem Document.uri_withTexts (version : Option Int) (texts : List String) (document : Document)
    : (document.withTexts version texts).uri = document.uri := by
  induction texts generalizing document with
  | nil => rfl
  | cons text more ih => exact ih { document with text, version }

/-- New texts come with the new version, if there are any. -/
theorem Document.version_withTexts (version : Option Int) {texts : List String} (new : texts ≠ [])
    (document : Document)
    : (document.withTexts version texts).version = version := by
  induction texts generalizing document with
  | nil => exact (new rfl).elim
  | cons text more ih =>
      cases more with
      | nil => rfl
      | cons next rest => exact ih nofun { document with text, version }

namespace World.Filed

variable {workspace : Workspace}

/-- What leaves the documents alone leaves them filed. -/
theorem untouched {before after : World} (filed : before.Filed)
    (untouched : World.Untouched before after)
    : after.Filed := by
  intro workspace key id given entered
  rw [untouched.workspace] at given
  rw [untouched.documents]
  exact filed workspace key id given entered

/-- A document that is opened is filed with the others. -/
theorem openDocument (filed : world.Filed) (given : world.workspace = some workspace)
    (document : Document)
    : (Server.openDocument document workspace world).Filed := by
  intro _ key id same entered
  cases same
  simp only [Workspace.insert, Table.get?_insert] at entered
  split at entered
  next same =>
    obtain rfl := Option.some.inj entered
    exact ⟨document, by simp [Server.openDocument], same.symm⟩
  next apart =>
    obtain ⟨other, placed, own⟩ := filed workspace key id given entered
    have inside := (List.getElem?_eq_some_iff.mp placed).1
    exact ⟨other, (List.getElem?_append_left inside).trans placed, own⟩

/-- A document that is changed keeps its place and its address. -/
theorem changeDocument (filed : world.Filed) (place : Nat) (version : Option Int)
    (texts : List String)
    : Filed { world with
        documents := world.documents.modify place (Document.withTexts version texts) } := by
  intro workspace key id given entered
  obtain ⟨document, placed, own⟩ := filed workspace key id given entered
  by_cases here : place = id
  · subst here
    refine ⟨document.withTexts version texts, by simp [placed], ?_⟩
    rw [Document.uri_withTexts]
    exact own
  · exact ⟨document, (List.getElem?_modify_ne _ _ here).trans placed, own⟩

/-- The documents that are not closed stay filed. -/
theorem closeDocument (filed : world.Filed) (given : world.workspace = some workspace)
    (uri : String)
    : Filed { world with workspace := some (workspace.erase uri) } := by
  intro _ key id same entered
  cases same
  simp only [Workspace.erase, Table.get?_erase] at entered
  split at entered
  · cases entered
  · exact filed workspace key id given entered

end World.Filed

/-- Documents stay filed whatever arrives. -/
theorem Server.filed_receive (server : Server) (filed : server.world.Filed) (input : Input)
    : (server.receive input).world.Filed := by
  have refused (failure : Failure) : (server.refuse failure).world.Filed :=
    filed.untouched (World.noted_note _ _ rfl).untouched
  cases input with
  | initialized root options =>
      intro workspace key id given entered
      change (setUp server.now root options server.world).workspace = some workspace at given
      rw [(untouched_setUp _ _ _ _).workspace] at given
      cases given
      cases entered
  | opened uri language version text =>
      simp only [receive, withWorkspace]
      split
      · exact refused _
      next workspace given => exact filed.openDocument given _
  | changed uri version texts =>
      simp only [receive, withWorkspace, Server.changeDocument]
      split
      · exact filed
      · split
        · exact refused _
        next workspace given =>
          cases workspace.get? uri with
          | none => exact refused _
          | some place => exact filed.changeDocument place version texts
  | closed uri =>
      simp only [receive, withWorkspace]
      split
      · exact refused _
      next workspace given => exact filed.closeDocument given uri
  | codeAction uri only diagnostics => exact filed.untouched (noted_answer _ _ _ _ _).untouched
  | saved uri => exact filed
  | configured payload => exact filed
  | tool tool => exact filed
  | advance duration => exact filed

-----------------------------------------------------------------------------------------
-- What holds of the document under an address
-----------------------------------------------------------------------------------------

namespace World.HoldsAt

variable {workspace : Workspace} {uri : String} {held : Nat → Document → Prop}

/-- What leaves the documents alone leaves what holds of them. -/
theorem untouched {before after : World} (holds : before.HoldsAt uri held)
    (untouched : World.Untouched before after)
    : after.HoldsAt uri held :=
  fun id document found => holds id document ((untouched.document? uri).symm.trans found)

/-- A document that is opened under another address leaves the one under this address. -/
theorem openDocument (holds : world.HoldsAt uri held) (filed : world.Filed)
    (given : world.workspace = some workspace) {document : Document}
    (apart : Uri.decode document.uri ≠ Uri.decode uri)
    : (Server.openDocument document workspace world).HoldsAt uri held := by
  intro id other found
  obtain ⟨_, renewed, entered, placed⟩ := World.document?_eq_some_iff.mp found
  cases renewed
  simp only [Workspace.insert, Table.get?_insert, if_neg apart.symm] at entered
  obtain ⟨old, there, _⟩ := filed workspace _ id given entered
  have inside := (List.getElem?_eq_some_iff.mp there).1
  refine holds id other (World.document?_eq_some_iff.mpr ⟨workspace, given, entered, ?_⟩)
  exact (List.getElem?_append_left inside).symm.trans placed

/-- A document that is changed is another one than that under this address, or it is changed into
something of which the same holds.
-/
theorem changeDocument (holds : world.HoldsAt uri held) (filed : world.Filed)
    (given : world.workspace = some workspace) {other : String} {place : Nat}
    (sought : workspace.get? other = some place) {version : Option Int} {texts : List String}
    (changes
      : ∀ {id document},
          Uri.decode other = Uri.decode uri
          → held id document
          → held id (document.withTexts version texts))
    : HoldsAt uri held { world with
        documents := world.documents.modify place (Document.withTexts version texts) } := by
  intro id document found
  obtain ⟨_, still, entered, placed⟩ := World.document?_eq_some_iff.mp found
  obtain rfl := Option.some.inj (given.symm.trans still)
  have stays {document : Document} (placed : world.documents[id]? = some document)
      : held id document :=
    holds id document (World.document?_eq_some_iff.mpr ⟨workspace, given, entered, placed⟩)
  by_cases here : place = id
  · subst here
    obtain ⟨_, one, key⟩ := filed workspace _ _ given sought
    obtain ⟨old, two, own⟩ := filed workspace _ _ given entered
    obtain rfl := Option.some.inj (one.symm.trans two)
    rw [List.getElem?_modify_eq, two] at placed
    obtain rfl := Option.some.inj placed
    exact changes (key.symm.trans own) (stays two)
  · exact stays ((List.getElem?_modify_ne _ _ here).symm.trans placed)

/-- A document that is closed is not found any more, and every other one is as before. -/
theorem closeDocument (holds : world.HoldsAt uri held) (given : world.workspace = some workspace)
    (other : String)
    : HoldsAt uri held { world with workspace := some (workspace.erase other) } := by
  intro id document found
  obtain ⟨_, renewed, entered, placed⟩ := World.document?_eq_some_iff.mp found
  cases renewed
  simp only [Workspace.erase, Table.get?_erase] at entered
  split at entered
  · cases entered
  · exact holds id document
      (World.document?_eq_some_iff.mpr ⟨workspace, given, entered, placed⟩)

end World.HoldsAt

/-- What holds of the document under an address still holds of it after something has arrived that
does not rewrite it, if it holds of what the document is changed into with another version.
-/
theorem Server.holdsAt_receive {uri : String} {fits : Option Int → Prop}
    {held : Nat → Document → Prop}
    (changes
      : ∀ {id document} version texts,
          texts ≠ []
          → ¬ fits version
          → held id document
          → held id (document.withTexts version texts))
    (filed : server.world.Filed) (before : server.world.HoldsAt uri held) {input : Input}
    (kept : ¬ input.Rewrites uri fits)
    : (server.receive input).world.HoldsAt uri held := by
  have refused (failure : Failure) : (server.refuse failure).world.HoldsAt uri held :=
    before.untouched (World.noted_note _ _ rfl).untouched
  cases input with
  | initialized root options =>
      intro id document found
      have same := (untouched_setUp server.now root options server.world).document? uri
      obtain ⟨_, fresh, entered, _⟩ := World.document?_eq_some_iff.mp (same.symm.trans found)
      cases fresh
      cases entered
  | opened other language version text =>
      simp only [receive, withWorkspace]
      split
      · exact refused _
      next workspace given => exact before.openDocument filed given kept
  | changed other version texts =>
      simp only [receive, withWorkspace, Server.changeDocument]
      split
      · exact before
      next some =>
        split
        · exact refused _
        next workspace given =>
          cases sought : workspace.get? other with
          | none => exact refused _
          | some place =>
              have new : texts ≠ [] := by simpa using some
              refine before.changeDocument filed given sought fun own held => ?_
              exact changes version texts new (fun fit => kept ⟨own, new, fit⟩) held
  | closed other =>
      simp only [receive, withWorkspace]
      split
      · exact refused _
      next workspace given => exact before.closeDocument given other
  | codeAction other only diagnostics => exact before.untouched (noted_answer _ _ _ _ _).untouched
  | saved | configured | tool | advance => exact before

-----------------------------------------------------------------------------------------
-- In the course of a run
-----------------------------------------------------------------------------------------

/-- A new server has no documents to file. -/
theorem filed_start (disk : Disk) (delay : Time) (settings : Settings)
    (tool : Tool.Behaviour)
    : (Server.start disk delay settings tool).world.Filed :=
  fun _ _ _ => nofun

/-- Documents stay filed whatever happens. -/
theorem Run.filed (run : Run gate first inputs server) (filed : first.world.Filed)
    : server.world.Filed := by
  refine run.keeps (host_keeps_of_untouched ?_) ?_ filed
  · exact fun untouched filed => World.Filed.untouched filed untouched
  · exact fun server input _ filed => server.filed_receive filed input

/-- What holds of the document under an address holds of it for as long as nothing rewrites it. -/
theorem Run.holdsAt (run : Run gate first inputs server) (filed : first.world.Filed)
    {uri : String} {fits : Option Int → Prop} {held : Nat → Document → Prop}
    (changes
      : ∀ {id document} version texts,
          texts ≠ []
          → ¬ fits version
          → held id document
          → held id (document.withTexts version texts))
    (kept : ∀ input ∈ inputs, ¬ input.Rewrites uri fits) (before : first.world.HoldsAt uri held)
    : server.world.HoldsAt uri held := by
  have keeps
      : host.Keeps (fun _ => True) fun world => world.Filed ∧ world.HoldsAt uri held := by
    apply host_keeps_of_untouched
    intro before after untouched given
    obtain ⟨filed, before⟩ := given
    exact ⟨World.Filed.untouched filed untouched, World.HoldsAt.untouched before untouched⟩
  refine (run.keeps keeps ?_ ⟨filed, before⟩).2
  intro server input member given
  obtain ⟨filed, before⟩ := given
  exact ⟨server.filed_receive filed input,
    server.holdsAt_receive changes filed before (kept input member)⟩

end EditorLint.Session
