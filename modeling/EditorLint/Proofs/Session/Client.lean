import EditorLint.Proofs.Session.Documents

/-! The documents as an editor knows them. With an editor that opens only documents that it does
not have open, and changes, saves and closes only those that it has, the server has the same
documents open, each filed under its decoded address.
-/

namespace EditorLint.Session

/-- What an editor knows: the documents that it has open, and the addresses of those that it has
closed and not opened again.
-/
structure Client where
  documents : List Document := []
  closed : List String := []

namespace Client

/-- Whether the editor has a document open under an address. -/
def HasOpen (client : Client) (uri : String) : Prop :=
  ∃ document ∈ client.documents, document.uri = uri

/-- What the editor knows once it has sent something. -/
def send (client : Client) : Input → Client
  | .opened uri language version text =>
    { documents := client.documents ++ [⟨uri, language, version, text⟩]
      closed := client.closed.filter (· ≠ uri) }
  | .changed uri version texts =>
    { client with
      documents := client.documents.map fun document =>
        if document.uri = uri then document.withTexts version texts else document }
  | .closed uri =>
    { documents := client.documents.filter (·.uri ≠ uri)
      closed := client.closed ++ [uri] }
  | _ => client

/-- What an editor knows that has sent some inputs. -/
def after (inputs : List Input) : Client :=
  inputs.foldl send {}

/-- The editor opens no document that it has open, and changes, saves and closes none that it does
not have open. Addresses that decode to the same are those of one document.
-/
def Orderly (client : Client) : Input → Prop
  | .initialized .. => False
  | .opened uri .. =>
    ∀ document ∈ client.documents, Uri.decode document.uri ≠ Uri.decode uri
  | .changed uri .. | .saved uri | .closed uri => client.HasOpen uri
  | _ => True

/-- When settings arrive, an open document that has an address, or that is filed under it, has
that address with nothing in it to be decoded.
-/
def PlainAt (uri : String) (client : Client) : Input → Prop
  | .configured (.obj _) =>
    ∀ document ∈ client.documents,
      document.uri = uri ∨ Uri.decode document.uri = uri
      → Uri.decode document.uri = document.uri
  | _ => True

/-- Whatever the editor sends, it sends where it may. -/
def Always (may : Client → Input → Prop) (inputs : List Input) : Prop :=
  ∀ before input later, inputs = before ++ input :: later → may (after before) input

variable {client : Client} {may : Client → Input → Prop} {inputs : List Input} {input : Input}

theorem after_concat (inputs : List Input) (input : Input)
    : after (inputs ++ [input]) = (after inputs).send input := by
  simp [after]

/-- The last input is sent where it may be, and so are those before. -/
theorem Always.of_concat (always : Always may (inputs ++ [input]))
    : Always may inputs ∧ may (after inputs) input := by
  refine ⟨?_, always inputs input [] rfl⟩
  intro before other later same
  subst same
  exact always before other (later ++ [input]) (by simp)

theorem Always.of_append {early late : List Input} (always : Always may (early ++ late))
    : Always may early := by
  intro before input later same
  subst same
  exact always before input (later ++ late) (by simp)

theorem always_nil : Always may [] := by
  intro before input later split
  simp at split

theorem Always.concat (always : Always may inputs) (last : may (after inputs) input)
    : Always may (inputs ++ [input]) := by
  intro before other later split
  rcases List.eq_nil_or_concat later with rfl | ⟨rest, final, rfl⟩
  · obtain ⟨rfl, same⟩ := List.append_inj' split rfl
    obtain rfl := (List.cons.inj same).1
    exact last
  · have parts : inputs ++ [input] = (before ++ other :: rest) ++ [final] := by simpa using split
    exact always before other rest (List.append_inj' parts rfl).1

/-- What may be sent at any time may be sent in the end, and pauses change nothing for the
editor, by induction over them.
-/
theorem Always.pauses (always : Always may inputs)
    (free : ∀ client duration, may client (.advance duration)) (pauses : List Time)
    : Always may (inputs ++ pauses.map .advance)
      ∧ after (inputs ++ pauses.map .advance) = after inputs := by
  induction pauses generalizing inputs with
  | nil => simpa using always
  | cons duration rest ih =>
      obtain ⟨sent, same⟩ := ih (always.concat (free _ duration))
      rw [after_concat] at same
      simpa [send] using And.intro sent same

/-- An orderly editor does not initialize the server again. -/
theorem Always.not_initialized (orderly : Always Orderly inputs) (member : input ∈ inputs)
    (root : Option String) (options : Option Json)
    : input ≠ .initialized root options := by
  intro same
  subst same
  obtain ⟨early, late, split⟩ := List.append_of_mem member
  exact orderly early _ late split

end Client

/-- The server has the documents open that the editor has, each filed under its decoded address,
and no two under the same.
-/
structure World.Shows (world : World) (client : Client) : Prop where
  initialized : ∃ workspace, world.workspace = some workspace
  found
    : ∀ document ∈ client.documents, ∃ id, world.document? document.uri = some (id, document)
  filed
    : ∀ workspace key,
        world.workspace = some workspace
        → key ∈ workspace.uris
        → ∃ document ∈ client.documents, Uri.decode document.uri = key
  apart
    : ∀ one ∈ client.documents, ∀ other ∈ client.documents,
        Uri.decode one.uri = Uri.decode other.uri → one = other
  closed : ∀ uri ∈ client.closed, ¬ client.HasOpen uri

/-- A lint that is asked for now and begins now is the same in both states. -/
structure World.Alike (before after : World) : Prop where
  provider : after.provider = before.provider
  delay : after.delay = before.delay
  snapshot : ∀ document, after.snapshot? document = before.snapshot? document

variable {world before middle after : World} {client : Client} {server : Server} {input : Input}

-----------------------------------------------------------------------------------------
-- What no arrival changes but the initialization
-----------------------------------------------------------------------------------------

theorem World.Alike.refl (world : World) : World.Alike world world :=
  ⟨rfl, rfl, fun _ => rfl⟩

theorem World.Untouched.alike (same : World.Untouched before after)
    (provider : after.provider = before.provider)
    : World.Alike before after :=
  ⟨provider, same.delay, same.snapshot?⟩

theorem World.Noted.alike (noted : World.Noted before after) : World.Alike before after :=
  noted.untouched.alike noted.provider

/-- Opening and closing documents leaves the root where it is. -/
theorem World.alike_workspace {workspace : Workspace} (other : Workspace)
    (given : world.workspace = some workspace) (root : other.root = workspace.root)
    (documents : List Document)
    : World.Alike world { world with workspace := some other, documents } := by
  refine ⟨rfl, rfl, fun document => ?_⟩
  simp only [World.snapshot?, given, Option.map_some, Workspace.directoryFor, root]

/-- What arrives after the initialization changes how lints are made at its handler's turn only. -/
theorem Server.alike_receive (server : Server) {input : Input}
    (later : ∀ root options, input ≠ .initialized root options)
    : World.Alike server.world (server.receive input).world := by
  have refused (failure : Failure)
      : World.Alike server.world (server.refuse failure).world :=
    (World.noted_note server.world server.now rfl).alike
  cases input with
  | initialized root options => exact (later root options rfl).elim
  | opened uri language version text =>
      simp only [receive, withWorkspace]
      split
      · exact refused _
      next workspace given =>
        exact World.alike_workspace (workspace.insert uri _) given rfl
          (server.world.documents ++ [⟨uri, language, version, text⟩])
  | changed uri version texts =>
      simp only [receive, withWorkspace, changeDocument]
      split
      · exact .refl _
      · split
        · exact refused _
        next workspace given =>
          cases workspace.get? uri with
          | none => exact refused _
          | some place => exact ⟨rfl, rfl, fun _ => rfl⟩
  | closed uri =>
      simp only [receive, withWorkspace]
      split
      · exact refused _
      next workspace given =>
        exact World.alike_workspace (workspace.erase uri) given rfl server.world.documents
  | codeAction uri only diagnostics => exact (noted_answer _ _ _ _ _).alike
  | saved | configured | advance => exact .refl _
  | tool tool => exact ⟨rfl, rfl, fun _ => rfl⟩

-----------------------------------------------------------------------------------------
-- The same documents on both sides
-----------------------------------------------------------------------------------------

namespace World.Shows

variable {document other : Document}

/-- What no turn touches has no part in what is open. -/
theorem untouched (shows : before.Shows client) (same : World.Untouched before after)
    : after.Shows client where
  initialized := by
    rw [same.workspace]
    exact shows.initialized
  found document member := by
    rw [same.document?]
    exact shows.found document member
  filed workspace key given := by
    rw [same.workspace] at given
    exact shows.filed workspace key given
  apart := shows.apart
  closed := shows.closed

/-- An address is that of one open document at most. -/
theorem unique (shows : world.Shows client) (member : document ∈ client.documents)
    (also : other ∈ client.documents) (same : document.uri = other.uri)
    : document = other :=
  shows.apart document member other also (congrArg Uri.decode same)

/-- All open documents are filed. -/
theorem mem_uris {workspace : Workspace} (shows : world.Shows client)
    (given : world.workspace = some workspace) (member : document ∈ client.documents)
    : Uri.decode document.uri ∈ workspace.uris := by
  obtain ⟨id, found⟩ := shows.found document member
  obtain ⟨_, same, entered, _⟩ := document?_eq_some_iff.mp found
  obtain rfl := Option.some.inj (given.symm.trans same)
  exact List.mem_map.mpr ⟨_, Table.mem_of_get? entered, rfl⟩

/-- A document that is opened is open on both sides. -/
theorem receive_opened (shows : server.world.Shows client) (filed : server.world.Filed)
    (document : Document)
    (orderly : ∀ other ∈ client.documents, Uri.decode other.uri ≠ Uri.decode document.uri)
    : (server.receive
        (.opened document.uri document.language document.version document.text)).world.Shows
      (client.send (.opened document.uri document.language document.version document.text)) := by
  obtain ⟨workspace, given⟩ := shows.initialized
  have stays {other : Document} (member : other ∈ client.documents)
      : ∃ id,
          (server.receive (.opened document.uri document.language document.version
            document.text)).world.document? other.uri
          = some (id, other) := by
    obtain ⟨id, found⟩ := shows.found other member
    exact ⟨id, server.document?_receive filed found fun same => orderly other member same.symm⟩
  have opened
      : (server.receive (.opened document.uri document.language document.version
          document.text)).world
        = Server.openDocument document workspace server.world := by
    rw [Server.receive_opened given document]
    rfl
  rw [opened] at stays ⊢
  exact {
    initialized := ⟨_, rfl⟩
    found := by
      intro other member
      rcases List.mem_append.mp member with old | new
      · exact stays old
      · obtain rfl := List.mem_singleton.mp new
        refine ⟨server.world.documents.length, document?_eq_some_iff.mpr ⟨_, rfl, ?_, ?_⟩⟩
        · simp [Workspace.insert, Table.get?_insert]
        · simp [Server.openDocument]
    filed := by
      intro _ key same filed
      cases same
      obtain ⟨entry, member, rfl⟩ := List.mem_map.mp filed
      rcases Table.mem_insert member with rfl | old
      · exact ⟨document, List.mem_append_right _ List.mem_cons_self, rfl⟩
      · obtain ⟨other, here, own⟩ := shows.filed workspace _ given (List.mem_map_of_mem old)
        exact ⟨other, List.mem_append_left _ here, own⟩
    apart := by
      intro one here other there same
      rcases List.mem_append.mp here with old | new <;>
        rcases List.mem_append.mp there with also | late
      · exact shows.apart one old other also same
      · obtain rfl := List.mem_singleton.mp late
        exact (orderly one old same).elim
      · obtain rfl := List.mem_singleton.mp new
        exact (orderly other also same.symm).elim
      · exact (List.mem_singleton.mp new).trans (List.mem_singleton.mp late).symm
    closed := by
      intro uri member given
      obtain ⟨other, here, rfl⟩ := given
      obtain ⟨kept, apart⟩ := List.mem_filter.mp member
      rcases List.mem_append.mp here with old | new
      · exact shows.closed _ kept ⟨other, old, rfl⟩
      · obtain rfl := List.mem_singleton.mp new
        simp at apart
  }

/-- A document that is changed is changed on both sides, and no other. -/
theorem receive_changed (shows : server.world.Shows client) (filed : server.world.Filed)
    {uri : String} (version : Option Int) (texts : List String) (isOpen : client.HasOpen uri)
    : (server.receive (.changed uri version texts)).world.Shows
        (client.send (.changed uri version texts)) := by
  obtain ⟨document, member, rfl⟩ := isOpen
  obtain ⟨id, found⟩ := shows.found document member
  obtain ⟨workspace, given, entered, placed⟩ := document?_eq_some_iff.mp found
  have stays {other : Document} (here : other ∈ client.documents) (apart : other ≠ document)
      : ∃ id,
          (server.receive (.changed document.uri version texts)).world.document? other.uri
          = some (id, other) := by
    obtain ⟨id, found⟩ := shows.found other here
    refine ⟨id, server.document?_receive filed found fun same => apart ?_⟩
    exact shows.apart other here document member same.symm
  have changed
      : (server.receive (.changed document.uri version texts)).world
        = { server.world with
          documents := server.world.documents.modify id (Document.withTexts version texts) } := by
    rw [Server.receive_changed given entered]
    rfl
  rw [changed] at stays ⊢
  have uri_changed (other : Document)
      : (if other.uri = document.uri then other.withTexts version texts else other).uri
        = other.uri := by
    split
    · exact Document.uri_withTexts version texts other
    · rfl
  exact {
    initialized := ⟨workspace, given⟩
    found := by
      intro changed there
      obtain ⟨other, here, rfl⟩ := List.mem_map.mp there
      by_cases same : other = document
      · subst same
        rw [if_pos rfl, Document.uri_withTexts]
        exact ⟨id, document?_eq_some_iff.mpr ⟨workspace, given, entered, by
          simp [placed]⟩⟩
      · rw [if_neg fun uris => same (shows.unique here member uris)]
        exact stays here same
    filed := by
      intro _ key same keyed
      obtain ⟨other, here, own⟩ := shows.filed _ key same keyed
      refine ⟨_, List.mem_map_of_mem here, ?_⟩
      rw [uri_changed]
      exact own
    apart := by
      intro one here other there same
      obtain ⟨first, at_first, rfl⟩ := List.mem_map.mp here
      obtain ⟨second, at_second, rfl⟩ := List.mem_map.mp there
      rw [uri_changed, uri_changed] at same
      rw [shows.apart first at_first second at_second same]
    closed := by
      intro uri member given
      obtain ⟨changed, there, rfl⟩ := given
      obtain ⟨other, here, rfl⟩ := List.mem_map.mp there
      exact shows.closed _ member ⟨other, here, (uri_changed other).symm⟩
  }

/-- A document that is closed is closed on both sides, and no other. -/
theorem receive_closed (shows : server.world.Shows client) (filed : server.world.Filed)
    {uri : String} (isOpen : client.HasOpen uri)
    : (server.receive (.closed uri)).world.Shows (client.send (.closed uri)) := by
  obtain ⟨document, member, rfl⟩ := isOpen
  obtain ⟨workspace, given⟩ := shows.initialized
  have stays {other : Document} (here : other ∈ client.documents) (apart : other ≠ document)
      : ∃ id,
          (server.receive (.closed document.uri)).world.document? other.uri
          = some (id, other) := by
    obtain ⟨id, found⟩ := shows.found other here
    refine ⟨id, server.document?_receive filed found fun same => apart ?_⟩
    exact shows.apart other here document member same.symm
  have closed
      : (server.receive (.closed document.uri)).world
        = { server.world with workspace := some (workspace.erase document.uri) } := by
    rw [Server.receive_closed given]
    rfl
  rw [closed] at stays ⊢
  have left {other : Document} (here : other ∈ client.documents)
      (apart : other.uri ≠ document.uri)
      : other ∈ client.documents.filter (·.uri ≠ document.uri) :=
    List.mem_filter.mpr ⟨here, by simpa using apart⟩
  exact {
    initialized := ⟨_, rfl⟩
    found := by
      intro other there
      obtain ⟨here, apart⟩ := List.mem_filter.mp there
      exact stays here fun same => by simp [same] at apart
    filed := by
      intro _ key same keyed
      cases same
      obtain ⟨entry, kept, rfl⟩ := List.mem_map.mp keyed
      obtain ⟨old, apart⟩ := List.mem_filter.mp kept
      obtain ⟨other, here, own⟩ := shows.filed workspace _ given (List.mem_map_of_mem old)
      refine ⟨other, left here fun same => ?_, own⟩
      simp [← own, same] at apart
    apart := by
      intro one here other there
      exact shows.apart one (List.mem_filter.mp here).1 other (List.mem_filter.mp there).1
    closed := by
      intro uri gone given
      obtain ⟨other, there, rfl⟩ := given
      obtain ⟨here, apart⟩ := List.mem_filter.mp there
      rcases List.mem_append.mp gone with old | new
      · exact shows.closed _ old ⟨other, here, rfl⟩
      · simp [List.mem_singleton.mp new] at apart
  }

/-- An orderly editor has the same documents open as the server, whatever it sends. -/
theorem receive (shows : server.world.Shows client) (filed : server.world.Filed)
    (orderly : client.Orderly input)
    : (server.receive input).world.Shows (client.send input) := by
  cases input with
  | initialized root options => exact orderly.elim
  | opened uri language version text =>
      exact shows.receive_opened filed ⟨uri, language, version, text⟩ orderly
  | changed uri version texts => exact shows.receive_changed filed version texts orderly
  | closed uri => exact shows.receive_closed filed orderly
  | codeAction uri only diagnostics => exact shows.untouched (noted_answer _ _ _ _ _).untouched
  | saved | configured | tool | advance => exact ⟨shows.1, shows.2, shows.3, shows.4, shows.5⟩

end World.Shows

end EditorLint.Session
