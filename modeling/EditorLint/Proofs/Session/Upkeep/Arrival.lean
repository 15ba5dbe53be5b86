import EditorLint.Proofs.Session.Upkeep

/-! What arrives from an orderly editor has a handler start whose steps make up for what the
arrival has changed.
-/

namespace EditorLint.Session

open Debounce

/-- All that a server owes is under way. A handler that is to start is alone, and all is under way
once it has started.
-/
inductive Server.Attends (launched : LintRun → Prop) (watched : String) (client : Client)
    (server : Server) : Prop
  | going (noHandler : ∀ message, .handler message ∉ server.agenda.ready)
    (dutiful : Manager.Dutiful (duty launched watched client) [] server)
  | called (message : Notification) (alone : server.agenda.ready = [.handler message])
    (dutiful : Manager.Dutiful (duty launched watched client)
      (message.begin server.now server.world).2
      { server with
        world := (message.begin server.now server.world).1
        agenda := { server.agenda with ready := [] } })

/-- The document that an input is about. -/
def Input.about? : Input → Option String
  | .opened uri .. | .changed uri .. | .saved uri | .closed uri => some uri
  | _ => none

variable {launched : LintRun → Prop} {watched : String} {client : Client} {server : Server}
  {input : Input} {before middle after : World} {document : Document} {uri : String}

theorem World.Alike.trans (first : World.Alike before middle) (second : World.Alike middle after)
    : World.Alike before after where
  provider := second.provider.trans first.provider
  delay := second.delay.trans first.delay
  snapshot document := (second.snapshot document).trans (first.snapshot document)

-----------------------------------------------------------------------------------------
-- Other documents
-----------------------------------------------------------------------------------------

/-- New texts do not change the language of a document. -/
theorem Document.language_withTexts (version : Option Int) (texts : List String)
    (document : Document)
    : (document.withTexts version texts).language = document.language := by
  induction texts generalizing document with
  | nil => rfl
  | cons text more ih => exact ih { document with text, version }

/-- The editor keeps the documents that an input is not about as they are. -/
theorem Client.mem_send_iff (client : Client) (elsewhere : input.about? ≠ some document.uri)
    : document ∈ (client.send input).documents ↔ document ∈ client.documents := by
  cases input with
  | opened other language version text =>
      have apart : document ≠ ⟨other, language, version, text⟩ := by
        intro same
        subst same
        exact elsewhere rfl
      simp [send, apart]
  | changed other version texts =>
      have apart : document.uri ≠ other := fun same => elsewhere (congrArg some same.symm)
      constructor
      · intro member
        obtain ⟨old, here, same⟩ := List.mem_map.mp member
        split at same
        next own =>
          rw [← same, Document.uri_withTexts] at apart
          exact (apart own).elim
        next => exact same ▸ here
      · intro member
        exact List.mem_map.mpr ⟨document, member, if_neg apart⟩
  | closed other =>
      have apart : document.uri ≠ other := fun same => elsewhere (congrArg some same.symm)
      simp [send, apart]
  | initialized | saved | configured | codeAction | tool | advance => rfl

/-- The editor has closed what it had closed, but for what an input is about. -/
theorem Client.mem_closed_send_iff (client : Client) (elsewhere : input.about? ≠ some uri)
    : uri ∈ (client.send input).closed ↔ uri ∈ client.closed := by
  cases input with
  | opened other language version text =>
      have apart : uri ≠ other := fun same => elsewhere (congrArg some same.symm)
      simp [send, apart]
  | closed other =>
      have apart : uri ≠ other := fun same => elsewhere (congrArg some same.symm)
      simp [send, apart]
  | initialized | changed | saved | configured | codeAction | tool | advance => rfl

theorem Client.hasOpen_send_iff (client : Client) (elsewhere : input.about? ≠ some uri)
    : (client.send input).HasOpen uri ↔ client.HasOpen uri := by
  constructor
  · intro given
    obtain ⟨document, member, rfl⟩ := given
    exact ⟨document, (client.mem_send_iff elsewhere).mp member, rfl⟩
  · intro given
    obtain ⟨document, member, rfl⟩ := given
    exact ⟨document, (client.mem_send_iff elsewhere).mpr member, rfl⟩

/-- What an orderly editor sends alters no document that it is not about. -/
theorem Client.Orderly.not_alters (orderly : client.Orderly input)
    (shows : before.Shows client) (member : document ∈ client.documents)
    (elsewhere : input.about? ≠ some document.uri)
    : ¬ input.Alters document.uri := by
  have apart {other : String} (isOpen : client.HasOpen other)
      (about : input.about? = some other)
      : Uri.decode other ≠ Uri.decode document.uri := by
    obtain ⟨another, there, rfl⟩ := isOpen
    intro same
    obtain rfl := shows.apart another there document member same
    exact elsewhere about
  cases input with
  | initialized root options => exact orderly.elim
  | opened other language version text => exact fun same => orderly document member same.symm
  | changed other version texts => exact apart orderly rfl
  | closed other => exact apart orderly rfl
  | saved | configured | codeAction | tool | advance => exact id

/-- For the documents that an input is not about, all is as it was. -/
theorem duty_elsewhere (alike : World.Alike before after) (elsewhere : input.about? ≠ some uri)
    (same
      : ∀ document ∈ client.documents,
          document.uri = uri → after.document? document.uri = before.document? document.uri)
    (sent : after.lastSent? uri = before.lastSent? uri)
    (known : after.published.get? uri = before.published.get? uri)
    : (∀ stage,
        (duty launched watched client).fits before uri stage
        → (duty launched watched (client.send input)).fits after uri stage)
      ∧ ((duty launched watched client).done before uri
        → (duty launched watched (client.send input)).done after uri) := by
  refine ⟨?_, ?_⟩
  · intro stage given
    obtain ⟨own, lints⟩ := given
    refine ⟨own, fun here => ?_⟩
    obtain ⟨document, member, rfl, onIt⟩ := lints here
    refine ⟨document, (client.mem_send_iff elsewhere).mpr member, rfl, ?_⟩
    exact onIt.alike alike (same document member rfl)
  · intro done here
    obtain ⟨linted, closed⟩ := done here
    refine ⟨?_, ?_⟩
    · intro document member own
      subst own
      have old := (client.mem_send_iff elsewhere).mp member
      exact (linted document old rfl).alike alike (same document old rfl) sent
    · rw [client.hasOpen_send_iff elsewhere, client.mem_closed_send_iff elsewhere, sent, known]
      exact closed

/-- The watched document is shown with diagnostics only while it is open, and to be linted. -/
theorem World.Unlinted.send (unlinted : before.Unlinted watched client)
    (orderly : client.Orderly input)
    (closed
      : ¬ client.HasOpen watched → ∀ last, before.lastSent? watched = some last → last.2 = [])
    (sent : ∀ uri, after.lastSent? uri = before.lastSent? uri)
    : after.Unlinted watched (client.send input) := by
  intro document member own other last shown
  subst own
  rw [sent] at shown
  have old (member : document ∈ client.documents) : last.2 = [] :=
    unlinted document member rfl other last shown
  cases input with
  | opened uri language version text =>
      rcases List.mem_append.mp member with before | new
      · exact old before
      · obtain rfl := List.mem_singleton.mp new
        refine closed ?_ last shown
        intro given
        obtain ⟨another, there, same⟩ := given
        exact orderly another there (congrArg Uri.decode same)
  | changed uri version texts =>
      obtain ⟨first, there, rfl⟩ := List.mem_map.mp member
      by_cases own : first.uri = uri
      · rw [if_pos own] at unlinted other shown
        rw [Document.language_withTexts, Document.path, Document.uri_withTexts] at other
        rw [Document.uri_withTexts] at unlinted shown
        exact unlinted first there rfl other last shown
      · rw [if_neg own] at unlinted other shown
        exact unlinted first there rfl other last shown
  | closed uri => exact old (List.mem_filter.mp member).1
  | initialized | saved | configured | codeAction | tool | advance => exact old member

-----------------------------------------------------------------------------------------
-- The document that something is sent for
-----------------------------------------------------------------------------------------

/-- What is sent for a document has a handler take one step for it. -/
theorem Server.receive_about (launched : LintRun → Prop) (watched : String)
    (shows : server.world.Shows client) (orderly : client.Orderly input)
    (about : input.about? = some uri)
    : ∃ world message step,
        server.receive input = ({ server with world } : Server).deliver message
        ∧ step.uri = uri
        ∧ (duty launched watched (client.send input)).calls step
        ∧ ∀ now world,
            World.Noted world (message.begin now world).1
            ∧ (message.begin now world).2 = [step] := by
  obtain ⟨workspace, given⟩ := shows.initialized
  cases input with
  | opened other language version text =>
      obtain rfl := Option.some.inj about
      refine ⟨_, _, .relint _ other, receive_opened given ⟨other, language, version, text⟩, rfl, ?_,
        fun now world => ⟨World.noted_log world now _, rfl⟩⟩
      exact fun _ => ⟨_, List.mem_append_right _ List.mem_cons_self, rfl⟩
  | changed other version texts =>
      obtain rfl := Option.some.inj about
      obtain ⟨document, member, rfl⟩ := orderly
      obtain ⟨id, found⟩ := shows.found document member
      obtain ⟨_, same, entered, _⟩ := World.document?_eq_some_iff.mp found
      obtain rfl := Option.some.inj (given.symm.trans same)
      refine ⟨_, _, .relint _ document.uri, receive_changed given entered version texts, rfl, ?_,
        fun now world => ⟨World.noted_log world now _, rfl⟩⟩
      refine fun _ => ⟨_, List.mem_map_of_mem member, ?_⟩
      rw [if_pos rfl, Document.uri_withTexts]
  | saved other =>
      obtain rfl := Option.some.inj about
      exact ⟨server.world, _, .relint _ other, rfl, rfl, fun _ => orderly,
        fun now world => ⟨World.noted_log world now _, rfl⟩⟩
  | closed other =>
      obtain rfl := Option.some.inj about
      refine ⟨_, _, .forget other, receive_closed given other, rfl, ?_,
        fun now world => ⟨World.noted_log world now _, rfl⟩⟩
      exact List.mem_append_right _ List.mem_cons_self
  | initialized | configured | codeAction | tool | advance => cases about

namespace Server.Attends

/-- A watched document that is not open is shown without diagnostics when no turn is ready. -/
theorem closed_calm
    (dutiful : Manager.Dutiful (duty launched watched client) [] server) (sound : server.Sound)
    (nothing : server.agenda.ready = []) (closed : ¬ client.HasOpen watched)
    {last : Option Int × List Editor.Diagnostic}
    (sent : server.world.lastSent? watched = some last)
    : last.2 = [] := by
  rcases (dutiful.calm sound.coherent nothing).2 watched with ⟨_, task, _, same, serves⟩ | done
  · obtain ⟨document, member, own, _⟩ := serves.fits.2 same
    exact (closed ⟨document, member, own.trans same⟩).elim
  · obtain ⟨gone, never, _⟩ := (done rfl).2 closed
    by_cases known : watched ∈ client.closed
    · obtain rfl := Option.some.inj ((gone known).symm.trans sent)
      rfl
    · cases (never known).symm.trans sent

/-- What an input changes is made up for by steps for the document that it is about. -/
theorem renew (hand : List Step) {world : World}
    (dutiful : Manager.Dutiful (duty launched watched client) [] server) (sound : server.Sound)
    (filed : server.world.Filed) (nothing : server.agenda.ready = [])
    (orderly : client.Orderly input) (noted : World.Noted (server.receive input).world world)
    (called : ∀ step ∈ hand, (duty launched watched (client.send input)).calls step)
    (about : ∀ uri, input.about? = some uri → ∃ step ∈ hand, step.uri = uri)
    : Manager.Dutiful (duty launched watched (client.send input)) hand { server with world } := by
  have shows := dutiful.holds.1
  have later (root : Option String) (options : Option Json)
      : input ≠ .initialized root options := by
    intro same
    subst same
    exact orderly
  obtain ⟨arrived, _, taken, continues, _⟩ := server.takes_receive input
  have received : (server.receive input).world = arrived := by rw [taken]
  have sent (uri : String) : world.lastSent? uri = server.world.lastSent? uri := by
    rw [noted.lastSent?, received, continues.lastSent?]
  have known : world.published = server.world.published := by
    rw [noted.continues.published, received, continues.published]
  refine dutiful.renew sound.coherent nothing ⟨?_, ?_⟩ called fun uri => ?_
  · exact (shows.receive filed orderly).untouched noted.untouched
  · refine dutiful.holds.2.send orderly ?_ sent
    exact fun closed last shown => closed_calm dutiful sound nothing closed shown
  · by_cases own : input.about? = some uri
    · exact Or.inl (about uri own)
    · have alike := (server.alike_receive later).trans noted.alike
      refine Or.inr (duty_elsewhere alike own ?_ (sent uri) (congrArg (·.get? uri) known))
      intro document member own
      subst own
      obtain ⟨id, found⟩ := shows.found document member
      rw [noted.untouched.document?, found]
      exact server.document?_receive filed found (orderly.not_alters shows member own)

/-- All is under way once the handler of what has arrived for a document has started. -/
theorem receive_about (dutiful : Manager.Dutiful (duty launched watched client) [] server)
    (sound : server.Sound) (filed : server.world.Filed) (nothing : server.agenda.ready = [])
    (orderly : client.Orderly input) (about : input.about? = some uri)
    : (server.receive input).Attends launched watched (client.send input) := by
  obtain ⟨world, message, step, received, own, calls, begins⟩ :=
    Server.receive_about launched watched dutiful.holds.1 orderly about
  obtain ⟨noted, steps⟩ := begins server.now world
  have arrived : (server.receive input).world = world := by rw [received]; rfl
  have renewed
      : Manager.Dutiful (duty launched watched (client.send input)) [step]
          { server with world := (message.begin server.now world).1 } := by
    refine renew [step] dutiful sound filed nothing orderly ?_ (by simpa using calls) ?_
    · rw [arrived]
      exact noted
    · intro other same
      obtain rfl := Option.some.inj (about.symm.trans same)
      exact ⟨step, List.mem_cons_self, own⟩
  rw [received]
  refine .called message ?_ ?_
  · change server.agenda.ready ++ [.handler message] = _
    rw [nothing]
    rfl
  · change Manager.Dutiful _ (message.begin server.now world).2
      { server with
        world := (message.begin server.now world).1
        agenda := { server.agenda with ready := [] } }
    rw [steps, ← nothing]
    exact renewed

/-- Settings have the watched document linted anew, if it is found under its own address. -/
theorem receive_configured (dutiful : Manager.Dutiful (duty launched watched client) [] server)
    (sound : server.Sound) (filed : server.world.Filed) (nothing : server.agenda.ready = [])
    (payload : Json) (plain : client.PlainAt watched (.configured payload))
    : (server.receive (.configured payload)).Attends launched watched
        (client.send (.configured payload)) := by
  have alone : (server.receive (.configured payload)).agenda.ready
      = [.handler (.configured payload)] := by
    change server.agenda.ready ++ [.handler (.configured payload)] = _
    rw [nothing]
    rfl
  refine .called (.configured payload) alone ?_
  have shows := dutiful.holds.1
  change Manager.Dutiful _ (Notification.begin server.now (.configured payload) server.world).2
    { server with
      world := (Notification.begin server.now (.configured payload) server.world).1
      agenda := { server.agenda with ready := [] } }
  rw [← nothing]
  by_cases mapping : ∃ entries, payload = .obj entries
  · obtain ⟨entries, rfl⟩ := mapping
    obtain ⟨noted, steps⟩ := Notification.begin_settings server.now entries server.world
    obtain ⟨workspace, given⟩ := shows.initialized
    rw [given, Option.elim_some] at steps
    rw [steps]
    generalize (Notification.begin server.now (.configured (.obj entries)) server.world).1 = world
      at noted ⊢
    have same : World.Untouched server.world world := by
      obtain ⟨workspace, documents, disk, delay, base, tool⟩ := noted.untouched
      exact ⟨workspace, documents, disk, delay, base, tool⟩
    have sent (uri : String) : world.lastSent? uri = server.world.lastSent? uri :=
      noted.lastSent? uri
    refine dutiful.renew sound.coherent nothing ⟨shows.untouched same, ?_⟩ ?_ fun uri => ?_
    · intro document member own other last shown
      rw [sent] at shown
      exact dutiful.holds.2 document member own other last shown
    · intro step member
      obtain ⟨key, keyed, rfl⟩ := List.mem_map.mp member
      obtain ⟨document, there, rfl⟩ := shows.filed workspace key given keyed
      exact fun here => ⟨document, there, (plain document there (Or.inr here)).symm⟩
    · by_cases inHand : uri = watched ∧ client.HasOpen uri
      · obtain ⟨here, document, member, rfl⟩ := inHand
        have keyed := shows.mem_uris given member
        rw [plain document member (Or.inl here)] at keyed
        exact Or.inl ⟨_, List.mem_map_of_mem keyed, rfl⟩
      · refine Or.inr ⟨?_, ?_⟩
        · intro stage given
          obtain ⟨own, lints⟩ := given
          refine ⟨own, fun here => ?_⟩
          obtain ⟨document, member, same, _⟩ := lints here
          exact (inHand ⟨here, document, member, same⟩).elim
        · intro done here
          refine ⟨fun document member own => (inHand ⟨here, document, member, own⟩).elim, ?_⟩
          rw [sent, noted.continues.published]
          exact (done here).2
  · have other (entries : Table Json) : payload ≠ .obj entries :=
      fun same => mapping ⟨entries, same⟩
    obtain ⟨noted, steps⟩ := Notification.begin_other server.now server.world other
    rw [steps]
    exact renew [] dutiful sound filed nothing trivial noted (by simp) (fun _ => nofun)

/-- Whatever arrives from an orderly editor in a settled state is attended to. -/
theorem receive (attends : server.Attends launched watched client) (sound : server.Sound)
    (filed : server.world.Filed) (settled : Settled server) (orderly : client.Orderly input)
    (plain : client.PlainAt watched input)
    : (server.receive input).Attends launched watched (client.send input) := by
  have nothing : server.agenda.ready = [] := settled.ready
  cases attends with
  | called message alone =>
      rw [nothing] at alone
      cases alone
  | going noHandler dutiful =>
      have aside (about : input.about? = none) (world : World)
          (received : server.receive input = { server with world })
          : (server.receive input).Attends launched watched (client.send input) := by
        have renewed := renew [] dutiful sound filed nothing orderly
          (.refl (server.receive input).world) (by simp) (by simp [about])
        refine .going ?_ ?_
        · rw [received]
          exact noHandler
        · rw [received] at renewed ⊢
          exact renewed
      cases input with
      | initialized root options => exact orderly.elim
      | configured payload => exact receive_configured dutiful sound filed nothing payload plain
      | codeAction | tool => exact aside rfl _ rfl
      | advance duration => exact aside rfl server.world rfl
      | opened | changed | saved | closed =>
          exact receive_about dutiful sound filed nothing orderly rfl

end Server.Attends

end EditorLint.Session
