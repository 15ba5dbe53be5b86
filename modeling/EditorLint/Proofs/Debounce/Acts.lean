import EditorLint.Proofs.Debounce.Requests
import Mathlib.Data.List.Basic

/-! What is done with a debouncer from outside, seen by some of its tasks of which at most one has
not ended: the tasks of one document, or a single task. What they do then depends on where that one
stands, on the clock, and on the requests for its document.
-/

namespace EditorLint.Debounce

variable {κ σ μ ι ε : Type}

/-- How long an act lasts. -/
def Act.duration : Act μ → Time
  | .request _ => 0
  | .advance duration => duration

/-- How long some acts last together. -/
def elapsed : List (Act μ) → Time
  | [] => 0
  | first :: rest => first.duration + elapsed rest

@[simp]
theorem elapsed_request (request : μ) (rest : List (Act μ))
    : elapsed (.request request :: rest) = elapsed rest :=
  Nat.zero_add _

@[simp]
theorem elapsed_advance (duration : Time) (rest : List (Act μ))
    : elapsed (.advance duration :: rest) = duration + elapsed rest :=
  rfl

/-- Acts that are done one after the other last as long as both together, by induction. -/
theorem elapsed_append (acts more : List (Act μ))
    : elapsed (acts ++ more) = elapsed acts + elapsed more := by
  induction acts with
  | nil => exact (Nat.zero_add _).symm
  | cons first rest ih => rw [List.cons_append, elapsed, elapsed, ih, Nat.add_assoc]

/-- The documents of the tasks that a request creates. -/
def Request.documents : Request κ → List String
  | .schedule uri _ _ => [uri]
  | .cancel _ => []

/-- The documents of the tasks that an act creates. -/
def Act.documents : Act (Request κ) → List String
  | .request asked => asked.documents
  | .advance _ => []

namespace Manager

/-- Of some tasks at most one has not ended. That one stands somewhere, or all have ended. -/
def StandAs {ω : Type} (m : Manager ω κ σ μ ι) (own : Nat → Bool) : Standing κ σ → Prop
  | none => ∀ id, own id → m.Stands id none
  | some place =>
    ∃ id,
      own id
      ∧ m.Stands id (some place)
      ∧ ∀ other, own other → other ≠ id → m.Stands other none

-----------------------------------------------------------------------------------------
-- Events of some tasks
-----------------------------------------------------------------------------------------

/-- Some tasks have left nothing if each of them has left nothing. -/
theorem eventsOf_eq_nil {own : Nat → Bool} {record : List (Option Nat × ε)}
    (none : ∀ id, own id → eventsOf (· == id) record = [])
    : eventsOf own record = [] := by
  simp only [eventsOf, List.filterMap_eq_nil_iff] at none ⊢
  intro entry member
  obtain ⟨mover, event⟩ := entry
  cases mover with
  | none => rfl
  | some id =>
      cases isOwn : own id with
      | false => simp [isOwn]
      | true => simpa using none id isOwn _ member

/-- If of some tasks all but one have left nothing, they have left what that one has. -/
theorem eventsOf_eq_of_only {own : Nat → Bool} {record : List (Option Nat × ε)} {id : Nat}
    (isOwn : own id) (none : ∀ other, own other → other ≠ id → eventsOf (· == other) record = [])
    : eventsOf own record = eventsOf (· == id) record := by
  apply List.filterMap_congr
  intro entry member
  obtain ⟨mover, event⟩ := entry
  cases mover with
  | none => rfl
  | some other =>
      by_cases same : other = id
      · simp [same, isOwn]
      · cases also : own other with
        | false => simp [also, same]
        | true =>
            have impossible := none other also same
            simp only [eventsOf, List.filterMap_eq_nil_iff] at impossible
            simpa using impossible _ member

variable {host : Host (List ε) κ σ (Request κ) (Request κ)} {limit : Time}
  {m : Manager (List ε) κ σ (Request κ) (Request κ)} {own : Nat → Bool}
  {standing : Standing κ σ}

/-- Tasks that stand where others stood stand so together. -/
theorem StandAs.mono {other : Manager (List ε) κ σ (Request κ) (Request κ)}
    (stood : m.StandAs own standing)
    (kept : ∀ {id : Nat} {place : Standing κ σ}, own id → m.Stands id place → other.Stands id place)
    : other.StandAs own standing := by
  cases standing with
  | none => exact fun id isOwn => kept isOwn (stood id isOwn)
  | some place =>
      obtain ⟨id, isOwn, stands, others⟩ := stood
      exact ⟨id, isOwn, kept isOwn stands, fun _ also apart => kept also (others _ also apart)⟩

/-- In a run while no handler is under way, tasks of which at most one has not ended do what that
one does by itself.
-/
theorem Ran.standAs {record : List (Option Nat × ε)}
    {last : Manager (List ε) κ σ (Request κ) (Request κ)} (ran : Ran host limit m record last)
    (stood : m.StandAs own standing)
    : ∃ final,
        last.StandAs own final ∧ host.Alone limit standing (eventsOf own record) final := by
  have ended {id : Nat} (before : m.Stands id none)
      : last.Stands id none ∧ eventsOf (· == id) record = [] := by
    obtain ⟨final, stands, alone⟩ := ran.alone before
    obtain ⟨none, rfl⟩ := alone.unique .ended
    exact ⟨stands, none⟩
  cases standing with
  | none =>
      refine ⟨none, fun id isOwn => (ended (stood id isOwn)).1, ?_⟩
      rw [eventsOf_eq_nil fun id isOwn => (ended (stood id isOwn)).2]
      exact .ended
  | some place =>
      obtain ⟨id, isOwn, stands, others⟩ := stood
      obtain ⟨final, rests, alone⟩ := ran.alone stands
      rw [eventsOf_eq_of_only isOwn fun other also apart => (ended (others other also apart)).2]
      refine ⟨final, ?_, alone⟩
      cases final with
      | some place =>
          exact ⟨id, isOwn, rests, fun other also apart => (ended (others other also apart)).1⟩
      | none =>
          intro other also
          by_cases same : other = id
          · exact same ▸ rests
          · exact (ended (others other also same)).1

-----------------------------------------------------------------------------------------
-- Acts
-----------------------------------------------------------------------------------------

/-- What is done for a request moves no clock. -/
theorem now_carryOut (m : Manager (List ε) κ σ (Request κ) (Request κ)) (request : Request κ)
    : (m.carryOut request).now = m.now := by
  cases request <;> rfl

theorem documents_carryOut (m : Manager (List ε) κ σ (Request κ) (Request κ))
    (request : Request κ)
    : (m.carryOut request).documents = m.documents ++ request.documents := by
  cases request with
  | schedule uri job delay => exact List.map_append
  | cancel uri => exact (List.append_nil _).symm

/-- After a request the unfinished task of its document ends; then what is asked is done, and all
tasks do what they do by themselves.
-/
theorem Idle.ran_request (idle : m.Idle) (separate : host.Separate) (bounded : host.Bounded)
    (request : Request κ)
    : ∃ events mid rest,
        Cleared host m (m.unfinished? request.uri) events mid
        ∧ m.record host (.request request) = events.map (m.unfinished? request.uri, ·) ++ rest
        ∧ Ran host m.now (mid.carryOut request) rest (m.act host (.request request)) := by
  obtain ⟨events, mid, rest, cleared, parts, consistent, runs⟩ :=
    idle.request_runs separate (idle.runs_request separate bounded request)
  have within : (mid.carryOut request).now ≤ m.now :=
    Nat.le_of_eq ((now_carryOut mid request).trans cleared.now)
  exact ⟨events, mid, rest, cleared, parts, runs.ran separate (cleared.calm consistent) within⟩

/-- While time passes all tasks do what they do by themselves. -/
theorem Idle.ran_advance (idle : m.Idle) (separate : host.Separate) (bounded : host.Bounded)
    (duration : Time)
    : Ran host (m.now + duration) m (m.record host (.advance duration))
        (m.runUntil host (m.now + duration)) :=
  (idle.runs_advance separate bounded duration).ran separate idle.calm
    (Nat.le_add_right m.now duration)

/-- The clock may pass to the time until which a run has gone. -/
theorem Ran.passTo {record : List (Option Nat × ε)}
    {last : Manager (List ε) κ σ (Request κ) (Request κ)} (ran : Ran host limit m record last)
    : ({ last with agenda := last.agenda.passTo limit } : Manager _ _ _ _ _).Idle
      ∧ ({ last with agenda := last.agenda.passTo limit } : Manager _ _ _ _ _).now = limit := by
  obtain ⟨ahead, quiet⟩ := ran.calm.ahead.passTo ran.quiet
  have consistent := ran.calm.consistent.passTo limit
  exact ⟨⟨⟨consistent, ahead, ran.calm.free, ran.calm.tasks, ran.calm.steady⟩, quiet⟩,
    Nat.max_eq_right ran.within⟩

/-- Tasks stand where they stood when the clock passes. -/
theorem Ran.stands_passTo {record : List (Option Nat × ε)}
    {last : Manager (List ε) κ σ (Request κ) (Request κ)} (ran : Ran host limit m record last)
    {id : Nat} {place : Standing κ σ} (stands : last.Stands id place)
    : ({ last with agenda := last.agenda.passTo limit } : Manager _ _ _ _ _).Stands id place := by
  cases place with
  | none => exact stands
  | some place =>
      obtain ⟨going, found, planned⟩ := stands
      refine ⟨going, found, ?_⟩
      simpa [Agenda.plan, Agenda.passTo, ran.quiet.ready] using planned

/-- After an act again nothing is left to do, and the clock has moved by what the act lasts. -/
theorem Idle.act (idle : m.Idle) (separate : host.Separate) (bounded : host.Bounded)
    (first : Act (Request κ))
    : (m.act host first).Idle
      ∧ (m.act host first).now = m.now + first.duration
      ∧ (m.act host first).documents = m.documents ++ first.documents := by
  cases first with
  | request request =>
      obtain ⟨events, mid, rest, cleared, _, ran⟩ := idle.ran_request separate bounded request
      have onward := ran.onward
      rw [now_carryOut, cleared.now] at onward
      have still : (m.act host (.request request)).now = m.now :=
        Nat.le_antisymm ran.within onward
      have documents := ran.documents
      rw [documents_carryOut, cleared.documents] at documents
      exact ⟨⟨ran.calm, still ▸ ran.quiet⟩, still, documents⟩
  | advance duration =>
      have ran := idle.ran_advance separate bounded duration
      obtain ⟨idle, now⟩ := ran.passTo
      exact ⟨idle, now, ran.documents.trans (List.append_nil _).symm⟩

/-- Acts create tasks for the documents for which they schedule jobs, by induction over them. -/
theorem Idle.documents_afterAll (separate : host.Separate) (bounded : host.Bounded)
    (acts : List (Act (Request κ))) {m : Manager (List ε) κ σ (Request κ) (Request κ)}
    (idle : m.Idle)
    : (m.afterAll host acts).documents = m.documents ++ acts.flatMap Act.documents := by
  induction acts generalizing m with
  | nil => exact (List.append_nil _).symm
  | cons first rest ih =>
      obtain ⟨still, _, documents⟩ := idle.act separate bounded first
      rw [afterAll, List.foldl_cons, ← afterAll, ih still, documents, List.flatMap_cons,
        List.append_assoc]

/-- A debouncer for which nothing has happened yet has nothing to do. -/
theorem Idle.fresh {ω : Type} (world : ω)
    : ({ world } : Manager ω κ σ (Request κ) (Request κ)).Idle where
  calm := {
    consistent := .fresh world
    ahead := ⟨.nil, fun _ => nofun⟩
    free := rfl
    tasks := fun _ => nofun
    steady := nofun
  }
  quiet := rfl

/-- Acts move the clock by what they last, and leave nothing to do, by induction over them. -/
theorem Idle.afterAll (separate : host.Separate) (bounded : host.Bounded)
    (acts : List (Act (Request κ))) {m : Manager (List ε) κ σ (Request κ) (Request κ)}
    (idle : m.Idle)
    : (m.afterAll host acts).Idle ∧ (m.afterAll host acts).now = m.now + elapsed acts := by
  induction acts generalizing m with
  | nil => exact ⟨idle, rfl⟩
  | cons first rest ih =>
      obtain ⟨still, now, _⟩ := idle.act separate bounded first
      obtain ⟨last, later⟩ := ih still
      refine ⟨last, later.trans ?_⟩
      rw [now, Nat.add_assoc]
      rfl

theorem chronicle_append (m : Manager (List ε) κ σ (Request κ) (Request κ))
    (acts more : List (Act (Request κ)))
    : m.chronicle host (acts ++ more)
      = m.chronicle host acts ++ (m.afterAll host acts).chronicle host more := by
  induction acts generalizing m with
  | nil => rfl
  | cons first rest ih =>
      simp only [List.cons_append, chronicle, ih, List.append_assoc]
      rfl

/-- What is in a chronicle is what has been added to the past, by induction over the acts. -/
theorem Idle.world_afterAll (separate : host.Separate) (bounded : host.Bounded)
    (acts : List (Act (Request κ))) {m : Manager (List ε) κ σ (Request κ) (Request κ)}
    (idle : m.Idle)
    : (m.afterAll host acts).world = m.world ++ (m.chronicle host acts).map (·.2) := by
  induction acts generalizing m with
  | nil => exact (List.append_nil _).symm
  | cons first rest ih =>
      obtain ⟨still, _⟩ := idle.act separate bounded first
      have left : (m.act host first).world = m.world ++ (m.record host first).map (·.2) := by
        cases first with
        | request request => exact (idle.runs_request separate bounded request).world
        | advance duration => exact (idle.runs_advance separate bounded duration).world
      have rest : ((m.act host first).afterAll host rest).world = _ := ih still
      rw [left, List.append_assoc, ← List.map_append] at rest
      exact rest

/-- Where nothing is left to do, tasks leave nothing until the clock moves on. -/
theorem Idle.alone_nil (idle : m.Idle) {own : Nat → Bool} {standing : Standing κ σ}
    (stood : m.StandAs own standing)
    : host.Alone m.now standing [] standing := by
  cases standing with
  | none => exact .ended
  | some place =>
      obtain ⟨_, _, ⟨_, _, planned⟩, _⟩ := stood
      exact .later (idle.quiet.planned idle.calm.ahead _ planned)

/-- While time passes, tasks of which at most one has not ended do what that one does by itself. -/
theorem Idle.standAs_advance (idle : m.Idle) (separate : host.Separate) (bounded : host.Bounded)
    (stood : m.StandAs own standing) (duration : Time)
    : ∃ final,
        (m.act host (.advance duration)).StandAs own final
        ∧ host.Alone (m.now + duration) standing
            (eventsOf own (m.record host (.advance duration))) final := by
  have ran := idle.ran_advance separate bounded duration
  obtain ⟨final, stands, alone⟩ := ran.standAs stood
  exact ⟨final, stands.mono fun _ => ran.stands_passTo, alone⟩

-----------------------------------------------------------------------------------------
-- Requests
-----------------------------------------------------------------------------------------

/-- Some tasks are all of one document. -/
def Belong (m : Manager (List ε) κ σ (Request κ) (Request κ)) (own : Nat → Bool) (uri : String)
    : Prop :=
  ∀ {id : Nat} {document : String},
    own id → m.documents[id]? = some document → document = uri

/-- The task that a request creates, if it does, is one of the document of the request. -/
theorem document_of_new (m : Manager (List ε) κ σ (Request κ) (Request κ)) {request : Request κ}
    {now : Time} {place : Time × Stage κ σ} (created : request.standing now = some place)
    (more : List String)
    : (m.documents ++ (request.documents ++ more))[m.tasks.length]? = some request.uri := by
  rw [← m.length_documents]
  cases request with
  | schedule uri job delay =>
      rw [List.getElem?_append_right (Nat.le_refl _), Nat.sub_self]
      rfl
  | cancel uri => cases created

/-- The unfinished task of a document is one of that document. -/
theorem document_of_unfinished (consistent : m.Consistent .free) {uri : String} {id : Nat}
    (unfinished : m.unfinished? uri = some id)
    : m.documents[id]? = some uri := by
  obtain ⟨task, found, rfl⟩ := consistent.known (unfinished?_eq_some_iff.mp unfinished).1
  simp [documents, found]

/-- A task that stands anywhere is the unfinished one of its document. -/
theorem Stands.unfinished? (consistent : m.Consistent .free) {id : Nat} {place : Time × Stage κ σ}
    (stands : m.Stands id (some place))
    : ∃ uri, m.documents[id]? = some uri ∧ m.unfinished? uri = some id := by
  have unfinished := stands.hasEnded
  obtain ⟨task, found, going⟩ := hasEnded_eq_false_iff.mp unfinished
  refine ⟨task.uri, by simp [documents, found], unfinished?_eq_some_iff.mpr ?_⟩
  exact ⟨consistent.table found going, unfinished⟩

variable {uri : String} {request : Request κ}

/-- Of some tasks of a document, all but its unfinished one have ended. -/
theorem Belong.stands_none (belong : m.Belong own uri) (consistent : m.Consistent .free)
    {id : Nat} (isOwn : own id) (notIt : m.unfinished? uri ≠ some id)
    : m.Stands id none := by
  obtain ⟨standing, stands⟩ := exists_stands consistent id
  cases standing with
  | none => exact stands
  | some place =>
      obtain ⟨document, there, unfinished⟩ := stands.unfinished? consistent
      obtain rfl := belong isOwn there
      exact (notIt unfinished).elim

/-- No task is created when one ends. -/
theorem Cleared.length {old : Option Nat} {events : List ε}
    {mid : Manager (List ε) κ σ (Request κ) (Request κ)} (cleared : Cleared host m old events mid)
    : mid.tasks.length = m.tasks.length := by
  rw [← length_documents, cleared.documents, length_documents]

/-- What some tasks of a document leave when its unfinished task is cancelled. -/
theorem Cleared.eventsOf_map {old : List ε} {mid : Manager (List ε) κ σ (Request κ) (Request κ)}
    (cleared : Cleared host m (m.unfinished? uri) old mid) (consistent : m.Consistent .free)
    (belong : m.Belong own uri) (stood : m.StandAs own standing)
    : eventsOf own (old.map (m.unfinished? uri, ·)) = host.leave m.now standing := by
  rw [Manager.eventsOf_map]
  cases standing with
  | some place =>
      obtain ⟨id, isOwn, stands, _⟩ := stood
      obtain ⟨document, there, unfinished⟩ := stands.unfinished? consistent
      obtain rfl := belong isOwn there
      rw [unfinished, Option.any_some, if_pos isOwn]
      exact cleared.left unfinished stands
  | none =>
      cases unfinished : m.unfinished? uri with
      | none => rfl
      | some id =>
          rw [Option.any_some]
          split
          next isOwn => exact cleared.left unfinished (stood id isOwn)
          next => rfl

/-- When a request for a document is done, of some tasks that have ended at most a new one has not.
-/
theorem standAs_carryOut (ended : ∀ id, own id → m.Stands id none) (request : Request κ)
    : (m.carryOut request).StandAs own
        (if own m.tasks.length then request.standing m.now else none) := by
  have kept {id : Nat} (isOwn : own id) (old : id ≠ m.tasks.length)
      : (m.carryOut request).Stands id none :=
    (ended id isOwn).carryOut request old
  have new := stands_carryOut_length m request
  split
  next isOwn =>
    cases created : (request.standing m.now : Standing κ σ) with
    | some place =>
        rw [created] at new
        exact ⟨_, isOwn, new, fun _ also apart => kept also apart⟩
    | none =>
        rw [created] at new
        intro id also
        by_cases same : id = m.tasks.length
        · exact same ▸ new
        · exact kept also same
  next notOwn =>
    intro id isOwn
    exact kept isOwn fun same => notOwn (same ▸ isOwn)

/-- After a request for their document, some tasks of it leave what the unfinished one leaves when
it is cancelled, and then what the new one does by itself, if it is one of them.
-/
theorem Idle.standAs_request_own (idle : m.Idle) (separate : host.Separate)
    (bounded : host.Bounded) (stood : m.StandAs own standing) (belong : m.Belong own request.uri)
    : ∃ events final,
        eventsOf own (m.record host (.request request)) = host.leave m.now standing ++ events
        ∧ (m.act host (.request request)).StandAs own final
        ∧ host.Alone m.now (if own m.tasks.length then request.standing m.now else none) events
            final := by
  obtain ⟨old, mid, rest, cleared, parts, ran⟩ := idle.ran_request separate bounded request
  have consistent := idle.calm.consistent
  have ended (id : Nat) (isOwn : own id) : mid.Stands id none := by
    by_cases it : m.unfinished? request.uri = some id
    · exact cleared.gone it
    · exact cleared.others it (belong.stands_none consistent isOwn it)
  have begun := standAs_carryOut ended request
  rw [cleared.length, cleared.now] at begun
  obtain ⟨final, stands, alone⟩ := ran.standAs begun
  refine ⟨_, final, ?_, stands, alone⟩
  rw [parts, eventsOf_append, cleared.eventsOf_map consistent belong stood]

/-- A request for another document makes no difference to the tasks of a document. -/
theorem Idle.standAs_request_other (idle : m.Idle) (separate : host.Separate)
    (bounded : host.Bounded) (stood : m.StandAs own standing) (belong : m.Belong own uri)
    (apart : request.uri ≠ uri)
    (fresh : own m.tasks.length → (request.standing m.now : Standing κ σ) = none)
    : ∃ final,
        (m.act host (.request request)).StandAs own final
        ∧ host.Alone m.now standing (eventsOf own (m.record host (.request request))) final := by
  obtain ⟨old, mid, rest, cleared, parts, ran⟩ := idle.ran_request separate bounded request
  have notOwn {id : Nat} (it : m.unfinished? request.uri = some id) : own id = false := by
    apply Bool.of_not_eq_true
    intro isOwn
    exact apart (belong isOwn (document_of_unfinished idle.calm.consistent it))
  have nothing : eventsOf own (old.map (m.unfinished? request.uri, ·)) = [] := by
    rw [Manager.eventsOf_map]
    cases it : m.unfinished? request.uri with
    | none => rfl
    | some id => rw [Option.any_some, notOwn it, if_neg Bool.false_ne_true]
  have begun : (mid.carryOut request).StandAs own standing := by
    apply stood.mono
    intro id place isOwn stands
    have still : mid.Stands id place := by
      apply cleared.others ?_ stands
      intro it
      rw [notOwn it] at isOwn
      cases isOwn
    by_cases new : id = mid.tasks.length
    · subst new
      cases place with
      | some place =>
          obtain ⟨_, ⟨task, found, _⟩, _⟩ := still
          simp at found
      | none =>
          have created := stands_carryOut_length mid request
          rwa [cleared.now, fresh (cleared.length ▸ isOwn)] at created
    · exact still.carryOut request new
  obtain ⟨final, stands, alone⟩ := ran.standAs begun
  refine ⟨final, stands, ?_⟩
  rwa [parts, eventsOf_append, nothing, List.nil_append]

end Manager

end EditorLint.Debounce
