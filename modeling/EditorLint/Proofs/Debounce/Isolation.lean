import EditorLint.Proofs.Debounce.Acts
import EditorLint.Proofs.Debounce.Scripted

/-! Documents do not get in each other's way. What the tasks of a document do, and when, follows
from the requests for that document and from the passing of time, and from nothing else.
-/

namespace EditorLint.Debounce

variable {κ σ ε : Type}

/-- Whether an act can make a difference to a document: time that passes, or a request for it. -/
def Act.concerns (uri : String) : Act (Request κ) → Bool
  | .request asked => asked.uri == uri
  | .advance _ => true

-----------------------------------------------------------------------------------------
-- The course of a document
-----------------------------------------------------------------------------------------

namespace Host

/-- What the tasks of a document leave while some acts are done one after the other. A request for
the document cancels its task where it stands, and another may take its place; while time passes a
task does what it does by itself; and requests for other documents do nothing.
-/
inductive Course (host : Host (List ε) κ σ (Request κ) (Request κ)) (uri : String)
    : Time → Standing κ σ → List (Act (Request κ)) → List ε → Prop
  | nil {now standing} : Course host uri now standing [] []
  | other {now standing request rest events} (apart : request.uri ≠ uri)
    (goesOn : Course host uri now standing rest events)
    : Course host uri now standing (.request request :: rest) events
  | own {now standing request events final rest more} (own : request.uri = uri)
    (alone : host.Alone now (request.standing now) events final)
    (goesOn : Course host uri now final rest more)
    : Course host uri now standing (.request request :: rest)
        (host.leave now standing ++ events ++ more)
  | advance {now standing duration events final rest more}
    (alone : host.Alone (now + duration) standing events final)
    (goesOn : Course host uri (now + duration) final rest more)
    : Course host uri now standing (.advance duration :: rest) (events ++ more)

namespace Course

variable {host : Host (List ε) κ σ (Request κ) (Request κ)} {uri : String} {now : Time}
  {standing : Standing κ σ} {acts : List (Act (Request κ))} {events others : List ε}

/-- The acts, the clock and where the task of the document stands leave no choice, by induction
over the acts.
-/
theorem unique (course : host.Course uri now standing acts events)
    (again : host.Course uri now standing acts others)
    : events = others := by
  induction course generalizing others with
  | nil =>
      cases again
      rfl
  | other apart _ ih =>
      cases again with
      | other _ goesOn => exact ih goesOn
      | own own => exact (apart own).elim
  | own own alone _ ih =>
      cases again with
      | other apart => exact (apart own).elim
      | own _ another goesOn =>
          obtain ⟨rfl, rfl⟩ := alone.unique another
          rw [ih goesOn]
  | advance alone _ ih =>
      cases again with
      | advance another goesOn =>
          obtain ⟨rfl, rfl⟩ := alone.unique another
          rw [ih goesOn]

/-- Without the requests for other documents all goes the same course, by induction over the acts.
-/
theorem filter (course : host.Course uri now standing acts events)
    : host.Course uri now standing (acts.filter (·.concerns uri)) events := by
  induction course with
  | nil => exact .nil
  | other apart _ ih =>
      rw [List.filter_cons_of_neg (by simpa [Act.concerns] using apart)]
      exact ih
  | own own alone _ ih =>
      rw [List.filter_cons_of_pos (by simpa [Act.concerns] using own)]
      exact .own own alone ih
  | advance alone _ ih =>
      rw [List.filter_cons_of_pos rfl]
      exact .advance alone ih

end Course

end Host

-----------------------------------------------------------------------------------------
-- The chronicle of a document
-----------------------------------------------------------------------------------------

namespace Manager

variable {host : Host (List ε) κ σ (Request κ) (Request κ)}
  {m : Manager (List ε) κ σ (Request κ) (Request κ)}

/-- The events of the tasks of a document, of those that a debouncer has after some acts. -/
def eventsFor (host : Host (List ε) κ σ (Request κ) (Request κ))
    (m : Manager (List ε) κ σ (Request κ) (Request κ)) (acts : List (Act (Request κ)))
    (uri : String) : List ε :=
  eventsOf (fun id => (m.afterAll host acts).documents[id]? == some uri)
    (m.chronicle host acts)

/-- Those tasks of a document that there are belong to it, however many are still to come. -/
theorem belong_documents (m : Manager (List ε) κ σ (Request κ) (Request κ)) (more : List String)
    (uri : String)
    : m.Belong (fun id => (m.documents ++ more)[id]? == some uri) uri := by
  intro id document isOwn there
  have later : (m.documents ++ more)[id]? = some document := by
    rw [List.getElem?_append_left (List.getElem?_eq_some_iff.mp there).1, there]
  simpa [later] using isOwn

/-- The tasks of a document go its course, by induction over the acts. -/
theorem Idle.course (separate : host.Separate) (bounded : host.Bounded) (uri : String)
    (acts : List (Act (Request κ))) {m : Manager (List ε) κ σ (Request κ) (Request κ)}
    (idle : m.Idle) {standing : Standing κ σ}
    (stood : m.StandAs (fun id => (m.afterAll host acts).documents[id]? == some uri) standing)
    : host.Course uri m.now standing acts (m.eventsFor host acts uri) := by
  induction acts generalizing m standing with
  | nil => exact .nil
  | cons first rest ih =>
      obtain ⟨still, now, _⟩ := idle.act separate bounded first
      have goesOn {final : Standing κ σ} := @ih _ still final
      have documents := idle.documents_afterAll separate bounded (first :: rest)
      rw [now] at goesOn
      rw [eventsFor, chronicle, eventsOf_append]
      rw [documents] at stood
      cases first with
      | advance duration =>
          obtain ⟨final, stands, alone⟩ := idle.standAs_advance separate bounded stood duration
          rw [← documents] at stands alone
          exact .advance alone (goesOn stands)
      | request request =>
          have belong := m.belong_documents (request.documents ++ rest.flatMap Act.documents)
          have new {place : Time × Stage κ σ} (created : request.standing m.now = some place) :=
            m.document_of_new created (rest.flatMap Act.documents)
          by_cases same : request.uri = uri
          · subst same
            obtain ⟨events, final, left, stands, alone⟩ :=
              idle.standAs_request_own separate bounded stood (belong _)
            rw [← documents] at left stands
            rw [left]
            refine .own rfl ?_ (goesOn stands)
            cases created : (request.standing m.now : Standing κ σ) with
            | none => simpa [created] using alone
            | some place => simpa [created, Act.documents, new created] using alone
          · have fresh : (m.documents ++ (request.documents ++ rest.flatMap Act.documents))[
                  m.tasks.length]? == some uri
                → (request.standing m.now : Standing κ σ) = none := by
              intro isOwn
              cases created : (request.standing m.now : Standing κ σ) with
              | none => rfl
              | some place => simp [new created, same] at isOwn
            obtain ⟨final, stands, alone⟩ :=
              idle.standAs_request_other separate bounded stood (belong uri) same fresh
            obtain ⟨nothing, rfl⟩ := alone.unique (idle.alone_nil stood)
            rw [← documents] at nothing stands
            rw [nothing]
            exact .other same (goesOn stands)

/-- Whatever is done for other documents, the tasks of a document leave the same events, at the
same times and in the same order, as if nothing had been done for the others.
-/
theorem eventsFor_filter_concerns (separate : host.Separate) (bounded : host.Bounded)
    (acts : List (Act (Request κ))) (uri : String)
    : eventsFor host { world := [] } acts uri
      = eventsFor host { world := [] } (acts.filter (·.concerns uri)) uri := by
  have idle : ({ world := [] } : Manager (List ε) κ σ (Request κ) (Request κ)).Idle := .fresh []
  have none (own : Nat → Bool)
      : ({ world := [] } : Manager (List ε) κ σ (Request κ) (Request κ)).StandAs own none :=
    fun _ _ => rfl
  have course := idle.course separate bounded uri acts (none _)
  have alone := idle.course separate bounded uri (acts.filter (·.concerns uri)) (none _)
  exact course.filter.unique alone

/-- A job at work is cancelled by the next one for its document, with jobs for another document
before, between and at the same times.
-/
theorem eventsFor_of_two_documents
    : let job (name : String) : ScriptedJob := ⟨name, some 3, none⟩
      let acts : List (Act (Request ScriptedJob)) :=
        [.request (.schedule "b" (job "other") 2), .request (.schedule "a" (job "old") 2),
          .advance 3, .request (.cancel "b"), .request (.schedule "a" (job "new") 0),
          .request (.schedule "b" (job "other") 0), .advance 5]
      ScriptedJob.host.Separate
      ∧ ScriptedJob.host.Bounded
      ∧ eventsFor ScriptedJob.host { world := [] } acts "a"
        = eventsFor ScriptedJob.host { world := [] } (acts.filter (·.concerns "a")) "a"
      ∧ eventsFor ScriptedJob.host { world := [] } acts "a"
        = [⟨2, .started "old"⟩, ⟨3, .cancelled "old"⟩, ⟨3, .started "new"⟩, ⟨6, .ended "new"⟩] :=
  ⟨ScriptedJob.host_separate, ScriptedJob.host_bounded,
    eventsFor_filter_concerns ScriptedJob.host_separate ScriptedJob.host_bounded _ "a",
    by decide⟩

end Manager

end EditorLint.Debounce
