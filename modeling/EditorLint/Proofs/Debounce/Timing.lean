import EditorLint.Proofs.Debounce.Acts

/-! When the function of a call runs. It does by itself what it does from the call on, until the
next call for its document; there it is cancelled where it stands.
-/

namespace EditorLint.Debounce

variable {κ σ ε : Type}

/-- When the first call for a document comes among some acts, the first of which is done at an
instant.
-/
def firstCall? (uri : String) (now : Time) : List (Act (Request κ)) → Option Time
  | [] => none
  | .request asked :: rest => if asked.uri = uri then some now else firstCall? uri now rest
  | .advance duration :: rest => firstCall? uri (now + duration) rest

/-- A call comes while the acts last, and not before them, by induction over them. -/
theorem firstCall?_within {uri : String} {now stop : Time} {acts : List (Act (Request κ))}
    (call : firstCall? uri now acts = some stop)
    : now ≤ stop ∧ stop ≤ now + elapsed acts := by
  induction acts generalizing now with
  | nil => cases call
  | cons first rest ih =>
      cases first with
      | request asked =>
          rw [elapsed_request]
          rw [firstCall?] at call
          split at call
          · obtain rfl := Option.some.inj call
            exact ⟨Nat.le_refl _, Nat.le_add_right _ _⟩
          · exact ih call
      | advance duration =>
          obtain ⟨later, soon⟩ := ih call
          rw [elapsed_advance, ← Nat.add_assoc]
          exact ⟨Nat.le_trans (Nat.le_add_right _ _) later, soon⟩

/-- Until the first call for a document no time runs backwards. -/
theorem le_firstCall?_getD (uri : String) (now : Time) (acts : List (Act (Request κ)))
    : now ≤ (firstCall? uri now acts).getD (now + elapsed acts) := by
  cases call : firstCall? uri now acts with
  | none => exact Nat.le_add_right _ _
  | some stop => exact (firstCall?_within call).1

namespace Host

/-- What a task leaves that does what it does by itself until it is cancelled where it stands, or
until an instant if nobody cancels it.
-/
inductive Lives {μ ι : Type} (host : Host (List ε) κ σ μ ι) (limit : Time)
    : Option Time → Standing κ σ → List ε → Prop
  | undisturbed {standing events last} (alone : host.Alone limit standing events last)
    : Lives host limit none standing events
  | cancelled {stop standing events last} (alone : host.Alone stop standing events last)
    : Lives host limit (some stop) standing (events ++ host.leave stop last)

/-- What a task does by itself before it is cancelled comes first. -/
theorem Alone.lives {μ ι : Type} {host : Host (List ε) κ σ μ ι} {now limit : Time}
    {stop : Option Time} {first last : Standing κ σ} {events more : List ε}
    (alone : host.Alone now first events last) (within : now ≤ stop.getD limit)
    (lives : host.Lives limit stop last more)
    : host.Lives limit stop first (events ++ more) := by
  cases lives with
  | undisturbed further => exact .undisturbed (alone.trans within further)
  | cancelled further =>
      rw [← List.append_assoc]
      exact .cancelled (alone.trans within further)

/-- A task that has ended leaves nothing. -/
theorem Lives.eq_nil {μ ι : Type} {host : Host (List ε) κ σ μ ι} {limit : Time}
    {stop : Option Time} {events : List ε} (lives : host.Lives limit stop none events)
    : events = [] := by
  cases lives with
  | undisturbed alone => exact (alone.unique .ended).1
  | cancelled alone =>
      obtain ⟨rfl, rfl⟩ := alone.unique .ended
      rfl

end Host

namespace Manager

variable {host : Host (List ε) κ σ (Request κ) (Request κ)}
  {m : Manager (List ε) κ σ (Request κ) (Request κ)}

/-- A task that is not there yet has ended. -/
theorem standAs_absent {ω : Type} {m : Manager ω κ σ (Request κ) (Request κ)} {id : Nat}
    (absent : m.tasks.length ≤ id)
    : m.StandAs (· == id) none := by
  intro place own
  obtain rfl : place = id := by simpa using own
  simp [Stands, hasEnded, List.getElem?_eq_none absent]

/-- A task belongs to its document, if it has one. -/
theorem belong_single {id : Nat} {uri : String}
    (same : ∀ document, m.documents[id]? = some document → document = uri)
    : m.Belong (· == id) uri := by
  intro place document own there
  obtain rfl : place = id := by simpa using own
  exact same document there

/-- A task that is not there yet can belong to any document. -/
theorem belong_absent {id : Nat} (uri : String) (absent : m.tasks.length ≤ id)
    : m.Belong (· == id) uri := by
  apply belong_single
  intro document there
  have inside := (List.getElem?_eq_some_iff.mp there).1
  rw [length_documents] at inside
  exact absurd inside (Nat.not_lt.mpr absent)

/-- A task that is not there when some acts have been done has left nothing, by induction over
them.
-/
theorem Idle.eventsOf_absent (separate : host.Separate) (bounded : host.Bounded)
    (acts : List (Act (Request κ))) {m : Manager (List ε) κ σ (Request κ) (Request κ)}
    (idle : m.Idle) {id : Nat} (absent : (m.afterAll host acts).documents.length ≤ id)
    : eventsOf (· == id) (m.chronicle host acts) = [] := by
  induction acts generalizing m with
  | nil => rfl
  | cons first rest ih =>
      obtain ⟨still, _, documents⟩ := idle.act separate bounded first
      have left : eventsOf (· == id) ((m.act host first).chronicle host rest) = [] := ih still absent
      have every := idle.documents_afterAll separate bounded (first :: rest)
      rw [every] at absent
      have later : m.tasks.length ≤ id := by
        rw [List.length_append, length_documents] at absent
        exact Nat.le_trans (Nat.le_add_right _ _) absent
      have stood : m.StandAs (· == id) (none : Standing κ σ) := standAs_absent later
      rw [chronicle, eventsOf_append, left, List.append_nil]
      cases first with
      | advance duration =>
          obtain ⟨_, _, alone⟩ := idle.standAs_advance separate bounded stood duration
          exact (alone.unique .ended).1
      | request request =>
          obtain ⟨events, _, same, _, alone⟩ :=
            idle.standAs_request_own separate bounded stood (belong_absent _ later)
          have fresh : (if m.tasks.length == id then request.standing m.now else none)
              = (none : Standing κ σ) := by
            cases created : (request.standing m.now : Standing κ σ) with
            | none => exact ite_self _
            | some place =>
                have new := m.document_of_new created (rest.flatMap Act.documents)
                have inside := Nat.lt_of_lt_of_le (List.getElem?_eq_some_iff.mp new).1 absent
                exact if_neg (by simpa using Nat.ne_of_lt inside)
          rw [fresh] at alone
          rw [same, (alone.unique .ended).1]
          rfl

/-- Until the next call for its document a task does what it does by itself, and there it is
cancelled where it stands, by induction over the acts.
-/
theorem Idle.lives (separate : host.Separate) (bounded : host.Bounded)
    (acts : List (Act (Request κ))) {m : Manager (List ε) κ σ (Request κ) (Request κ)}
    (idle : m.Idle) {id : Nat} {uri : String} {standing : Standing κ σ}
    (document : m.documents[id]? = some uri) (stood : m.StandAs (· == id) standing)
    : host.Lives (m.now + elapsed acts) (firstCall? uri m.now acts) standing
        (eventsOf (· == id) (m.chronicle host acts)) := by
  induction acts generalizing m standing with
  | nil => exact .undisturbed (idle.alone_nil stood)
  | cons first rest ih =>
      obtain ⟨still, now, documents⟩ := idle.act separate bounded first
      have there : id < m.documents.length := (List.getElem?_eq_some_iff.mp document).1
      have kept : (m.act host first).documents[id]? = some uri := by
        rw [documents, List.getElem?_append_left there, document]
      have goesOn {final : Standing κ σ} := @ih _ still final kept
      have belong : m.Belong (· == id) uri :=
        belong_single fun other also => Option.some.inj (also.symm.trans document)
      have old : (m.tasks.length == id) = false :=
        beq_eq_false_iff_ne.mpr (Nat.ne_of_gt (m.length_documents ▸ there))
      rw [now, Nat.add_assoc] at goesOn
      rw [chronicle, eventsOf_append]
      cases first with
      | advance duration =>
          obtain ⟨final, stands, alone⟩ := idle.standAs_advance separate bounded stood duration
          have within := le_firstCall?_getD uri (m.now + duration) rest
          rw [Nat.add_assoc] at within
          exact alone.lives within (goesOn stands)
      | request request =>
          by_cases same : request.uri = uri
          · subst same
            obtain ⟨events, final, left, stands, alone⟩ :=
              idle.standAs_request_own separate bounded stood belong
            rw [old, if_neg Bool.false_ne_true] at alone
            obtain ⟨rfl, rfl⟩ := alone.unique .ended
            rw [left, (goesOn stands).eq_nil, List.append_nil, List.append_nil, firstCall?,
              if_pos rfl]
            exact .cancelled (idle.alone_nil stood)
          · have fresh : (m.tasks.length == id) = true
                → (request.standing m.now : Standing κ σ) = none := by
              intro isOwn
              rw [old] at isOwn
              cases isOwn
            obtain ⟨final, stands, alone⟩ :=
              idle.standAs_request_other separate bounded stood belong same fresh
            have within := le_firstCall?_getD uri m.now rest
            rw [← elapsed_request request rest] at within
            rw [firstCall?, if_neg same]
            exact alone.lives within (goesOn stands)

/-- The function of a call does by itself what it does from the call on, until the first later call
for its document, and there it is cancelled where it stands.
-/
theorem Idle.lives_schedule (idle : m.Idle) (separate : host.Separate) (bounded : host.Bounded)
    (uri : String) (job : κ) (delay : Time) (rest : List (Act (Request κ)))
    : host.Lives (m.now + elapsed rest) (firstCall? uri m.now rest)
        (some (m.now, .created job delay))
        (eventsOf (· == m.tasks.length)
          (m.chronicle host (.request (.schedule uri job delay) :: rest))) := by
  have stood : m.StandAs (· == m.tasks.length) (none : Standing κ σ) :=
    standAs_absent (Nat.le_refl _)
  let request : Request κ := .schedule uri job delay
  have own : m.Belong (· == m.tasks.length) request.uri := belong_absent uri (Nat.le_refl _)
  obtain ⟨events, final, left, stands, alone⟩ :=
    idle.standAs_request_own separate bounded stood own
  obtain ⟨still, now, documents⟩ := idle.act separate bounded (.request request)
  have document : (m.act host (.request request)).documents[m.tasks.length]? = some uri := by
    rw [documents, ← m.length_documents]
    exact List.getElem?_concat_length
  have goesOn := still.lives separate bounded rest document stands
  have same : m.now + (Act.request request).duration = m.now := rfl
  rw [now, same] at goesOn
  rw [beq_self_eq_true, if_pos rfl] at alone
  rw [chronicle, eventsOf_append, left]
  exact alone.lives (le_firstCall?_getD uri m.now rest) goesOn

end Manager

end EditorLint.Debounce
