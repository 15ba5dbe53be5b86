import EditorLint.Proofs.Debounce.Calm

/-! What comes of what is done with a debouncer from outside, one thing after the other, each when
nothing is left to do before the clock moves on. A chronicle has all events, each with the task
whose turn has left it.
-/

namespace EditorLint.Debounce

variable {κ σ μ ι ε : Type}

namespace Manager

section Records

variable (host : Host (List ε) κ σ μ ι)

/-- The events of the turns that a run takes, each with the task whose turn it was. -/
def recordFor (limit : Time) : Nat → Manager (List ε) κ σ μ ι → List (Option Nat × ε)
  | 0, _ => []
  | fuel + 1, m =>
    match m.agenda.next? limit with
    | none => []
    | some (turn, agenda) =>
      let after := { m with agenda }.take host turn
      (after.world.drop m.world.length).map (turn.task?, ·) ++ recordFor limit fuel after

/-- The events of the turns that are taken after an act. -/
def record (m : Manager (List ε) κ σ μ ι) : Act μ → List (Option Nat × ε)
  | .request message =>
    recordFor host m.now ((m.deliver message).turnsLeft host) (m.deliver message)
  | .advance duration => recordFor host (m.now + duration) (m.turnsLeft host) m

/-- The events of the turns that are taken after each of some acts. -/
def chronicle (m : Manager (List ε) κ σ μ ι) : List (Act μ) → List (Option Nat × ε)
  | [] => []
  | first :: rest => m.record host first ++ chronicle (m.act host first) rest

/-- The debouncer after some acts. -/
def afterAll (m : Manager (List ε) κ σ μ ι) (acts : List (Act μ)) : Manager (List ε) κ σ μ ι :=
  acts.foldl (act host) m

end Records

/-- Nothing is left to do before the clock moves on. -/
structure Idle {ω : Type} (m : Manager ω κ σ μ ι) : Prop where
  calm : m.Calm
  quiet : m.agenda.QuietAt m.now

end Manager

-----------------------------------------------------------------------------------------
-- Hosts that keep jobs apart
-----------------------------------------------------------------------------------------

namespace Host.Separate

variable {host : Host (List ε) κ σ (Request κ) (Request κ)}

/-- Events are only added. -/
theorem keeps (separate : host.Separate) (past : List ε)
    : host.Keeps (fun _ => True) fun world => ∃ events, world = past ++ events where
  start now job world before := by
    obtain ⟨events, rfl⟩ := before
    exact ⟨_, (congrArg Prod.fst (separate.start now job _)).trans (List.append_assoc _ _ _)⟩
  resume now state world _ before := by
    obtain ⟨events, rfl⟩ := before
    exact ⟨_, (congrArg Prod.fst (separate.resume now state _)).trans (List.append_assoc _ _ _)⟩
  interrupt now state world _ before := by
    obtain ⟨events, rfl⟩ := before
    exact ⟨_, (congrArg Prod.fst (separate.interrupt now state _)).trans (List.append_assoc _ _ _)⟩
  report now failure world before := by
    obtain ⟨events, rfl⟩ := before
    exact ⟨_, (separate.report now failure _).trans (List.append_assoc _ _ _)⟩
  begin now message world before := by
    rw [separate.begin]
    exact before
  request now step world before := by
    rw [separate.request]
    exact before
  finish now step world before := by
    rw [separate.finish]
    exact before

/-- A job that is cancelled waits for nothing. -/
theorem prompt (separate : host.Separate) : host.Prompt fun _ => False where
  interrupt {now state world duration next} waits := by
    rw [separate.interrupt now state world] at waits
    exact (separate.leaves now state duration next waits).elim
  resume impossible _ := impossible.elim

end Host.Separate

namespace Manager

variable {host : Host (List ε) κ σ (Request κ) (Request κ)} {limit : Time}
  {m : Manager (List ε) κ σ (Request κ) (Request κ)}

-----------------------------------------------------------------------------------------
-- Records of runs
-----------------------------------------------------------------------------------------

/-- With as much fuel as there are turns ahead, a run and its record go on until no turn is left,
by induction over the fuel.
-/
theorem runs_runFor (separate : host.Separate) (bounded : host.Bounded) (limit : Time) (fuel : Nat)
    {m : Manager (List ε) κ σ (Request κ) (Request κ)}
    (coherent : Coherent (fun _ => False) .free m) (enough : m.turnsLeft host ≤ fuel)
    : Runs host limit m (recordFor host limit fuel m) (m.runFor host limit fuel) := by
  induction fuel generalizing m with
  | zero =>
      cases stepped : m.step? host limit with
      | none => exact .quiet (Option.map_eq_none_iff.mp stepped)
      | some after =>
          have fewer := turnsLeft_step? bounded coherent stepped
          omega
  | succ fuel ih =>
      rw [runFor, recordFor]
      cases next : m.agenda.next? limit with
      | none =>
          simp only [step?, next, Option.map_none]
          exact .quiet next
      | some first =>
          obtain ⟨turn, agenda⟩ := first
          have stepped : m.step? host limit = some (take host { m with agenda } turn) :=
            Option.map_eq_some_iff.mpr ⟨_, next, rfl⟩
          obtain ⟨events, left⟩ :=
            (separate.keeps m.world).take (m := { m with agenda }) ⟨[], (List.append_nil _).symm⟩
              (fun _ _ => trivial) turn
          have fewer := turnsLeft_step? bounded coherent stepped
          have rest := ih (coherent.step? separate.prompt stepped) (by omega)
          simp only [stepped, left, List.drop_left]
          exact .turn next left rest

/-- What is in a record has been added to the past, by induction over the turns. -/
theorem Runs.world {record : List (Option Nat × ε)}
    {last : Manager (List ε) κ σ (Request κ) (Request κ)} (runs : Runs host limit m record last)
    : last.world = m.world ++ record.map (·.2) := by
  induction runs with
  | quiet => exact (List.append_nil _).symm
  | turn next left _ ih =>
      simp only [ih, left, List.map_append, List.map_map, Function.comp_def, List.map_id',
        List.append_assoc]

/-- A run begins with the next turn. -/
theorem Runs.next {record : List (Option Nat × ε)} {events : List ε}
    {last : Manager (List ε) κ σ (Request κ) (Request κ)}
    {turn : Turn κ (Request κ) (Request κ)}
    {agenda : Agenda (Turn κ (Request κ) (Request κ))} (runs : Runs host limit m record last)
    (next : m.agenda.next? limit = some (turn, agenda))
    (left : (take host { m with agenda } turn).world = m.world ++ events)
    : ∃ rest,
        record = events.map (turn.task?, ·) ++ rest
        ∧ Runs host limit (take host { m with agenda } turn) rest last := by
  cases runs with
  | quiet quiet => cases quiet.symm.trans next
  | turn first added rest =>
      obtain ⟨rfl, rfl⟩ := Prod.mk.inj (Option.some.inj (first.symm.trans next))
      obtain rfl := List.append_cancel_left (added.symm.trans left)
      exact ⟨_, rfl, rest⟩

/-- Where nothing is left to do, all parts fit together, and no one is on its way. -/
theorem Calm.coherent (calm : m.Calm) : Coherent (fun _ => False) .free m :=
  ⟨calm.consistent, onItsWay_of_nobody (calm.consistent.grips_eq_zero_of_free calm.free)⟩

/-- The record of a request is the one of a run from its arrival. -/
theorem Idle.runs_request (idle : m.Idle) (separate : host.Separate) (bounded : host.Bounded)
    (request : Request κ)
    : Runs host m.now (m.deliver request) (m.record host (.request request))
        (m.act host (.request request)) :=
  runs_runFor separate bounded m.now _ (idle.calm.coherent.deliver request) (Nat.le_refl _)

/-- The record of a while is the one of a run until its end. -/
theorem Idle.runs_advance (idle : m.Idle) (separate : host.Separate) (bounded : host.Bounded)
    (duration : Time)
    : Runs host (m.now + duration) m (m.record host (.advance duration))
        (m.runUntil host (m.now + duration)) :=
  runs_runFor separate bounded _ _ idle.calm.coherent (Nat.le_refl _)

end Manager

end EditorLint.Debounce
