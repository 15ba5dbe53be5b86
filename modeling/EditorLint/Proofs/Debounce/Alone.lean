import EditorLint.Debounce.Manager

/-! What a task does by itself, while nobody cancels it. Jobs that keep apart leave their events
behind those that are there and look at none of them, so that it depends on the task and on the
clock alone.
-/

namespace EditorLint.Debounce

variable {κ σ μ ι ε : Type}

/-- The jobs of a host keep apart: what a turn of one leaves and what follows from it does not
depend on what others have left, and one that is cancelled is over at once. The messages are the
requests themselves.
-/
structure Host.Separate (host : Host (List ε) κ σ (Request κ) (Request κ)) : Prop where
  start
    : ∀ now job past,
        host.start now job past = (past ++ (host.start now job []).1, (host.start now job []).2)
  resume
    : ∀ now state past,
        host.resume now state past
          = (past ++ (host.resume now state []).1, (host.resume now state []).2)
  interrupt
    : ∀ now state past,
        host.interrupt now state past
          = (past ++ (host.interrupt now state []).1, (host.interrupt now state []).2)
  report : ∀ now failure past, host.report now failure past = past ++ host.report now failure []
  leaves : ∀ now state duration next, (host.interrupt now state []).2 ≠ .wait duration next
  begin : ∀ now request past, host.begin now request past = (past, [request])
  request : ∀ now request past, host.request now request past = (past, some request)
  finish : ∀ now request past, host.finish now request past = past

/-- Where a task stands: when its next turn comes and in which stage the task is until then, or
nothing if it has ended.
-/
abbrev Standing (κ σ : Type) := Option (Time × Stage κ σ)

namespace Host

variable (host : Host (List ε) κ σ μ ι)

/-- What a turn of a job leaves, with what is reported of it, and where its task stands then. -/
def follow (now : Time) : List ε × Outcome σ → List ε × Standing κ σ
  | (events, .wait duration state) => (events, some (now + duration, .running state))
  | (events, .finished) | (events, .cancelled) => (events, none)
  | (events, .failed failure) => (events ++ host.report now failure [], none)

/-- What a turn leaves of a task that nobody cancels, and where the task stands then. -/
def turn (now : Time) : Stage κ σ → List ε × Standing κ σ
  | .created job delay => ([], some (now + delay, .delayed job))
  | .delayed job => host.follow now (host.start now job [])
  | .running state => host.follow now (host.resume now state [])
  | .ended => ([], none)

/-- What a task leaves when it is cancelled where it stands. -/
def leave (now : Time) : Standing κ σ → List ε
  | some (_, .running state) => (host.follow now (host.interrupt now state [])).1
  | _ => []

/-- What a task leaves until an instant, and where it stands then, if nobody cancels it. -/
inductive Alone (limit : Time) : Standing κ σ → List ε → Standing κ σ → Prop
  | ended : Alone limit none [] none
  | later {due stage} (later : limit < due) : Alone limit (some (due, stage)) [] (some (due, stage))
  | turn {due stage events last} (soon : due ≤ limit)
    (goesOn : Alone limit (host.turn due stage).2 events last)
    : Alone limit (some (due, stage)) ((host.turn due stage).1 ++ events) last

variable {host} {limit : Time} {first last : Standing κ σ} {events : List ε}

/-- What a task does until an instant is determined by where it stands, by induction over its
turns.
-/
theorem Alone.unique {other : Standing κ σ} {others : List ε}
    (alone : host.Alone limit first events last) (again : host.Alone limit first others other)
    : events = others ∧ last = other := by
  induction alone generalizing others with
  | ended =>
      cases again
      exact ⟨rfl, rfl⟩
  | later later =>
      cases again with
      | later => exact ⟨rfl, rfl⟩
      | turn soon => exact absurd soon (Nat.not_le.mpr later)
  | turn soon _ ih =>
      cases again with
      | later later => exact absurd soon (Nat.not_le.mpr later)
      | turn _ goesOn =>
          obtain ⟨rfl, rfl⟩ := ih goesOn
          exact ⟨rfl, rfl⟩

/-- What a task does until a later instant is what it does until an earlier one, and from then on,
by induction over its turns until the earlier one.
-/
theorem Alone.trans {deadline : Time} {ultimate : Standing κ σ} {more : List ε}
    (alone : host.Alone limit first events last) (earlier : limit ≤ deadline)
    (further : host.Alone deadline last more ultimate)
    : host.Alone deadline first (events ++ more) ultimate := by
  induction alone with
  | ended => exact further
  | later => exact further
  | turn soon _ ih =>
      rw [List.append_assoc]
      exact .turn (Nat.le_trans soon earlier) (ih further)

/-- A turn, and what comes after it. -/
theorem Alone.of_turn {due : Time} {stage : Stage κ σ} {more : List ε} {next : Standing κ σ}
    (soon : due ≤ limit) (turn : host.turn due stage = (events, next))
    (goesOn : host.Alone limit next more last)
    : host.Alone limit (some (due, stage)) (events ++ more) last := by
  have taken : host.Alone limit (some (due, stage)) ((host.turn due stage).1 ++ more) last :=
    .turn soon (by rw [turn]; exact goesOn)
  rwa [turn] at taken

end Host

end EditorLint.Debounce
