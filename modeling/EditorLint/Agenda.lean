import EditorLint.Time

/-!
An agenda of turns. Turns that are ready are taken in the order in which they came; a turn that
waits for a time becomes ready when the clock reaches it. The clock moves only when no turn is
ready, to the earliest time waited for, and turns that wait for the same time become ready in the
order in which they began to wait.
-/

namespace EditorLint

/-- The sum of a measure over a list. -/
def total {α : Type} (measure : α → Nat) : List α → Nat
  | [] => 0
  | a :: rest => measure a + total measure rest

theorem total_append {α : Type} (measure : α → Nat) (xs ys : List α)
    : total measure (xs ++ ys) = total measure xs + total measure ys := by
  induction xs with
  | nil => simp [total]
  | cons a rest ih => simp [total, ih, Nat.add_assoc]

/-- A turn that waits for an instant. -/
structure Timer (α : Type) where
  due : Time
  turn : α
  deriving DecidableEq, Repr

structure Agenda (α : Type) where
  now : Time := 0
  ready : List α := []
  /-- Ordered by instant, and those of one instant by the time at which they began to wait. -/
  timers : List (Timer α) := []
  deriving DecidableEq, Repr

namespace Agenda

variable {α : Type}

/-- Puts a timer behind all that are due no later. -/
def addTimer (timer : Timer α) : List (Timer α) → List (Timer α)
  | [] => [timer]
  | first :: rest =>
    if timer.due < first.due then timer :: first :: rest else first :: addTimer timer rest

/-- A turn becomes ready behind all others. -/
def post (agenda : Agenda α) (turn : α) : Agenda α :=
  { agenda with ready := agenda.ready ++ [turn] }

/-- A turn waits for a duration. No duration at all lets the ready turns go first. -/
def wait (agenda : Agenda α) (duration : Time) (turn : α) : Agenda α :=
  if duration = 0 then agenda.post turn
  else { agenda with timers := addTimer ⟨agenda.now + duration, turn⟩ agenda.timers }

/-- Ends the wait of a turn, told by `isTurn`: if it waits for a time, it becomes ready at once. -/
def hasten (agenda : Agenda α) (isTurn : α → Bool) (turn : α) : Agenda α :=
  if agenda.timers.any (isTurn ·.turn) then
    { agenda with
      ready := agenda.ready ++ [turn]
      timers := agenda.timers.filter fun timer => !isTurn timer.turn }
  else agenda

/-- The turn to take next without moving the clock beyond `limit`, and the agenda without it. -/
def next? (agenda : Agenda α) (limit : Time) : Option (α × Agenda α) :=
  match agenda.ready with
  | turn :: rest => some (turn, { agenda with ready := rest })
  | [] =>
    match agenda.timers with
    | [] => none
    | first :: later =>
      if first.due ≤ limit then
        let due := later.takeWhile (·.due == first.due)
        let pending := later.dropWhile (·.due == first.due)
        some (first.turn, { now := first.due, ready := due.map (·.turn), timers := pending })
      else none

/-- Lets the clock pass to an instant for which no turn waits before it. -/
def passTo (agenda : Agenda α) (instant : Time) : Agenda α :=
  { agenda with now := max agenda.now instant }

end Agenda

end EditorLint
