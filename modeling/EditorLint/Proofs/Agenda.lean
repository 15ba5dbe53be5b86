import EditorLint.Agenda
import Mathlib.Data.List.TakeWhile

/-! An agenda neither loses nor doubles a turn. Each operation is described by the turns that it
adds or takes, whatever it does with the clock and with the order of what waits.
-/

namespace EditorLint

variable {α : Type}

/-- A changed entry counts as it is now, and all others as before, by induction over them. -/
theorem total_set {entries : List α} {index : Nat} {old : α} (found : entries[index]? = some old)
    (new : α) (measure : α → Nat)
    : total measure (entries.set index new) + measure old
      = total measure entries + measure new := by
  induction entries generalizing index with
  | nil => simp at found
  | cons first rest ih =>
      cases index with
      | zero =>
          obtain rfl := Option.some.inj found
          simp only [List.set_cons_zero, total]
          omega
      | succ index =>
          have others := @ih index found
          simp only [List.set_cons_succ, total]
          omega

theorem total_eq_zero {measure : α → Nat} {entries : List α}
    : total measure entries = 0 ↔ ∀ entry ∈ entries, measure entry = 0 := by
  induction entries with
  | nil => simp [total]
  | cons first rest ih => simp [total, ih]

theorem total_map {β : Type} (measure : β → Nat) (f : α → β) (entries : List α)
    : total measure (entries.map f) = total (fun entry => measure (f entry)) entries := by
  induction entries with
  | nil => rfl
  | cons first rest ih => simp only [List.map_cons, total, ih]

namespace Agenda

/-- All turns of an agenda, those that are ready and those that wait for a time. -/
def turns (agenda : Agenda α) : List α :=
  agenda.ready ++ agenda.timers.map (·.turn)

/-- Nothing comes to its turn at an instant or before it. -/
def QuietAt (agenda : Agenda α) (instant : Time) : Prop :=
  agenda.next? instant = none

-----------------------------------------------------------------------------------------
-- Adding turns
-----------------------------------------------------------------------------------------

/-- A timer is put among the others and changes none, by induction over them. -/
theorem addTimer_perm (timer : Timer α) (timers : List (Timer α))
    : (addTimer timer timers).Perm (timer :: timers) := by
  induction timers with
  | nil => exact .refl _
  | cons first rest ih =>
      rw [addTimer]
      split
      · exact .refl _
      · exact (ih.cons first).trans (.swap timer first rest)

/-- A posted turn is one more turn. -/
theorem turns_post (agenda : Agenda α) (turn : α)
    : (agenda.post turn).turns.Perm (turn :: agenda.turns) := by
  simp only [turns, post, List.append_assoc, List.singleton_append]
  exact List.perm_middle

/-- A turn that begins to wait is one more turn, whether or not it waits for the clock. -/
theorem turns_wait (agenda : Agenda α) (duration : Time) (turn : α)
    : (agenda.wait duration turn).turns.Perm (turn :: agenda.turns) := by
  rw [wait]
  split
  · exact turns_post agenda turn
  · have added := (addTimer_perm ⟨agenda.now + duration, turn⟩ agenda.timers).map (·.turn)
    exact (added.append_left agenda.ready).trans List.perm_middle

/-- What waits after a turn has begun to wait: the turn itself, until the end of its duration,
and what waited before.
-/
theorem mem_timers_wait {agenda : Agenda α} {duration : Time} {turn : α} {timer : Timer α}
    (member : timer ∈ (agenda.wait duration turn).timers)
    : timer = ⟨agenda.now + duration, turn⟩ ∨ timer ∈ agenda.timers := by
  rw [wait] at member
  split at member
  · exact Or.inr member
  · simpa using (addTimer_perm _ _).mem_iff.mp member

/-- A turn that begins to wait is ready at once if there is nothing to wait for. -/
theorem mem_ready_wait {agenda : Agenda α} {duration : Time} {turn other : α}
    : other ∈ (agenda.wait duration turn).ready
      ↔ other ∈ agenda.ready ∨ (duration = 0 ∧ other = turn) := by
  rw [wait]
  split <;> simp [post, *]

-----------------------------------------------------------------------------------------
-- Taking the next turn
-----------------------------------------------------------------------------------------

/-- The next turn is the first that is ready; if none is, the clock moves to the earliest time
waited for, and all that wait for that time become ready.
-/
theorem next?_cases {agenda rest : Agenda α} {limit : Time} {turn : α}
    (next : agenda.next? limit = some (turn, rest))
    : (agenda.ready = turn :: rest.ready
        ∧ rest.timers = agenda.timers
        ∧ rest.now = agenda.now)
      ∨ (agenda.ready = []
        ∧ (agenda.timers.map (·.turn)).Perm (turn :: rest.turns)
        ∧ ⟨rest.now, turn⟩ ∈ agenda.timers
        ∧ rest.now ≤ limit
        ∧ (∀ other ∈ rest.ready, ⟨rest.now, other⟩ ∈ agenda.timers)
        ∧ rest.timers.Sublist agenda.timers) := by
  unfold next? at next
  split at next
  next ready =>
    obtain ⟨rfl, rfl⟩ := Prod.mk.inj (Option.some.inj next)
    exact Or.inl ⟨ready, rfl, rfl⟩
  next ready =>
    split at next
    next => cases next
    next first later timers =>
      split at next
      · next due =>
          obtain ⟨rfl, rfl⟩ := Prod.mk.inj (Option.some.inj next)
          refine Or.inr ⟨ready, ?_, by simp [timers], due, ?_, ?_⟩
          · simp only [timers, turns, List.map_cons, ← List.map_append,
              List.takeWhile_append_dropWhile]
            exact .refl _
          · intro other member
            obtain ⟨timer, waits, rfl⟩ := List.mem_map.mp member
            have same : timer.due = first.due := by
              simpa using List.mem_takeWhile_imp waits
            have here : timer ∈ later := (List.takeWhile_sublist _).subset waits
            simp [timers, ← same, here]
          · rw [timers]
            exact (List.dropWhile_sublist _).trans (List.sublist_cons_self first later)
      · cases next

/-- Taking the next turn takes that turn and no other. -/
theorem turns_next? {agenda rest : Agenda α} {limit : Time} {turn : α}
    (next : agenda.next? limit = some (turn, rest))
    : agenda.turns.Perm (turn :: rest.turns) := by
  rcases next?_cases next with ⟨ready, timers, _⟩ | ⟨ready, waiting, _⟩
  · simp [turns, ready, timers]
  · simpa [turns, ready] using waiting

/-- Where nothing is next, nothing is ready. -/
theorem QuietAt.ready {agenda : Agenda α} {instant : Time} (quiet : agenda.QuietAt instant)
    : agenda.ready = [] := by
  unfold QuietAt next? at quiet
  split at quiet
  · cases quiet
  · assumption

/-- Where nothing is next, the first timer is due later. -/
theorem QuietAt.due {agenda : Agenda α} {instant : Time} (quiet : agenda.QuietAt instant)
    {timer : Timer α} (first : agenda.timers.head? = some timer)
    : instant < timer.due := by
  have ready := quiet.ready
  obtain ⟨later, timers⟩ := List.head?_eq_some_iff.mp first
  simp only [QuietAt, next?, ready, timers] at quiet
  split at quiet
  · cases quiet
  · exact Nat.lt_of_not_le ‹_›

-----------------------------------------------------------------------------------------
-- Ending a wait
-----------------------------------------------------------------------------------------

/-- Ending the wait of a turn leaves all ready turns where they are. -/
theorem mem_ready_hasten {agenda : Agenda α} {isTurn : α → Bool} {turn other : α}
    (member : other ∈ agenda.ready)
    : other ∈ (agenda.hasten isTurn turn).ready := by
  rw [hasten]
  split <;> simp [member]

/-- Ending the wait of a turn makes no other turn ready. -/
theorem mem_ready_of_hasten {agenda : Agenda α} {isTurn : α → Bool} {turn other : α}
    (member : other ∈ (agenda.hasten isTurn turn).ready)
    : other ∈ agenda.ready ∨ other = turn := by
  rw [hasten] at member
  split at member
  · simpa using member
  · exact Or.inl member

/-- Ending a wait starts none. -/
theorem timers_hasten (agenda : Agenda α) (isTurn : α → Bool) (turn : α)
    : (agenda.hasten isTurn turn).timers.Sublist agenda.timers := by
  rw [hasten]
  split
  · exact List.filter_sublist
  · exact .refl _

/-- Ending the wait of a turn adds no ready turn of another kind. -/
theorem countP_ready_hasten {agenda : Agenda α} {isTurn kind : α → Bool} {turn : α}
    (own : kind turn = false)
    : (agenda.hasten isTurn turn).ready.countP kind = agenda.ready.countP kind := by
  rw [hasten]
  split <;> simp [own]

/-- Ending the wait of one turn neither adds nor takes turns of another kind. -/
theorem countP_turns_hasten {agenda : Agenda α} {isTurn kind : α → Bool} {turn : α}
    (own : kind turn = false) (apart : ∀ other, isTurn other → kind other = false)
    : (agenda.hasten isTurn turn).turns.countP kind = agenda.turns.countP kind := by
  rw [hasten]
  split
  · simp only [turns, List.countP_append, List.countP_map, List.countP_filter,
      List.countP_singleton, own, Bool.false_eq_true, if_false, Nat.add_zero]
    congr 1
    apply List.countP_congr
    intro timer _
    cases waits : isTurn timer.turn with
    | true => simp [apart _ waits]
    | false => simp
  · rfl

/-- A turn that is there once is there once when its wait has ended. -/
theorem countP_turns_hasten_self {agenda : Agenda α} {isTurn : α → Bool} {turn : α}
    (own : isTurn turn) (once : agenda.turns.countP isTurn = 1)
    : (agenda.hasten isTurn turn).turns.countP isTurn = 1 := by
  rw [hasten]
  split
  · next waits =>
      obtain ⟨timer, member, isOwn⟩ := List.any_eq_true.mp waits
      have positive : 0 < (agenda.timers.map (·.turn)).countP isTurn :=
        List.countP_pos_iff.mpr ⟨timer.turn, List.mem_map_of_mem member, isOwn⟩
      have none : ((agenda.timers.filter fun timer => !isTurn timer.turn).map (·.turn)).countP
          isTurn = 0 := by
        rw [List.countP_eq_zero]
        intro other kept
        obtain ⟨timer, inTimers, rfl⟩ := List.mem_map.mp kept
        simpa using (List.mem_filter.mp inTimers).2
      simp only [turns, List.countP_append] at once
      simp only [turns, List.countP_append, List.countP_singleton, none, own, if_true]
      omega
  · exact once

/-- A turn that is there once is ready when its wait has ended. -/
theorem mem_ready_hasten_self {agenda : Agenda α} {isTurn : α → Bool} {turn : α}
    (alone : ∀ other, isTurn other → other = turn) (once : agenda.turns.countP isTurn = 1)
    : turn ∈ (agenda.hasten isTurn turn).ready := by
  rw [hasten]
  split
  · simp
  · next waits =>
      obtain ⟨other, member, isOwn⟩ := List.countP_pos_iff.mp (once ▸ Nat.one_pos)
      rcases List.mem_append.mp member with ready | timed
      · exact alone other isOwn ▸ ready
      · obtain ⟨timer, inTimers, rfl⟩ := List.mem_map.mp timed
        exact (waits (List.any_eq_true.mpr ⟨timer, inTimers, isOwn⟩)).elim

-----------------------------------------------------------------------------------------
-- The clock
-----------------------------------------------------------------------------------------

/-- What waits for the clock is in order of time, and all of it is still ahead. -/
structure Ahead (agenda : Agenda α) : Prop where
  sorted : agenda.timers.Pairwise fun first second => first.due ≤ second.due
  later : ∀ timer ∈ agenda.timers, agenda.now < timer.due

/-- A timer is put where it belongs in the order of time, by induction over the others. -/
theorem addTimer_sorted (timer : Timer α) {timers : List (Timer α)}
    (sorted : timers.Pairwise fun first second => first.due ≤ second.due)
    : (addTimer timer timers).Pairwise fun first second => first.due ≤ second.due := by
  induction timers with
  | nil => exact List.pairwise_singleton _ _
  | cons first rest ih =>
      obtain ⟨least, tail⟩ := List.pairwise_cons.mp sorted
      rw [addTimer]
      split
      next before =>
        refine List.pairwise_cons.mpr ⟨?_, sorted⟩
        intro other member
        rcases List.mem_cons.mp member with rfl | behind
        · exact Nat.le_of_lt before
        · exact Nat.le_trans (Nat.le_of_lt before) (least other behind)
      next after =>
        refine List.pairwise_cons.mpr ⟨?_, ih tail⟩
        intro other member
        rcases List.mem_cons.mp ((addTimer_perm timer rest).mem_iff.mp member) with rfl | behind
        · exact Nat.le_of_not_lt after
        · exact least other behind

/-- Without those that are due first, all timers are due later, by induction over them. -/
theorem due_dropWhile {due : Time} {timers : List (Timer α)}
    (sorted : timers.Pairwise fun first second => first.due ≤ second.due)
    (least : ∀ timer ∈ timers, due ≤ timer.due)
    : ∀ timer ∈ timers.dropWhile (·.due == due), due < timer.due := by
  induction timers with
  | nil => exact fun _ => nofun
  | cons first rest ih =>
      obtain ⟨behind, tail⟩ := List.pairwise_cons.mp sorted
      rw [List.dropWhile_cons]
      split
      · exact ih tail fun timer member => least timer (List.mem_cons_of_mem first member)
      next differs =>
        have first_later : due < first.due :=
          Nat.lt_of_le_of_ne (least first List.mem_cons_self) fun same => differs (by simp [same])
        intro timer member
        rcases List.mem_cons.mp member with rfl | more
        · exact first_later
        · exact Nat.lt_of_lt_of_le first_later (behind timer more)

/-- A turn that begins to wait for the clock waits for a time ahead. -/
theorem Ahead.wait {agenda : Agenda α} (ahead : agenda.Ahead) (duration : Time) (turn : α)
    : (agenda.wait duration turn).Ahead := by
  rw [Agenda.wait]
  split
  · exact ⟨ahead.sorted, ahead.later⟩
  next some =>
    refine ⟨addTimer_sorted _ ahead.sorted, ?_⟩
    intro timer member
    rcases List.mem_cons.mp ((addTimer_perm _ _).mem_iff.mp member) with rfl | old
    · exact Nat.lt_add_of_pos_right (Nat.pos_of_ne_zero some)
    · exact ahead.later timer old

/-- Ending a wait leaves the others in order. -/
theorem Ahead.hasten {agenda : Agenda α} (ahead : agenda.Ahead) (isTurn : α → Bool) (turn : α)
    : (agenda.hasten isTurn turn).Ahead := by
  have same : (agenda.hasten isTurn turn).now = agenda.now := by
    rw [Agenda.hasten]
    split <;> rfl
  refine ⟨ahead.sorted.sublist (timers_hasten agenda isTurn turn), ?_⟩
  rw [same]
  exact fun timer member => ahead.later timer ((timers_hasten agenda isTurn turn).subset member)

/-- Taking a turn leaves what waits ahead of the clock, which does not go back and moves no
further than to the limit.
-/
theorem Ahead.next? {agenda rest : Agenda α} {limit : Time} {turn : α} (ahead : agenda.Ahead)
    (next : agenda.next? limit = some (turn, rest))
    : rest.Ahead ∧ agenda.now ≤ rest.now ∧ (rest.now = agenda.now ∨ rest.now ≤ limit) := by
  unfold Agenda.next? at next
  split at next
  next ready =>
    obtain ⟨rfl, rfl⟩ := Prod.mk.inj (Option.some.inj next)
    exact ⟨⟨ahead.sorted, ahead.later⟩, Nat.le.refl, Or.inl rfl⟩
  next ready =>
    split at next
    next => cases next
    next first later timers =>
      split at next
      next due =>
        obtain ⟨rfl, rfl⟩ := Prod.mk.inj (Option.some.inj next)
        have sorted := ahead.sorted
        rw [timers] at sorted
        obtain ⟨least, tail⟩ := List.pairwise_cons.mp sorted
        refine ⟨⟨tail.sublist (List.dropWhile_sublist _), due_dropWhile tail least⟩, ?_, Or.inr due⟩
        exact Nat.le_of_lt (ahead.later first (timers ▸ List.mem_cons_self))
      next => cases next

/-- Where nothing is next, all that waits is due later. -/
theorem QuietAt.later {agenda : Agenda α} {instant : Time} (quiet : agenda.QuietAt instant)
    (ahead : agenda.Ahead)
    : ∀ timer ∈ agenda.timers, instant < timer.due := by
  intro timer member
  cases timers : agenda.timers with
  | nil => simp [timers] at member
  | cons first rest =>
      have soon : instant < first.due := quiet.due (by simp [timers])
      have sorted := ahead.sorted
      rw [timers] at sorted member
      rcases List.mem_cons.mp member with rfl | behind
      · exact soon
      · exact Nat.lt_of_lt_of_le soon ((List.pairwise_cons.mp sorted).1 timer behind)

/-- Where nothing is ready and all that waits is due later, nothing is next. -/
theorem quietAt_of_later {agenda : Agenda α} {instant : Time} (ready : agenda.ready = [])
    (later : ∀ timer ∈ agenda.timers, instant < timer.due)
    : agenda.QuietAt instant := by
  unfold QuietAt Agenda.next?
  rw [ready]
  cases timers : agenda.timers with
  | nil => rfl
  | cons first rest => simp [later first (by simp [timers])]

/-- The clock may pass to an instant before which nothing is due. -/
theorem Ahead.passTo {agenda : Agenda α} {instant : Time} (ahead : agenda.Ahead)
    (quiet : agenda.QuietAt instant)
    : (agenda.passTo instant).Ahead ∧ (agenda.passTo instant).QuietAt (max agenda.now instant) := by
  have later : ∀ timer ∈ agenda.timers, max agenda.now instant < timer.due := by
    intro timer member
    exact Nat.max_lt.mpr ⟨ahead.later timer member, quiet.later ahead timer member⟩
  exact ⟨⟨ahead.sorted, later⟩, quietAt_of_later quiet.ready later⟩

-----------------------------------------------------------------------------------------
-- When turns come
-----------------------------------------------------------------------------------------

/-- All turns of an agenda, each with the time at which it comes. -/
def plan (agenda : Agenda α) : List (Timer α) :=
  agenda.ready.map (⟨agenda.now, ·⟩) ++ agenda.timers

theorem map_plan (agenda : Agenda α) : agenda.plan.map (·.turn) = agenda.turns := by
  simp [plan, turns, Function.comp_def]

/-- A turn that begins to wait is planned for the end of its wait, also if that is now. -/
theorem plan_wait (agenda : Agenda α) (duration : Time) (turn : α)
    : (agenda.wait duration turn).plan.Perm (⟨agenda.now + duration, turn⟩ :: agenda.plan) := by
  rw [wait]
  split
  next nothing =>
    simp only [plan, post, nothing, Nat.add_zero, List.map_append, List.append_assoc]
    exact List.perm_middle
  next => exact ((addTimer_perm _ agenda.timers).append_left _).trans List.perm_middle

/-- The next turn comes at the time for which it is planned, and the others stay planned. -/
theorem plan_next? {agenda rest : Agenda α} {limit : Time} {turn : α}
    (next : agenda.next? limit = some (turn, rest))
    : agenda.plan = ⟨rest.now, turn⟩ :: rest.plan := by
  unfold next? at next
  split at next
  next others ready =>
    obtain ⟨rfl, rfl⟩ := Prod.mk.inj (Option.some.inj next)
    simp [plan, ready]
  next ready =>
    split at next
    next => cases next
    next first later timers =>
      split at next
      · obtain ⟨rfl, rfl⟩ := Prod.mk.inj (Option.some.inj next)
        have due : ∀ timer ∈ later.takeWhile (·.due == first.due),
            (⟨first.due, timer.turn⟩ : Timer α) = timer := by
          intro timer member
          have same : timer.due = first.due := by simpa using List.mem_takeWhile_imp member
          rw [← same]
        have unchanged := (List.map_congr_left due).trans (List.map_id' _)
        simp [plan, ready, timers, Function.comp_def, unchanged]
      · cases next

/-- Where nothing is next, all turns are planned for later. -/
theorem QuietAt.planned {agenda : Agenda α} {instant : Time} (quiet : agenda.QuietAt instant)
    (ahead : agenda.Ahead)
    : ∀ timer ∈ agenda.plan, instant < timer.due := by
  intro timer member
  rw [plan, quiet.ready, List.map_nil, List.nil_append] at member
  exact quiet.later ahead timer member

/-- A turn that is posted when no other is ready comes next. -/
theorem next?_post {agenda : Agenda α} (nothing : agenda.ready = []) (turn : α) (limit : Time)
    : (agenda.post turn).next? limit = some (turn, agenda) := by
  obtain ⟨now, ready, timers⟩ := agenda
  subst nothing
  rfl

/-- An agenda in which some turns do not wait for the clock any more. -/
def forgo (agenda : Agenda α) (isTurn : α → Bool) : Agenda α :=
  { agenda with timers := agenda.timers.filter fun timer => !isTurn timer.turn }

/-- A turn whose wait ends is posted. -/
theorem hasten_eq_post {agenda : Agenda α} {isTurn : α → Bool} {turn : α} {timer : Timer α}
    (waits : timer ∈ agenda.timers) (own : isTurn timer.turn)
    : agenda.hasten isTurn turn = (agenda.forgo isTurn).post turn :=
  if_pos (List.any_eq_true.mpr ⟨timer, waits, own⟩)

theorem Ahead.forgo {agenda : Agenda α} (ahead : agenda.Ahead) (isTurn : α → Bool)
    : (agenda.forgo isTurn).Ahead where
  sorted := ahead.sorted.filter _
  later timer member := ahead.later timer (List.mem_filter.mp member).1

/-- The other turns stay planned. -/
theorem mem_plan_forgo {agenda : Agenda α} {isTurn : α → Bool} {timer : Timer α}
    (planned : timer ∈ agenda.plan) (other : isTurn timer.turn = false)
    : timer ∈ (agenda.forgo isTurn).plan := by
  rcases List.mem_append.mp planned with ready | waits
  · exact List.mem_append_left _ ready
  · exact List.mem_append_right _ (List.mem_filter.mpr ⟨waits, by simp [other]⟩)

/-- A turn that is posted comes at once, and the others stay planned. -/
theorem plan_post (agenda : Agenda α) (turn : α)
    : (agenda.post turn).plan.Perm (⟨agenda.now, turn⟩ :: agenda.plan) := by
  simp only [plan, post, List.map_append, List.append_assoc]
  exact List.perm_middle

-----------------------------------------------------------------------------------------
-- The same agenda at a later time
-----------------------------------------------------------------------------------------

section Later

variable {β : Type} (delay : Time) (rename : α → β)

/-- The same agenda at a later time, with its turns under other names. -/
def postponed (agenda : Agenda α) : Agenda β where
  now := agenda.now + delay
  ready := agenda.ready.map rename
  timers := agenda.timers.map fun timer => ⟨timer.due + delay, rename timer.turn⟩

@[simp]
theorem postponed_post (agenda : Agenda α) (turn : α)
    : (agenda.post turn).postponed delay rename
      = (agenda.postponed delay rename).post (rename turn) := by
  simp [postponed, post]

/-- A timer keeps its place among the others, by induction over them. -/
theorem map_addTimer (timer : Timer α) (timers : List (Timer α))
    : (addTimer timer timers).map (fun timer => (⟨timer.due + delay, rename timer.turn⟩ : Timer β))
      = addTimer ⟨timer.due + delay, rename timer.turn⟩
          (timers.map fun timer => ⟨timer.due + delay, rename timer.turn⟩) := by
  induction timers with
  | nil => rfl
  | cons first rest ih =>
      simp only [addTimer, List.map_cons, Nat.add_lt_add_iff_right]
      split
      · rfl
      · rw [List.map_cons, ih]

@[simp]
theorem postponed_wait (agenda : Agenda α) (duration : Time) (turn : α)
    : (agenda.wait duration turn).postponed delay rename
      = (agenda.postponed delay rename).wait duration (rename turn) := by
  unfold wait
  split
  · exact postponed_post delay rename agenda turn
  · have due : agenda.now + duration + delay = agenda.now + delay + duration :=
      Nat.add_right_comm _ _ _
    simp only [postponed, map_addTimer, due]

/-- Whether a turn waits can be told by either name. -/
theorem postponed_hasten {isTurn : α → Bool} {isRenamed : β → Bool}
    (same : ∀ turn, isRenamed (rename turn) = isTurn turn) (agenda : Agenda α) (turn : α)
    : (agenda.hasten isTurn turn).postponed delay rename
      = (agenda.postponed delay rename).hasten isRenamed (rename turn) := by
  have any : (agenda.postponed delay rename).timers.any (isRenamed ·.turn)
      = agenda.timers.any (isTurn ·.turn) := by
    simp [postponed, List.any_map, Function.comp_def, same]
  unfold hasten
  rw [any]
  split
  · simp [postponed, List.filter_map, Function.comp_def, same]
  · rfl

/-- The same turn comes next, as much later. -/
theorem next?_postponed (agenda : Agenda α) (limit : Time)
    : (agenda.postponed delay rename).next? (limit + delay)
      = (agenda.next? limit).map fun (turn, rest) =>
          (rename turn, rest.postponed delay rename) := by
  obtain ⟨now, ready, timers⟩ := agenda
  cases ready with
  | cons turn rest => rfl
  | nil =>
      cases timers with
      | nil => rfl
      | cons first later =>
          simp only [next?, postponed, List.map_nil, List.map_cons, Nat.add_le_add_iff_right]
          split
          · have same (due : Time) : (due + delay == first.due + delay) = (due == first.due) := by
              simp
            simp [List.takeWhile_map, List.dropWhile_map, Function.comp_def, same]
          · rfl

@[simp]
theorem postponed_passTo (agenda : Agenda α) (instant : Time)
    : (agenda.passTo instant).postponed delay rename
      = (agenda.postponed delay rename).passTo (instant + delay) := by
  simp [postponed, passTo, Nat.add_max_add_right]

end Later

end Agenda

end EditorLint
