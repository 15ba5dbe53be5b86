import EditorLint.Fix.Selection
import Mathlib.Data.List.Sort
import Mathlib.Data.Prod.Lex
import Mathlib.Data.String.Basic

/-! Fixes that are applied together are some of the fixes given, and of two fixes of one file the
later one starts where the earlier one ends or behind it.
-/

namespace EditorLint

/-- A position in the order of rows and then of columns. -/
def Position.key (p : Position) : ℤ ×ₗ ℤ :=
  toLex (p.row.value, p.column.value)

/-- A position is before another one in that order. -/
theorem Position.before_iff {p q : Position} : p.before q = true ↔ p.key < q.key := by
  simp [before, key, Prod.Lex.toLex_lt_toLex]

namespace Fix

/-- A fix in the order of files, then of starts and then of ends. -/
def rank (f : Fix) : String ×ₗ (ℤ ×ₗ ℤ) ×ₗ (ℤ ×ₗ ℤ) :=
  toLex (f.file, toLex (f.span.start.key, f.span.stop.key))

/-- A fix starts where another one ends, or behind that. -/
def Follows (later earlier : Fix) : Prop :=
  earlier.span.stop.key ≤ later.span.start.key

-----------------------------------------------------------------------------------------
-- The order of fixes
-----------------------------------------------------------------------------------------

/-- A fix precedes another one exactly if its rank is lower. -/
theorem precedes_iff {f g : Fix} : f.precedes g = true ↔ f.rank < g.rank := by
  simp only [precedes, rank, Prod.Lex.toLex_lt_toLex, Bool.or_eq_true, Bool.and_eq_true,
    decide_eq_true_eq, beq_iff_eq, Position.before_iff, Bool.not_eq_true', ← Bool.not_eq_true,
    not_lt]
  refine or_congr_right (and_congr_right fun _ => ?_)
  constructor
  · intro given
    rcases given with start | ⟨start, stop⟩
    · exact Or.inl start
    · exact (lt_or_eq_of_le start).imp_right fun same => ⟨same, stop⟩
  · intro given
    rcases given with start | ⟨start, stop⟩
    · exact Or.inl start
    · exact Or.inr ⟨start.le, stop⟩

/-- A fix of no higher rank is of the same file or of one before, and in the same file it starts
no later.
-/
theorem file_le_of_rank_le {f g : Fix} (ranked : f.rank ≤ g.rank)
    : f.file ≤ g.file ∧ (f.file = g.file → f.span.start.key ≤ g.span.start.key) := by
  rcases Prod.Lex.toLex_le_toLex.mp ranked with before | ⟨same, spans⟩
  · exact ⟨before.le, fun same => absurd same before.ne⟩
  · rcases Prod.Lex.toLex_le_toLex.mp spans with start | ⟨start, _⟩
    · exact ⟨same.le, fun _ => start.le⟩
    · exact ⟨same.le, fun _ => start.le⟩

/-- Fixes are put in their places by rank. -/
theorem place_eq_orderedInsert (f : Fix) (fixes : List Fix)
    : place f fixes = fixes.orderedInsert (·.rank ≤ ·.rank) f := by
  induction fixes with
  | nil => rfl
  | cons g rest ih =>
      by_cases earlier : g.precedes f
      · simp [place, ih, precedes_iff.mp earlier, earlier]
      · have ranked := not_lt.mp (precedes_iff.not.mp earlier)
        simp [place, earlier, ranked]

/-- Fixes are put in order by an insertion sort on their ranks. -/
theorem ordered_eq_insertionSort (fixes : List Fix)
    : ordered fixes = fixes.insertionSort (·.rank ≤ ·.rank) := by
  have placed : place = List.orderedInsert (·.rank ≤ ·.rank) :=
    funext fun f => funext fun fixes => place_eq_orderedInsert f fixes
  rw [ordered, placed]
  rfl

instance : IsTrans Fix (·.rank ≤ ·.rank) :=
  ⟨fun _ _ _ => le_trans⟩

instance : Std.Total (α := Fix) (·.rank ≤ ·.rank) :=
  ⟨fun _ _ => le_total _ _⟩

/-- Ordered fixes are those given. -/
theorem perm_ordered (fixes : List Fix) : (ordered fixes).Perm fixes := by
  rw [ordered_eq_insertionSort]
  exact List.perm_insertionSort _ fixes

/-- Ordered fixes have ascending ranks. -/
theorem pairwise_ordered (fixes : List Fix) : (ordered fixes).Pairwise (·.rank ≤ ·.rank) := by
  rw [ordered_eq_insertionSort]
  exact List.pairwise_insertionSort _ fixes

-----------------------------------------------------------------------------------------
-- Which fixes are kept
-----------------------------------------------------------------------------------------

/-- What is kept of fixes that do not overlap is in their order, by induction over them. -/
theorem keepAfter_sublist (last : Option Fix) (fixes : List Fix)
    : (keepAfter last fixes).Sublist fixes := by
  induction fixes generalizing last with
  | nil => exact .slnil
  | cons first rest ih =>
      rw [keepAfter]
      split
      · exact (ih last).cons first
      · exact (ih (some first)).cons_cons first

/-- A selected fix is one of the fixes. -/
theorem mem_select {f : Fix} {fixes : List Fix} (member : f ∈ select fixes) : f ∈ fixes :=
  (perm_ordered fixes).mem_iff.mp ((keepAfter_sublist none _).subset member)

/-- A fix that is not kept is of the file of one that is, or of the one kept last before, by
induction over the fixes.
-/
theorem exists_mem_keepAfter {last : Option Fix} {f : Fix} {fixes : List Fix} (member : f ∈ fixes)
    : (∃ g ∈ keepAfter last fixes, g.file = f.file) ∨ ∃ g, last = some g ∧ g.file = f.file := by
  induction fixes generalizing last with
  | nil => cases member
  | cons first rest ih =>
      rw [keepAfter]
      split
      next overlapping =>
        rcases List.mem_cons.mp member with rfl | behind
        · cases last with
          | none => cases overlapping
          | some before =>
              have same : f.file = before.file := by
                simp only [Option.any_some, overlaps, Bool.and_eq_true, beq_iff_eq] at overlapping
                exact overlapping.1
              exact Or.inr ⟨before, rfl, same.symm⟩
        · exact ih behind
      next =>
        apply Or.inl
        rcases List.mem_cons.mp member with rfl | behind
        · exact ⟨f, List.mem_cons_self, rfl⟩
        · rcases ih behind with ⟨g, kept, same⟩ | ⟨g, here, same⟩
          · exact ⟨g, List.mem_cons_of_mem first kept, same⟩
          · obtain rfl := Option.some.inj here
            exact ⟨first, List.mem_cons_self, same⟩

/-- Every file of which there is a fix has one that is selected. -/
theorem exists_mem_select {f : Fix} {fixes : List Fix} (member : f ∈ fixes)
    : ∃ g ∈ select fixes, g.file = f.file := by
  have placed : f ∈ ordered fixes := (perm_ordered fixes).mem_iff.mpr member
  rcases exists_mem_keepAfter placed with kept | ⟨_, none, _⟩
  · exact kept
  · cases none

/-- A fix does not overlap one of its file exactly if it follows it. -/
theorem overlaps_eq_false_iff {f g : Fix}
    : f.overlaps g = false ↔ (f.file = g.file → f.Follows g) := by
  simp [overlaps, Follows, ← Position.before_iff, ← not_lt]

/-- Each fix that is kept follows the fix of its file that was kept last before, by induction over
the fixes: what follows a fix in between starts no earlier than that one does.
-/
theorem follows_of_mem_keepAfter {last f : Fix} {fixes : List Fix}
    (ranked : (last :: fixes).Pairwise (·.rank ≤ ·.rank))
    (member : f ∈ keepAfter (some last) fixes) (same : last.file = f.file)
    : f.Follows last := by
  induction fixes with
  | nil => cases member
  | cons first rest ih =>
      obtain ⟨above, inner⟩ := List.pairwise_cons.mp ranked
      obtain ⟨behind, _⟩ := List.pairwise_cons.mp inner
      rw [keepAfter] at member
      split at member
      · exact ih (ranked.sublist ((List.sublist_cons_self first rest).cons_cons last)) member
      next apart =>
        have free : first.overlaps last = false := by simpa using apart
        rcases List.mem_cons.mp member with rfl | later
        · exact overlaps_eq_false_iff.mp free same.symm
        · have kept := (keepAfter_sublist (some first) rest).subset later
          obtain ⟨fromLast, _⟩ := file_le_of_rank_le (above first List.mem_cons_self)
          obtain ⟨toNext, started⟩ := file_le_of_rank_le (behind f kept)
          have between : first.file = f.file := le_antisymm toNext (same ▸ fromLast)
          exact (overlaps_eq_false_iff.mp free (between.trans same.symm)).trans (started between)

/-- What is kept of ordered fixes does not overlap, by induction over them. -/
theorem pairwise_keepAfter {last : Option Fix} {fixes : List Fix}
    (ranked : fixes.Pairwise (·.rank ≤ ·.rank))
    : (keepAfter last fixes).Pairwise fun earlier later =>
        earlier.file = later.file → later.Follows earlier := by
  induction fixes generalizing last with
  | nil => exact .nil
  | cons first rest ih =>
      rw [keepAfter]
      split
      · exact ih ranked.of_cons
      · exact .cons (fun _ member => follows_of_mem_keepAfter ranked member) (ih ranked.of_cons)

/-- Of two selected fixes of a file, neighbours or not, the later one follows the earlier one. -/
theorem pairwise_select (fixes : List Fix)
    : (select fixes).Pairwise fun earlier later =>
        earlier.file = later.file → later.Follows earlier :=
  pairwise_keepAfter (pairwise_ordered fixes)

end Fix

end EditorLint
