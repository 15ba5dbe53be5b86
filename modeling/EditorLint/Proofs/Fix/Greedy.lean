import EditorLint.Proofs.Fix.Selection

/-! The selection of fixes is the greedy one. Fixes are taken in the order of their ranks, those of
one rank as they came, and each is kept exactly if it follows every fix of its file that was kept
before it. Looking at the one kept last is enough for that, whatever the ranges are.
-/

namespace EditorLint.Fix

-----------------------------------------------------------------------------------------
-- What a greedy selection is
-----------------------------------------------------------------------------------------

/-- Fixes in the order of their ranks, where those of one rank stand as they were given. -/
structure IsOrderOf (sorted given : List Fix) : Prop where
  ranked : sorted.Pairwise (·.rank ≤ ·.rank)
  stable : ∀ rank, sorted.filter (·.rank = rank) = given.filter (·.rank = rank)

/-- The greedy rule: of fixes in order, with some that are `chosen` already, a fix is kept if it
follows all fixes of its file chosen before it, and dropped if it does not follow one of them.
-/
inductive Picks : List Fix → List Fix → List Fix → Prop
  | done {chosen}
    : Picks chosen [] []
  | keep {chosen f rest kept} (free : ∀ g ∈ chosen, g.file = f.file → f.Follows g)
    (more : Picks (chosen ++ [f]) rest kept)
    : Picks chosen (f :: rest) (f :: kept)
  | drop {chosen f rest kept} (blocked : ∃ g ∈ chosen, g.file = f.file ∧ ¬ f.Follows g)
    (more : Picks chosen rest kept)
    : Picks chosen (f :: rest) kept

/-- What is to be said of fixes that are selected from those given. -/
structure IsSelection (given selected : List Fix) : Prop where
  /-- They are in the order of files, starts and ends. -/
  ranked : selected.Pairwise (·.rank ≤ ·.rank)
  /-- They are some of those given, none of them more often than it was given. -/
  part : selected.Subperm given
  /-- Those of one file and range are in the order in which they were given. -/
  stable : ∀ rank, (selected.filter (·.rank = rank)).Sublist (given.filter (·.rank = rank))
  /-- Of any two of one file, the later one starts where the earlier one ends, or behind it. -/
  apart
    : selected.Pairwise fun earlier later => earlier.file = later.file → later.Follows earlier
  /-- Each of the others is left out because of one that is selected before it. -/
  greedy : ∃ sorted, IsOrderOf sorted given ∧ Picks [] sorted selected

-----------------------------------------------------------------------------------------
-- The order of the fixes
-----------------------------------------------------------------------------------------

/-- Putting fixes in order leaves those of one rank as they were given: the order has them in that
sequence, and it has no others of their rank.
-/
theorem isOrderOf_ordered (fixes : List Fix) : IsOrderOf (ordered fixes) fixes := by
  refine ⟨pairwise_ordered fixes, ?_⟩
  intro rank
  have alike : (fixes.filter (·.rank = rank)).Pairwise (·.rank ≤ ·.rank) := by
    refine List.pairwise_of_forall_mem_list fun f first g second => le_of_eq ?_
    rw [of_decide_eq_true (List.mem_filter.mp first).2,
      of_decide_eq_true (List.mem_filter.mp second).2]
  have within : (fixes.filter (·.rank = rank)).Sublist (ordered fixes) := by
    rw [ordered_eq_insertionSort]
    exact List.sublist_insertionSort alike List.filter_sublist
  have inside := within.filter (·.rank = rank)
  simp only [List.filter_filter, Bool.and_self] at inside
  exact (inside.eq_of_length ((perm_ordered fixes).symm.filter _).length_eq).symm

/-- Lists with the same fixes of each rank have the same fixes. -/
theorem mem_iff_of_filter_eq {first second : List Fix}
    (alike : ∀ rank, first.filter (·.rank = rank) = second.filter (·.rank = rank)) (f : Fix)
    : f ∈ first ↔ f ∈ second := by
  have same := congrArg (f ∈ ·) (alike f.rank)
  simpa using same

/-- Ranks in order and the fixes of each rank make a list, by induction over it: of the lowest rank
there is, the first fix comes first.
-/
theorem eq_of_filter_eq {first second : List Fix}
    (ascending : first.Pairwise (·.rank ≤ ·.rank)) (rising : second.Pairwise (·.rank ≤ ·.rank))
    (alike : ∀ rank, first.filter (·.rank = rank) = second.filter (·.rank = rank))
    : first = second := by
  have shared := mem_iff_of_filter_eq alike
  induction first generalizing second with
  | nil => exact (List.eq_nil_iff_forall_not_mem.mpr fun f => by simp [← shared]).symm
  | cons f rest ih =>
      cases second with
      | nil => exact absurd ((shared f).mp List.mem_cons_self) List.not_mem_nil
      | cons g others =>
          obtain ⟨above, inner⟩ := List.pairwise_cons.mp ascending
          obtain ⟨higher, deeper⟩ := List.pairwise_cons.mp rising
          have lowest : g.rank ≤ f.rank := by
            rcases List.mem_cons.mp ((shared f).mp List.mem_cons_self) with rfl | behind
            · exact le_rfl
            · exact higher f behind
          have least : f.rank ≤ g.rank := by
            rcases List.mem_cons.mp ((shared g).mpr List.mem_cons_self) with rfl | behind
            · exact le_rfl
            · exact above g behind
          have tied : g.rank = f.rank := le_antisymm lowest least
          obtain ⟨rfl, _⟩ : f = g ∧ _ := by
            simpa [List.filter_cons, tied] using alike f.rank
          have remaining (rank) : rest.filter (·.rank = rank) = others.filter (·.rank = rank) := by
            have whole := alike rank
            by_cases own : f.rank = rank
            · simpa [List.filter_cons, own] using whole
            · simpa [List.filter_cons, own] using whole
          rw [ih inner deeper remaining (mem_iff_of_filter_eq remaining)]

/-- There is one order of given fixes only. -/
theorem IsOrderOf.eq_ordered {sorted given : List Fix} (order : IsOrderOf sorted given)
    : sorted = ordered given :=
  eq_of_filter_eq order.ranked (pairwise_ordered given) fun rank =>
    (order.stable rank).trans ((isOrderOf_ordered given).stable rank).symm

-----------------------------------------------------------------------------------------
-- Looking at the fix that was kept last
-----------------------------------------------------------------------------------------

/-- A fix overlaps the one chosen last exactly if it does not follow one of those chosen of its
file: what was chosen earlier of that file ends before the last one starts.
-/
theorem any_overlaps_getLast?_iff {chosen : List Fix} {f : Fix}
    (ranked : (chosen ++ [f]).Pairwise (·.rank ≤ ·.rank))
    (apart
      : chosen.Pairwise fun earlier later => earlier.file = later.file → later.Follows earlier)
    : chosen.getLast?.any f.overlaps = true ↔ ∃ g ∈ chosen, g.file = f.file ∧ ¬ f.Follows g := by
  rcases List.eq_nil_or_concat' chosen with rfl | ⟨before, last, rfl⟩
  · simp
  · have blocks : f.overlaps last = true ↔ last.file = f.file ∧ ¬ f.Follows last := by
      rw [← Bool.not_eq_false, overlaps_eq_false_iff, eq_comm (a := f.file)]
      exact Classical.not_imp
    rw [List.getLast?_concat, Option.any_some, blocks]
    constructor
    · intro blocked
      exact ⟨last, by simp, blocked⟩
    · intro given
      obtain ⟨g, member, same, behind⟩ := given
      rcases List.mem_append.mp member with earlier | here
      · obtain ⟨ascending, _, rising⟩ := List.pairwise_append.mp ranked
        have toLast := (List.pairwise_append.mp ascending).2.2 g earlier last (by simp)
        have toNext := rising last (by simp) f (by simp)
        obtain ⟨fromEarlier, _⟩ := file_le_of_rank_le toLast
        obtain ⟨fromLast, started⟩ := file_le_of_rank_le toNext
        have between : last.file = f.file := le_antisymm fromLast (same ▸ fromEarlier)
        have ended := (List.pairwise_append.mp apart).2.2 g earlier last (by simp)
        exact absurd ((ended (same.trans between.symm)).trans (started between)) behind
      · obtain rfl := List.mem_singleton.mp here
        exact ⟨same, behind⟩

/-- So what is kept of fixes in order is picked by the greedy rule, by induction over them. -/
theorem picks_keepAfter {chosen fixes : List Fix}
    (ranked : (chosen ++ fixes).Pairwise (·.rank ≤ ·.rank))
    (apart
      : chosen.Pairwise fun earlier later => earlier.file = later.file → later.Follows earlier)
    : Picks chosen fixes (keepAfter chosen.getLast? fixes) := by
  induction fixes generalizing chosen with
  | nil => exact .done
  | cons f rest ih =>
      have next : (chosen ++ [f]).Pairwise (·.rank ≤ ·.rank) :=
        ranked.sublist ((List.singleton_sublist.mpr List.mem_cons_self).append_left chosen)
      have reason := any_overlaps_getLast?_iff next apart
      rw [keepAfter]
      split
      next overlapping =>
        have skipped : (chosen ++ rest).Pairwise (·.rank ≤ ·.rank) :=
          ranked.sublist ((List.sublist_cons_self f rest).append_left chosen)
        exact .drop (reason.mp overlapping) (ih skipped apart)
      next free =>
        have follows : ∀ g ∈ chosen, g.file = f.file → f.Follows g := by
          simpa using reason.not.mp free
        have longer : (chosen ++ [f] ++ rest).Pairwise (·.rank ≤ ·.rank) := by
          simpa using ranked
        have further
            : (chosen ++ [f]).Pairwise fun earlier later =>
                earlier.file = later.file → later.Follows earlier := by
          refine List.pairwise_append.mpr ⟨apart, List.pairwise_singleton _ f, ?_⟩
          intro g member _ here same
          obtain rfl := List.mem_singleton.mp here
          exact follows g member same
        have kept := ih longer further
        rw [List.getLast?_concat] at kept
        exact .keep follows kept

/-- The greedy rule picks one selection, by induction over the fixes. -/
theorem Picks.unique {chosen sorted first second : List Fix} (one : Picks chosen sorted first)
    (other : Picks chosen sorted second)
    : first = second := by
  induction one generalizing second with
  | done =>
      cases other
      rfl
  | keep free _ ih =>
      cases other with
      | keep _ more => rw [ih more]
      | drop blocked _ =>
          obtain ⟨g, member, same, behind⟩ := blocked
          exact absurd (free g member same) behind
  | drop blocked _ ih =>
      cases other with
      | keep free _ =>
          obtain ⟨g, member, same, behind⟩ := blocked
          exact absurd (free g member same) behind
      | drop _ more => exact ih more

-----------------------------------------------------------------------------------------
-- The selection
-----------------------------------------------------------------------------------------

/-- A part of ordered fixes has those of one rank in the order in which they were given. -/
theorem IsOrderOf.filter_sublist {sorted given part : List Fix} (order : IsOrderOf sorted given)
    (within : part.Sublist sorted) (rank : String ×ₗ (ℤ ×ₗ ℤ) ×ₗ (ℤ ×ₗ ℤ))
    : (part.filter (·.rank = rank)).Sublist (given.filter (·.rank = rank)) :=
  order.stable rank ▸ within.filter _

/-- The fixes that are selected are the greedy selection of those given, and this is the only
one.
-/
theorem select_eq_iff {fixes selected : List Fix}
    : select fixes = selected ↔ IsSelection fixes selected := by
  have within : (select fixes).Sublist (ordered fixes) := keepAfter_sublist none _
  have picked : Picks [] (ordered fixes) (select fixes) :=
    picks_keepAfter (pairwise_ordered fixes) .nil
  constructor
  · intro same
    subst same
    exact {
      ranked := (pairwise_ordered fixes).sublist within
      part := within.subperm.trans (perm_ordered fixes).subperm
      stable := (isOrderOf_ordered fixes).filter_sublist within
      apart := pairwise_select fixes
      greedy := ⟨ordered fixes, isOrderOf_ordered fixes, picked⟩
    }
  · intro selection
    obtain ⟨sorted, order, rule⟩ := selection.greedy
    rw [order.eq_ordered] at rule
    exact picked.unique rule

end EditorLint.Fix
