import EditorLint.Proofs.Fix.Repeated

/-! The selection does not depend on the order in which fixes are reported: whatever that order is,
parts of the same files and ranges are replaced, and with the same texts if no two fixes are for one
part. What is selected is settled: selecting from it again leaves nothing out.
-/

namespace EditorLint.Fix

/-- Two fixes are for one part: the file and the range are the same. A truth value in a range is the
number that it stands for.
-/
def SharePart (f g : Fix) : Prop :=
  f.file = g.file ∧ f.span.start.key = g.span.start.key ∧ f.span.stop.key = g.span.stop.key

instance (f g : Fix) : Decidable (f.SharePart g) :=
  inferInstanceAs (Decidable (_ ∧ _ ∧ _))

variable {fixes others : List Fix}

-----------------------------------------------------------------------------------------
-- Another order of the fixes
-----------------------------------------------------------------------------------------

theorem perm_ordered_of_perm (perm : others.Perm fixes) : (ordered others).Perm (ordered fixes) :=
  (perm_ordered others).trans (perm.trans (perm_ordered fixes).symm)

/-- Whatever the order of the fixes, their ranks come in one order. -/
theorem map_rank_ordered_of_perm (perm : others.Perm fixes)
    : (ordered others).map rank = (ordered fixes).map rank := by
  have ascending (given : List Fix) : ((ordered given).map rank).Pairwise (· ≤ ·) :=
    List.pairwise_map.mpr (pairwise_ordered given)
  have alike : ((ordered others).map rank).Perm ((ordered fixes).map rank) :=
    (perm_ordered_of_perm perm).map rank
  exact alike.eq_of_pairwise (fun _ _ _ _ => le_antisymm) (ascending others) (ascending fixes)

/-- If each of them has a rank of its own, the fixes themselves come in one order. -/
theorem ordered_eq_of_perm (perm : others.Perm fixes)
    (distinct : fixes.Pairwise fun f g => ¬ f.SharePart g)
    : ordered others = ordered fixes := by
  have ranks : (fixes.map rank).Nodup := by
    refine List.pairwise_map.mpr (distinct.imp ?_)
    intro f g apart tied
    exact apart (rank_eq_iff.mp tied)
  refine (perm_ordered_of_perm perm).eq_of_pairwise ?_ (pairwise_ordered others)
    (pairwise_ordered fixes)
  intro f g first second below above
  have given : f ∈ fixes := perm.mem_iff.mp ((perm_ordered others).mem_iff.mp first)
  have there : g ∈ fixes := (perm_ordered fixes).mem_iff.mp second
  exact List.inj_on_of_nodup_map ranks given there (le_antisymm below above)

/-- Which ranks are kept depends on the ranks alone, by induction over the fixes. -/
theorem forall₂_keepAfter {last before : Option Fix}
    (tied : List.Forall₂ (·.rank = ·.rank) others fixes) (same : last.map rank = before.map rank)
    : List.Forall₂ (·.rank = ·.rank) (keepAfter last others) (keepAfter before fixes) := by
  induction tied generalizing last before with
  | nil => exact .nil
  | @cons f g rest more first _ ih =>
      have alike : last.any f.overlaps = before.any g.overlaps := by
        rw [overlaps_eq first]
        cases last with
        | none => rw [Option.map_eq_none_iff.mp same.symm]
        | some kept =>
            obtain ⟨other, rfl, rank⟩ := Option.map_eq_some_iff.mp same.symm
            exact overlaps_congr rank.symm g
      simp only [keepAfter, alike]
      split
      · exact ih same
      · exact .cons first (ih (congrArg some first))

/-- So parts of the same files and ranges are selected whatever the order is. -/
theorem forall₂_select_of_perm (perm : others.Perm fixes)
    : List.Forall₂ SharePart (select others) (select fixes) := by
  have tied : List.Forall₂ (·.rank = ·.rank) (ordered others) (ordered fixes) := by
    have ranks := map_rank_ordered_of_perm perm
    rwa [← List.forall₂_eq_eq_eq, List.forall₂_map_left_iff, List.forall₂_map_right_iff] at ranks
  exact (forall₂_keepAfter tied rfl).imp fun _ _ => rank_eq_iff.mp

-----------------------------------------------------------------------------------------
-- Selecting again
-----------------------------------------------------------------------------------------

/-- Fixes that are in order stay as they are. -/
theorem ordered_of_pairwise (ranked : fixes.Pairwise (·.rank ≤ ·.rank))
    : ordered fixes = fixes := by
  rw [ordered_eq_insertionSort]
  exact ranked.insertionSort_eq

/-- Fixes that follow each other are all kept, by induction over them. -/
theorem keepAfter_of_pairwise {last : Option Fix}
    (apart
      : (last.toList ++ fixes).Pairwise fun earlier later =>
          earlier.file = later.file → later.Follows earlier)
    : keepAfter last fixes = fixes := by
  induction fixes generalizing last with
  | nil => rfl
  | cons f rest ih =>
      have free : last.any f.overlaps = false := by
        cases last with
        | none => rfl
        | some before =>
            have follows := (List.pairwise_cons.mp apart).1 f List.mem_cons_self
            exact overlaps_eq_false_iff.mpr fun same => follows same.symm
      have others : keepAfter (some f) rest = rest :=
        ih (apart.sublist (List.sublist_append_right last.toList (f :: rest)))
      rw [keepAfter, free, if_neg Bool.false_ne_true, others]

/-- The selection does not depend on the order in which the fixes are reported, if no two of them
are for one part, and in any case the same parts are replaced. Selecting from the fixes that were
selected gives all of them.
-/
theorem select_settled
    : (∀ fixes others : List Fix,
        others.Perm fixes
        → List.Forall₂ SharePart (select others) (select fixes)
          ∧ ((fixes.Pairwise fun f g => ¬ f.SharePart g) → select others = select fixes))
      ∧ ∀ fixes : List Fix, select (select fixes) = select fixes := by
  constructor
  · intro fixes others perm
    refine ⟨forall₂_select_of_perm perm, ?_⟩
    intro distinct
    rw [select, ordered_eq_of_perm perm distinct, select]
  · intro fixes
    have ranked : (select fixes).Pairwise (·.rank ≤ ·.rank) :=
      (pairwise_ordered fixes).sublist (keepAfter_sublist none _)
    have kept : keepAfter none (select fixes) = select fixes :=
      keepAfter_of_pairwise (pairwise_select fixes)
    rw [select, ordered_of_pairwise ranked, kept]

/-- Fixes of two files, one of which overlaps another one and one of which ends before it starts. -/
def scattered : List Fix :=
  [⟨"/b.py", ⟨⟨.int 4, .int 2⟩, ⟨.int 3, .int 0⟩⟩, "x"⟩,
    ⟨"/a.py", ⟨⟨.int 0, .int 3⟩, ⟨.int 2, .int 0⟩⟩, ""⟩,
    ⟨"/b.py", ⟨⟨.int 0, .int 0⟩, ⟨.flag true, .int 0⟩⟩, "y"⟩,
    ⟨"/a.py", ⟨⟨.int 0, .int 0⟩, ⟨.int 1, .int 0⟩⟩, "z"⟩]

/-- Two reports of these fixes, in which one of them is left out. -/
theorem select_scattered
    : scattered.reverse.Perm scattered
      ∧ (scattered.Pairwise fun f g => ¬ f.SharePart g)
      ∧ select scattered.reverse = select scattered
      ∧ (select scattered).length = 3
      ∧ select (select scattered) = select scattered := by
  have perm : scattered.reverse.Perm scattered := List.reverse_perm scattered
  have distinct : scattered.Pairwise fun f g => ¬ f.SharePart g := by decide
  exact ⟨perm, distinct, (select_settled.1 _ _ perm).2 distinct, by decide, select_settled.2 _⟩

end EditorLint.Fix
