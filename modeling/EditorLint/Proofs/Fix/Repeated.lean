import EditorLint.Proofs.Fix.Greedy

/-! Fixes that are given more than once. A fix that replaces something is selected once at most, and
another copy of it changes nothing unless it comes before a fix that replaces the same part with
something else. A fix that only inserts something is selected as often as it is given.
-/

namespace EditorLint.Fix

/-- Some of the text is replaced: the range ends behind its start. -/
def Replaces (f : Fix) : Prop :=
  f.span.start.key < f.span.stop.key

instance (f : Fix) : Decidable f.Replaces :=
  inferInstanceAs (Decidable (_ < _))

/-- A fix is not selected because of one that is, of its file and of a lower rank, which ends behind
the start of the fix.
-/
def Blocked (f : Fix) (fixes : List Fix) : Prop :=
  ∃ g ∈ select fixes, g.rank < f.rank ∧ g.file = f.file ∧ ¬ f.Follows g

/-- Those of lower ranks. -/
def lower (f : Fix) (fixes : List Fix) : List Fix :=
  fixes.filter (·.rank < f.rank)

/-- Those of the same file and range. -/
def ties (f : Fix) (fixes : List Fix) : List Fix :=
  fixes.filter (·.rank = f.rank)

/-- Those of higher ranks. -/
def higher (f : Fix) (fixes : List Fix) : List Fix :=
  fixes.filter (f.rank < ·.rank)

variable {f g : Fix} {fixes : List Fix}

-----------------------------------------------------------------------------------------
-- Fixes of one rank
-----------------------------------------------------------------------------------------

@[simp]
theorem mem_lower : g ∈ f.lower fixes ↔ g ∈ fixes ∧ g.rank < f.rank := by
  simp [lower]

@[simp]
theorem mem_ties : g ∈ f.ties fixes ↔ g ∈ fixes ∧ g.rank = f.rank := by
  simp [ties]

@[simp]
theorem mem_higher : g ∈ f.higher fixes ↔ g ∈ fixes ∧ f.rank < g.rank := by
  simp [higher]

/-- Fixes of one rank are of one file and of one range. -/
theorem rank_eq_iff
    : f.rank = g.rank
      ↔ f.file = g.file ∧ f.span.start.key = g.span.start.key
        ∧ f.span.stop.key = g.span.stop.key := by
  simp [rank]

/-- They overlap each other exactly if they replace something. -/
theorem overlaps_iff_of_rank_eq (tied : f.rank = g.rank) : f.overlaps g = true ↔ g.Replaces := by
  obtain ⟨file, start, _⟩ := rank_eq_iff.mp tied
  simp only [overlaps, Replaces, Bool.and_eq_true, beq_iff_eq, Position.before_iff, file, start,
    true_and]

/-- They overlap the same fixes. -/
theorem overlaps_eq (tied : f.rank = g.rank) : f.overlaps = g.overlaps := by
  obtain ⟨file, start, _⟩ := rank_eq_iff.mp tied
  funext h
  rw [Bool.eq_iff_iff]
  simp only [overlaps, Bool.and_eq_true, beq_iff_eq, Position.before_iff, file, start]

/-- And any fix overlaps all of them or none. -/
theorem overlaps_congr (tied : f.rank = g.rank) (h : Fix) : h.overlaps f = h.overlaps g := by
  obtain ⟨file, _, stop⟩ := rank_eq_iff.mp tied
  rw [Bool.eq_iff_iff]
  simp only [overlaps, Bool.and_eq_true, beq_iff_eq, Position.before_iff, file, stop]

/-- Of fixes whose ranks are as they should be, those of one rank are all there are, or none. -/
theorem filter_filter_rank (fixes : List Fix)
    (wanted : String ×ₗ (ℤ ×ₗ ℤ) ×ₗ (ℤ ×ₗ ℤ) → Prop) [DecidablePred wanted]
    (rank : String ×ₗ (ℤ ×ₗ ℤ) ×ₗ (ℤ ×ₗ ℤ))
    : (fixes.filter (wanted ·.rank)).filter (·.rank = rank)
      = if wanted rank then fixes.filter (·.rank = rank) else [] := by
  rw [List.filter_filter]
  split
  next own =>
    refine List.filter_congr fun f _ => ?_
    by_cases here : f.rank = rank
    · simp [here, own]
    · simp [here]
  next other =>
    refine List.filter_eq_nil_iff.mpr fun f _ => ?_
    by_cases here : f.rank = rank
    · simp [here, other]
    · simp [here]

/-- In the order of all fixes, those of a rank stand between those of lower ranks and those of
higher ones.
-/
theorem ordered_eq_append (f : Fix) (fixes : List Fix)
    : ordered fixes = ordered (f.lower fixes) ++ (f.ties fixes ++ ordered (f.higher fixes)) := by
  have below : ∀ g ∈ ordered (f.lower fixes), g.rank < f.rank := by
    simp [(perm_ordered _).mem_iff]
  have level : ∀ g ∈ f.ties fixes, g.rank = f.rank := by simp
  have above : ∀ g ∈ ordered (f.higher fixes), f.rank < g.rank := by
    simp [(perm_ordered _).mem_iff]
  refine (IsOrderOf.eq_ordered ⟨?_, ?_⟩).symm
  · refine List.pairwise_append.mpr ⟨pairwise_ordered _, ?_, ?_⟩
    · refine List.pairwise_append.mpr ⟨?_, pairwise_ordered _, ?_⟩
      · exact List.pairwise_of_forall_mem_list fun g first h second =>
          ((level g first).trans (level h second).symm).le
      · intro g first h second
        exact (level g first).le.trans (above h second).le
    · intro g first h second
      refine (below g first).le.trans ?_
      rcases List.mem_append.mp second with here | later
      · exact (level h here).ge
      · exact (above h later).le
  · intro rank
    rw [List.filter_append, List.filter_append, (isOrderOf_ordered _).stable,
      (isOrderOf_ordered _).stable, lower, filter_filter_rank fixes (· < f.rank), ties,
      filter_filter_rank fixes (· = f.rank), higher, filter_filter_rank fixes (f.rank < ·)]
    rcases lt_trichotomy rank f.rank with before | rfl | behind
    · simp [before, before.ne, before.not_gt]
    · simp
    · simp [behind, behind.ne', behind.not_gt]

-----------------------------------------------------------------------------------------
-- What is kept of them
-----------------------------------------------------------------------------------------

/-- Fixes are kept one part after the other, by induction over the first part. -/
theorem keepAfter_append (last : Option Fix) (fixes more : List Fix)
    : keepAfter last (fixes ++ more)
      = keepAfter last fixes ++ keepAfter ((keepAfter last fixes).getLast?.or last) more := by
  induction fixes generalizing last with
  | nil => simp [keepAfter]
  | cons f rest ih =>
      simp only [List.cons_append, keepAfter]
      split
      · exact ih last
      · cases kept : keepAfter (some f) rest <;> simp [ih, kept, List.getLast?_cons]

/-- Which of the fixes of a rank was kept last makes no difference to those that come, by induction
over these.
-/
theorem keepAfter_congr (tied : f.rank = g.rank) (fixes : List Fix)
    : keepAfter (some f) fixes = keepAfter (some g) fixes := by
  induction fixes with
  | nil => rfl
  | cons h rest ih => simp only [keepAfter, Option.any_some, overlaps_congr tied, ih]

/-- Fixes that overlap the one kept last are left out, by induction over them. -/
theorem keepAfter_of_overlaps {last : Option Fix}
    (overlapping : ∀ g ∈ fixes, last.any g.overlaps = true) (more : List Fix)
    : keepAfter last (fixes ++ more) = keepAfter last more := by
  induction fixes with
  | nil => rfl
  | cons g rest ih =>
      obtain ⟨first, others⟩ := List.forall_mem_cons.mp overlapping
      simp only [List.cons_append, keepAfter, first, if_true]
      exact ih others

/-- Behind a fix that replaces nothing all others of its rank are kept, by induction over them. -/
theorem keepAfter_of_not_replaces (inserts : ¬ f.Replaces)
    (tied : ∀ g ∈ fixes, g.rank = f.rank) (more : List Fix)
    : keepAfter (some f) (fixes ++ more) = fixes ++ keepAfter (some f) more := by
  induction fixes with
  | nil => rfl
  | cons g rest ih =>
      obtain ⟨first, others⟩ := List.forall_mem_cons.mp tied
      have free : ¬ g.overlaps f = true := (overlaps_iff_of_rank_eq first).not.mpr inserts
      rw [List.cons_append, keepAfter, Option.any_some, if_neg free, keepAfter_congr first,
        ih others, List.cons_append]

-----------------------------------------------------------------------------------------
-- The selection by ranks
-----------------------------------------------------------------------------------------

/-- What is selected of lower ranks comes first, and the rest is kept behind it. -/
theorem select_eq_append (f : Fix) (fixes : List Fix)
    : select fixes
      = select (f.lower fixes)
        ++ keepAfter (select (f.lower fixes)).getLast?
            (f.ties fixes ++ ordered (f.higher fixes)) := by
  simp only [select]
  rw [ordered_eq_append f, keepAfter_append, Option.or_none]

/-- A selected fix of a lower rank is one that is selected of the lower ranks. -/
theorem mem_select_lower : g ∈ select (f.lower fixes) ↔ g ∈ select fixes ∧ g.rank < f.rank := by
  rw [select_eq_append f fixes, List.mem_append]
  constructor
  · intro selected
    exact ⟨Or.inl selected, (mem_lower.mp (mem_select selected)).2⟩
  · intro given
    obtain ⟨selected | other, rank⟩ := given
    · exact selected
    · rcases List.mem_append.mp ((keepAfter_sublist _ _).subset other) with here | above
      · exact absurd (mem_ties.mp here).2 rank.ne
      · exact absurd (mem_higher.mp ((perm_ordered _).mem_iff.mp above)).2 rank.not_gt

/-- A fix is blocked exactly if it overlaps the one that is selected last of the lower ranks. -/
theorem blocked_iff
    : f.Blocked fixes ↔ (select (f.lower fixes)).getLast?.any f.overlaps = true := by
  rw [any_overlaps_getLast?_iff ?_ (pairwise_select _)]
  · simp only [mem_select_lower, Blocked, and_assoc]
  · refine List.pairwise_append.mpr ⟨?_, List.pairwise_singleton _ f, ?_⟩
    · exact (pairwise_ordered _).sublist (keepAfter_sublist none _)
    · intro g member _ here
      obtain rfl := List.mem_singleton.mp here
      exact (mem_select_lower.mp member).2.le

/-- Of the fixes of a rank none is selected if they are blocked. -/
theorem select_of_blocked (blocked : f.Blocked fixes)
    : select fixes
      = select (f.lower fixes)
        ++ keepAfter (select (f.lower fixes)).getLast? (ordered (f.higher fixes)) := by
  rw [select_eq_append f, keepAfter_of_overlaps]
  intro g member
  rw [overlaps_eq (mem_ties.mp member).2]
  exact blocked_iff.mp blocked

/-- Of fixes that replace something the first one given is selected. -/
theorem select_of_replaces (free : ¬ f.Blocked fixes) (replaces : f.Replaces) {first : Fix}
    {rest : List Fix} (ties : f.ties fixes = first :: rest)
    : select fixes
      = select (f.lower fixes) ++ first :: keepAfter (some f) (ordered (f.higher fixes)) := by
  have tied : ∀ g ∈ first :: rest, g.rank = f.rank := fun g member =>
    (mem_ties.mp (ties ▸ member)).2
  obtain ⟨same, others⟩ := List.forall_mem_cons.mp tied
  have chosen : ¬ (select (f.lower fixes)).getLast?.any first.overlaps = true := by
    rw [overlaps_eq same]
    exact blocked_iff.not.mp free
  rw [select_eq_append f, ties, List.cons_append, keepAfter, if_neg chosen, keepAfter_congr same,
    keepAfter_of_overlaps]
  intro g member
  exact (overlaps_iff_of_rank_eq (others g member)).mpr replaces

/-- Of fixes that replace nothing all are selected, as they were given. -/
theorem select_of_not_replaces (free : ¬ f.Blocked fixes) (inserts : ¬ f.Replaces)
    (given : f.ties fixes ≠ [])
    : select fixes
      = select (f.lower fixes)
        ++ (f.ties fixes ++ keepAfter (some f) (ordered (f.higher fixes))) := by
  obtain ⟨first, rest, ties⟩ := List.exists_cons_of_ne_nil given
  have tied : ∀ g ∈ first :: rest, g.rank = f.rank := fun g member =>
    (mem_ties.mp (ties ▸ member)).2
  obtain ⟨same, others⟩ := List.forall_mem_cons.mp tied
  have chosen : ¬ (select (f.lower fixes)).getLast?.any first.overlaps = true := by
    rw [overlaps_eq same]
    exact blocked_iff.not.mp free
  rw [select_eq_append f, ties, List.cons_append, keepAfter, if_neg chosen, keepAfter_congr same,
    keepAfter_of_not_replaces inserts others, List.cons_append]

-----------------------------------------------------------------------------------------
-- Another copy of a fix
-----------------------------------------------------------------------------------------

/-- A fix that replaces something is selected once at most: a second time it would have to start
where it ends, or behind that.
-/
theorem count_select_le_one (replaces : f.Replaces) (fixes : List Fix)
    : (select fixes).count f ≤ 1 := by
  by_contra twice
  have both : (List.replicate 2 f).Sublist (select fixes) :=
    List.replicate_sublist_iff.mpr (not_le.mp twice)
  have follows := (pairwise_select fixes).sublist both
  have again : f.Follows f := by simpa using follows
  exact absurd replaces again.not_gt

/-- A fix that replaces nothing is selected as often as it is given, if it is not blocked: no other
rank has a copy of it.
-/
theorem count_select_of_not_replaces (free : ¬ f.Blocked fixes) (inserts : ¬ f.Replaces)
    : (select fixes).count f = fixes.count f := by
  by_cases given : f ∈ fixes
  · have tied : f.ties fixes ≠ [] := List.ne_nil_of_mem (mem_ties.mpr ⟨given, rfl⟩)
    have before : f ∉ select (f.lower fixes) := by simp [mem_select_lower]
    have behind : f ∉ keepAfter (some f) (ordered (f.higher fixes)) := by
      intro kept
      have above := (perm_ordered _).mem_iff.mp ((keepAfter_sublist _ _).subset kept)
      exact (mem_higher.mp above).2.false
    rw [select_of_not_replaces free inserts tied, List.count_append, List.count_append,
      List.count_eq_zero_of_not_mem before, List.count_eq_zero_of_not_mem behind, ties,
      List.count_filter (by simp)]
    omega
  · rw [List.count_eq_zero_of_not_mem given,
      List.count_eq_zero_of_not_mem (given ∘ mem_select)]

variable {before after : List Fix}

/-- Another copy of a fix is of no lower rank. -/
theorem lower_insert : f.lower (before ++ f :: after) = f.lower (before ++ after) := by
  simp [lower]

/-- Nor of a higher one. -/
theorem higher_insert : f.higher (before ++ f :: after) = f.higher (before ++ after) := by
  simp [higher]

/-- It is not what blocks the fix. -/
theorem blocked_insert : f.Blocked (before ++ f :: after) ↔ f.Blocked (before ++ after) := by
  rw [blocked_iff, blocked_iff, lower_insert]

/-- Another copy of a fix that is given changes nothing exactly if the fix is blocked, or if it
replaces something and the first fix of its file and range stays the same. A fix that replaces
something is selected once at most, and one that does not is selected as often as it is given,
unless it is blocked.
-/
theorem select_insert (member : f ∈ before ++ after)
    : (select (before ++ f :: after) = select (before ++ after)
        ↔ f.Blocked (before ++ after)
          ∨ f.Replaces
            ∧ (f.ties (before ++ f :: after)).head? = (f.ties (before ++ after)).head?)
      ∧ (f.Replaces → (select (before ++ after)).count f ≤ 1)
      ∧ (¬ f.Replaces
        → ¬ f.Blocked (before ++ after)
        → (select (before ++ after)).count f = (before ++ after).count f) := by
  refine ⟨?_, fun replaces => count_select_le_one replaces _,
    fun inserts free => count_select_of_not_replaces free inserts⟩
  by_cases blocked : f.Blocked (before ++ after)
  · rw [select_of_blocked blocked, select_of_blocked (blocked_insert.mpr blocked), lower_insert,
      higher_insert]
    simp [blocked]
  · have free := blocked_insert.not.mpr blocked
    have given : f ∈ f.ties (before ++ after) := mem_ties.mpr ⟨member, rfl⟩
    have copied : f ∈ f.ties (before ++ f :: after) := by simp
    by_cases replaces : f.Replaces
    · obtain ⟨first, rest, ties⟩ := List.exists_cons_of_ne_nil (List.ne_nil_of_mem given)
      obtain ⟨head, others, more⟩ := List.exists_cons_of_ne_nil (List.ne_nil_of_mem copied)
      rw [select_of_replaces blocked replaces ties, select_of_replaces free replaces more,
        lower_insert, higher_insert, ties, more]
      simp [blocked, replaces]
    · rw [select_of_not_replaces blocked replaces (List.ne_nil_of_mem given),
        select_of_not_replaces free replaces (List.ne_nil_of_mem copied), lower_insert,
        higher_insert]
      have longer
          : (f.ties (before ++ f :: after)).length = (f.ties (before ++ after)).length + 1 := by
        simp [ties]
        omega
      have differ : f.ties (before ++ f :: after) ≠ f.ties (before ++ after) := by
        intro same
        rw [same] at longer
        omega
      simp [blocked, replaces, differ]

/-- A fix that takes the first row of a file away. -/
def removal : Fix :=
  ⟨"/a.py", ⟨⟨.int 0, .int 0⟩, ⟨.int 1, .int 0⟩⟩, ""⟩

/-- A fix that puts a row in front of the first one. -/
def insertion : Fix :=
  ⟨"/a.py", ⟨⟨.int 0, .int 0⟩, ⟨.int 0, .int 0⟩⟩, "import os\n"⟩

/-- Another copy of the first fix does not change what is selected. -/
theorem select_insert_removal
    : removal ∈ [insertion] ++ [removal]
      ∧ select ([insertion] ++ removal :: [removal]) = select ([insertion] ++ [removal]) := by
  have member : removal ∈ [insertion] ++ [removal] := by decide
  have replaces : removal.Replaces := by decide
  exact ⟨member, (select_insert member).1.mpr (Or.inr ⟨replaces, by decide⟩)⟩

/-- A fix that puts another row in its place. -/
def rival : Fix :=
  { removal with replacement := "x = 1\n" }

/-- Another copy of the second one is selected too, and another copy of the first one takes the
place of the third one if it comes before it.
-/
theorem select_insert_insertion
    : insertion ∈ [insertion] ∧ removal ∈ [rival, removal]
      ∧ select [insertion] = [insertion]
      ∧ select [insertion, insertion] = [insertion, insertion]
      ∧ select [rival, removal] = [rival]
      ∧ select [removal, rival, removal] = [removal] := by
  decide

end EditorLint.Fix
