import Mathlib.Data.List.Forall2

/-! Operations that may fail, taken one after the other: they succeed where each of them does. -/

namespace EditorLint

variable {ε α β : Type}

/-- Two operations succeed together if the second succeeds on what the first gives. -/
theorem bind_eq_ok_iff {first : Except ε α} {second : α → Except ε β} {result : β}
    : (first >>= second) = .ok result ↔ ∃ value, first = .ok value ∧ second value = .ok result := by
  cases first <;> simp [Bind.bind, Except.bind]

/-- They fail as the first does, or as the second does on what the first gives. -/
theorem bind_eq_error_iff {first : Except ε α} {second : α → Except ε β} {failure : ε}
    : (first >>= second) = .error failure
      ↔ first = .error failure ∨ ∃ value, first = .ok value ∧ second value = .error failure := by
  cases first <;> simp [Bind.bind, Except.bind]

/-- An operation on items succeeds if it does on the first item and on all others. -/
theorem mapM_cons_eq_ok_iff {f : α → Except ε β} {item : α} {rest : List α} {results : List β}
    : (item :: rest).mapM f = .ok results
      ↔ ∃ first others,
          f item = .ok first ∧ rest.mapM f = .ok others ∧ results = first :: others := by
  rw [List.mapM_cons, bind_eq_ok_iff]
  constructor
  · intro given
    obtain ⟨first, begun, more⟩ := given
    obtain ⟨others, went, same⟩ := bind_eq_ok_iff.mp more
    exact ⟨first, others, begun, went, (Except.ok.inj same).symm⟩
  · intro given
    obtain ⟨first, others, begun, went, rfl⟩ := given
    exact ⟨first, begun, bind_eq_ok_iff.mpr ⟨others, went, rfl⟩⟩

/-- An operation on items succeeds exactly if it does on each of them, by induction. -/
theorem exists_mapM_eq_ok_iff {f : α → Except ε β} {items : List α}
    : (∃ results, items.mapM f = .ok results) ↔ ∀ item ∈ items, ∃ result, f item = .ok result := by
  induction items with
  | nil => exact ⟨fun _ _ => nofun, fun _ => ⟨[], rfl⟩⟩
  | cons first rest ih =>
      rw [List.forall_mem_cons, ← ih]
      constructor
      · intro given
        obtain ⟨results, done⟩ := given
        obtain ⟨result, others, begun, went, _⟩ := mapM_cons_eq_ok_iff.mp done
        exact ⟨⟨result, begun⟩, others, went⟩
      · intro given
        obtain ⟨⟨result, begun⟩, others, went⟩ := given
        exact ⟨_, mapM_cons_eq_ok_iff.mpr ⟨result, others, begun, went, rfl⟩⟩

/-- The results of an operation on items are those of each of them, in order, by induction. -/
theorem mapM_eq_ok_iff {f : α → Except ε β} {items : List α} {results : List β}
    : items.mapM f = .ok results
      ↔ List.Forall₂ (fun item result => f item = .ok result) items results := by
  induction items generalizing results with
  | nil =>
      rw [List.forall₂_nil_left_iff]
      exact ⟨fun done => (Except.ok.inj done).symm, fun none => none ▸ rfl⟩
  | cons first rest ih =>
      simp only [mapM_cons_eq_ok_iff, List.forall₂_cons_left_iff, ih]

/-- Each result is the one of an item, by induction. -/
theorem exists_of_mem_mapM {f : α → Except ε β} {items : List α} {results : List β}
    (done : items.mapM f = .ok results) {result : β} (member : result ∈ results)
    : ∃ item ∈ items, f item = .ok result := by
  induction items generalizing results with
  | nil =>
      obtain rfl : [] = results := Except.ok.inj done
      cases member
  | cons first rest ih =>
      obtain ⟨head, others, begun, went, rfl⟩ := mapM_cons_eq_ok_iff.mp done
      rcases List.mem_cons.mp member with rfl | behind
      · exact ⟨first, List.mem_cons_self, begun⟩
      · obtain ⟨item, inside, gives⟩ := ih went behind
        exact ⟨item, List.mem_cons_of_mem first inside, gives⟩

end EditorLint
