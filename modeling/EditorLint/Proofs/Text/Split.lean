import EditorLint.Text.Split
import Mathlib.Data.List.Basic

/-! The pieces of a text between separators. They begin the pieces of another text exactly if that
is the same text or goes on with a separator.
-/

namespace EditorLint.Text

variable {separator : Char}

theorem splitChars_eq_splitOn (separator : Char) (cs : List Char)
    : splitChars separator cs = cs.splitOn separator := by
  induction cs with
  | nil => rfl
  | cons c rest ih =>
      rw [splitChars, ih, List.splitOn_cons_eq_if_modifyHead]
      by_cases here : c = separator
      · simp [here]
      · cases pieces : rest.splitOn separator with
        | nil => exact absurd pieces (List.splitOn_ne_nil _ rest)
        | cons piece others => simp [here]

/-- Pieces that are put together one behind the other have a separator between first and second. -/
theorem intercalate_append {first second : List (List Char)} (some : first ≠ [])
    (more : second ≠ [])
    : [separator].intercalate (first ++ second)
      = [separator].intercalate first ++ separator :: [separator].intercalate second := by
  induction first with
  | nil => exact absurd rfl some
  | cons piece rest ih =>
      by_cases last : rest = []
      · simp [last, List.intercalate_cons_of_ne_nil more]
      · have others : rest ++ second ≠ [] := List.append_ne_nil_of_left_ne_nil last second
        rw [List.cons_append, List.intercalate_cons_of_ne_nil others, ih last,
          List.intercalate_cons_of_ne_nil last, List.append_assoc (piece ++ [separator])]

/-- The pieces of one text begin those of another exactly if the other is the same, or goes on
with a separator: put together again, they are the one text, a separator and the remaining pieces.
-/
theorem splitChars_isPrefix_iff {short long : List Char}
    : splitChars separator short <+: splitChars separator long
      ↔ long = short ∨ short ++ [separator] <+: long := by
  simp only [splitChars_eq_splitOn]
  constructor
  · rintro ⟨others, whole⟩
    have joined := congrArg [separator].intercalate whole
    rw [List.intercalate_splitOn] at joined
    by_cases last : others = []
    · rw [last, List.append_nil, List.intercalate_splitOn] at joined
      exact Or.inl joined.symm
    · rw [intercalate_append (List.splitOn_ne_nil _ short) last, List.intercalate_splitOn] at joined
      exact Or.inr ⟨_, by rw [← joined, List.append_assoc, List.singleton_append]⟩
  · rintro (rfl | ⟨rest, rfl⟩)
    · exact List.prefix_refl _
    · rw [List.append_assoc, List.singleton_append, List.splitOn_append_cons_self]
      exact List.prefix_append _ _

end EditorLint.Text
