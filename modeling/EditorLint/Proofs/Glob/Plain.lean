import EditorLint.Proofs.Glob

/-! Patterns without wildcards, and directories with all that is in them. Such a pattern matches the
paths that end in it, and one line feed more at the end of a path is overlooked. What is in a
directory is matched unless a line feed comes before its last character.
-/

namespace EditorLint.Glob

instance (tail text : List Char) : Decidable (IsTail tail text) :=
  inferInstanceAs (Decidable (_ ∨ _))

/-- A pattern is a relative path without wildcards. -/
structure IsPlain (pattern : List Char) : Prop where
  nonempty : pattern ≠ []
  relative : pattern.head? ≠ some '/'
  literal : ∀ c ∈ pattern, c ≠ '*' ∧ c ≠ '?'

variable {pattern : List Char}

-----------------------------------------------------------------------------------------
-- Tokens of plain patterns
-----------------------------------------------------------------------------------------

/-- Characters that are no wildcards are read one by one, by induction over them. -/
theorem reads_append_of_literal (literal : ∀ c ∈ pattern, c ≠ '*' ∧ c ≠ '?') {rest : List Char}
    {found : List Token} (reads : Reads rest found)
    : Reads (pattern ++ rest) (pattern.map .literal ++ found) := by
  induction pattern with
  | nil => exact reads
  | cons c others ih =>
      obtain ⟨first, more⟩ := List.forall_mem_cons.mp literal
      exact .literal first (ih more)

/-- They spell themselves, by induction over them. -/
theorem spells_literal_iff {text : List Char}
    : Spells Token.Catches (pattern.map .literal) text ↔ text = pattern := by
  induction pattern generalizing text with
  | nil => exact spells_nil
  | cons c others ih =>
      simp [spells_cons, ih, Token.Catches, Token.StandsFor]

/-- Two stars at the end spell anything that is in one line. -/
theorem spells_below_iff {text : List Char}
    : Spells Token.Catches (pattern.map .literal ++ [.literal '/', .anything]) text
      ↔ ∃ below, text = pattern ++ '/' :: below ∧ '\n' ∉ below := by
  simp [spells_append, spells_literal_iff, spells_cons, spells_nil, Token.Catches, Token.StandsFor]

/-- A text of one line, with or without a line feed at its end, has none before its last
character.
-/
theorem notMem_dropLast_iff {c : Char} {text : List Char}
    : c ∉ text.dropLast
      ↔ ∃ front ending, text = front ++ ending ∧ c ∉ front ∧ (ending = [] ∨ ending = [c]) := by
  constructor
  · intro line
    rcases List.eq_nil_or_concat' text with rfl | ⟨front, last, rfl⟩
    · exact ⟨[], [], rfl, by simp, Or.inl rfl⟩
    · rw [List.dropLast_concat] at line
      by_cases ends : last = c
      · exact ⟨front, [last], rfl, line, Or.inr (ends ▸ rfl)⟩
      · exact ⟨front ++ [last], [], by simp, by simp [line, Ne.symm ends], Or.inl rfl⟩
  · intro given
    obtain ⟨front, ending, rfl, line, rfl | rfl⟩ := given
    · rw [List.append_nil]
      exact fun member => line (List.dropLast_subset front member)
    · rwa [List.dropLast_concat]

-----------------------------------------------------------------------------------------
-- Paths that match
-----------------------------------------------------------------------------------------

/-- The texts in which a relative pattern is found end in one that its tokens spell, but for a line
feed.
-/
theorem finds_iff_of_relative (relative : pattern.head? ≠ some '/') (nonempty : pattern ≠ [])
    {text : List Char}
    : finds pattern text = true
      ↔ ∃ front ending,
          IsTail (front ++ ending) text
          ∧ Spells Token.Catches (tokens pattern) front
          ∧ (ending = [] ∨ ending = ['\n']) := by
  simp only [finds_iff, Faces, if_neg relative, takes_iff]
  constructor
  · intro given
    obtain ⟨_, _, isTail, front, ending, rfl, spells, ends⟩ := given
    exact ⟨front, ending, isTail, spells, ends⟩
  · intro given
    obtain ⟨front, ending, isTail, spells, ends⟩ := given
    exact ⟨nonempty, _, isTail, front, ending, rfl, spells, ends⟩

/-- A plain pattern is found at the end of a text, or before one line feed at its end. -/
theorem IsPlain.finds_iff (plain : IsPlain pattern) {text : List Char}
    : finds pattern text = true
      ↔ IsTail pattern text ∨ IsTail (pattern ++ ['\n']) text := by
  have found : tokens pattern = pattern.map .literal := by
    have reads := reads_append_of_literal plain.literal .done
    rw [List.append_nil, List.append_nil] at reads
    exact (reads_iff.mp reads).symm
  simp only [finds_iff_of_relative plain.relative plain.nonempty, found, spells_literal_iff]
  constructor
  · intro given
    obtain ⟨_, _, isTail, rfl, rfl | rfl⟩ := given
    · exact Or.inl (by rwa [List.append_nil] at isTail)
    · exact Or.inr isTail
  · intro given
    rcases given with isTail | isTail
    · exact ⟨pattern, [], by rwa [List.append_nil], rfl, Or.inl rfl⟩
    · exact ⟨pattern, ['\n'], isTail, rfl, Or.inr rfl⟩

/-- A directory with two stars is found in front of what has no line feed before its last
character.
-/
theorem IsPlain.finds_below_iff (plain : IsPlain pattern) {text : List Char}
    : finds (pattern ++ ['/', '*', '*']) text = true
      ↔ ∃ below, IsTail (pattern ++ '/' :: below) text ∧ '\n' ∉ below.dropLast := by
  have found
      : tokens (pattern ++ ['/', '*', '*'])
        = pattern.map .literal ++ [.literal '/', .anything] := by
    have stars : Reads ['/', '*', '*'] [.literal '/', .anything] :=
      .literal (by decide) (.anything (by decide) .done)
    exact (reads_iff.mp (reads_append_of_literal plain.literal stars)).symm
  have relative : (pattern ++ ['/', '*', '*']).head? ≠ some '/' := by
    rw [List.head?_append_of_ne_nil _ plain.nonempty]
    exact plain.relative
  simp only [finds_iff_of_relative relative (by simp), found, spells_below_iff, notMem_dropLast_iff]
  constructor
  · intro given
    obtain ⟨_, ending, isTail, ⟨below, rfl, line⟩, ends⟩ := given
    exact ⟨below ++ ending, by simpa using isTail, below, ending, rfl, line, ends⟩
  · intro given
    obtain ⟨_, isTail, below, ending, rfl, line, ends⟩ := given
    exact ⟨pattern ++ '/' :: below, ending, by simpa using isTail, ⟨below, rfl, line⟩, ends⟩

/-- A plain pattern matches the paths that end in it, and those that have one line feed more. With a
slash and two stars it matches what is below it unless that has a line feed before its last
character. So within a line it matches exactly the paths that end in it, and with the stars all that
are below it.
-/
theorem isMatch_plain {pattern : String} (plain : IsPlain pattern.toList) (path : String)
    : (isMatch path pattern = true
        ↔ IsTail pattern.toList (normalPath path).toList
          ∨ IsTail (pattern.toList ++ ['\n']) (normalPath path).toList)
      ∧ (isMatch path (pattern ++ "/**") = true
        ↔ ∃ below,
            IsTail (pattern.toList ++ '/' :: below) (normalPath path).toList
            ∧ '\n' ∉ below.dropLast)
      ∧ ('\n' ∉ (normalPath path).toList
        → (isMatch path pattern = true ↔ IsTail pattern.toList (normalPath path).toList)
          ∧ ∀ below,
              IsTail (pattern.toList ++ '/' :: below) (normalPath path).toList
              → isMatch path (pattern ++ "/**") = true) := by
  have stars : (pattern ++ "/**").toList = pattern.toList ++ ['/', '*', '*'] := by
    rw [String.toList_append]
    rfl
  simp only [isMatch, stars, plain.finds_iff, plain.finds_below_iff, true_and]
  intro line
  constructor
  · refine or_iff_left ?_
    intro isTail
    exact line (isTail.subset (by simp))
  · intro below isTail
    refine ⟨below, isTail, ?_⟩
    intro member
    have inside : '\n' ∈ below := List.dropLast_subset below member
    exact line (isTail.subset (by simp [inside]))

/-- A plain file name, with a line feed behind it and as a directory. -/
theorem isMatch_plain_file
    : IsPlain "gen.py".toList
      ∧ isMatch "/work//gen.py\n" "gen.py" = true
      ∧ isMatch "gen.py/a\n" ("gen.py" ++ "/**") = true
      ∧ '\n' ∉ (normalPath "./gen.py/a/b").toList
      ∧ isMatch "./gen.py/a/b" ("gen.py" ++ "/**") = true := by
  have plain : IsPlain "gen.py".toList := ⟨by decide, by decide, by simp⟩
  have line : '\n' ∉ (normalPath "./gen.py/a/b").toList := by decide
  refine ⟨plain, ?_, ?_, line, ?_⟩
  · exact (isMatch_plain plain _).1.mpr (Or.inr (by decide))
  · exact (isMatch_plain plain _).2.1.mpr ⟨['a', '\n'], by decide, by decide⟩
  · exact ((isMatch_plain plain _).2.2 line).2 ['a', '/', 'b'] (by decide)

/-- So a pattern matches a path that does not end in it, and does not match one that is below it. -/
theorem isMatch_of_line_feed
    : isMatch "gen.py\n" "gen.py" = true
      ∧ ¬ IsTail "gen.py".toList (normalPath "gen.py\n").toList
      ∧ isMatch "build/a\nb.py" "build/**" = false
      ∧ IsTail ("build".toList ++ '/' :: "a\nb.py".toList) (normalPath "build/a\nb.py").toList := by
  decide

end EditorLint.Glob
