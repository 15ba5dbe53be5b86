import EditorLint.Glob
import Mathlib.Data.List.Forall2

/-! What a path pattern means. It is read into tokens from left to right, and it means a text that
can be cut into consecutive pieces, one for each token, each of which its token stands for. The
search finds such pieces wherever there are any, as long as no line feed comes in between.
-/

namespace EditorLint.Glob

-----------------------------------------------------------------------------------------
-- Patterns, tokens and pieces
-----------------------------------------------------------------------------------------

/-- The tokens of a pattern: at each place the longest wildcard that is there, or else the
character.
-/
inductive Reads : List Char → List Token → Prop
  | done
    : Reads [] []
  | directories {rest tokens} (more : Reads rest tokens)
    : Reads ('*' :: '*' :: '/' :: rest) (.directories :: tokens)
  | anything {rest tokens} (shorter : rest.head? ≠ some '/') (more : Reads rest tokens)
    : Reads ('*' :: '*' :: rest) (.anything :: tokens)
  | segmentRun {rest tokens} (shorter : rest.head? ≠ some '*') (more : Reads rest tokens)
    : Reads ('*' :: rest) (.segmentRun :: tokens)
  | segmentChar {rest tokens} (more : Reads rest tokens)
    : Reads ('?' :: rest) (.segmentChar :: tokens)
  | literal {c rest tokens} (plain : c ≠ '*' ∧ c ≠ '?') (more : Reads rest tokens)
    : Reads (c :: rest) (.literal c :: tokens)

/-- What a token stands for. Directories are nothing or anything that ends in a slash. -/
def Token.StandsFor : Token → List Char → Prop
  | .directories, piece => piece = [] ∨ ∃ path, piece = path ++ ['/']
  | .anything, _ => True
  | .segmentRun, piece => '/' ∉ piece
  | .segmentChar, piece => ∃ c, c ≠ '/' ∧ piece = [c]
  | .literal c, piece => piece = [c]

/-- A text is cut into consecutive pieces, one for each token. -/
def Spells (means : Token → List Char → Prop) (tokens : List Token) (text : List Char) : Prop :=
  ∃ pieces, text = pieces.flatten ∧ List.Forall₂ means tokens pieces

/-- A text is the end of another one from a slash on, or all of it. -/
def IsTail (tail text : List Char) : Prop :=
  tail = text ∨ ('/' :: tail) <:+ text

/-- The part of a text that a pattern is to match: all of it if the pattern starts with a slash, and
any tail otherwise.
-/
def Faces (pattern part text : List Char) : Prop :=
  if pattern.head? = some '/' then part = text else IsTail part text

/-- A pattern means a text: its tokens spell a part that it is to match. The empty pattern means
nothing.
-/
def Means (pattern text : List Char) : Prop :=
  pattern ≠ []
  ∧ ∃ tokens part,
      Reads pattern tokens ∧ Faces pattern part text ∧ Spells Token.StandsFor tokens part

-----------------------------------------------------------------------------------------
-- Reading patterns
-----------------------------------------------------------------------------------------

theorem head?_ne_of_forall {c : Char} {text : List Char}
    (other : ∀ rest, text = c :: rest → False)
    : text.head? ≠ some c := by
  intro starts
  obtain ⟨rest, same⟩ := List.head?_eq_some_iff.mp starts
  exact other rest same

/-- Tokens are read from what follows the characters that are skipped, by induction over the
pattern.
-/
theorem reads_tokensAfter (skip : Nat) (pattern : List Char)
    : Reads (pattern.drop skip) (tokensAfter skip pattern) := by
  fun_induction tokensAfter skip pattern with
  | case1 skip => simpa using Reads.done
  | case2 skip first rest ih => simpa using ih
  | case3 rest ih => exact .directories ih
  | case4 rest other ih => exact .anything (head?_ne_of_forall other) ih
  | case5 rest _ other ih => exact .segmentRun (head?_ne_of_forall other) ih
  | case6 rest _ ih => exact .segmentChar ih
  | case7 c rest star question ih => exact .literal ⟨star, question⟩ ih

/-- The tokens of a pattern are those that are read from it, by induction over them. -/
theorem reads_iff {pattern : List Char} {found : List Token}
    : Reads pattern found ↔ found = tokens pattern := by
  constructor
  · intro reads
    induction reads with
    | done => rfl
    | directories _ ih => exact congrArg (Token.directories :: ·) ih
    | @anything rest _ shorter _ ih =>
        cases rest with
        | nil => exact congrArg (Token.anything :: ·) ih
        | cons c rest =>
            have other : c ≠ '/' := by simpa using shorter
            simp [ih, tokens, tokensAfter, other]
    | @segmentRun rest _ shorter _ ih =>
        cases rest with
        | nil => exact congrArg (Token.segmentRun :: ·) ih
        | cons c rest =>
            have other : c ≠ '*' := by simpa using shorter
            simp [ih, tokens, tokensAfter, other]
    | segmentChar _ ih => exact congrArg (Token.segmentChar :: ·) ih
    | literal plain _ ih => simp [ih, tokens, tokensAfter, plain.1, plain.2]
  · intro same
    subst same
    exact reads_tokensAfter 0 pattern

-----------------------------------------------------------------------------------------
-- Cutting a text into pieces
-----------------------------------------------------------------------------------------

section Pieces

variable {means : Token → List Char → Prop} {token : Token} {rest : List Token} {text : List Char}

theorem spells_nil : Spells means [] text ↔ text = [] := by
  simp [Spells]

theorem spells_cons
    : Spells means (token :: rest) text
      ↔ ∃ piece after, text = piece ++ after ∧ means token piece ∧ Spells means rest after := by
  constructor
  · intro spells
    obtain ⟨pieces, rfl, cut⟩ := spells
    obtain ⟨piece, others, first, more, rfl⟩ := List.forall₂_cons_left_iff.mp cut
    exact ⟨piece, others.flatten, rfl, first, others, rfl, more⟩
  · intro given
    obtain ⟨piece, _, rfl, first, others, rfl, more⟩ := given
    exact ⟨piece :: others, rfl, .cons first more⟩

/-- What two lists of tokens spell together is what the one spells and then the other, by induction
over the first one.
-/
theorem spells_append {tokens : List Token}
    : Spells means (tokens ++ rest) text
      ↔ ∃ front after,
          text = front ++ after ∧ Spells means tokens front ∧ Spells means rest after := by
  induction tokens generalizing text with
  | nil => simp [spells_nil]
  | cons token tokens ih =>
      simp only [List.cons_append, spells_cons, ih]
      constructor
      · intro given
        obtain ⟨piece, _, rfl, first, front, after, rfl, more, others⟩ := given
        exact ⟨piece ++ front, after, by simp, ⟨piece, front, rfl, first, more⟩, others⟩
      · intro given
        obtain ⟨_, after, rfl, ⟨piece, front, rfl, first, more⟩, others⟩ := given
        exact ⟨piece, front ++ after, by simp, first, front, after, rfl, more, others⟩

end Pieces

-----------------------------------------------------------------------------------------
-- Searching for pieces
-----------------------------------------------------------------------------------------

/-- What the search takes for a token: a piece that it stands for, and one without line feeds if
the token goes across segments.
-/
def Token.Catches (token : Token) (piece : List Char) : Prop :=
  token.StandsFor piece ∧ (token = .directories ∨ token = .anything → '\n' ∉ piece)

/-- Within a line a token catches what it stands for, by induction over the tokens. -/
theorem spells_catches_iff {tokens : List Token} {text : List Char} (line : '\n' ∉ text)
    : Spells Token.Catches tokens text ↔ Spells Token.StandsFor tokens text := by
  induction tokens generalizing text with
  | nil => simp only [spells_nil]
  | cons token rest ih =>
      simp only [spells_cons]
      refine exists_congr fun piece => exists_congr fun after => and_congr_right fun same => ?_
      obtain ⟨inside, behind⟩ : '\n' ∉ piece ∧ '\n' ∉ after := by simpa [same] using line
      rw [ih behind, Token.Catches, and_iff_left fun _ => inside]

/-- A run is followed by each rest of the text in front of which all characters are allowed, by
induction over the text.
-/
theorem afterRun_iff {allowed : Char → Bool} {next : List Char → Bool} {text : List Char}
    : afterRun allowed next text = true
      ↔ ∃ run after,
          text = run ++ after ∧ (∀ c ∈ run, allowed c = true) ∧ next after = true := by
  induction text with
  | nil => simp [afterRun]
  | cons c rest ih =>
      simp only [afterRun, Bool.or_eq_true, Bool.and_eq_true, ih]
      constructor
      · intro given
        rcases given with here | ⟨first, run, after, rfl, others, found⟩
        · exact ⟨[], c :: rest, rfl, by simp, here⟩
        · exact ⟨c :: run, after, rfl, List.forall_mem_cons.mpr ⟨first, others⟩, found⟩
      · intro given
        obtain ⟨run, after, same, all, found⟩ := given
        cases run with
        | nil => exact Or.inl (same ▸ found)
        | cons first run =>
            obtain ⟨rfl, rfl⟩ := List.cons.inj same
            obtain ⟨first, others⟩ := List.forall_mem_cons.mp all
            exact Or.inr ⟨first, run, after, rfl, others, found⟩

/-- Directories are followed by each rest of the text behind a slash and in the first line, by
induction over the text.
-/
theorem afterDirectories_iff {next : List Char → Bool} {text : List Char}
    : afterDirectories next text = true
      ↔ ∃ run after, text = run ++ '/' :: after ∧ '\n' ∉ run ∧ next after = true := by
  induction text with
  | nil => simp [afterDirectories]
  | cons c rest ih =>
      simp only [afterDirectories, Bool.or_eq_true, Bool.and_eq_true, ih, beq_iff_eq, bne_iff_ne]
      constructor
      · intro given
        rcases given with ⟨rfl, here⟩ | ⟨first, run, after, rfl, others, found⟩
        · exact ⟨[], rest, rfl, by simp, here⟩
        · exact ⟨c :: run, after, rfl, List.not_mem_cons_of_ne_of_not_mem first.symm others, found⟩
      · intro given
        obtain ⟨run, after, same, line, found⟩ := given
        cases run with
        | nil =>
            obtain ⟨rfl, rfl⟩ := List.cons.inj same
            exact Or.inl ⟨rfl, found⟩
        | cons first run =>
            obtain ⟨rfl, rfl⟩ := List.cons.inj same
            have others := List.not_mem_of_not_mem_cons line
            exact Or.inr ⟨(List.ne_of_not_mem_cons line).symm, run, after, rfl, others, found⟩

/-- A token is taken with each piece that it catches and that leaves what the others take. -/
theorem takes_cons {token : Token} {rest : List Token} {text : List Char}
    : takes (token :: rest) text = true
      ↔ ∃ piece after, text = piece ++ after ∧ token.Catches piece ∧ takes rest after = true := by
  cases token with
  | directories =>
      simp only [takes, Bool.or_eq_true, afterDirectories_iff]
      constructor
      · intro given
        rcases given with found | ⟨run, after, rfl, line, found⟩
        · exact ⟨[], text, rfl, ⟨Or.inl rfl, by simp⟩, found⟩
        · exact ⟨run ++ ['/'], after, by simp, ⟨Or.inr ⟨run, rfl⟩, by simpa using line⟩, found⟩
      · intro given
        obtain ⟨_, after, rfl, ⟨rfl | ⟨run, rfl⟩, line⟩, found⟩ := given
        · exact Or.inl found
        · have inside : '\n' ∉ run := by simpa using line
          exact Or.inr ⟨run, after, by simp, inside, found⟩
  | anything =>
      simp [takes, afterRun_iff, Token.Catches, Token.StandsFor, List.forall_mem_ne']
  | segmentRun =>
      simp [takes, afterRun_iff, Token.Catches, Token.StandsFor, List.forall_mem_ne']
  | segmentChar =>
      cases text <;> simp [takes, Token.Catches, Token.StandsFor]
  | literal c =>
      cases text <;> simp [takes, Token.Catches, Token.StandsFor]

theorem atEnd_iff {text : List Char} : atEnd text = true ↔ text = [] ∨ text = ['\n'] := by
  fun_cases atEnd text with
  | case1 => simp
  | case2 => simp
  | case3 _ some longer =>
      simp only [Bool.false_eq_true, false_iff, not_or]
      exact ⟨some, longer⟩

/-- Tokens take a text up to its end if they spell it, or all of it but for a line feed at the end,
by induction over them.
-/
theorem takes_iff {tokens : List Token} {text : List Char}
    : takes tokens text = true
      ↔ ∃ front ending,
          text = front ++ ending
          ∧ Spells Token.Catches tokens front
          ∧ (ending = [] ∨ ending = ['\n']) := by
  induction tokens generalizing text with
  | nil =>
      simp only [takes, atEnd_iff, spells_nil]
      constructor
      · intro ends
        exact ⟨[], text, rfl, rfl, ends⟩
      · intro given
        obtain ⟨_, ending, rfl, rfl, ends⟩ := given
        exact ends
  | cons token rest ih =>
      simp only [takes_cons, ih, spells_cons]
      constructor
      · intro given
        obtain ⟨piece, _, rfl, caught, front, ending, rfl, spells, ends⟩ := given
        exact ⟨piece ++ front, ending, by simp, ⟨piece, front, rfl, caught, spells⟩, ends⟩
      · intro given
        obtain ⟨_, ending, rfl, ⟨piece, front, rfl, caught, spells⟩, ends⟩ := given
        exact ⟨piece, front ++ ending, by simp, caught, front, ending, rfl, spells, ends⟩

/-- Within a line they take the texts that they spell. -/
theorem takes_iff_of_line {tokens : List Token} {text : List Char} (line : '\n' ∉ text)
    : takes tokens text = true ↔ Spells Token.StandsFor tokens text := by
  rw [takes_iff, ← spells_catches_iff line]
  constructor
  · intro given
    obtain ⟨front, ending, rfl, spells, rfl | rfl⟩ := given
    · rwa [List.append_nil]
    · exact absurd (by simp) line
  · intro spells
    exact ⟨text, [], (List.append_nil text).symm, spells, Or.inl rfl⟩

/-- Each slash is tried, by induction over the text. -/
theorem takesAfterSlash_iff {tokens : List Token} {text : List Char}
    : takesAfterSlash tokens text = true
      ↔ ∃ tail, ('/' :: tail) <:+ text ∧ takes tokens tail = true := by
  induction text with
  | nil => simp [takesAfterSlash]
  | cons c rest ih =>
      simp only [takesAfterSlash, Bool.or_eq_true, Bool.and_eq_true, ih, beq_iff_eq,
        List.suffix_cons_iff, List.cons.injEq]
      constructor
      · intro given
        rcases given with ⟨rfl, found⟩ | ⟨tail, within, found⟩
        · exact ⟨rest, Or.inl ⟨rfl, rfl⟩, found⟩
        · exact ⟨tail, Or.inr within, found⟩
      · intro given
        obtain ⟨tail, ⟨rfl, rfl⟩ | within, found⟩ := given
        · exact Or.inl ⟨rfl, found⟩
        · exact Or.inr ⟨tail, within, found⟩

/-- A pattern is found where its tokens take a part that it is to match. -/
theorem finds_iff {pattern text : List Char}
    : finds pattern text = true
      ↔ pattern ≠ [] ∧ ∃ part, Faces pattern part text ∧ takes (tokens pattern) part = true := by
  fun_cases finds pattern text with
  | case1 => simp
  | case2 rest => simp [Faces]
  | case3 _ given other =>
      have relative : pattern.head? ≠ some '/' := head?_ne_of_forall other
      have nonempty : pattern ≠ [] := given
      simp only [Bool.or_eq_true, takesAfterSlash_iff, Faces, if_neg relative, IsTail, or_and_right,
        exists_or, exists_eq_left, ne_eq, nonempty, not_false_eq_true, true_and]

-----------------------------------------------------------------------------------------
-- Patterns and paths
-----------------------------------------------------------------------------------------

theorem IsTail.subset {tail text : List Char} (isTail : IsTail tail text) : tail ⊆ text := by
  rcases isTail with rfl | suffix
  · exact List.Subset.refl tail
  · exact List.Subset.trans (List.subset_cons_self '/' tail) suffix.subset

/-- What a pattern is to match has only characters of the text. -/
theorem Faces.subset {pattern part text : List Char} (faces : Faces pattern part text)
    : part ⊆ text := by
  rw [Faces] at faces
  split at faces
  · exact faces ▸ List.Subset.refl text
  · exact faces.subset

/-- A path without line feeds in its normal form matches exactly the patterns that mean it. -/
theorem isMatch_iff {path pattern : String} (line : '\n' ∉ (normalPath path).toList)
    : isMatch path pattern = true ↔ Means pattern.toList (normalPath path).toList := by
  rw [isMatch, finds_iff, Means]
  refine and_congr_right fun _ => ?_
  constructor
  · intro given
    obtain ⟨part, faces, taken⟩ := given
    have inside : '\n' ∉ part := fun member => line (faces.subset member)
    exact ⟨_, part, reads_iff.mpr rfl, faces, (takes_iff_of_line inside).mp taken⟩
  · intro given
    obtain ⟨found, part, reads, faces, spells⟩ := given
    obtain rfl := reads_iff.mp reads
    have inside : '\n' ∉ part := fun member => line (faces.subset member)
    exact ⟨part, faces, (takes_iff_of_line inside).mpr spells⟩

/-- A pattern with all four wildcards means a path in normal form. -/
theorem isMatch_iff_of_wildcards
    : '\n' ∉ (normalPath "/work/./lib/a/b/test_c.py").toList
      ∧ Means "li**/a/**_?.*".toList (normalPath "/work/./lib/a/b/test_c.py").toList := by
  have line : '\n' ∉ (normalPath "/work/./lib/a/b/test_c.py").toList := by decide
  exact ⟨line, (isMatch_iff line).mp (by decide)⟩

end EditorLint.Glob
