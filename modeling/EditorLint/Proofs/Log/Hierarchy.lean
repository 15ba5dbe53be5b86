import EditorLint.Log.Hierarchy
import Mathlib.Algebra.Group.Nat.Even
import Mathlib.Algebra.Ring.Parity
import Mathlib.Data.List.Induction

/-! Which loggers are below the program's. One whose name goes on behind the dot with another
character is, whoever has asked for what. With more dots behind the first one it depends on how many
they are: of dots in a row only every other one is looked at, unless somebody has asked for a name
that ends between them.
-/

namespace EditorLint.Log

variable {named : List String}

theorem above_dot (c : Char) (rest : List Char)
    : above named ('.' :: c :: rest)
      = if String.ofList (c :: rest).reverse ∈ named then
          String.ofList (c :: rest).reverse :: above named (c :: rest)
        else above named rest := by
  rw [above]

theorem above_cons_of_ne {c : Char} (other : c ≠ '.') (rest : List Char)
    : above named (c :: rest) = above named rest := by
  rw [above] <;> simp [other]

theorem getLast?_ne_of_cons {c : Char} {rest : List Char}
    (last : (c :: rest).getLast? ≠ some '.')
    : rest.getLast? ≠ some '.' :=
  fun dot => last (by simp [List.getLast?_cons, dot])

/-- What stands behind some part of a name, and does not begin with a dot, has no bearing on whether
a logger with a shorter name than that part is found above. Names are given from their end, and as
the search may leave out a character, the induction is over two at a time.
-/
theorem mem_above_append_iff {name : String} {part : List Char}
    (shorter : name.toList.length ≤ part.length) (back : List Char)
    (start : back.getLast? ≠ some '.')
    : name ∈ above named (back ++ part) ↔ name ∈ above named part := by
  induction back using List.twoStepInduction with
  | nil => rfl
  | singleton c =>
      have other : c ≠ '.' := fun dot => start (by rw [dot]; rfl)
      rw [List.singleton_append, above_cons_of_ne other]
  | cons_cons c next rest shorterIh ih =>
      have others := ih next (getLast?_ne_of_cons start)
      by_cases dot : c = '.'
      · have longer : name ≠ String.ofList (next :: (rest ++ part)).reverse := by
          rintro rfl
          rw [String.toList_ofList, List.length_reverse, List.length_cons, List.length_append]
            at shorter
          omega
        rw [dot, List.cons_append, List.cons_append, above_dot]
        split
        · rw [List.mem_cons, or_iff_right longer]
          exact others
        · exact shorterIh (getLast?_ne_of_cons (getLast?_ne_of_cons start))
      · rw [List.cons_append, above_cons_of_ne dot, others]

/-- Nothing is above the program's logger. -/
theorem above_rootName : above named rootName.toList.reverse = [] := by
  rfl

/-- The name of the program and a number of dots. -/
def dotted (dots : Nat) : String :=
  rootName ++ String.ofList (List.replicate dots '.')

theorem reverse_dotted (dots : Nat)
    : (dotted dots).toList.reverse = List.replicate dots '.' ++ rootName.toList.reverse := by
  simp [dotted]

/-- Behind one dot the program's logger is found. -/
theorem rootName_mem_above_dotted_one (known : rootName ∈ named)
    : rootName ∈ above named (dotted 1).toList.reverse := by
  obtain ⟨c, rest, shape⟩ : ∃ c rest, rootName.toList.reverse = c :: rest := ⟨_, _, rfl⟩
  have name : String.ofList (c :: rest).reverse = rootName := by
    rw [← shape, List.reverse_reverse, String.ofList_toList]
  rw [reverse_dotted, List.replicate_one, List.singleton_append, shape, above_dot, name,
    if_pos known]
  exact List.mem_cons_self

theorem above_dotted_add_two (dots : Nat) (free : dotted (dots + 1) ∉ named)
    : above named (dotted (dots + 2)).toList.reverse
      = above named (dotted dots).toList.reverse := by
  have name : String.ofList ('.' :: (List.replicate dots '.' ++ rootName.toList.reverse)).reverse
      = dotted (dots + 1) := by
    rw [← List.cons_append, ← List.replicate_succ, ← reverse_dotted, List.reverse_reverse,
      String.ofList_toList]
  rw [reverse_dotted, reverse_dotted, List.replicate_succ, List.replicate_succ, List.cons_append,
    List.cons_append, above_dot, name, if_neg free]

/-- Behind several dots it is found if their number is odd, as every other one is passed over. -/
theorem rootName_mem_above_dotted_iff (known : rootName ∈ named)
    (free : ∀ dots, dotted (dots + 1) ∉ named) (dots : Nat)
    : rootName ∈ above named (dotted dots).toList.reverse ↔ Odd dots := by
  induction dots using Nat.twoStepInduction with
  | zero => simp [reverse_dotted, above_rootName]
  | one => simpa using rootName_mem_above_dotted_one known
  | more dots ih _ =>
      rw [above_dotted_add_two dots (free dots), ih]
      rw [Nat.odd_iff, Nat.odd_iff, Nat.add_mod_right]

-----------------------------------------------------------------------------------------
-- Names of parts of the program
-----------------------------------------------------------------------------------------

/-- The name of a part is a dot behind the program's, and what the part is called. -/
theorem reverse_plainName (part : String)
    : (plainName part).toList.reverse = part.toList.reverse ++ (dotted 1).toList.reverse := by
  simp [plainName, dotted]

/-- The logger of a part whose name does not begin with a dot is below the program's, whatever
other loggers there are.
-/
theorem isBelowRoot_plainName {part : String} (start : part.toList.head? ≠ some '.')
    : isBelowRoot named (plainName part) = true := by
  have back : part.toList.reverse.getLast? ≠ some '.' := by rwa [List.getLast?_reverse]
  have found : rootName ∈ above (rootName :: named) (dotted 1).toList.reverse :=
    rootName_mem_above_dotted_one List.mem_cons_self
  rw [isBelowRoot, reverse_plainName, Bool.or_eq_true, decide_eq_true_eq, decide_eq_true_eq,
    mem_above_append_iff (by decide) _ back]
  exact Or.inr found

/-- So is the logger of every tool. -/
theorem isBelowRoot_toolName {id name : String} (given : toolName id = .ok name)
    : isBelowRoot named name = true := by
  unfold toolName at given
  split at given
  · cases given
  · obtain rfl := Except.ok.inj given
    exact isBelowRoot_plainName (by simp)

/-- The names that tools report through, and parts of the program whose names do not begin with a
dot.
-/
def IsPartName (name : String) : Prop :=
  (∃ id, toolName id = .ok name) ∨ ∃ part, plainName part = name ∧ part.toList.head? ≠ some '.'

theorem IsPartName.isBelowRoot {name : String} (given : IsPartName name)
    : isBelowRoot named name = true := by
  rcases given with ⟨id, tool⟩ | ⟨part, rfl, start⟩
  · exact isBelowRoot_toolName tool
  · exact isBelowRoot_plainName start

/-- With dots in front of the name of a part it is below the program's logger if their number is
even, as long as nobody has asked for a name of the program and dots alone.
-/
theorem isBelowRoot_dots_iff (free : ∀ dots, dotted (dots + 1) ∉ named) (dots : Nat)
    {rest : List Char} (start : rest.head? ≠ some '.')
    : isBelowRoot named (plainName (String.ofList (List.replicate dots '.' ++ rest))) = true
      ↔ Even dots := by
  have whole
      : (plainName (String.ofList (List.replicate dots '.' ++ rest))).toList
        = (dotted (dots + 1)).toList ++ rest := by
    simp [plainName, dotted, List.replicate_succ]
  have longer : plainName (String.ofList (List.replicate dots '.' ++ rest)) ≠ rootName := by
    intro same
    have length := congrArg List.length (whole.symm.trans (congrArg String.toList same))
    simp [dotted] at length
  have shorter : rootName.toList.length ≤ (dotted (dots + 1)).toList.reverse.length := by
    simp [dotted]
  have stillFree : ∀ dots, dotted (dots + 1) ∉ rootName :: named := by
    intro dots
    refine List.not_mem_cons_of_ne_of_not_mem (fun same => ?_) (free dots)
    simpa [dotted] using congrArg String.length same
  have back : rest.reverse.getLast? ≠ some '.' := by rwa [List.getLast?_reverse]
  rw [isBelowRoot, whole, List.reverse_append, Bool.or_eq_true, decide_eq_true_eq,
    decide_eq_true_eq, or_iff_right longer, mem_above_append_iff shorter _ back,
    rootName_mem_above_dotted_iff List.mem_cons_self stillFree, Nat.odd_add_one,
    Nat.not_odd_iff_even]

end EditorLint.Log
