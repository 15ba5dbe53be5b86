import EditorLint.Position

/-!
Fixes: replacements of a part of one file, with rows counted from zero.
-/

namespace EditorLint

structure Fix where
  file : String
  span : Span
  replacement : String
  deriving DecidableEq, Repr, Inhabited

end EditorLint
