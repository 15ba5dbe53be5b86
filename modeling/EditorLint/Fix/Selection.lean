import EditorLint.Fix

/-!
Which fixes are applied together. Fixes are put in order of file, start and end, those that tie
keeping their order, and a fix is left out when it starts before the end of the one selected last
in the same file.
-/

namespace EditorLint.Fix

/-- Whether `f` comes before `g` in the order of file, start and end. -/
def precedes (f g : Fix) : Bool :=
  f.file < g.file
    || (f.file == g.file
      && (f.span.start.before g.span.start
        || (!g.span.start.before f.span.start && f.span.stop.before g.span.stop)))

/-- Puts a fix in its place in an ordered list, in front of those that tie with it. -/
def place (f : Fix) : List Fix → List Fix
  | [] => [f]
  | g :: rest => if g.precedes f then g :: place f rest else f :: g :: rest

/-- The fixes in order; those that tie stay in the order given. -/
def ordered (fixes : List Fix) : List Fix :=
  fixes.foldr place []

/-- Whether `f` starts before the end of `g` in the same file. -/
def overlaps (f g : Fix) : Bool :=
  f.file == g.file && f.span.start.before g.span.stop

/-- Goes through ordered fixes and keeps each one that does not overlap `last`, the one kept
before it. -/
def keepAfter (last : Option Fix) : List Fix → List Fix
  | [] => []
  | f :: rest =>
    if last.any f.overlaps then keepAfter last rest
    else f :: keepAfter (some f) rest

/-- The fixes to apply together, in order. -/
def select (fixes : List Fix) : List Fix :=
  keepAfter none (ordered fixes)

end EditorLint.Fix
