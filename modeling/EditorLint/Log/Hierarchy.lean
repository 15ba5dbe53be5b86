import EditorLint.Log.Record

/-!
Loggers above each other. A logger passes its records to the one above it, which is looked for under
what stands before the dots of its name, from the last dot on. A name that nobody has asked for is
passed over, together with the character at its end.
-/

namespace EditorLint.Log

/-- The loggers above one, nearest first, if there are those named. The name of the one is given
from its end. -/
def above (named : List String) : List Char → List String
  | [] => []
  | ['.'] => []
  | '.' :: c :: rest =>
    let name := String.ofList (c :: rest).reverse
    if name ∈ named then name :: above named (c :: rest) else above named rest
  | _ :: rest => above named rest

/-- Whether the records of a logger come to the one above all loggers of the program, which is
always there. -/
def isBelowRoot (named : List String) (name : String) : Bool :=
  name = rootName || rootName ∈ above (rootName :: named) name.toList.reverse

end EditorLint.Log
