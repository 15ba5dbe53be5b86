import EditorLint.Text.Blank
import EditorLint.Text.Split

/-!
File paths in normal form. A path is its root and its segments: repeated and trailing slashes
and segments that are a single dot say nothing and are dropped, while two dots are kept.
-/

namespace EditorLint

structure Path where
  /-- Nothing for a relative path, one slash, or exactly two. -/
  root : String
  segments : List String
  deriving DecidableEq, Repr

namespace Path

/-- The root that a number of leading slashes stands for. -/
def rootOf : Nat → String
  | 0 => ""
  | 2 => "//"
  | _ => "/"

/-- Whether a piece between slashes is a segment. -/
def isSegment (piece : String) : Bool :=
  piece != "" && piece != "."

def ofText (text : String) : Path :=
  { root := rootOf (text.toList.takeWhile (· == '/')).length
    segments := (Text.split '/' text).filter isSegment }

/-- The normal form as text; a path without root and segments is a dot. -/
def text (path : Path) : String :=
  if path.root = "" ∧ path.segments = [] then "."
  else path.root ++ Text.joined "/" path.segments

/-- The last segment, or nothing. -/
def name (path : Path) : String :=
  path.segments.getLastD ""

/-- The directory that holds the last segment. -/
def parent (path : Path) : Path :=
  { path with segments := path.segments.dropLast }

/-- The end of a name from its last dot on, unless that dot is its first or last character. -/
def suffixOf (name : List Char) : List Char :=
  let ending := name.reverse.takeWhile (· != '.')
  let stem := name.length - ending.length - 1
  if ending.length < name.length ∧ 0 < stem ∧ ending ≠ [] then name.drop stem else []

/-- The suffix of the last segment, with its dot. -/
def suffix (path : Path) : String :=
  String.ofList (suffixOf path.name.toList)

end Path

/-- The normal form of a path given as text. -/
def normalPath (text : String) : String :=
  (Path.ofText text).text

end EditorLint
