/-!
The lines of a text. Every line boundary of the character standard ends a line, a carriage return
and a line feed together end one, and nothing after the last boundary is no line.
-/

namespace EditorLint.Text

/-- The characters that end a line. -/
def isLineEnd (c : Char) : Bool :=
  let n := c.toNat
  (0x0A ≤ n && n ≤ 0x0D) || (0x1C ≤ n && n ≤ 0x1E) || n == 0x85 || n == 0x2028 || n == 0x2029

/-- The lines of the characters, where `current` holds those of the present line in reverse, and
`afterReturn` says that a carriage return has just ended one. -/
def linesOf (current : List Char) (afterReturn : Bool) : List Char → List (List Char)
  | [] => if current.isEmpty then [] else [current.reverse]
  | c :: rest =>
    if afterReturn && c == '\n' then linesOf [] false rest
    else if isLineEnd c then current.reverse :: linesOf [] (c == '\r') rest
    else linesOf (c :: current) false rest

def lines (text : String) : List String :=
  (linesOf [] false text.toList).map String.ofList

end EditorLint.Text
