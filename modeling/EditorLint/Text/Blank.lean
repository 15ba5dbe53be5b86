/-!
White space. A text is trimmed of the separators and blank controls of the character standard
at both ends; zero-width characters are not blank and stay.
-/

namespace EditorLint.Text

/-- Whether the code point of `c` lies in one of the closed intervals. -/
def within (intervals : List (Nat × Nat)) (c : Char) : Bool :=
  intervals.any fun (low, high) => low ≤ c.toNat && c.toNat ≤ high

/-- The blank characters: tabulators and line ends, information separators, and the spaces. -/
def blanks : List (Nat × Nat) :=
  [(0x09, 0x0D), (0x1C, 0x20), (0x85, 0x85), (0xA0, 0xA0), (0x1680, 0x1680),
    (0x2000, 0x200A), (0x2028, 0x2029), (0x202F, 0x202F), (0x205F, 0x205F), (0x3000, 0x3000)]

def isBlank (c : Char) : Bool :=
  within blanks c

/-- Drops the characters of a class from both ends. -/
def trimChars (isDropped : Char → Bool) (cs : List Char) : List Char :=
  ((cs.dropWhile isDropped).reverse.dropWhile isDropped).reverse

/-- The text without the blank characters at its two ends. -/
def trim (text : String) : String :=
  String.ofList (trimChars isBlank text.toList)

/-- The texts in order, with `separator` between neighbours. -/
def joined (separator : String) : List String → String
  | [] => ""
  | [one] => one
  | one :: rest => one ++ separator ++ joined separator rest

end EditorLint.Text
