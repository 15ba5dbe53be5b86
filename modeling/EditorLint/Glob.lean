import EditorLint.Path

/-!
Path patterns. A pattern is read into tokens from left to right and matches whole trailing
segments of a path in normal form; one that starts with a slash matches the whole path. `Glob.finds`
decides it by trying every way to give each token its piece.
-/

namespace EditorLint.Glob

/-- A part of a pattern. -/
inductive Token where
  /-- Two stars and a slash: any number of directories. -/
  | directories
  /-- Two stars: any run of characters of one line. -/
  | anything
  /-- A star: any run of characters within a segment. -/
  | segmentRun
  /-- A question mark: one character within a segment. -/
  | segmentChar
  | literal (c : Char)
  deriving DecidableEq, Repr

/-- The tokens of a pattern, after `skip` characters that belong to the token before them. -/
def tokensAfter : Nat → List Char → List Token
  | _, [] => []
  | skip + 1, _ :: rest => tokensAfter skip rest
  | 0, c :: rest =>
    if c = '*' then
      match rest with
      | '*' :: '/' :: _ => .directories :: tokensAfter 2 rest
      | '*' :: _ => .anything :: tokensAfter 1 rest
      | _ => .segmentRun :: tokensAfter 0 rest
    else if c = '?' then .segmentChar :: tokensAfter 0 rest
    else .literal c :: tokensAfter 0 rest

def tokens (pattern : List Char) : List Token :=
  tokensAfter 0 pattern

/-- Whether some run of characters that satisfy `allowed` leaves a rest that `next` takes. -/
def afterRun (allowed : Char → Bool) (next : List Char → Bool) : List Char → Bool
  | [] => next []
  | c :: rest => next (c :: rest) || (allowed c && afterRun allowed next rest)

/-- Whether some run of characters of one line, ended by a slash, leaves a rest that `next`
takes. -/
def afterDirectories (next : List Char → Bool) : List Char → Bool
  | [] => false
  | c :: rest =>
    (c == '/' && next rest) || (c != '\n' && afterDirectories next rest)

/-- Whether a text is used up, but for one line end at most. -/
def atEnd : List Char → Bool
  | [] => true
  | ['\n'] => true
  | _ => false

/-- Whether the tokens take a text up to its end. -/
def takes : List Token → List Char → Bool
  | [], cs => atEnd cs
  | .directories :: rest, cs => takes rest cs || afterDirectories (takes rest) cs
  | .anything :: rest, cs => afterRun (· != '\n') (takes rest) cs
  | .segmentRun :: rest, cs => afterRun (· != '/') (takes rest) cs
  | .segmentChar :: rest, cs =>
    match cs with
    | [] => false
    | c :: after => c != '/' && takes rest after
  | .literal l :: rest, cs =>
    match cs with
    | [] => false
    | c :: after => c == l && takes rest after

/-- Whether the tokens take a rest of the text that starts after a slash. -/
def takesAfterSlash (tokens : List Token) : List Char → Bool
  | [] => false
  | c :: rest => (c == '/' && takes tokens rest) || takesAfterSlash tokens rest

/-- Whether a pattern is found in a text: at its start only when the pattern starts with a slash,
and otherwise at its start or after any slash. -/
def finds (pattern text : List Char) : Bool :=
  match pattern with
  | [] => false
  | '/' :: _ => takes (tokens pattern) text
  | _ => takes (tokens pattern) text || takesAfterSlash (tokens pattern) text

/-- Whether a path, in normal form, matches a pattern. The empty pattern matches nothing. -/
def isMatch (path pattern : String) : Bool :=
  finds pattern.toList (normalPath path).toList

end EditorLint.Glob
