import EditorLint.CommandLine.Options
import EditorLint.Text.Digit

/-!
The words of a command line, told apart before any of them is acted on. A word is a flag, an unknown
flag, the separator after which there are no flags, or a plain word. A long flag may be shortened as
long as only one flag begins like that, and short flags may be written together.
-/

namespace EditorLint.CommandLine

/-- How a value is attached to a flag in the same word. -/
inductive Attached where
  | none
  /-- After an equals sign. -/
  | assigned (value : List Char)
  /-- Directly after the letter of a short flag. -/
  | joined (rest : List Char)
  deriving DecidableEq, Repr

inductive Word where
  | plain (text : String)
  | option (flag : Flag) (attached : Attached)
  | unknown (text : String)
  | separator
  deriving DecidableEq, Repr

/-- A word that could be more than one flag. -/
structure Ambiguity where
  word : String
  candidates : List Flag
  deriving DecidableEq, Repr

namespace Word

/-- What comes before an equals sign and what after it, if there is one. -/
def assignment (cs : List Char) : List Char × Option (List Char) :=
  Text.cutAt '=' cs

/-- The long flags that begin like a word. -/
def candidates (start : List Char) : List Flag :=
  Flag.all.filter fun flag => start.isPrefixOf flag.long.toList

def attachedOf : Option (List Char) → Attached
  | .none => .none
  | some value => .assigned value

/-- Whether a word is a minus sign and a number: digits, or a point and digits after it. -/
def isNegativeNumber (cs : List Char) : Bool :=
  let isDigit (c : Char) : Bool := (Text.digit? c).isSome
  let body := match cs.getLast? with
    | some '\n' => cs.dropLast
    | _ => cs
  match body with
  | '-' :: rest =>
    let fraction := rest.dropWhile isDigit
    match fraction with
    | [] => !rest.isEmpty
    | '.' :: digits => !digits.isEmpty && digits.all isDigit
    | _ => false
  | _ => false

/-- A word with a minus sign that is no flag: plain if it is a number or holds a blank. -/
def other (cs : List Char) : Word :=
  if isNegativeNumber cs || cs.contains ' ' then .plain (String.ofList cs)
  else .unknown (String.ofList cs)

/-- A word that begins with two minus signs and is no whole flag. -/
def shortened (cs : List Char) : Except Ambiguity Word :=
  let (start, value) := assignment cs
  match candidates start with
  | [] => .ok (other cs)
  | [flag] => .ok (.option flag (attachedOf value))
  | flags => .error ⟨String.ofList cs, flags⟩

/-- A word of one minus sign and more: short flags written together. -/
def grouped (cs : List Char) : Word :=
  match cs with
  | '-' :: letter :: rest =>
    match Flag.ofLetter? letter with
    | some flag => .option flag (.joined rest)
    | none => other cs
  | _ => other cs

/-- What a word is; the separator is told apart by `ofWords`. -/
def ofText (text : String) : Except Ambiguity Word :=
  let cs := text.toList
  match cs with
  | '-' :: second :: _ =>
    match Flag.ofWord? cs with
    | some flag => .ok (.option flag .none)
    | none =>
      let (start, value) := assignment cs
      match value, Flag.ofWord? start with
      | some value, some flag => .ok (.option flag (.assigned value))
      | _, _ => if second = '-' then shortened cs else .ok (grouped cs)
  | _ => .ok (.plain text)

/-- The words of a command line; after the separator all are plain. -/
def ofWords : List String → Except Ambiguity (List Word)
  | [] => .ok []
  | text :: rest =>
    if text = "--" then .ok (.separator :: rest.map .plain)
    else do
      let word ← ofText text
      let words ← ofWords rest
      return word :: words

end Word

end EditorLint.CommandLine
