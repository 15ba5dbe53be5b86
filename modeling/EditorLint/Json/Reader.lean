import EditorLint.Json.Value
import EditorLint.Text.Digit
import EditorLint.Text.Hex

/-!
Reading JSON text. The reader goes from left to right and stops at the first fault, which it
reports with its place. Besides the standard grammar it takes the three names of numbers that
have no digits. Numbers of too many digits and values nested too deep are refused apart from
malformed text.
-/

namespace EditorLint.Json

/-- What is wrong at a place of malformed text. -/
inductive Malformed where
  | byteOrderMark
  | noValue
  | extraData
  | noName
  | noColon
  | noComma
  | openString
  | controlCharacter
  | badEscape
  | badCodeEscape
  deriving DecidableEq, Repr

def Malformed.text : Malformed → String
  | .byteOrderMark => "Unexpected UTF-8 BOM (decode using utf-8-sig)"
  | .noValue => "Expecting value"
  | .extraData => "Extra data"
  | .noName => "Expecting property name enclosed in double quotes"
  | .noColon => "Expecting ':' delimiter"
  | .noComma => "Expecting ',' delimiter"
  | .openString => "Unterminated string starting at"
  | .controlCharacter => "Invalid control character at"
  | .badEscape => "Invalid \\escape"
  | .badCodeEscape => "Invalid \\uXXXX escape"

/-- The two kinds of values that hold others. -/
inductive Container where
  | array
  | object
  deriving DecidableEq, Repr

def Container.text : Container → String
  | .array => "array"
  | .object => "object"

/-- Why a text is refused; a malformed one with the offset of its first fault. -/
inductive Fault where
  | malformed (what : Malformed) (offset : Nat)
  | tooManyDigits (count : Nat)
  | tooDeep (container : Container)
  deriving DecidableEq, Repr

/-- What is left to read, and its distance from the start of the text. -/
structure Cursor where
  offset : Nat
  rest : List Char
  deriving DecidableEq, Repr

/-- Something read, and where reading goes on. -/
abbrev Parsed (α : Type) := α × Cursor

/-- The cursor after `count` characters. -/
def Cursor.drop (cursor : Cursor) (count : Nat) : Cursor :=
  ⟨cursor.offset + count, cursor.rest.drop count⟩

def Cursor.fault {α : Type} (cursor : Cursor) (what : Malformed) : Except Fault (Parsed α) :=
  .error (.malformed what cursor.offset)

def isWhite (c : Char) : Bool :=
  c == ' ' || c == '\t' || c == '\n' || c == '\r'

/-- The cursor after white space. -/
def Cursor.skipWhite (cursor : Cursor) : Cursor :=
  cursor.drop (cursor.rest.takeWhile isWhite).length

/-- The number that four hexadecimal digits write, at the front of a text that goes on. -/
def code? : List Char → Option Nat
  | a :: b :: c :: d :: _ :: _ => do
    let a ← Text.hexValue? a
    let b ← Text.hexValue? b
    let c ← Text.hexValue? c
    let d ← Text.hexValue? d
    return ((a * 16 + b) * 16 + c) * 16 + d
  | _ => none

/-- The character of an escape by code, and the number of characters that the escape takes after
its letter. `letter` is the offset of that letter. Two escapes that write a surrogate pair are one
character. A surrogate on its own is no character: it is read as character zero here, so that texts
which differ in nothing else become one, and keys with them, where the program keeps them apart. -/
def codeEscape (letter : Nat) (rest : List Char) : Except Fault (Char × Nat) :=
  match code? rest with
  | none => .error (.malformed .badCodeEscape letter)
  | some high =>
    let after := rest.drop 4
    if 0xD800 ≤ high && high < 0xDC00 && 6 < after.length && after.take 2 == ['\\', 'u'] then
      match code? (after.drop 2) with
      | none => .error (.malformed .badCodeEscape (letter + 6))
      | some low =>
        if 0xDC00 ≤ low && low < 0xE000 then
          .ok (Char.ofNat (0x10000 + (high - 0xD800) * 0x400 + (low - 0xDC00)), 10)
        else .ok (Char.ofNat high, 4)
    else .ok (Char.ofNat high, 4)

/-- The character that a letter after a backslash stands for. -/
def escapedLetter? : Char → Option Char
  | '"' => some '"'
  | '\\' => some '\\'
  | '/' => some '/'
  | 'b' => some (Char.ofNat 0x08)
  | 'f' => some (Char.ofNat 0x0C)
  | 'n' => some '\n'
  | 'r' => some '\r'
  | 't' => some '\t'
  | _ => none

/-- The escape after a backslash at offset `slash`: its character, and how many characters after
the backslash it takes. `opened` is the offset of the string's opening quote. -/
def escape (opened slash : Nat) : List Char → Except Fault (Char × Nat)
  | [] => .error (.malformed .openString opened)
  | 'u' :: rest => (codeEscape (slash + 1) rest).map fun (c, taken) => (c, taken + 1)
  | letter :: _ =>
    match escapedLetter? letter with
    | some c => .ok (c, 1)
    | none => .error (.malformed .badEscape slash)

/-- The characters of a string up to its closing quote, after `skip` characters that an escape
has taken. -/
def stringChars (opened : Nat) : Nat → Nat → List Char → Except Fault (Parsed (List Char))
  | _, _, [] => .error (.malformed .openString opened)
  | skip + 1, offset, _ :: rest => stringChars opened skip (offset + 1) rest
  | 0, offset, c :: rest =>
    if c = '"' then .ok ([], ⟨offset + 1, rest⟩)
    else if c = '\\' then do
      let (escaped, taken) ← escape opened offset rest
      let (cs, after) ← stringChars opened taken (offset + 1) rest
      return (escaped :: cs, after)
    else if c.toNat < 0x20 then .error (.malformed .controlCharacter offset)
    else do
      let (cs, after) ← stringChars opened 0 (offset + 1) rest
      return (c :: cs, after)

/-- The string whose opening quote has just been read. -/
def string (cursor : Cursor) : Except Fault (Parsed String) := do
  let (cs, after) ← stringChars (cursor.offset - 1) 0 cursor.offset cursor.rest
  return (String.ofList cs, after)

/-- The digits at the front. -/
def leadingDigits (cs : List Char) : List Char :=
  cs.takeWhile Text.isPlainDigit

/-- The digits before the point: a zero stands alone. -/
def wholeDigits : List Char → List Char
  | '0' :: _ => ['0']
  | cs => leadingDigits cs

/-- The digits of a fraction, when a point and a digit at least stand in front. -/
def fractionDigits : List Char → List Char
  | '.' :: rest => leadingDigits rest
  | _ => []

/-- The exponent in front: its value and how many characters it takes. -/
def exponent? : List Char → Option (Int × Nat)
  | [] => none
  | letter :: rest =>
    if letter = 'e' ∨ letter = 'E' then
      let (negative, signed, digits) : Bool × Nat × List Char :=
        match rest with
        | '-' :: rest => (true, 1, leadingDigits rest)
        | '+' :: rest => (false, 1, leadingDigits rest)
        | rest => (false, 0, leadingDigits rest)
      if digits.isEmpty then none
      else
        let value : Int := Text.ofDigits (digits.map fun d => d.toNat - 0x30)
        some (if negative then -value else value, 1 + signed + digits.length)
    else none

/-- The number that plain digits write. -/
def plainNumber (digits : List Char) : Nat :=
  Text.ofDigits (digits.map fun d => d.toNat - 0x30)

/-- The number in front, as long as it can be taken: whole if it has neither a fraction nor an
exponent. -/
def number (cursor : Cursor) : Except Fault (Parsed Json) :=
  let (negative, unsigned) : Bool × Cursor :=
    match cursor.rest with
    | '-' :: _ => (true, cursor.drop 1)
    | _ => (false, cursor)
  let whole := wholeDigits unsigned.rest
  if whole.isEmpty then cursor.fault .noValue
  else
    let afterWhole := unsigned.drop whole.length
    let fraction := fractionDigits afterWhole.rest
    let afterFraction :=
      if fraction.isEmpty then afterWhole else afterWhole.drop (fraction.length + 1)
    match exponent? afterFraction.rest with
    | none =>
      if fraction.isEmpty then
        if Text.digitLimit < whole.length then .error (.tooManyDigits whole.length)
        else
          let magnitude : Int := plainNumber whole
          .ok (.int (if negative then -magnitude else magnitude), afterWhole)
      else
        let coefficient := plainNumber (whole ++ fraction)
        .ok (.float (.ofDecimal negative coefficient (-(fraction.length : Int))), afterFraction)
    | some (exponent, taken) =>
      let coefficient := plainNumber (whole ++ fraction)
      .ok (.float (.ofDecimal negative coefficient (exponent - (fraction.length : Int))),
        afterFraction.drop taken)

/-- The names of values, with what they stand for. -/
def names : List (List Char × Json) :=
  [("null".toList, .null), ("true".toList, .bool true), ("false".toList, .bool false),
    ("NaN".toList, .float .nan), ("Infinity".toList, .float (.infinite false)),
    ("-Infinity".toList, .float (.infinite true))]

/-- A value that holds no others: a name or a number. -/
def scalar (cursor : Cursor) : Except Fault (Parsed Json) :=
  match names.find? fun (name, _) => name.isPrefixOf cursor.rest with
  | some (name, value) => .ok (value, cursor.drop name.length)
  | none => number cursor

/-- How deep values may be nested. -/
def depthLimit : Nat := 990

mutual

/-- The value in front, which may hold `depth` more levels. The first argument bounds the number
of calls below this one. -/
def value : Nat → Nat → Cursor → Except Fault (Parsed Json)
  | 0, _, cursor => cursor.fault .noValue
  | fuel + 1, depth, cursor =>
    match cursor.rest with
    | '"' :: _ => do
      let (text, after) ← string (cursor.drop 1)
      return (.str text, after)
    | '[' :: _ =>
      if depth = 0 then .error (.tooDeep .array)
      else
        let inside := (cursor.drop 1).skipWhite
        match inside.rest with
        | ']' :: _ => .ok (.arr [], inside.drop 1)
        | _ => do
          let (items, after) ← items fuel (depth - 1) inside
          return (.arr items, after)
    | '\x7b' :: _ =>
      if depth = 0 then .error (.tooDeep .object)
      else
        let inside := (cursor.drop 1).skipWhite
        match inside.rest with
        | '\x7d' :: _ => .ok (.obj [], inside.drop 1)
        | _ => do
          let (entries, after) ← entries fuel (depth - 1) [] inside
          return (.obj entries, after)
    | _ => scalar cursor

/-- The items of an array from a value on, up to its bracket. -/
def items : Nat → Nat → Cursor → Except Fault (Parsed (List Json))
  | 0, _, cursor => cursor.fault .noValue
  | fuel + 1, depth, cursor => do
    let (item, after) ← value fuel depth cursor
    let after := after.skipWhite
    match after.rest with
    | ']' :: _ => return ([item], after.drop 1)
    | ',' :: _ => do
      let (rest, after) ← items fuel depth (after.drop 1).skipWhite
      return (item :: rest, after)
    | _ => after.fault .noComma

/-- The entries of an object from a key on, up to its brace, added to those `before`. -/
def entries : Nat → Nat → Table Json → Cursor → Except Fault (Parsed (Table Json))
  | 0, _, _, cursor => cursor.fault .noValue
  | fuel + 1, depth, before, cursor => do
    match cursor.rest with
    | '"' :: _ => do
      let (key, after) ← string (cursor.drop 1)
      let after := after.skipWhite
      match after.rest with
      | ':' :: _ => do
        let (item, after) ← value fuel depth (after.drop 1).skipWhite
        let after := after.skipWhite
        let entries' := before.insert key item
        match after.rest with
        | '\x7d' :: _ => return (entries', after.drop 1)
        | ',' :: _ => entries fuel depth entries' (after.drop 1).skipWhite
        | _ => after.fault .noComma
      | _ => after.fault .noColon
    | _ => cursor.fault .noName

end

/-- Reads a whole text: one value, with white space around it. -/
def read (text : String) : Except Fault Json :=
  let cs := text.toList
  match cs with
  | '\uFEFF' :: _ => .error (.malformed .byteOrderMark 0)
  | _ =>
    match value (2 * cs.length + 2) depthLimit (Cursor.skipWhite ⟨0, cs⟩) with
    | .error fault => .error fault
    | .ok (result, after) =>
      let after := after.skipWhite
      if after.rest.isEmpty then .ok result else .error (.malformed .extraData after.offset)

/-- The line of an offset, from 1, and its column on that line, from 1. -/
def place (text : String) (offset : Nat) : Nat × Nat :=
  let before := text.toList.take offset
  (before.count '\n' + 1, (before.reverse.takeWhile (· != '\n')).length + 1)

/-- A fault of `text` in words. -/
def Fault.message (text : String) : Fault → String
  | .malformed what offset =>
    let (line, column) := place text offset
    what.text ++ ": line " ++ toString line ++ " column " ++ toString column
      ++ " (char " ++ toString offset ++ ")"
  | .tooManyDigits count =>
    "Exceeds the limit (4300 digits) for integer string conversion: value has "
      ++ toString count
      ++ " digits; use sys.set_int_max_str_digits() to increase the limit"
  | .tooDeep container =>
    "maximum recursion depth exceeded while decoding a JSON " ++ container.text
      ++ " from a unicode string"

end EditorLint.Json
