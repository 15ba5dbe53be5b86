import EditorLint.Text.Blank

/-!
Decimal digits and whole numbers written with them. Every script's decimal digits count, and
one underscore may stand between two digits.
-/

namespace EditorLint.Text

/-- The code points of the zeros: each starts a run of ten decimal digits of one script. -/
def zeros : List Nat :=
  [0x30, 0x660, 0x6F0, 0x7C0, 0x966, 0x9E6, 0xA66, 0xAE6, 0xB66, 0xBE6, 0xC66, 0xCE6, 0xD66,
    0xDE6, 0xE50, 0xED0, 0xF20, 0x1040, 0x1090, 0x17E0, 0x1810, 0x1946, 0x19D0, 0x1A80,
    0x1A90, 0x1B50, 0x1BB0, 0x1C40, 0x1C50, 0xA620, 0xA8D0, 0xA900, 0xA9D0, 0xA9F0, 0xAA50,
    0xABF0, 0xFF10, 0x104A0, 0x10D30, 0x11066, 0x110F0, 0x11136, 0x111D0, 0x112F0, 0x11450,
    0x114D0, 0x11650, 0x116C0, 0x11730, 0x118E0, 0x11950, 0x11C50, 0x11D50, 0x11DA0, 0x16A60,
    0x16AC0, 0x16B50, 0x1D7CE, 0x1D7D8, 0x1D7E2, 0x1D7EC, 0x1D7F6, 0x1E140, 0x1E2F0, 0x1E950,
    0x1FBF0]

/-- The value of a decimal digit of any script. -/
def digit? (c : Char) : Option Nat :=
  (zeros.find? fun start => start ≤ c.toNat && c.toNat ≤ start + 9).map (c.toNat - ·)

/-- The digits 0 to 9 of the basic alphabet. -/
def isPlainDigit (c : Char) : Bool :=
  '0' ≤ c && c ≤ '9'

/-- The digit values of `cs`, where one underscore may separate two digits. -/
def digits? : List Char → Option (List Nat)
  | [] => none
  | [c] => (digit? c).map ([·])
  | c :: '_' :: rest => do
    let value ← digit? c
    let values ← digits? rest
    return value :: values
  | c :: rest => do
    let value ← digit? c
    let values ← digits? rest
    return value :: values

/-- The number that the digits write, the first being the most significant. -/
def ofDigits (digits : List Nat) : Nat :=
  digits.foldl (fun value digit => value * 10 + digit) 0

/-- The greatest number of digits that a written whole number may have. -/
def digitLimit : Nat := 4300

/-- The digits of a number without its sign, if they are not too many. -/
def magnitude? (cs : List Char) : Option Nat := do
  let digits ← digits? cs
  if digits.length ≤ digitLimit then some (ofDigits digits) else none

/-- The blank characters that may stand around a number: all but the information separators. -/
def isNumberBlank (c : Char) : Bool :=
  isBlank c && !within [(0x1C, 0x1F)] c

/-- Reads a whole number: blanks around it, then one sign at most, then the digits. -/
def integer? (text : String) : Option Int :=
  match trimChars isNumberBlank text.toList with
  | '-' :: rest => (magnitude? rest).map fun n => -(n : Int)
  | '+' :: rest => (magnitude? rest).map fun n => (n : Int)
  | cs => (magnitude? cs).map fun n => (n : Int)

end EditorLint.Text
