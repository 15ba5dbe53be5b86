import EditorLint.Text.Hex

/-!
UTF-8. A byte string is cut into pieces, each a character or a bad run: the longest start of a
sequence that could still have become a character, one byte at least. Strict decoding refuses
the first bad run; lenient decoding shows each bad run as one replacement character.
-/

namespace EditorLint.Text.Utf8

abbrev Bytes := List UInt8

/-- The bytes of one character. -/
def encodeChar (c : Char) : Bytes :=
  let n := c.toNat
  if n < 0x80 then [n.toUInt8]
  else if n < 0x800 then [(0xC0 + n / 0x40).toUInt8, (0x80 + n % 0x40).toUInt8]
  else if n < 0x10000 then
    [(0xE0 + n / 0x1000).toUInt8, (0x80 + n / 0x40 % 0x40).toUInt8, (0x80 + n % 0x40).toUInt8]
  else
    [(0xF0 + n / 0x40000).toUInt8, (0x80 + n / 0x1000 % 0x40).toUInt8,
      (0x80 + n / 0x40 % 0x40).toUInt8, (0x80 + n % 0x40).toUInt8]

def encode (text : String) : Bytes :=
  text.toList.flatMap encodeChar

/-- Why a run of bytes is no character. -/
inductive Reason where
  | badStart
  | badContinuation
  | endsEarly
  deriving DecidableEq, Repr

def Reason.text : Reason → String
  | .badStart => "invalid start byte"
  | .badContinuation => "invalid continuation byte"
  | .endsEarly => "unexpected end of data"

/-- What stands at the front of a byte string, with the number of bytes it takes. -/
inductive Piece where
  | char (c : Char) (size : Nat)
  | bad (reason : Reason) (size : Nat)
  deriving DecidableEq, Repr

def Piece.size : Piece → Nat
  | .char _ size => size
  | .bad _ size => size

/-- Reads `owed` more continuation bytes of a character of which `size` bytes are read, the
next one between `low` and `high` and any further one in the full range. -/
def continuation (owed low high value size : Nat) (bytes : Bytes) : Piece :=
  match owed, bytes with
  | 0, _ => .char (Char.ofNat value) size
  | _ + 1, [] => .bad .endsEarly size
  | owed + 1, byte :: rest =>
    let b := byte.toNat
    if low ≤ b && b ≤ high then
      continuation owed 0x80 0xBF (value * 0x40 + b % 0x40) (size + 1) rest
    else .bad .badContinuation size

/-- The piece that starts with the byte `first` and goes on in `rest`. -/
def piece (first : UInt8) (rest : Bytes) : Piece :=
  let b := first.toNat
  if b < 0x80 then .char (Char.ofNat b) 1
  else if b < 0xC2 then .bad .badStart 1
  else if b < 0xE0 then continuation 1 0x80 0xBF (b % 0x20) 1 rest
  else if b < 0xF0 then
    let low := if b = 0xE0 then 0xA0 else 0x80
    let high := if b = 0xED then 0x9F else 0xBF
    continuation 2 low high (b % 0x10) 1 rest
  else if b < 0xF5 then
    let low := if b = 0xF0 then 0x90 else 0x80
    let high := if b = 0xF4 then 0x8F else 0xBF
    continuation 3 low high (b % 0x08) 1 rest
  else .bad .badStart 1

/-- The pieces of a byte string after its first `skip` bytes, in order. -/
def piecesAfter : Nat → Bytes → List Piece
  | _, [] => []
  | skip + 1, _ :: rest => piecesAfter skip rest
  | 0, byte :: rest =>
    let front := piece byte rest
    front :: piecesAfter (front.size - 1) rest

def pieces (bytes : Bytes) : List Piece :=
  piecesAfter 0 bytes

/-- The first bad run: its bytes, its place and what is wrong with it. -/
structure Fault where
  byte : UInt8
  start : Nat
  size : Nat
  reason : Reason
  deriving DecidableEq, Repr

/-- A fault in words: a run of one byte is shown with that byte, a longer one by its ends. -/
def Fault.text (fault : Fault) : String :=
  let place :=
    if fault.size ≤ 1 then
      "byte 0x" ++ String.ofList (hexDigits 2 fault.byte.toNat) ++ " in position "
        ++ toString fault.start
    else
      "bytes in position " ++ toString fault.start ++ "-"
        ++ toString (fault.start + fault.size - 1)
  "'utf-8' codec can't decode " ++ place ++ ": " ++ fault.reason.text

/-- The characters of the pieces, which start at `offset`, or the first bad run. -/
def charsOf (bytes : Bytes) : Nat → List Piece → Except Fault (List Char)
  | _, [] => .ok []
  | offset, .bad reason size :: _ =>
    .error ⟨bytes.getD offset 0, offset, size, reason⟩
  | offset, .char c size :: rest => do
    let cs ← charsOf bytes (offset + size) rest
    return c :: cs

/-- Strict decoding. -/
def decode (bytes : Bytes) : Except Fault String := do
  let cs ← charsOf bytes 0 (pieces bytes)
  return String.ofList cs

/-- Lenient decoding. -/
def decodeLossy (bytes : Bytes) : String :=
  String.ofList <| (pieces bytes).map fun
    | .char c _ => c
    | .bad _ _ => Char.ofNat 0xFFFD

end EditorLint.Text.Utf8
