import EditorLint.Text.Split
import EditorLint.Text.Hex
import EditorLint.Text.Utf8

/-!
Document addresses. `Uri.toPath` takes the path out of an address and `Uri.ofPath` writes the
address of a path; percent signs stand for the bytes of UTF-8.
-/

namespace EditorLint.Uri

/-- The byte that two hexadecimal digits in front write. -/
def byte? : List Char → Option UInt8
  | high :: low :: _ => do
    let high ← Text.hexValue? high
    let low ← Text.hexValue? low
    return (high * 16 + low).toUInt8
  | _ => none

/-- The bytes of a text, where a percent sign and two hexadecimal digits are one byte, after
`skip` characters that such a byte has taken. -/
def percentBytes : Nat → List Char → Text.Utf8.Bytes
  | _, [] => []
  | skip + 1, _ :: rest => percentBytes skip rest
  | 0, c :: rest =>
    if c = '%' then
      match byte? rest with
      | some byte => byte :: percentBytes 2 rest
      | none => Text.Utf8.encodeChar c ++ percentBytes 0 rest
    else Text.Utf8.encodeChar c ++ percentBytes 0 rest

/-- A text with its percent bytes decoded, bad ones leniently. -/
def decodeChars (cs : List Char) : List Char :=
  (Text.Utf8.decodeLossy (percentBytes 0 cs)).toList

def decode (text : String) : String :=
  String.ofList (decodeChars text.toList)

def isAsciiLetter (c : Char) : Bool :=
  ('a' ≤ c && c ≤ 'z') || ('A' ≤ c && c ≤ 'Z')

/-- The lower-case form of an ASCII letter; other characters stay. -/
def lowerAscii (c : Char) : Char :=
  if 'A' ≤ c && c ≤ 'Z' then Char.ofNat (c.toNat + 0x20) else c

def isSchemeChar (c : Char) : Bool :=
  isAsciiLetter c || ('0' ≤ c && c ≤ '9') || c == '+' || c == '-' || c == '.'

/-- The scheme before the first colon, in lower case, and the rest. -/
def splitScheme (cs : List Char) : List Char × List Char :=
  match Text.cutAt ':' cs with
  | (first :: more, some rest) =>
    if isAsciiLetter first && (first :: more).all isSchemeChar then
      ((first :: more).map lowerAscii, rest)
    else ([], cs)
  | _ => ([], cs)

/-- The host after two slashes, and the rest. -/
def splitHost : List Char → List Char × List Char
  | '/' :: '/' :: rest =>
    let isHostChar (c : Char) : Bool := c != '/' && c != '?' && c != '#'
    (rest.takeWhile isHostChar, rest.dropWhile isHostChar)
  | cs => ([], cs)

/-- The schemes whose last path segment may end in parameters, which are no part of the path. -/
def parameterSchemes : List String :=
  ["", "ftp", "hdl", "prospero", "http", "https", "shttp", "rtsp", "rtspu", "sip", "sips",
    "mms", "sftp", "tel"]

/-- The path without the parameters of its last segment. -/
def withoutParameters (cs : List Char) : List Char :=
  let last := (cs.reverse.takeWhile (· != '/')).reverse
  cs.take (cs.length - last.length) ++ (Text.cutAt ';' last).1

/-- Whether a path is a slash, a letter and a colon, with anything after them. -/
def hasDrive : List Char → Bool
  | '/' :: letter :: ':' :: _ => isAsciiLetter letter
  | _ => false

/-- The path that an address names. The parts are told apart before percent bytes are decoded; a
file on a host keeps the host, and a drive letter is the start of its path. -/
def toPathChars (address : List Char) : List Char :=
  let isControl (c : Char) : Bool := c.toNat ≤ 0x20
  let isLineBreak (c : Char) : Bool := c == '\t' || c == '\r' || c == '\n'
  let cleaned := (address.dropWhile isControl).filter fun c => !isLineBreak c
  let (scheme, rest) := splitScheme cleaned
  let (host, rest) := splitHost rest
  let rest := (Text.cutAt '#' rest).1
  let rest := (Text.cutAt '?' rest).1
  let rest :=
    if parameterSchemes.contains (String.ofList scheme) then withoutParameters rest else rest
  let host := decodeChars host
  let path := decodeChars rest
  if scheme = "file".toList ∧ host ≠ [] ∧ path ≠ [] then '/' :: '/' :: (host ++ path)
  else
    match path with
    | '/' :: letter :: more => if hasDrive path then lowerAscii letter :: more else path
    | _ => path

def toPath (address : String) : String :=
  String.ofList (toPathChars address.toList)

/-- Whether a character stands for itself in an address. -/
def isPlain (c : Char) : Bool :=
  isSchemeChar c && c != '+' || c == '_' || c == '~' || c == '/'

/-- One byte as a percent sign and two digits. -/
def percentByte (byte : UInt8) : List Char :=
  ['%', Text.upperHexDigit (byte.toNat / 16), Text.upperHexDigit (byte.toNat % 16)]

/-- One character in an address. -/
def encodeChar (c : Char) : List Char :=
  if isPlain c then [c] else (Text.Utf8.encodeChar c).flatMap percentByte

def encodeChars (cs : List Char) : List Char :=
  cs.flatMap encodeChar

/-- The host and the absolute path that a path stands for, or nothing for two slashes that no
later slash ends. -/
def hostAndPath? : List Char → Option (List Char × List Char)
  | '/' :: '/' :: rest =>
    match Text.cutAt '/' rest with
    | (host, some path) => some (host, '/' :: path)
    | (_, none) => none
  | '/' :: rest => some ([], '/' :: rest)
  | cs => some ([], '/' :: cs)

/-- An absolute path in an address: a drive letter is written small, with its colon. -/
def encodePath (path : List Char) : List Char :=
  match path with
  | '/' :: letter :: ':' :: rest =>
    if isAsciiLetter letter then '/' :: lowerAscii letter :: ':' :: encodeChars rest
    else encodeChars path
  | _ => encodeChars path

/-- The address of a path, or nothing where the path names a host and no file on it. -/
def ofPath? (path : String) : Option String :=
  (hostAndPath? path.toList).map fun (host, path) =>
    String.ofList ("file://".toList ++ encodeChars host ++ encodePath path)

end EditorLint.Uri
