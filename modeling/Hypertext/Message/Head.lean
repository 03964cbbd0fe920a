/-
The heads of requests and responses: a first line and the header lines up to the empty line that ends them.
-/
import Hypertext.Message.Headers
import Hypertext.Message.Scan
import Hypertext.Message.Version

namespace Hypertext

inductive HeadError
  | token
  | version
  | newLine
  | headerName
  | headerValue
  | status
  | tooManyHeaders
  deriving DecidableEq, Repr

def HeadError.message : HeadError → String
  | .token => "invalid token"
  | .version => "invalid HTTP version"
  | .newLine => "invalid new line"
  | .headerName => "invalid header name"
  | .headerValue => "invalid header value"
  | .status => "invalid response status"
  | .tooManyHeaders => "too many headers"

/-- A header line: its name and the bytes of its value without the blanks around them. -/
structure FieldLine where
  name : String
  value : Bytes
  deriving DecidableEq, Repr

structure RequestHead where
  method : String
  target : String
  version : Version
  fields : List FieldLine
  deriving DecidableEq, Repr

/-- The head of a response; the phrase after the code is not kept. -/
structure ResponseHead where
  version : Version
  code : Nat
  fields : List FieldLine
  deriving DecidableEq, Repr

namespace Head

def maxFields : Nat := 64

/-- The characters of tokens: letters, digits and some marks. -/
def isTokenByte (b : UInt8) : Bool :=
  (48 ≤ b && b ≤ 57) || (65 ≤ b && b ≤ 90) || (97 ≤ b && b ≤ 122) ||
    [33, 35, 36, 37, 38, 39, 42, 43, 45, 46, 94, 95, 96, 124, 126].contains b

/-- The bytes of a request target: visible ones and those outside ASCII. -/
def isTargetByte (b : UInt8) : Bool := (0x21 ≤ b && b ≤ 0x7e) || 0x80 ≤ b

/-- A space or a tab. -/
def isGap (b : UInt8) : Bool := b == 32 || b == 9

/-- The bytes of header values and reason phrases. -/
def isValueByte (b : UInt8) : Bool := b == 9 || (0x20 ≤ b && b ≤ 0x7e) || 0x80 ≤ b

/-- The text of bytes that are all ASCII. -/
def asciiText (b : Bytes) : String := String.ofList (b.map Bytes.toChar)

/-- A scanner of a piece of a head. -/
abbrev Reader (α : Type) := Scanner HeadError α

/-- Empty lines before the first line are passed over. -/
def skipEmptyLines : Reader Unit
  | [] => .more
  | 10 :: rest => skipEmptyLines rest
  | 13 :: 10 :: rest => skipEmptyLines rest
  | [13] => .more
  | 13 :: _ => .bad .newLine
  | s => .done () s

/-- A token and the space after it. -/
def method : Reader String := do
  let first ← Scanner.byte isTokenByte .token
  let others ← Scanner.span isTokenByte
  let _ ← Scanner.byte (· == 32) .token
  return asciiText (first :: others)

/-- A target and the space after it; it may not be empty and has to be text. -/
def target : Reader String := do
  let bytes ← Scanner.span isTargetByte
  let _ ← Scanner.byte (· == 32) .token
  match bytes, Bytes.text? bytes with
  | _ :: _, some s => return s
  | _, _ => Scanner.fail .token

def version : Reader Version := do
  Scanner.literal .version (Bytes.ofText "HTTP/1.")
  let minor ← Scanner.byte (fun b => b == 48 || b == 49) .version
  return if minor == 48 then .http10 else .http11

/-- One header line with its end. -/
def field : Reader FieldLine := do
  let first ← Scanner.byte isTokenByte .headerName
  let others ← Scanner.span isTokenByte
  let _ ← Scanner.byte (· == 58) .headerName
  let _ ← Scanner.span isGap
  let value ← Scanner.span isValueByte
  Scanner.newline .headerValue
  return ⟨asciiText (first :: others), (value.reverse.dropWhile isGap).reverse⟩

/-- Header lines up to and with the empty line, at most as many as there are slots. -/
def fields : (slots : Nat) → Reader (List FieldLine)
  | 0 => do
    let b ← Scanner.peek
    if b == 13 || b == 10 then Scanner.newline .newLine
    else
      let _ ← field
      Scanner.fail .tooManyHeaders
    return []
  | slots + 1 => do
    let b ← Scanner.peek
    if b == 13 || b == 10 then
      Scanner.newline .newLine
      return []
    else
      let f ← field
      return f :: (← fields slots)

/-- The head of a request. -/
def request : Reader RequestHead := do
  skipEmptyLines
  let m ← method
  let t ← target
  let v ← version
  Scanner.newline .newLine
  return ⟨m, t, v, ← fields maxFields⟩

/-- A number of three digits. -/
def statusCode : Reader Nat := do
  let a ← Scanner.byte Bytes.isDigit .status
  let b ← Scanner.byte Bytes.isDigit .status
  let c ← Scanner.byte Bytes.isDigit .status
  return 100 * (a.toNat - 48) + 10 * (b.toNat - 48) + (c.toNat - 48)

/-- The end of a status line: a phrase after a space, or nothing. -/
def reason : Reader Unit := do
  if (← Scanner.peek) == 32 then
    let _ ← Scanner.span isValueByte
  Scanner.newline .status

/-- The head of a response. -/
def response : Reader ResponseHead := do
  skipEmptyLines
  let v ← version
  let _ ← Scanner.byte (· == 32) .version
  let code ← statusCode
  reason
  return ⟨v, code, ← fields maxFields⟩

/-- The fields of a head; a line whose value is no text is left out. -/
def headers (lines : List FieldLine) : Headers :=
  ⟨lines.filterMap fun f => (Bytes.text? f.value).map fun v => (f.name, v)⟩

end Head

end Hypertext
