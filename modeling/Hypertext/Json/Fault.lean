/-
What can be wrong with JSON text, and where. A reader that gives up says what it missed and which bytes it had
not read; the line and the column follow from the length of the unread part.
-/
import Hypertext.Bytes
import Hypertext.Decimal.Shortest
import Hypertext.Json.Basic
import Hypertext.Text.Quoted

namespace Hypertext.Json

/-- What was found where a value of another kind was wanted. -/
inductive Found
  | null
  | bool (b : Bool)
  | number (n : JsonNumber)
  | string (s : String)
  | sequence
  | map

/-- What is wrong with a JSON text, or with a value of it where a certain shape is wanted. -/
inductive Complaint
  | endInList
  | endInObject
  | endInString
  | endInValue
  | noColon
  | noListCommaOrEnd
  | noObjectCommaOrEnd
  | noIdent
  | noValue
  | badEscape
  | badNumber
  | numberOutOfRange
  | badCodePoint
  | controlCharacter
  | keyNotString
  | loneSurrogate
  | trailingComma
  | trailingCharacters
  | unpairedSurrogate
  | tooDeep
  | wrongType (found : Found) (wanted : String)
  | wrongValue (found : Found) (wanted : String)
  | wrongLength (n : Nat) (wanted : String)
  | unknownField (name : String) (known : List String)
  | duplicateField (name : String)
  | missingField (name : String)
  | other (text : String)

/-- Doubles inside a complaint are written without an exponent. -/
def plainDouble : Decimal.Layout := ⟨-400, 400, true, ""⟩

def Found.text : Found → String
  | .null => "null"
  | .bool b => s!"boolean `{b}`"
  | .number (.nonneg n) => s!"integer `{n}`"
  | .number (.negative n) => s!"integer `-{n}`"
  | .number (.double x) => s!"floating point `{plainDouble.text x}`"
  | .string s => "string " ++ Text.quote s
  | .sequence => "sequence"
  | .map => "map"

/-- A list of field names as it stands in a message. -/
def namesText : List String → String
  | [] => "there are no fields"
  | [a] => s!"expected `{a}`"
  | [a, b] => s!"expected `{a}` or `{b}`"
  | names => "expected one of " ++ ", ".intercalate (names.map fun n => s!"`{n}`")

def Complaint.text : Complaint → String
  | .endInList => "EOF while parsing a list"
  | .endInObject => "EOF while parsing an object"
  | .endInString => "EOF while parsing a string"
  | .endInValue => "EOF while parsing a value"
  | .noColon => "expected `:`"
  | .noListCommaOrEnd => "expected `,` or `]`"
  | .noObjectCommaOrEnd => "expected `,` or `\x7d`"
  | .noIdent => "expected ident"
  | .noValue => "expected value"
  | .badEscape => "invalid escape"
  | .badNumber => "invalid number"
  | .numberOutOfRange => "number out of range"
  | .badCodePoint => "invalid unicode code point"
  | .controlCharacter => "control character (\\u0000-\\u001F) found while parsing a string"
  | .keyNotString => "key must be a string"
  | .loneSurrogate => "lone leading surrogate in hex escape"
  | .trailingComma => "trailing comma"
  | .trailingCharacters => "trailing characters"
  | .unpairedSurrogate => "unexpected end of hex escape"
  | .tooDeep => "recursion limit exceeded"
  | .wrongType found wanted => s!"invalid type: {found.text}, expected {wanted}"
  | .wrongValue found wanted => s!"invalid value: {found.text}, expected {wanted}"
  | .wrongLength n wanted => s!"invalid length {n}, expected {wanted}"
  | .unknownField name known => s!"unknown field `{name}`, {namesText known}"
  | .duplicateField name => s!"duplicate field `{name}`"
  | .missingField name => s!"missing field `{name}`"
  | .other text => text

/-- A complaint about the text before `unread`. -/
structure Fault where
  complaint : Complaint
  unread : Bytes

/-- A complaint with the line, from one, and the number of bytes read of that line. -/
structure Error where
  complaint : Complaint
  line : Nat
  column : Nat

/-- The line and column at which the bytes that were read end. -/
def position (read : Bytes) : Nat × Nat :=
  read.foldl (fun p b => if b == 10 then (p.1 + 1, 0) else (p.1, p.2 + 1)) (1, 0)

def Fault.locate (text : Bytes) (f : Fault) : Error :=
  let p := position (text.take (text.length - f.unread.length))
  ⟨f.complaint, p.1, p.2⟩

def Error.message (e : Error) : String := s!"{e.complaint.text} at line {e.line} column {e.column}"

/-- The outcome of a reader: a value and the bytes after it, or a fault. -/
abbrev Read (α : Type) := Except Fault (α × Bytes)

/-- A complaint about what has been read so far. -/
def fail {α : Type} (c : Complaint) (unread : Bytes) : Except Fault α := .error ⟨c, unread⟩

/-- A complaint about the byte that comes next, which counts as read. -/
def failAtNext {α : Type} (c : Complaint) (unread : Bytes) : Except Fault α := .error ⟨c, unread.drop 1⟩

end Hypertext.Json
