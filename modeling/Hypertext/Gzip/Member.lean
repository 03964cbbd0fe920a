/-
Gzip members: a header, a compressed stream, and a trailer with the checksum and the length of the content.
-/
import Hypertext.Gzip.Crc32
import Hypertext.Gzip.Inflate
import Hypertext.IoError

namespace Hypertext.Gzip

inductive Error
  | cutOff
  | badHeader
  | longField
  | incompleteData
  | corruptData
  | wrongChecksum
  | tooLong (limit : Nat)
  deriving DecidableEq, Repr

/-- The failure as one of input. -/
def Error.failure : Error → IoError
  | .cutOff => ⟨.unexpectedEnd, "unexpected end of file"⟩
  | .badHeader => ⟨.invalidInput, "invalid gzip header"⟩
  | .longField => ⟨.invalidInput, "gzip header field too long"⟩
  | .incompleteData => ⟨.unexpectedEnd, "incomplete deflate stream"⟩
  | .corruptData => ⟨.invalidInput, "corrupt deflate stream"⟩
  | .wrongChecksum => ⟨.invalidInput, "corrupt gzip stream does not have a matching checksum"⟩
  | .tooLong limit => ⟨.invalidData, s!"decoded body exceeds {limit} bytes"⟩

/-! ## Header -/

def takeBytes (n : Nat) (b : Bytes) : Except Error (Bytes × Bytes) :=
  if b.length < n then .error .cutOff else .ok (b.take n, b.drop n)

def maxFieldLength : Nat := 65535

/-- Passes a text that a zero byte ends. -/
def skipText (b : Bytes) : Except Error Bytes :=
  let text := b.takeWhile (· != 0)
  if maxFieldLength < text.length then .error .longField
  else match b.drop text.length with
    | [] => .error .cutOff
    | _ :: rest => .ok rest

/-- Passes the header. Which optional parts it has is said by the bits of its fourth byte. -/
def skipHeader (b : Bytes) : Except Error Bytes := do
  let (fixed, rest) ← takeBytes 10 b
  let flags := (fixed.getD 3 0).toNat
  let has := fun (bit : Nat) => flags >>> bit % 2 == 1
  if fixed.take 3 != [0x1f, 0x8b, 8] || 32 ≤ flags then throw .badHeader
  let rest ←
    if has 2 then do
      let (size, rest) ← takeBytes 2 rest
      let (_, rest) ← takeBytes (Bytes.littleEndian size) rest
      pure rest
    else pure rest
  let rest ← if has 3 then skipText rest else pure rest
  let rest ← if has 4 then skipText rest else pure rest
  if has 1 then
    let (sum, after) ← takeBytes 2 rest
    let read := b.take (b.length - rest.length)
    if Bytes.littleEndian sum ≠ (crc32 read).toNat % 65536 then throw .wrongChecksum
    return after
  else return rest

/-! ## Content -/

/-- Output is produced in pieces of this size, and a flaw hides the piece in which it is found. -/
def window : Nat := 32768

/-- The content of the member at the start of a byte string, at most `limit` bytes of it; what follows the member
does not count. -/
def gunzip (b : Bytes) (limit : Nat) : Except Error Bytes := do
  let rest ← skipHeader b
  let content := inflate ((limit / window + 1) * window) rest
  let tooLong := limit < content.output.size
  match content.ending with
  | .full => throw (.tooLong limit)
  | .flawed .corrupt => throw .corruptData
  | .flawed .truncated => throw (if tooLong then .tooLong limit else .incompleteData)
  | .finished rest =>
    if tooLong then throw (.tooLong limit)
    let (sum, rest) ← takeBytes 4 rest
    let (length, _) ← takeBytes 4 rest
    let content := content.output.toList
    if Bytes.littleEndian sum ≠ (crc32 content).toNat || Bytes.littleEndian length ≠ content.length % UInt32.size then
      throw .wrongChecksum
    return content

end Hypertext.Gzip
