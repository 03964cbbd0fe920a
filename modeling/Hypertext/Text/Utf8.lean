/-
Reading bytes as text when they may not be valid UTF-8: every longest run of bytes that begins a character but
does not complete one becomes one replacement character.
-/
import Hypertext.Bytes

namespace Hypertext.Text

/-- U+FFFD, which stands for bytes that are no text. -/
def replacementChar : Char := '\uFFFD'

/-- A byte that continues a character. -/
def isContinuation (b : UInt8) : Bool := 0x80 ≤ b && b ≤ 0xbf

/-- How many bytes a character with this first byte has, and which bytes may come second; none for a byte that
begins no character. The bounds on the second byte exclude overlong forms, surrogates and codes past U+10FFFF. -/
def leadByte? (b : UInt8) : Option (Nat × UInt8 × UInt8) :=
  if b < 0x80 then some (1, 0, 0)
  else if b < 0xc2 then none
  else if b < 0xe0 then some (2, 0x80, 0xbf)
  else if b == 0xe0 then some (3, 0xa0, 0xbf)
  else if b == 0xed then some (3, 0x80, 0x9f)
  else if b < 0xf0 then some (3, 0x80, 0xbf)
  else if b == 0xf0 then some (4, 0x90, 0xbf)
  else if b < 0xf4 then some (4, 0x80, 0xbf)
  else if b == 0xf4 then some (4, 0x80, 0x8f)
  else none

/-- The first character of a byte string and how many bytes follow its first one; a defective start is read as
the replacement character and takes the longest run of bytes that could begin a character. -/
def readChar (b : UInt8) (rest : Bytes) : Char × Nat :=
  match leadByte? b with
  | none => (replacementChar, 0)
  | some (1, _, _) => (Char.ofNat b.toNat, 0)
  | some (size, lo, hi) =>
    match rest with
    | [] => (replacementChar, 0)
    | c :: more =>
      if lo ≤ c && c ≤ hi then
        let tail := (more.take (size - 2)).takeWhile isContinuation
        if tail.length + 2 = size then
          let lead := b.toNat % (1 <<< (7 - size))
          (Char.ofNat ((c :: tail).foldl (fun n x => 64 * n + x.toNat % 64) lead), size - 1)
        else (replacementChar, 1 + tail.length)
      else (replacementChar, 0)

/-- The characters of a byte string, defective bytes replaced. -/
def lossyChars : Bytes → List Char
  | [] => []
  | b :: rest => (readChar b rest).1 :: lossyChars (rest.drop (readChar b rest).2)
termination_by b => b.length
decreasing_by
  simp only [List.length_drop, List.length_cons]
  omega

/-- The text of a byte string, defective bytes replaced. -/
def lossy (b : Bytes) : String :=
  match Bytes.text? b with
  | some s => s
  | none => String.ofList (lossyChars b)

end Hypertext.Text
