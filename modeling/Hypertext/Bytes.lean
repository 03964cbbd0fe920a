/-
Byte strings. What travels on a connection is a list of bytes, what a program reasons about is text;
`Bytes.ofText` and `Bytes.text?` are the two directions of UTF-8 and inverse to each other.
-/

namespace Hypertext

abbrev Bytes := List UInt8

namespace Bytes

/-- The UTF-8 bytes of a text. -/
def ofText (s : String) : Bytes := s.toUTF8.data.toList

/-- The text that these bytes encode, if they are valid UTF-8. -/
def text? (b : Bytes) : Option String := String.fromUTF8? ⟨b.toArray⟩

@[simp]
theorem text?_ofText (s : String) : text? (ofText s) = some s := by
  have h : (⟨(ofText s).toArray⟩ : ByteArray) = s.toByteArray := by
    simp [ofText, String.toUTF8]
  unfold text?
  rw [h, String.fromUTF8?, dif_pos s.isValidUTF8]
  rfl

theorem ofText_of_text? {b : Bytes} {s : String} (h : text? b = some s) : ofText s = b := by
  unfold text? String.fromUTF8? at h
  split at h
  · cases h; simp [ofText, String.toUTF8, String.fromUTF8]
  · cases h

@[simp]
theorem ofText_append (s t : String) : ofText (s ++ t) = ofText s ++ ofText t := by
  simp [ofText, String.toUTF8]

/-- The end of a line on the wire. -/
def crlf : Bytes := [13, 10]

/-- The byte of an ASCII character. -/
def ofChar (c : Char) : UInt8 := c.toNat.toUInt8

/-- The character with the code of this byte. -/
def toChar (b : UInt8) : Char := Char.ofNat b.toNat

def isDigit (b : UInt8) : Bool := 48 ≤ b && b ≤ 57

/-- The value of a hexadecimal digit, in either case. -/
def hexValue? (b : UInt8) : Option Nat :=
  if 48 ≤ b && b ≤ 57 then some (b.toNat - 48)
  else if 97 ≤ b && b ≤ 102 then some (b.toNat - 87)
  else if 65 ≤ b && b ≤ 70 then some (b.toNat - 55)
  else none

/-- The lower-case hexadecimal digit of a number below sixteen. -/
def hexDigit (n : Nat) : Char := if n < 10 then Char.ofNat (48 + n) else Char.ofNat (87 + n)

/-- Two lower-case hexadecimal digits per byte. -/
def toHex (b : Bytes) : String :=
  String.ofList (b.flatMap fun x => [hexDigit (x.toNat / 16), hexDigit (x.toNat % 16)])

/-- The bytes that pairs of hexadecimal digits write. -/
def ofHex? : List Char → Option Bytes
  | [] => some []
  | h :: l :: rest => do
    let hi ← hexValue? (ofChar h)
    let lo ← hexValue? (ofChar l)
    return (16 * hi + lo).toUInt8 :: (← ofHex? rest)
  | [_] => none

/-- The number that `n` little-endian bytes hold. -/
def littleEndian : Bytes → Nat
  | [] => 0
  | b :: rest => b.toNat + 256 * littleEndian rest

/-- `width` bytes of a number, the lowest first. -/
def toLittleEndian : (width : Nat) → Nat → Bytes
  | 0, _ => []
  | w + 1, n => (n % 256).toUInt8 :: toLittleEndian w (n / 256)

end Bytes

end Hypertext
