/-
Percent encoding: bytes written as a percent sign and two hexadecimal digits.
-/
import Hypertext.Bytes

namespace Hypertext.Url

/-- The digits of percent encoding are capitals. -/
def capitalHex (n : Nat) : Char := (Bytes.hexDigit n).toUpper

/-- A byte as a percent sign and two digits. -/
def percentByte (b : UInt8) : List Char := ['%', capitalHex (b.toNat / 16), capitalHex (b.toNat % 16)]

/-- One character, encoded if it belongs to a set or lies outside of ASCII. -/
def encodeChar (escape : Char → Bool) (c : Char) : List Char :=
  if escape c || 0x7f ≤ c.toNat then (Bytes.ofText c.toString).flatMap percentByte else [c]

def percentEncode (escape : Char → Bool) (cs : List Char) : List Char := cs.flatMap (encodeChar escape)

/-- The bytes that a text stands for; a percent sign that does not begin an encoded byte stands for itself. -/
def percentDecode : Bytes → Bytes
  | 37 :: h :: l :: rest =>
    match Bytes.hexValue? h, Bytes.hexValue? l with
    | some hi, some lo => (16 * hi + lo).toUInt8 :: percentDecode rest
    | _, _ => 37 :: percentDecode (h :: l :: rest)
  | b :: rest => b :: percentDecode rest
  | [] => []

def isControl (c : Char) : Bool := c.toNat < 0x20

def escapeInPath (c : Char) : Bool := isControl c || [' ', '"', '<', '>', '`', '#', '?', '{', '}'].contains c

def escapeInQuery (c : Char) : Bool := isControl c || [' ', '"', '#', '<', '>', '\''].contains c

end Hypertext.Url
