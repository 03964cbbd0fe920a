/-
The lexical parts of JSON text: blanks, words, numbers and strings.
-/
import Hypertext.Json.Fault

namespace Hypertext.Json

/-- The blanks between tokens. -/
def isSpace (b : UInt8) : Bool := b == 32 || b == 10 || b == 9 || b == 13

def skipSpace (s : Bytes) : Bytes := s.dropWhile isSpace

/-- The rest of a word whose first letter has been read. -/
def word : Bytes → Bytes → Except Fault Bytes
  | [], s => .ok s
  | _ :: _, [] => fail .endInValue []
  | w :: ws, b :: rest => if b == w then word ws rest else fail .noIdent rest

def asciiWord (s : String) : Bytes := Bytes.ofText s

/-! ## Numbers

A number is read as a significand of at most 64 bits and a power of ten: digits that no longer fit the
significand only move the power. The double is the significand times or over a power of ten, each rounded. -/

/-- The digits at the front and what follows them. -/
def spanDigits (s : Bytes) : Bytes × Bytes := (s.takeWhile Bytes.isDigit, s.dropWhile Bytes.isDigit)

/-- Appends digits to a significand while it fits 64 bits; the digits from the first that does not are left. -/
def extend : Nat → Bytes → Nat × Bytes
  | n, [] => (n, [])
  | n, d :: ds =>
    let m := 10 * n + (d.toNat - 48)
    if m < UInt64.size then extend m ds else (n, d :: ds)

/-- The significand over powers of ten that are too large for one division, each step at most `10^308`. -/
def shrink : (steps : Nat) → Float → Nat → Float
  | 0, f, _ => f
  | k + 1, f, e => if e ≤ 308 then f / Float.ofScientific 1 false e else shrink k (f / 1e308) (e - 308)

/-- `significand · 10^exponent` as a double, none if it is too large. -/
def scaled? (significand : Nat) (exponent : Int) : Option Float :=
  let f := significand.toUInt64.toFloat
  if exponent < 0 then
    if f == 0.0 then some f else some (shrink 8 f (min (-exponent).toNat 2000))
  else if exponent ≤ 308 then
    let x := f * Float.ofScientific 1 false exponent.toNat
    if x.isInf then none else some x
  else if f == 0.0 then some f
  else none

/-- A double with its sign, or a complaint that it is too large. -/
def finish (positive : Bool) (significand : Nat) (exponent : Int) (rest : Bytes) : Read Float :=
  match scaled? significand exponent with
  | some x => .ok (if positive then x else -x, rest)
  | none => fail .numberOutOfRange rest

/-- An exponent too large for 32 bits has begun: the number is zero, or too large. -/
def hugeExponent (positive zero positiveExponent : Bool) (rest : Bytes) : Read Float :=
  if !zero && positiveExponent then fail .numberOutOfRange rest
  else .ok (if positive then 0.0 else -0.0, rest.dropWhile Bytes.isDigit)

/-- The digits of an exponent after the first, up to the digit with which it would pass 32 bits. -/
def exponentDigits : Nat → Bytes → Except Bytes (Nat × Bytes)
  | e, [] => .ok (e, [])
  | e, d :: rest =>
    if Bytes.isDigit d then
      if 10 * e + (d.toNat - 48) < 0x80000000 then exponentDigits (10 * e + (d.toNat - 48)) rest else .error rest
    else .ok (e, d :: rest)

/-- Keeps an integer within 32 bits. -/
def clamp32 (i : Int) : Int := max (-0x80000000) (min 0x7fffffff i)

/-- The exponent after its letter, and the double. -/
def readExponent (positive : Bool) (significand : Nat) (start : Int) (s : Bytes) : Read Float :=
  let (up, s) := match s with
    | 43 :: rest => (true, rest)
    | 45 :: rest => (false, rest)
    | _ => (true, s)
  match s with
  | [] => fail .endInValue []
  | d :: rest =>
    if Bytes.isDigit d then
      match exponentDigits (d.toNat - 48) rest with
      | .error rest => hugeExponent positive (significand == 0) up rest
      | .ok (e, rest) => finish positive significand (clamp32 (if up then start + e else start - e)) rest
    else fail .badNumber rest

/-- After the digits of a number: an exponent, or the end. -/
def exponentOrEnd (positive : Bool) (significand : Nat) (exponent : Int) : Bytes → Read Float
  | b :: rest =>
    if b == 101 || b == 69 then readExponent positive significand exponent rest
    else finish positive significand exponent (b :: rest)
  | [] => finish positive significand exponent []

/-- The digits after the point, of which there must be one. -/
def readFraction (positive : Bool) (significand : Nat) (exponent : Int) (s : Bytes) : Read Float :=
  let (digits, rest) := spanDigits s
  let (n, left) := extend significand digits
  match digits, rest with
  | [], [] => failAtNext .endInValue []
  | [], _ => failAtNext .badNumber rest
  | _, _ => exponentOrEnd positive n (exponent - ((digits.length - left.length : Nat) : Int)) rest

/-- A whole number as it is kept: below zero or over 64 bits it may become a double. -/
def wholeNumber (positive : Bool) (n : Nat) : JsonNumber :=
  if positive then .nonneg n
  else if n == 0 || 0x8000000000000000 < n then .double (-n.toUInt64.toFloat)
  else .negative n

/-- A number without its sign. -/
def readNumber (positive : Bool) (s : Bytes) : Read JsonNumber :=
  let (digits, rest) := spanDigits s
  match digits with
  | [] =>
    match rest with
    | [] => fail .endInValue []
    | _ :: after => fail .badNumber after
  | 48 :: _ :: _ => failAtNext .badNumber (s.drop 1)
  | _ =>
    let (n, left) := extend 0 digits
    let double (r : Read Float) : Read JsonNumber := r.map fun p => (.double p.1, p.2)
    match rest with
    | 46 :: after => double (readFraction positive n left.length after)
    | b :: after =>
      if b == 101 || b == 69 then double (readExponent positive n left.length after)
      else if left.isEmpty then .ok (wholeNumber positive n, rest)
      else double (finish positive n left.length rest)
    | [] => if left.isEmpty then .ok (wholeNumber positive n, []) else double (finish positive n left.length [])

/-! ## Strings -/

/-- The value of four hexadecimal digits. -/
def hexEscape : Bytes → Read Nat
  | a :: b :: c :: d :: rest =>
    match Bytes.hexValue? a, Bytes.hexValue? b, Bytes.hexValue? c, Bytes.hexValue? d with
    | some a, some b, some c, some d => .ok (4096 * a + 256 * b + 16 * c + d, rest)
    | _, _, _, _ => fail .badEscape rest
  | _ => fail .endInString []

/-- The bytes of the character with this code. -/
def charBytes (n : Nat) : Bytes := Bytes.ofText (String.singleton (Char.ofNat n))

/-- The character of a hexadecimal escape; codes past 16 bits are written as two surrogates. -/
def readCodePoint (s : Bytes) : Except Fault (Bytes × Bytes) := do
  let (n, s) ← hexEscape s
  if 0xdc00 ≤ n && n ≤ 0xdfff then fail .loneSurrogate s
  else if n < 0xd800 || 0xdbff < n then .ok (charBytes n, s)
  else
    match s with
    | [] => fail .endInString []
    | 92 :: rest =>
      match rest with
      | [] => fail .endInString []
      | 117 :: rest =>
        let (m, rest) ← hexEscape rest
        if m < 0xdc00 || 0xdfff < m then fail .loneSurrogate rest
        else .ok (charBytes (0x10000 + 1024 * (n - 0xd800) + (m - 0xdc00)), rest)
      | _ :: rest => fail .unpairedSurrogate rest
    | _ :: rest => fail .unpairedSurrogate rest

/-- What follows a backslash, as bytes of text. -/
def readEscape : Bytes → Read Bytes
  | [] => fail .endInString []
  | b :: rest =>
    if b == 34 || b == 92 || b == 47 then .ok ([b], rest)
    else if b == 98 then .ok ([8], rest)
    else if b == 102 then .ok ([12], rest)
    else if b == 110 then .ok ([10], rest)
    else if b == 114 then .ok ([13], rest)
    else if b == 116 then .ok ([9], rest)
    else if b == 117 then readCodePoint rest
    else fail .badEscape rest

/-- The bytes of a string up to its closing quote, which is left. The count bounds the number of steps and is at
least the number of bytes. -/
def stringBytes : (steps : Nat) → (acc : Bytes) → Bytes → Except Fault (Bytes × Bytes)
  | 0, _, s => fail .endInString s
  | _ + 1, _, [] => fail .endInString []
  | k + 1, acc, b :: rest =>
    if b == 34 then .ok (acc.reverse, b :: rest)
    else if b == 92 then do
      let (text, rest) ← readEscape rest
      stringBytes k (text.reverse ++ acc) rest
    else if b < 32 then fail .controlCharacter rest
    else stringBytes k (b :: acc) rest

/-- A string whose opening quote has been read. -/
def readString (s : Bytes) : Except Fault (String × Bytes) := do
  let (text, rest) ← stringBytes (s.length + 1) [] s
  match Bytes.text? text with
  | some t => .ok (t, rest.drop 1)
  | none => fail .badCodePoint rest

end Hypertext.Json
