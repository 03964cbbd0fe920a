/-
Punycode: labels of host names with characters outside of ASCII, written in ASCII. The ASCII characters come
first; then numbers say which other characters are to be put where.
-/
import Hypertext.Text.Split

namespace Hypertext.Url.Punycode

/-- The digit with a given value below 36. -/
def digit (n : Nat) : Char := if n < 26 then Char.ofNat (97 + n) else Char.ofNat (22 + n)

def digitValue? (c : Char) : Option Nat :=
  if 'a' ≤ c && c ≤ 'z' then some (c.toNat - 97)
  else if 'A' ≤ c && c ≤ 'Z' then some (c.toNat - 65)
  else if '0' ≤ c && c ≤ '9' then some (c.toNat - 22)
  else none

/-- Divides until a number is small; gives the number of divisions as well. -/
def halve : (steps : Nat) → (delta k : Nat) → Nat × Nat
  | 0, delta, k => (delta, k)
  | n + 1, delta, k => if 455 < delta then halve n (delta / 35) (k + 36) else (delta, k)

/-- How digits are weighed after a number has been written: by its size and the number of characters so far. -/
def adapt (delta points : Nat) (first : Bool) : Nat :=
  let delta := if first then delta / 700 else delta / 2
  let (delta, k) := halve 20 (delta + delta / points) 0
  k + 36 * delta / (delta + 38)

/-- The threshold of the digit at place `k`. -/
def threshold (k bias : Nat) : Nat := if k ≤ bias then 1 else min 26 (k - bias)

def encodeNumber (bias : Nat) : (steps : Nat) → (q k : Nat) → List Char
  | 0, _, _ => []
  | n + 1, q, k =>
    let t := threshold k bias
    if q < t then [digit q] else digit (t + (q - t) % (36 - t)) :: encodeNumber bias n ((q - t) / (36 - t)) (k + 36)

/-- What is kept while a label is written. -/
structure Writer where
  delta : Nat
  bias : Nat
  handled : Nat
  output : List Char

/-- Passes over one character of the label on the way to the character with code `n`. -/
def passChar (basic n : Nat) (w : Writer) (c : Char) : Writer :=
  if c.toNat < n then { w with delta := w.delta + 1 }
  else if c.toNat = n then
    { delta := 0
      bias := adapt w.delta (w.handled + 1) (w.handled == basic)
      handled := w.handled + 1
      output := w.output ++ encodeNumber w.bias 20 w.delta 36 }
  else w

/-- Writes all occurrences of the next larger code, again and again. -/
def encodeFrom (label : List Char) (basic : Nat) : (steps : Nat) → (n : Nat) → Writer → Writer
  | 0, _, w => w
  | k + 1, n, w =>
    match ((label.map Char.toNat).filter (n ≤ ·)).min? with
    | none => w
    | some m =>
      let w := label.foldl (passChar basic m) { w with delta := w.delta + (m - n) * (w.handled + 1) }
      encodeFrom label basic k (m + 1) { w with delta := w.delta + 1 }

def encode (label : List Char) : List Char :=
  let basic := label.filter (·.toNat < 0x80)
  let start := if basic.isEmpty then [] else basic ++ ['-']
  (encodeFrom label basic.length (label.length + 1) 0x80 ⟨0, 72, basic.length, start⟩).output

/-- A number and what follows its digits. -/
def decodeNumber (bias : Nat) : List Char → (i weight k : Nat) → Option (Nat × List Char)
  | [], _, _, _ => none
  | c :: rest, i, weight, k => do
    let d ← digitValue? c
    let i := i + d * weight
    let t := threshold k bias
    if d < t then return (i, rest) else decodeNumber bias rest i (weight * (36 - t)) (k + 36)

/-- Puts characters in their places until no digits are left. -/
def decodeFrom : (steps : Nat) → List Char → (i n bias : Nat) → List Char → Option (List Char)
  | _, [], _, _, _, out => some out
  | 0, _, _, _, _, _ => none
  | k + 1, digits, i, n, bias, out => do
    let (j, rest) ← decodeNumber bias digits i 1 36
    let size := out.length + 1
    let n := n + j / size
    let place := j % size
    if n.isValidChar then
      decodeFrom k rest (place + 1) n (adapt (j - i) size (i == 0)) (out.take place ++ Char.ofNat n :: out.drop place)
    else none

/-- The label that a text in ASCII stands for. -/
def decode? (text : List Char) : Option (List Char) :=
  let (start, digits) := match Text.cutList? '-' text.reverse with
    | some (after, before) => (before.reverse, after.reverse)
    | none => ([], text)
  decodeFrom text.length digits 0 0x80 72 start

end Hypertext.Url.Punycode
