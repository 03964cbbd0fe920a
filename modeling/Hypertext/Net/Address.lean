/-
Socket addresses: an IPv4 or IPv6 address with a port, their text form and how it is read.
-/
import Hypertext.Text.Quoted
import Hypertext.Text.Integer

namespace Hypertext.Net

structure Ipv4 where
  a : Nat
  b : Nat
  c : Nat
  d : Nat
  deriving DecidableEq, Repr

/-- Eight groups of sixteen bits. -/
structure Ipv6 where
  groups : List Nat
  deriving DecidableEq, Repr

/-- Where a listener listens. -/
inductive SocketAddress
  | v4 (ip : Ipv4) (port : Nat)
  | v6 (ip : Ipv6) (scope port : Nat)
  deriving DecidableEq, Repr

namespace Ipv4

def text (ip : Ipv4) : String := s!"{ip.a}.{ip.b}.{ip.c}.{ip.d}"

/-- The address as one number of 32 bits. -/
def ofNat (n : Nat) : Ipv4 := ⟨n >>> 24 % 256, n >>> 16 % 256, n >>> 8 % 256, n % 256⟩

/-- The two groups of sixteen bits that the address fills at the end of an IPv6 address. -/
def groups (ip : Ipv4) : List Nat := [256 * ip.a + ip.b, 256 * ip.c + ip.d]

end Ipv4

namespace Ipv6

/-- The start and length of the longest run of zero groups, the first of equally long ones. -/
def longestZeros (groups : List Nat) : Nat × Nat :=
  let step := fun (acc : (Nat × Nat) × (Nat × Nat)) (p : Nat × Nat) =>
    let run := if p.1 == 0 then (if acc.2.2 == 0 then (p.2, 1) else (acc.2.1, acc.2.2 + 1)) else (0, 0)
    (if acc.1.2 < run.2 then run else acc.1, run)
  (groups.zipIdx.foldl step ((0, 0), (0, 0))).1

/-- The groups in hexadecimal, the longest run of two or more zeros written as a double colon. -/
def compressed (ip : Ipv6) : String :=
  let part := fun (gs : List Nat) => ":".intercalate (gs.map Text.hex)
  let (start, size) := longestZeros ip.groups
  if size < 2 then part ip.groups
  else part (ip.groups.take start) ++ "::" ++ part (ip.groups.drop (start + size))

/-- As `compressed`; an IPv4 address mapped into IPv6 shows its four bytes. -/
def text (ip : Ipv6) : String :=
  match ip.groups with
  | [0, 0, 0, 0, 0, 0xffff, g, h] => "::ffff:" ++ (Ipv4.mk (g / 256) (g % 256) (h / 256) (h % 256)).text
  | _ => ip.compressed

end Ipv6

namespace SocketAddress

def text : SocketAddress → String
  | .v4 ip port => s!"{ip.text}:{port}"
  | .v6 ip scope port =>
    let zone := if scope == 0 then "" else s!"%{scope}"
    s!"[{ip.text}{zone}]:{port}"

/-! ## Reading -/

/-- A reader takes a value off the front of the characters, or takes nothing. -/
abbrev Reader (α : Type) := List Char → Option (α × List Char)

def char (c : Char) : Reader Unit
  | [] => none
  | x :: rest => if x == c then some ((), rest) else none

/-- The value of a digit in a base of at most sixteen. -/
def digit? (base : Nat) (c : Char) : Option Nat :=
  (Bytes.hexValue? (Bytes.ofChar c)).filter fun n => c.toNat < 128 && n < base

/-- A number below `bound` of at most `width` digits; a zero may stand before other digits if `padded`. -/
def number (base bound : Nat) (width : Option Nat) (padded : Bool) : Reader Nat := fun cs =>
  let digits := (cs.takeWhile fun c => (digit? base c).isSome).filterMap (digit? base)
  let value := digits.foldl (fun n d => base * n + d) 0
  if digits.isEmpty || (width.any (· < digits.length)) || bound ≤ value ||
      (!padded && digits.head? == some 0 && 1 < digits.length) then none
  else some (value, cs.drop digits.length)

/-- Four numbers below 256 without padding, points between them. -/
def ipv4 : Reader Ipv4 := fun cs => do
  let byte := number 10 256 (some 3) false
  let (a, cs) ← byte cs
  let (_, cs) ← char '.' cs
  let (b, cs) ← byte cs
  let (_, cs) ← char '.' cs
  let (c, cs) ← byte cs
  let (_, cs) ← char '.' cs
  let (d, cs) ← byte cs
  return (⟨a, b, c, d⟩, cs)

/-- At most `limit` groups with colons between them; an IPv4 address may stand for the last two. The flag says
whether one did. -/
def groups : (limit : Nat) → (first : Bool) → List Char → (List Nat × Bool) × List Char
  | 0, _, cs => (([], false), cs)
  | limit + 1, first, cs =>
    let start := if first then some cs else (char ':' cs).map (·.2)
    match start with
    | none => (([], false), cs)
    | some after =>
      let embedded := if limit == 0 then none else ipv4 after
      match embedded with
      | some (ip, rest) => ((ip.groups, true), rest)
      | none =>
        match number 16 65536 (some 4) true after with
        | none => (([], false), cs)
        | some (g, rest) =>
          let ((gs, endsInIpv4), rest) := groups limit false rest
          ((g :: gs, endsInIpv4), rest)

/-- Eight groups, or fewer around a double colon that stands for at least one zero group. -/
def ipv6 : Reader Ipv6 := fun cs => do
  let ((head, endsInIpv4), rest) := groups 8 true cs
  if head.length == 8 then return (⟨head⟩, rest)
  if endsInIpv4 then none
  let (_, rest) ← char ':' rest
  let (_, rest) ← char ':' rest
  let ((tail, _), rest) := groups (7 - head.length) true rest
  return (⟨head ++ List.replicate (8 - head.length - tail.length) 0 ++ tail⟩, rest)

/-- A colon and a number of sixteen bits. -/
def port : Reader Nat := fun cs => do
  let (_, cs) ← char ':' cs
  number 10 65536 none true cs

/-- An IPv6 address in brackets, a zone after a percent sign, a port. -/
def bracketed : Reader SocketAddress := fun cs => do
  let (_, cs) ← char '[' cs
  let (ip, cs) ← ipv6 cs
  let zone := do
    let (_, cs) ← char '%' cs
    number 10 UInt32.size none true cs
  let (scope, cs) := zone.getD (0, cs)
  let (_, cs) ← char ']' cs
  let (p, cs) ← port cs
  return (.v6 ip scope p, cs)

/-- Reads the whole text as a socket address. -/
def parse? (s : String) : Option SocketAddress :=
  let plain : Reader SocketAddress := fun cs => do
    let (ip, cs) ← ipv4 cs
    let (p, cs) ← port cs
    return (.v4 ip p, cs)
  match (plain s.toList).orElse fun _ => bracketed s.toList with
  | some (a, []) => some a
  | _ => none

/-- What is said of a text that is no socket address. -/
def syntaxMessage : String := "invalid socket address syntax"

end SocketAddress

end Hypertext.Net
