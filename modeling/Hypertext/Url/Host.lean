/-
Hosts of URLs: names, IPv4 addresses in any of their written forms, and IPv6 addresses in brackets.
-/
import Hypertext.Net.Address
import Hypertext.Url.Percent
import Hypertext.Url.Punycode
import Hypertext.Text.Blank

namespace Hypertext.Url

inductive Error
  | relative
  | emptyHost
  | domainName
  | domainCharacter
  | port
  | ipv4
  | ipv6
  deriving DecidableEq, Repr

def Error.message : Error → String
  | .relative => "relative URL without a base"
  | .emptyHost => "empty host"
  | .domainName => "invalid international domain name"
  | .domainCharacter => "invalid domain character"
  | .port => "invalid port number"
  | .ipv4 => "invalid IPv4 address"
  | .ipv6 => "invalid IPv6 address"

/-! ## IPv4 -/

/-- A number in base ten, in base eight after a zero, or in base sixteen after `0x`. -/
def ipv4Number? (s : String) : Option Nat :=
  let read := fun (base : Nat) (cs : List Char) =>
    if cs.all fun c => (Net.SocketAddress.digit? base c).isSome then
      some ((cs.filterMap (Net.SocketAddress.digit? base)).foldl (fun n d => base * n + d) 0)
    else none
  match s.toList with
  | [] => none
  | '0' :: 'x' :: cs => read 16 cs
  | '0' :: 'X' :: cs => read 16 cs
  | '0' :: c :: cs => read 8 (c :: cs)
  | cs => read 10 cs

/-- The parts of a name; a point at its end does not count. -/
def nameParts (name : String) : List String :=
  let parts := Text.split '.' name
  if 1 < parts.length && parts.getLast? == some "" then parts.dropLast else parts

/-- A name that ends in a number has to be an address. -/
def endsInNumber (name : String) : Bool :=
  match (nameParts name).getLast? with
  | none => false
  | some last => (last != "" && last.toList.all Text.isDigit) || (ipv4Number? last).isSome

/-- An address of one to four numbers: the last one fills all bytes that are left. -/
def ipv4? (name : String) : Option Net.Ipv4 := do
  let numbers ← (nameParts name).mapM ipv4Number?
  let last ← numbers.getLast?
  let heads := numbers.dropLast
  if 3 < heads.length || heads.any (255 < ·) || Nat.pow 256 (4 - heads.length) ≤ last then none
  else
    let shifted := heads.zipIdx.map fun p => p.1 * Nat.pow 256 (3 - p.2)
    some (.ofNat (shifted.foldl (· + ·) last))

/-! ## Names -/

/-- The characters that no name may contain. -/
def isForbidden (c : Char) : Bool :=
  c.toNat ≤ 0x20 || c.toNat == 0x7f ||
    ['%', '#', '/', ':', '<', '>', '?', '@', '[', '\\', ']', '^', '|'].contains c

/-- The small form of a capital, and the plain form of a full-width character. This is a part only of the mapping that
Unicode has for domain names: Latin, Greek and Cyrillic capitals, the full-width forms and the dots of a label. Other
characters stay as they are here. Nothing that is shown of targets or of requests rests on which characters it maps. -/
def foldChar (c : Char) : Char :=
  let n := c.toNat
  let within := fun (lo hi : Nat) => decide (lo ≤ n) && decide (n ≤ hi)
  if within 0x41 0x5a || (within 0xc0 0xde && n != 0xd7) || (within 0x391 0x3a9 && n != 0x3a2) || within 0x410 0x42f
  then Char.ofNat (n + 32)
  else if within 0x400 0x40f then Char.ofNat (n + 80)
  else if (within 0x100 0x12f || within 0x132 0x137 || within 0x14a 0x177) && n % 2 == 0 then Char.ofNat (n + 1)
  else if (within 0x139 0x148 || within 0x179 0x17e) && n % 2 == 1 then Char.ofNat (n + 1)
  else if within 0xff21 0xff3a then Char.ofNat (n - 0xff21 + 0x61)
  else if within 0xff01 0xff5e then Char.ofNat (n - 0xff01 + 0x21)
  else if n == 0x3002 || n == 0xff61 then '.'
  else c

/-- Characters that are left out of names. -/
def isIgnored (c : Char) : Bool := [0xad, 0x200b, 0x2060, 0xfeff].contains c.toNat

/-- A label in ASCII. A label that is given in its coded form has to be the code of some label. Which characters a label
may have is decided for blanks, control characters and the replacement character alone, not by the tables of Unicode. -/
def asciiLabel? (label : List Char) : Option (List Char) :=
  if label.all (·.toNat < 0x80) then
    match label with
    | 'x' :: 'n' :: '-' :: '-' :: code => do
      let decoded ← Punycode.decode? code
      let plain := decoded.all fun c => c.toNat < 0x80 || foldChar c == c && 0xa0 < c.toNat && !Text.isBlank c
      if plain && decoded.any (0x80 ≤ ·.toNat) && Punycode.encode decoded == code then some label else none
    | _ => some label
  else if label.any fun c => Text.isBlank c || (0x7f ≤ c.toNat && c.toNat < 0xa0) || c == '\uFFFD' then none
  else some ("xn--".toList ++ Punycode.encode label)

/-- A name in ASCII and in small letters, free of forbidden characters. -/
def asciiName? (bytes : Bytes) : Option String := do
  let text ← Bytes.text? bytes
  let folded := (text.toList.filter fun c => !isIgnored c).map foldChar
  let labels ← (folded.splitOn '.').mapM asciiLabel?
  let name := ['.'].intercalate labels
  if name.any isForbidden then none else some (String.ofList name)

/-! ## Hosts -/

def bracketed (text : String) : Except Error String :=
  match Net.SocketAddress.ipv6 ((text.toList.drop 1).dropLast) with
  | some (ip, []) => .ok s!"[{ip.compressed}]"
  | _ => .error .ipv6

/-- The text of a host, in brackets if it is an IPv6 address. -/
def readHost (text : String) : Except Error String :=
  if text.toList.head? == some '[' then
    if text.toList.getLast? == some ']' then bracketed text else .error .ipv6
  else
    match asciiName? (percentDecode (Bytes.ofText text)) with
    | none => .error .domainName
    | some "" => .error .emptyHost
    | some name =>
      if endsInNumber name then
        match ipv4? name with
        | some ip => .ok ip.text
        | none => .error .ipv4
      else .ok name

/-- The host of a URL whose scheme gives hosts no meaning. -/
def opaqueHost (text : String) : Except Error String :=
  let forbidden := ['\x00', '\t', '\n', '\r', ' ', '#', '/', ':', '<', '>', '?', '@', '[', '\\', ']', '^', '|']
  if text.toList.head? == some '[' then
    if text.toList.getLast? == some ']' then bracketed text else .error .ipv6
  else if text.toList.any forbidden.contains then .error .domainCharacter
  else .ok (String.ofList (percentEncode isControl text.toList))

end Hypertext.Url
