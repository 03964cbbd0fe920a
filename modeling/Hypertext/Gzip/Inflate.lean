/-
Decompression. A stream is a sequence of blocks, each stored or coded as literals and copies of earlier output.
Whatever has been decoded when a stream turns out to be cut off or damaged is part of the result.
-/
import Hypertext.Bytes
import Hypertext.Gzip.Huffman

namespace Hypertext.Gzip

/-- A place in a stream: the bytes from here on, and how many bits of the first one are taken. -/
structure Cursor where
  bytes : Bytes
  taken : Nat

/-- Why a stream cannot be read on. -/
inductive Flaw
  | truncated
  | corrupt
  deriving DecidableEq, Repr

abbrev BitReader := StateT Cursor (Except Flaw)

namespace BitReader

/-- The next bit; the lowest of a byte comes first. -/
def bit : BitReader Nat := fun c =>
  match c.bytes with
  | [] => .error .truncated
  | b :: rest =>
    let value := b.toNat >>> c.taken % 2
    .ok (value, if c.taken = 7 then ⟨rest, 0⟩ else ⟨b :: rest, c.taken + 1⟩)

/-- A number of `n` bits, the lowest first. -/
def bits : (n : Nat) → BitReader Nat
  | 0 => pure 0
  | n + 1 => do
    let low ← bit
    return low + 2 * (← bits n)

/-- Skips to the start of a byte. -/
def align : BitReader Unit := fun c => .ok ((), if c.taken = 0 then c else ⟨c.bytes.drop 1, 0⟩)

/-- The next word of a code that has the words so counted; `word` has been read, `first` is the least word of its
length and `index` the place of that word's symbol. -/
def wordFrom (symbols : Array Nat) : (counts : List Nat) → (word first index : Nat) → BitReader Nat
  | [], _, _, _ => throw .corrupt
  | count :: counts, word, first, index => do
    let word := word + (← bit)
    if word < first + count then
      match symbols[index + (word - first)]? with
      | some s => return s
      | none => throw .corrupt
    else wordFrom symbols counts (2 * word) (2 * (first + count)) (index + count)

/-- The symbol of the next word. -/
def symbol (code : Code) : BitReader Nat := wordFrom code.symbols code.counts 0 0 0

end BitReader

open BitReader

/-! ## Symbols -/

/-- What a word of a block stands for. -/
inductive Item
  | literal (b : UInt8)
  | copy (length distance : Nat)
  | endOfBlock
  deriving DecidableEq, Repr

/-- The least length and the number of extra bits of each length symbol, from symbol 257 on. -/
def lengthTable : Array (Nat × Nat) :=
  #[(3, 0), (4, 0), (5, 0), (6, 0), (7, 0), (8, 0), (9, 0), (10, 0), (11, 1), (13, 1), (15, 1), (17, 1), (19, 2),
    (23, 2), (27, 2), (31, 2), (35, 3), (43, 3), (51, 3), (59, 3), (67, 4), (83, 4), (99, 4), (115, 4), (131, 5),
    (163, 5), (195, 5), (227, 5), (258, 0)]

/-- The least distance and the number of extra bits of each distance symbol. -/
def distanceTable : Array (Nat × Nat) :=
  #[(1, 0), (2, 0), (3, 0), (4, 0), (5, 1), (7, 1), (9, 2), (13, 2), (17, 3), (25, 3), (33, 4), (49, 4), (65, 5),
    (97, 5), (129, 6), (193, 6), (257, 7), (385, 7), (513, 8), (769, 8), (1025, 9), (1537, 9), (2049, 10),
    (3073, 10), (4097, 11), (6145, 11), (8193, 12), (12289, 12), (16385, 13), (24577, 13)]

/-- A number that a symbol and its extra bits give. -/
def extended (table : Array (Nat × Nat)) (symbol : Nat) : BitReader Nat :=
  match table[symbol]? with
  | none => throw .corrupt
  | some (base, extra) => do return base + (← bits extra)

def item (literals distances : Code) : BitReader Item := do
  let s ← symbol literals
  if s < 256 then return .literal s.toUInt8
  else if s = 256 then return .endOfBlock
  else
    let length ← extended lengthTable (s - 257)
    let distance ← extended distanceTable (← symbol distances)
    return .copy length distance

/-! ## Codes -/

def fixedLiteralLengths : List Nat :=
  List.replicate 144 8 ++ List.replicate 112 9 ++ List.replicate 24 7 ++ List.replicate 8 8

def fixedDistanceLengths : List Nat := List.replicate 30 5

def fixedLiterals : Code := .ofLengths fixedLiteralLengths

def fixedDistances : Code := .ofLengths fixedDistanceLengths

/-- The order in which the lengths of the code for lengths are written. -/
def lengthOrder : List Nat := [16, 17, 18, 0, 8, 7, 9, 6, 10, 5, 11, 4, 12, 3, 13, 2, 14, 1, 15]

/-- Three bits for each of `n` lengths, put in their places. -/
def codeLengthLengths (n : Nat) : BitReader (List Nat) := do
  let read ← (List.range n).mapM fun _ => bits 3
  let placed := lengthOrder.zip read
  return (List.range 19).map fun i => ((placed.find? (·.1 == i)).map (·.2)).getD 0

/-- `room` lengths, the last one first, with repetitions of the last one and of zero. -/
def codeLengths (code : Code) : (steps room : Nat) → (read : List Nat) → BitReader (List Nat)
  | _, 0, read => return read.reverse
  | 0, _, _ => throw .corrupt
  | k + 1, room, read => do
    let s ← symbol code
    let repeated := fun (value n : Nat) =>
      if room < n then throw .corrupt else codeLengths code k (room - n) (List.replicate n value ++ read)
    if s < 16 then codeLengths code k (room - 1) (s :: read)
    else if s = 16 then
      match read with
      | [] => throw .corrupt
      | last :: _ => repeated last (3 + (← bits 2))
    else if s = 17 then repeated 0 (3 + (← bits 3))
    else repeated 0 (11 + (← bits 7))

/-- The two codes at the start of a block that brings its own. -/
def ownCodes : BitReader (Code × Code) := do
  let literals := 257 + (← bits 5)
  let distances := 1 + (← bits 5)
  let n := 4 + (← bits 4)
  let lengths ← codeLengthLengths n
  if 286 < literals || 30 < distances || !Code.isComplete lengths then throw .corrupt
  let all ← codeLengths (.ofLengths lengths) (literals + distances) (literals + distances) []
  let (lits, dists) := (all.take literals, all.drop literals)
  let valid := fun ls => Code.isComplete ls || Code.isTrivial ls
  if !valid lits || !valid dists then throw .corrupt
  return (.ofLengths lits, .ofLengths dists)

/-! ## Blocks -/

/-- How decoding ends: after the last block, with a flaw, or because there is as much output as wanted. -/
inductive Ending
  | finished (rest : Bytes)
  | flawed (flaw : Flaw)
  | full

/-- The output and how decoding ended. -/
structure Inflated where
  output : Array UInt8
  ending : Ending

/-- Appends `n` bytes, each a copy of the one `distance` before it; before the start there are zeros. -/
def copyBack (distance : Nat) : (n : Nat) → Array UInt8 → Array UInt8
  | 0, out => out
  | n + 1, out => copyBack distance n (out.push (if distance ≤ out.size then out[out.size - distance]?.getD 0 else 0))

/-- The items of a block, appended to the output up to `bound` bytes. -/
def items (literals distances : Code) (bound : Nat) :
    (steps : Nat) → Cursor → Array UInt8 → Except Inflated (Cursor × Array UInt8)
  | 0, _, out => .error ⟨out, .flawed .truncated⟩
  | k + 1, c, out =>
    if bound ≤ out.size then .error ⟨out, .full⟩
    else match (item literals distances).run c with
      | .error flaw => .error ⟨out, .flawed flaw⟩
      | .ok (.endOfBlock, c) => .ok (c, out)
      | .ok (.literal b, c) => items literals distances bound k c (out.push b)
      | .ok (.copy length distance, c) => items literals distances bound k c (copyBack distance length out)

/-- A block that is stored as it is: its length, the length with all bits inverted, and the bytes. -/
def stored (c : Cursor) (out : Array UInt8) : Except Inflated (Cursor × Array UInt8) :=
  let header : BitReader Nat := do
    align
    let n ← bits 16
    let inverse ← bits 16
    if n + inverse ≠ 65535 then throw .corrupt
    return n
  match header.run c with
  | .error flaw => .error ⟨out, .flawed flaw⟩
  | .ok (n, c) =>
    let out := out ++ (c.bytes.take n).toArray
    if c.bytes.length < n then .error ⟨out, .flawed .truncated⟩ else .ok (⟨c.bytes.drop n, 0⟩, out)

/-- One block, and whether it is the last. -/
def block (bound steps : Nat) (c : Cursor) (out : Array UInt8) : Except Inflated (Bool × Cursor × Array UInt8) := do
  let lift {α : Type} (r : Except Flaw α) : Except Inflated α := r.mapError fun flaw => ⟨out, .flawed flaw⟩
  let (last, c) ← lift (bit.run c)
  let (kind, c) ← lift ((bits 2).run c)
  let (c, out) ← match kind with
    | 0 => stored c out
    | 1 => items fixedLiterals fixedDistances bound steps c out
    | 2 => do
      let ((literals, distances), c) ← lift (ownCodes.run c)
      items literals distances bound steps c out
    | _ => .error ⟨out, .flawed .corrupt⟩
  return (last == 1, c, out)

/-- All blocks; every step takes at least one bit, so as many steps as there are bits suffice. -/
def blocks (bound bitCount : Nat) : (steps : Nat) → Cursor → Array UInt8 → Inflated
  | 0, _, out => ⟨out, .flawed .truncated⟩
  | k + 1, c, out =>
    if bound ≤ out.size then ⟨out, .full⟩
    else match block bound (bitCount + 1) c out with
      | .error r => r
      | .ok (true, c, out) => ⟨out, .finished (if c.taken = 0 then c.bytes else c.bytes.drop 1)⟩
      | .ok (false, c, out) => blocks bound bitCount k c out

/-- Decodes a stream until it ends or there are `bound` bytes of output. -/
def inflate (bound : Nat) (b : Bytes) : Inflated := blocks bound (8 * b.length) (8 * b.length + 1) ⟨b, 0⟩ #[]

end Hypertext.Gzip
