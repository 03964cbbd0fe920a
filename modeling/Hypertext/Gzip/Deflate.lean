/-
Compression. The content becomes one block of literals and copies of earlier content, written in whichever is
shorter of the fixed codes and codes made for the block. A gzip member is that block between a header and a trailer.
Other encoders find other repetitions and make other codes, so that a short content may shrink with one and not with
another. This one is the encoder that responses have if none is named; what is shown of them asks of an encoder only
that decoding inverts it.
-/
import Std.Data.HashMap
import Hypertext.Gzip.Crc32
import Hypertext.Gzip.Inflate

namespace Hypertext.Gzip

/-! ## Finding repetitions -/

def maxCopy : Nat := 258

def maxDistance : Nat := 32768

def maxCandidates : Nat := 16

/-- How many bytes, at most `n`, are equal from two places on. -/
def commonLength (data : Array UInt8) : (n i j : Nat) → Nat
  | 0, _, _ => 0
  | n + 1, i, j =>
    match data[i]?, data[j]? with
    | some a, some b => if a == b then commonLength data n (i + 1) (j + 1) + 1 else 0
    | _, _ => 0

/-- Earlier places by the three bytes that stand there, the latest first. -/
abbrev Places := Std.HashMap Nat (List Nat)

/-- The three bytes at a place as one number. -/
def key? (data : Array UInt8) (i : Nat) : Option Nat := do
  let a ← data[i]?
  let b ← data[i + 1]?
  let c ← data[i + 2]?
  return a.toNat + 256 * b.toNat + 65536 * c.toNat

/-- The earlier places with the same three bytes. -/
def candidates (data : Array UInt8) (seen : Places) (i : Nat) : List Nat :=
  (((key? data i).bind (seen[·]?)).getD []).filter fun j => i - j ≤ maxDistance

def note (data : Array UInt8) (seen : Places) (i : Nat) : Places :=
  match key? data i with
  | none => seen
  | some k => seen.insert k (i :: ((seen[k]?).getD []).take (maxCandidates - 1))

/-- The item for the content at a place, and how much content it stands for: the longest copy, if there is one. -/
def choose (data : Array UInt8) (seen : Places) (i : Nat) : Item × Nat :=
  let better := fun (best : Nat × Nat) (j : Nat) =>
    let n := commonLength data maxCopy i j
    if best.1 < n then (n, i - j) else best
  let (length, distance) := (candidates data seen i).foldl better (0, 0)
  if 3 ≤ length then (.copy length distance, length) else (.literal (data[i]?.getD 0), 1)

/-- The items for the content from a place on. -/
def itemsFrom (data : Array UInt8) : (steps i : Nat) → Places → Array Item → Array Item
  | 0, _, _, acc => acc
  | k + 1, i, seen, acc =>
    if i < data.size then
      let (item, n) := choose data seen i
      let seen := (List.range n).foldl (fun s d => note data s (i + d)) seen
      itemsFrom data k (i + n) seen (acc.push item)
    else acc

/-- The whole content as items with the end of the block. -/
def itemsOf (b : Bytes) : List Item := (itemsFrom b.toArray b.length 0 ∅ #[]).toList ++ [.endOfBlock]

/-! ## Code lengths -/

/-- Pairs neighbours; a package weighs as much as its two parts and holds the symbols of both. -/
def packages : List (Nat × List Nat) → List (Nat × List Nat)
  | a :: b :: rest => (a.1 + b.1, a.2 ++ b.2) :: packages rest
  | _ => []

/-- The best word lengths of at most `limit` for the given weights: as many packages as a code needs are taken
from the lightest on, and each symbol's word is as long as it occurs in them. -/
def wordLengths (limit : Nat) (weights : List Nat) : List Nat :=
  let lighter := fun (a b : Nat × List Nat) => decide (a.1 ≤ b.1)
  let used := weights.zipIdx.filter (·.1 != 0)
  let leaves := (used.map fun p => (p.1, [p.2])).mergeSort lighter
  let row := (List.range (limit - 1)).foldl (fun row _ => List.merge leaves (packages row) lighter) leaves
  let taken := (row.take (2 * (used.length - 1))).flatMap (·.2)
  let counts := taken.foldl (fun (acc : Array Nat) s => acc.modify s (· + 1)) (Array.replicate weights.length 0)
  if used.length = 1 then weights.map fun w => if w = 0 then 0 else 1 else counts.toList

/-! ## Writing -/

def lowBits : (n value : Nat) → List Bool
  | 0, _ => []
  | n + 1, value => (value % 2 == 1) :: lowBits n (value / 2)

/-- A word, given by its length and number; its first bit is the highest. -/
def wordBits (w : Nat × Nat) : List Bool := (lowBits w.1 w.2).reverse

/-- Eight bits a byte, the lowest first; the last byte is filled with zeros. -/
def pack : List Bool → Bytes
  | a :: b :: c :: d :: e :: f :: g :: h :: rest => byteOf [a, b, c, d, e, f, g, h] :: pack rest
  | [] => []
  | fewer => [byteOf fewer]
where
  /-- The byte with these bits. -/
  byteOf (bits : List Bool) : UInt8 := (bits.foldr (fun (b : Bool) n => b.toNat + 2 * n) 0).toUInt8

/-- The symbol in a table for a number, with its extra bits. -/
def symbolOf (table : Array (Nat × Nat)) (n : Nat) : Nat × List Bool :=
  let i := (table.foldl (fun k entry => if entry.1 ≤ n then k + 1 else k) 0) - 1
  match table[i]? with
  | some (base, extra) => (i, lowBits extra (n - base))
  | none => (i, [])

/-- The literal symbol of an item, and the distance symbol of a copy. -/
def symbolsOf : Item → (Nat × List Bool) × Option (Nat × List Bool)
  | .literal b => ((b.toNat, []), none)
  | .endOfBlock => ((256, []), none)
  | .copy length distance =>
    let (s, extra) := symbolOf lengthTable length
    ((257 + s, extra), some (symbolOf distanceTable distance))

/-- The items in words of the two codes. -/
def itemBits (literals distances : Array (Nat × Nat)) (items : List Item) : List Bool :=
  let word := fun (code : Array (Nat × Nat)) (s : Nat × List Bool) => wordBits (code[s.1]?.getD (0, 0)) ++ s.2
  items.flatMap fun i =>
    let (l, d) := symbolsOf i
    word literals l ++ (d.map (word distances)).getD []

/-- How often each symbol below `n` occurs. -/
def weigh (n : Nat) (symbols : List Nat) : List Nat :=
  (symbols.foldl (fun (acc : Array Nat) s => acc.modify s (· + 1)) (Array.replicate n 0)).toList

/-- A run of equal lengths as symbols of the code for lengths, with their extra bits. -/
def runSymbols (value : Nat) : (steps n : Nat) → List (Nat × List Bool)
  | 0, _ => []
  | k + 1, n =>
    if n = 0 then []
    else if value = 0 && 11 ≤ n then (18, lowBits 7 (min n 138 - 11)) :: runSymbols value k (n - min n 138)
    else if value = 0 && 3 ≤ n then [(17, lowBits 3 (n - 3))]
    else if value ≠ 0 && 4 ≤ n then
      (value, []) :: (16, lowBits 2 (min (n - 1) 6 - 3)) :: runSymbols value k (n - 1 - min (n - 1) 6)
    else (value, []) :: runSymbols value k (n - 1)

/-- The block in codes made for it. -/
def ownBlock (items : List Item) : List Bool :=
  let symbols := items.map symbolsOf
  let literals := wordLengths maxWordLength (weigh 286 (symbols.map (·.1.1)))
  let distances := wordLengths maxWordLength (weigh 30 (symbols.filterMap fun s => s.2.map (·.1)))
  let runs := (literals ++ distances).splitBy (· == ·)
  let lengthSymbols := runs.flatMap fun run => runSymbols (run.headD 0) run.length run.length
  let lengths := wordLengths 7 (weigh 19 (lengthSymbols.map (·.1)))
  let lengthWords := (Code.words lengths).toArray
  lowBits 5 (286 - 257) ++ lowBits 5 (30 - 1) ++ lowBits 4 (19 - 4) ++
    (lengthOrder.flatMap fun s => lowBits 3 (lengths.getD s 0)) ++
    (lengthSymbols.flatMap fun s => wordBits (lengthWords[s.1]?.getD (0, 0)) ++ s.2) ++
    itemBits (Code.words literals).toArray (Code.words distances).toArray items

/-- The block in the fixed codes. -/
def fixedBlock (items : List Item) : List Bool :=
  itemBits (Code.words fixedLiteralLengths).toArray (Code.words fixedDistanceLengths).toArray items

/-- The compressed stream of a content. -/
def deflate (b : Bytes) : Bytes :=
  let items := itemsOf b
  let (fixed, own) := (fixedBlock items, ownBlock items)
  pack (true :: if fixed.length ≤ own.length then lowBits 2 1 ++ fixed else lowBits 2 2 ++ own)

/-- A member with the given content; its header names neither a time nor a system. -/
def gzip (b : Bytes) : Bytes :=
  [0x1f, 0x8b, 8, 0, 0, 0, 0, 0, 0, 0xff] ++ deflate b ++ Bytes.toLittleEndian 4 (crc32 b).toNat ++
    Bytes.toLittleEndian 4 b.length

end Hypertext.Gzip
