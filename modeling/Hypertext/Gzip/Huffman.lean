/-
Canonical prefix codes. A code is given by the length of every symbol's word; words of one length are numbered in
the order of their symbols, and shorter words come before longer ones.
-/

namespace Hypertext.Gzip

def maxWordLength : Nat := 15

/-- A canonical code, ready to be read: how many words there are of each length from one on, and the symbols by
length and then by value. -/
structure Code where
  counts : List Nat
  symbols : Array Nat

namespace Code

/-- The code in which symbol `i` has a word of the length at place `i`, or none if that is zero. -/
def ofLengths (lengths : List Nat) : Code :=
  let sizes := (List.range maxWordLength).map (· + 1)
  let indexed := lengths.zipIdx
  let ofSize := fun n => indexed.filter fun p => p.1 == n
  ⟨sizes.map fun n => (ofSize n).length, (sizes.flatMap fun n => (ofSize n).map (·.2)).toArray⟩

/-- How much of all words the words of a code begin, in units of the longest word. -/
def mass (lengths : List Nat) : Nat :=
  lengths.foldl (fun n l => if l = 0 then n else n + 1 <<< (maxWordLength - l)) 0

/-- Every bit string begins with exactly one word. -/
def isComplete (lengths : List Nat) : Bool := mass lengths == 1 <<< maxWordLength

/-- A code of at most one word; it is allowed where there is nothing to tell apart. -/
def isTrivial (lengths : List Nat) : Bool := (lengths.filter (· != 0)).length ≤ 1

/-- The words of a code: for each symbol the length and the number of its word. -/
def words (lengths : List Nat) : List (Nat × Nat) :=
  let first := fun n => lengths.foldl (fun s l => if l != 0 && l < n then s + 1 <<< (n - l) else s) 0
  let sizes := (List.range (maxWordLength + 1)).map first
  let assign := fun (acc : List Nat × List (Nat × Nat)) (l : Nat) =>
    let word := acc.1.getD l 0
    (acc.1.modify l (· + 1), (l, word) :: acc.2)
  (lengths.foldl assign (sizes, [])).2.reverse

end Code

end Hypertext.Gzip
