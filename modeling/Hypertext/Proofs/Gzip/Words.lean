/-
The words of a canonical code. They are those that the lengths determine: of one length the words count up in the order
of their symbols, from the first one that no shorter word begins. A reader that counts through the lengths takes exactly
the words so given.
-/
import Hypertext.Proofs.Gzip.Bits
import Mathlib.Tactic.ByContra

namespace Hypertext.Gzip

namespace Code

/-! ## Canonical words -/

/-- The least word of `n` bits as a number; below it are all that begin with a shorter word. -/
def first (lengths : List Nat) (n : Nat) : Nat :=
  (lengths.map fun l => if l ≠ 0 ∧ l < n then 2 ^ (n - l) else 0).sum

/-- The word of a symbol; its first bit is the highest. -/
structure IsWord (lengths : List Nat) (w : List Bool) (s : Nat) : Prop where
  ne_nil : w ≠ []
  length_le : w.length ≤ maxWordLength
  length_eq : lengths[s]? = some w.length
  number_eq : number w.reverse = first lengths w.length + (lengths.take s).count w.length

variable {lengths : List Nat} {w : List Bool} {s n : Nat}

theorem first_one (lengths : List Nat) : first lengths 1 = 0 := by
  induction lengths with
  | nil => rfl
  | cons l lengths ih =>
    rw [first, List.map_cons, List.sum_cons, if_neg (by omega), Nat.zero_add]
    exact ih

theorem first_succ (lengths : List Nat) (hn : n ≠ 0) :
    first lengths (n + 1) = 2 * (first lengths n + lengths.count n) := by
  induction lengths with
  | nil => rfl
  | cons l lengths ih =>
    simp only [first, List.map_cons, List.sum_cons, List.count_cons, beq_iff_eq] at ih ⊢
    rw [ih]
    rcases Nat.lt_trichotomy l n with h | h | h
    · rw [if_neg (Nat.ne_of_lt h)]
      by_cases hl : l = 0
      · rw [if_neg (by omega), if_neg (by omega)]
        omega
      · rw [if_pos ⟨hl, by omega⟩, if_pos ⟨hl, h⟩, Nat.succ_sub (Nat.le_of_lt h), Nat.pow_succ]
        omega
    · subst h
      rw [if_pos ⟨hn, Nat.lt_succ_self l⟩, if_neg (by omega), if_pos rfl, Nat.add_sub_cancel_left]
      omega
    · rw [if_neg (by omega), if_neg (by omega), if_neg (Nat.ne_of_gt h)]
      omega

/-- Longer words lie behind those that shorter words begin. -/
theorem le_first_add (lengths : List Nat) (hn : n ≠ 0) :
    ∀ d, 2 ^ (d + 1) * (first lengths n + lengths.count n) ≤ first lengths (n + (d + 1))
  | 0 => Nat.le_of_eq (first_succ lengths hn).symm
  | d + 1 => by
    have ih := le_first_add lengths hn d
    have hsucc : first lengths (n + (d + 1) + 1) = _ := first_succ lengths (by omega)
    rw [← Nat.add_assoc n, hsucc, Nat.pow_succ, Nat.mul_comm _ 2, Nat.mul_assoc]
    exact Nat.mul_le_mul_left 2 (Nat.le_trans ih (Nat.le_add_right _ _))

/-- No word begins with a shorter one. -/
theorem IsWord.first_add_count_le {p : List Bool} (h : IsWord lengths (p ++ w) s) (hp : p ≠ []) (hw : w ≠ []) :
    first lengths p.length + lengths.count p.length ≤ number p.reverse := by
  have hpos : p.length ≠ 0 := mt List.length_eq_zero_iff.1 hp
  obtain ⟨d, hd⟩ : ∃ d, w.length = d + 1 := Nat.exists_eq_succ_of_ne_zero (mt List.length_eq_zero_iff.1 hw)
  have hle := le_first_add lengths hpos d
  have hlt := number_lt w.reverse
  have heq := h.number_eq
  rw [List.reverse_append, number_append, List.length_append, List.length_reverse, hd] at heq
  rw [List.length_reverse, hd] at hlt
  -- if the beginning were a smaller number, so would be the whole word
  refine Nat.le_of_not_lt fun hcontra => ?_
  have hsucc := Nat.mul_le_mul_left (2 ^ (d + 1)) (Nat.succ_le_of_lt hcontra)
  rw [Nat.mul_succ] at hsucc
  omega

/-! ## Symbols by length -/

/-- The symbols that have a word of `n` bits, in their order. -/
def ofSize (lengths : List Nat) (n : Nat) : List Nat := (lengths.zipIdx.filter (·.1 == n)).map (·.2)

theorem getElem?_zipIdx_filter {k : Nat} : ∀ (lengths : List Nat) (i : Nat),
    (((lengths.zipIdx i).filter (·.1 == n)).map (·.2))[k]? = some s ↔
      ∃ j, s = i + j ∧ lengths[j]? = some n ∧ (lengths.take j).count n = k
  | [], i => by simp
  | l :: lengths, i => by
    have ih : ∀ k, (((lengths.zipIdx (i + 1)).filter (·.1 == n)).map (·.2))[k]? = some s ↔
        ∃ j, s = i + (j + 1) ∧ lengths[j]? = some n ∧ (lengths.take j).count n = k := by
      intro k
      rw [getElem?_zipIdx_filter]
      simp only [Nat.add_right_comm i 1, Nat.add_assoc]
    rw [List.zipIdx_cons, List.filter_cons, ← Nat.or_exists_add_one]
    simp only [List.getElem?_cons_zero, List.getElem?_cons_succ, List.take_zero, List.take_succ_cons, List.count_cons,
      List.count_nil, Nat.add_zero, Option.some.injEq, beq_iff_eq]
    -- the symbol in front is one of those looked for, or it does not count
    by_cases hl : l = n
    · rw [if_pos hl, if_pos hl, List.map_cons]
      cases k with
      | zero => simp [hl, eq_comm]
      | succ k =>
        rw [List.getElem?_cons_succ, ih]
        simp
    · rw [if_neg hl, if_neg hl, ih]
      simp [hl]

theorem length_ofSize (lengths : List Nat) (n : Nat) : (ofSize lengths n).length = lengths.count n := by
  have hlength : ∀ i, ((lengths.zipIdx i).filter (·.1 == n)).length = lengths.count n := by
    induction lengths with
    | nil => exact fun _ => rfl
    | cons l lengths ih =>
      intro i
      rw [List.zipIdx_cons, List.filter_cons, List.count_cons]
      by_cases hl : l = n
      · simp [hl, ih]
      · simp [hl, ih]
  rw [ofSize, List.length_map, hlength]

theorem getElem?_ofSize {k : Nat} :
    (ofSize lengths n)[k]? = some s ↔ lengths[s]? = some n ∧ (lengths.take s).count n = k := by
  rw [ofSize, getElem?_zipIdx_filter]
  simp

/-- A word says by how much it exceeds the first one of its length which of the symbols it stands for. -/
theorem isWord_iff (hw : w ≠ []) :
    IsWord lengths w s ↔ w.length ≤ maxWordLength ∧ first lengths w.length ≤ number w.reverse ∧
      (ofSize lengths w.length)[number w.reverse - first lengths w.length]? = some s := by
  rw [getElem?_ofSize]
  constructor
  · intro h
    have heq := h.number_eq
    exact ⟨h.length_le, by omega, h.length_eq, by omega⟩
  · rintro ⟨hlength, hle, hget, hcount⟩
    exact ⟨hw, hlength, hget, by omega⟩

end Code

/-! ## Reading a word -/

namespace BitReader

open Code

variable {lengths : List Nat}

theorem number_reverse_concat (p : List Bool) (b : Bool) :
    number (p ++ [b]).reverse = 2 * number p.reverse + b.toNat := by
  rw [List.reverse_concat, number, Nat.add_comm]

/-- Bits that have been read are a word if they are among the words of their length, and otherwise they are only the
beginning of one. -/
theorem reads_after {symbols : Array Nat} {q : List Bool} {n : Nat} {before later : List Nat} {next : BitReader Nat}
    (hq : q ≠ []) (hn : q.length = n) (hlength : n ≤ maxWordLength)
    (hsymbols : symbols.toList = before ++ (ofSize lengths n ++ later)) (hfirst : first lengths n ≤ number q.reverse)
    (hnext : first lengths n + (ofSize lengths n).length ≤ number q.reverse →
      next.Reads fun w s => w ≠ [] ∧ IsWord lengths (q ++ w) s) :
    (if number q.reverse < first lengths n + (ofSize lengths n).length then
      match symbols[before.length + (number q.reverse - first lengths n)]? with
      | some s => return s
      | none => throw .corrupt
    else next : BitReader Nat).Reads fun w s => IsWord lengths (q ++ w) s := by
  subst hn
  by_cases hlt : number q.reverse < first lengths q.length + (ofSize lengths q.length).length
  · rw [if_pos hlt]
    have hindex : number q.reverse - first lengths q.length < (ofSize lengths q.length).length := by omega
    have hget : symbols[before.length + (number q.reverse - first lengths q.length)]? =
        (ofSize lengths q.length)[number q.reverse - first lengths q.length]? := by
      rw [← Array.getElem?_toList, hsymbols, List.getElem?_append_right (Nat.le_add_right _ _),
        Nat.add_sub_cancel_left, List.getElem?_append_left hindex]
    obtain ⟨s₀, hs₀⟩ : ∃ s, (ofSize lengths q.length)[number q.reverse - first lengths q.length]? = some s :=
      ⟨_, List.getElem?_eq_getElem hindex⟩
    rw [hget, hs₀]
    refine (Reads.pure s₀).congr fun w s => ⟨fun h => ?_, ?_⟩
    · -- a longer word lies behind the words of this length
      have hnil : w = [] := by
        by_contra hw
        have hle := h.first_add_count_le hq hw
        rw [length_ofSize] at hlt
        omega
      subst hnil
      rw [List.append_nil, isWord_iff hq, hs₀] at h
      exact ⟨rfl, (Option.some.inj h.2.2).symm⟩
    · rintro ⟨rfl, rfl⟩
      rw [List.append_nil, isWord_iff hq]
      exact ⟨hlength, hfirst, hs₀⟩
  · rw [if_neg hlt]
    refine (hnext (Nat.le_of_not_lt hlt)).congr fun w s => ⟨fun h => ⟨?_, h⟩, And.right⟩
    rintro rfl
    rw [List.append_nil, isWord_iff hq] at h
    obtain ⟨hindex, -⟩ := List.getElem?_eq_some_iff.1 h.2.2
    omega

/-- Behind the beginning of a word that has been read comes the rest of it; `n` is the length of the words that are
counted next. -/
theorem reads_wordFrom (lengths : List Nat) (symbols : Array Nat) : ∀ (k n : Nat) (p : List Bool) (before : List Nat),
    p.length + 1 = n → p.length + k = maxWordLength →
    symbols.toList = before ++ (List.range' n k).flatMap (ofSize lengths) →
    first lengths n ≤ 2 * number p.reverse →
    (wordFrom symbols ((List.range' n k).map fun n => (ofSize lengths n).length)
      (2 * number p.reverse) (first lengths n) before.length).Reads fun w s => w ≠ [] ∧ IsWord lengths (p ++ w) s
  | 0, n, p, before, _, hlength, _, _ => by
    refine (Reads.throw .corrupt).congr fun w s => ⟨?_, False.elim⟩
    rintro ⟨hw, hword⟩
    have hle := hword.length_le
    have hpos := List.length_pos_iff.2 hw
    rw [List.length_append] at hle
    omega
  | k + 1, n, p, before, hn, hlength, hsymbols, hfirst => by
    rw [List.range'_succ, List.flatMap_cons] at hsymbols
    rw [List.range'_succ, List.map_cons, wordFrom]
    refine (Reads.bit_bind (Q := fun b w s => IsWord lengths (p ++ [b] ++ w) s) fun b => ?_).congr fun w s => ?_
    · have hq : (p ++ [b]).length = n := by rw [List.length_append, List.length_singleton, hn]
      have hvalue := number_reverse_concat p b
      rw [← hvalue]
      have hfirst' : first lengths n ≤ number (p ++ [b]).reverse := by omega
      refine reads_after (List.concat_ne_nil b p) hq (by omega) hsymbols hfirst' fun hbehind => ?_
      have hsucc : first lengths (n + 1) = 2 * (first lengths n + (ofSize lengths n).length) := by
        rw [length_ofSize, first_succ lengths (by omega)]
      have ih := reads_wordFrom lengths symbols k (n + 1) (p ++ [b]) (before ++ ofSize lengths n) (by rw [hq])
        (by omega) (by rw [hsymbols, List.append_assoc]) (by omega)
      rw [hsucc, List.length_append] at ih
      exact ih
    · constructor
      · rintro ⟨hw, hword⟩
        obtain ⟨b, w, rfl⟩ := List.exists_cons_of_ne_nil hw
        exact ⟨b, w, rfl, by rw [List.append_assoc]; exact hword⟩
      · rintro ⟨b, w, rfl, hword⟩
        rw [List.append_assoc] at hword
        exact ⟨List.cons_ne_nil b w, hword⟩

/-- The symbols of a code are read by its words. -/
theorem reads_symbol (lengths : List Nat) : (symbol (.ofLengths lengths)).Reads (IsWord lengths) := by
  have hsizes : (List.range maxWordLength).map (· + 1) = List.range' 1 maxWordLength := by decide
  have hcounts : (ofLengths lengths).counts =
      (List.range' 1 maxWordLength).map fun n => (ofSize lengths n).length := by
    rw [← hsizes]
    simp only [ofLengths, ofSize, List.length_map]
  have hsymbols : (ofLengths lengths).symbols.toList = (List.range' 1 maxWordLength).flatMap (ofSize lengths) := by
    rw [← hsizes]
    rfl
  have hreads := reads_wordFrom lengths (ofLengths lengths).symbols maxWordLength 1 [] [] rfl rfl hsymbols
    (by rw [first_one]; exact Nat.zero_le _)
  rw [← hcounts, first_one] at hreads
  exact hreads.congr fun w s => ⟨fun h => ⟨h.ne_nil, h⟩, And.right⟩

end BitReader

end Hypertext.Gzip
