/-
What the words of a block stand for: literals, copies and the end of the block, in the two codes of the block; and, where
a block brings its own codes, the lengths of their words, in a third code whose lengths come before them.
-/
import Hypertext.Proofs.Gzip.Words
import Mathlib.Data.List.Forall2

namespace Hypertext.Gzip

open Code (IsWord)
open BitReader (IsNumber)

/-! ## Items -/

/-- A number that a symbol and its extra bits write. -/
def IsExtended (table : Array (Nat × Nat)) (s : Nat) (w : List Bool) (v : Nat) : Prop :=
  ∃ entry, table[s]? = some entry ∧ ∃ n, IsNumber entry.2 w n ∧ v = entry.1 + n

/-- An item in the codes with words of these lengths. -/
inductive IsItem (literals distances : List Nat) : List Bool → Item → Prop
  | literal {w : List Bool} {b : UInt8} (word : IsWord literals w b.toNat) : IsItem literals distances w (.literal b)
  | endOfBlock {w : List Bool} (word : IsWord literals w 256) : IsItem literals distances w .endOfBlock
  | copy {w x w' x' : List Bool} {s d length distance : Nat} (word : IsWord literals w (257 + s))
      (extra : IsExtended lengthTable s x length) (word' : IsWord distances w' d)
      (extra' : IsExtended distanceTable d x' distance) :
      IsItem literals distances (w ++ (x ++ (w' ++ x'))) (.copy length distance)

namespace BitReader

theorem reads_extended (table : Array (Nat × Nat)) (s : Nat) : (extended table s).Reads (IsExtended table s) := by
  unfold extended IsExtended
  cases table[s]? with
  | none => exact (Reads.throw .corrupt).congr (by simp)
  | some entry => exact ((reads_bits entry.2).map fun n => entry.1 + n).congr (by simp)

theorem reads_item (literals distances : List Nat) :
    (item (.ofLengths literals) (.ofLengths distances)).Reads (IsItem literals distances) := by
  refine ((reads_symbol literals).bind fun _ s _ => .ite (fun _ => .pure _) fun _ => .ite (fun _ => .pure _) fun _ =>
    (reads_extended lengthTable (s - 257)).bind fun _ length _ => (reads_symbol distances).bind fun _ d _ =>
      (reads_extended distanceTable d).map fun distance => Item.copy length distance).congr fun w i => ⟨?_, ?_⟩
  · intro h
    cases h with
    | @literal _ b word =>
      refine ⟨b.toNat, w, [], (List.append_nil w).symm, word, ?_⟩
      rw [if_pos b.toNat_lt, Nat.toUInt8_eq, UInt8.ofNat_toNat]
      exact ⟨rfl, rfl⟩
    | endOfBlock word => exact ⟨256, w, [], (List.append_nil w).symm, word, rfl, rfl⟩
    | @copy w x w' x' s d length distance word extra word' extra' =>
      refine ⟨257 + s, w, x ++ (w' ++ x'), rfl, word, ?_⟩
      rw [if_neg (by omega), if_neg (by omega), Nat.add_sub_cancel_left]
      exact ⟨length, x, w' ++ x', rfl, extra, d, w', x', rfl, word', distance, extra', rfl⟩
  · rintro ⟨s, w, z, rfl, word, h⟩
    split at h
    · next hs =>
      obtain ⟨rfl, rfl⟩ := h
      rw [List.append_nil]
      refine .literal ?_
      rw [Nat.toUInt8_eq, UInt8.toNat_ofNat_of_lt' hs]
      exact word
    · next hs =>
      split at h
      · next hs' =>
        obtain ⟨rfl, rfl⟩ := h
        rw [List.append_nil]
        exact .endOfBlock (hs' ▸ word)
      · next hs' =>
        obtain ⟨length, x, z, rfl, extra, d, w', x', rfl, word', distance, extra', rfl⟩ := h
        refine .copy ?_ extra word' extra'
        rw [Nat.add_sub_of_le (by omega)]
        exact word

end BitReader

/-! ## The lengths of the words -/

/-- Three bits for each of the first `n` lengths in the order in which they are written; the others are zero. -/
def IsLengthCode (n : Nat) (w : List Bool) (lengths : List Nat) : Prop :=
  lengths.length = 19 ∧ (∀ i ∈ lengthOrder.drop n, lengths.getD i 0 = 0) ∧
    ∃ words, w = words.flatten ∧ List.Forall₂ (IsNumber 3) words ((lengthOrder.take n).map (lengths.getD · 0))

/-- What a symbol of the code for lengths repeats, in how many bits it says how often, and how often at least. -/
inductive Repeats (before : List Nat) : (s value width least : Nat) → Prop
  | last {value : Nat} (h : before.getLast? = some value) : Repeats before 16 value 2 3
  | zeros : Repeats before 17 0 3 3
  | manyZeros : Repeats before 18 0 7 11

/-- Lengths in a code for lengths: a symbol stands for a length or for a repetition. -/
inductive Runs (code : List Nat) : List Bool → (before after : List Nat) → Prop
  | done {before : List Nat} : Runs code [] before before
  | length {w w' : List Bool} {s : Nat} {before after : List Nat} (word : IsWord code w s) (hs : s < 16)
      (more : Runs code w' (before ++ [s]) after) : Runs code (w ++ w') before after
  | repeated {w x w' : List Bool} {s value width least n : Nat} {before after : List Nat} (word : IsWord code w s)
      (repeats : Repeats before s value width least) (count : IsNumber width x n)
      (more : Runs code w' (before ++ List.replicate (least + n) value) after) : Runs code (w ++ (x ++ w')) before after

/-- A code of a block is complete or has at most one word. -/
def IsUsable (lengths : List Nat) : Prop := Code.isComplete lengths = true ∨ Code.isTrivial lengths = true

/-- The codes of a block that brings its own: how many lengths there are, the code in which they are written, and
they. -/
inductive IsCodes : List Bool → (literals distances : List Nat) → Prop
  | intro {a b c x y : List Bool} {i j n : Nat} {lengths literals distances : List Nat} (literalCount : IsNumber 5 a i)
      (distanceCount : IsNumber 5 b j) (lengthCount : IsNumber 4 c n) (code : IsLengthCode (4 + n) x lengths)
      (complete : Code.isComplete lengths = true) (runs : Runs lengths y [] (literals ++ distances))
      (length_literals : literals.length = 257 + i) (length_distances : distances.length = 1 + j)
      (literals_le : literals.length ≤ 286) (distances_le : distances.length ≤ 30) (literals_usable : IsUsable literals)
      (distances_usable : IsUsable distances) : IsCodes (a ++ (b ++ (c ++ (x ++ y)))) literals distances

/-! ## Reading the lengths -/

theorem Repeats.least_pos {before : List Nat} {s value width least : Nat} (h : Repeats before s value width least) :
    0 < least := by
  cases h <;> decide

theorem Repeats.unique {before : List Nat} {s value value' width width' least least' : Nat}
    (h : Repeats before s value width least) (h' : Repeats before s value' width' least') :
    value = value' ∧ width = width' ∧ least = least' := by
  cases h with
  | last h =>
    cases h' with
    | last h' => exact ⟨Option.some.inj (h.symm.trans h'), rfl, rfl⟩
  | zeros =>
    cases h'
    exact ⟨rfl, rfl, rfl⟩
  | manyZeros =>
    cases h'
    exact ⟨rfl, rfl, rfl⟩

theorem Runs.length_le {code before after : List Nat} {w : List Bool} (h : Runs code w before after) :
    before.length ≤ after.length := by
  induction h with
  | done => exact Nat.le_refl _
  | length word hs more ih =>
    rw [List.length_append] at ih
    omega
  | repeated word repeats count more ih =>
    rw [List.length_append] at ih
    omega

theorem Runs.eq_of_length {code before after : List Nat} {w : List Bool} (h : Runs code w before after)
    (hlength : after.length = before.length) : w = [] ∧ after = before := by
  cases h with
  | done => exact ⟨rfl, rfl⟩
  | length word hs more =>
    have hle := more.length_le
    rw [List.length_append, List.length_singleton] at hle
    omega
  | repeated word repeats count more =>
    have hle := more.length_le
    have hpos := repeats.least_pos
    rw [List.length_append, List.length_replicate] at hle
    omega

/-- What follows when a symbol has been read. -/
def Follows (code before : List Nat) (s : Nat) (w : List Bool) (all : List Nat) : Prop :=
  s < 16 ∧ Runs code w (before ++ [s]) all ∨ ∃ value width least, Repeats before s value width least ∧
    ∃ x w' n, w = x ++ w' ∧ IsNumber width x n ∧ Runs code w' (before ++ List.replicate (least + n) value) all

theorem follows_iff_of_lt {code before all : List Nat} {s : Nat} {w : List Bool} (hs : s < 16) :
    Follows code before s w all ↔ Runs code w (before ++ [s]) all := by
  constructor
  · rintro (⟨-, hruns⟩ | ⟨_, _, _, hrepeats, -⟩)
    · exact hruns
    · cases hrepeats <;> omega
  · exact fun hruns => .inl ⟨hs, hruns⟩

theorem follows_iff_of_repeats {code before all : List Nat} {s value width least : Nat} {w : List Bool}
    (h : Repeats before s value width least) : Follows code before s w all ↔ ∃ x w' n, w = x ++ w' ∧
      IsNumber width x n ∧ Runs code w' (before ++ List.replicate (least + n) value) all := by
  constructor
  · rintro (⟨hs, -⟩ | ⟨_, _, _, h', hruns⟩)
    · cases h <;> omega
    · obtain ⟨rfl, rfl, rfl⟩ := h.unique h'
      exact hruns
  · exact fun hruns => .inr ⟨value, width, least, h, hruns⟩

theorem runs_iff {code before all : List Nat} {w : List Bool} (hlength : before.length < all.length) :
    Runs code w before all ↔ ∃ s w₁ w₂, w = w₁ ++ w₂ ∧ IsWord code w₁ s ∧ Follows code before s w₂ all := by
  constructor
  · intro hruns
    cases hruns with
    | done => exact absurd hlength (Nat.lt_irrefl _)
    | length word hs more => exact ⟨_, _, _, rfl, word, .inl ⟨hs, more⟩⟩
    | repeated word repeats count more =>
      exact ⟨_, _, _, rfl, word, .inr ⟨_, _, _, repeats, _, _, _, rfl, count, more⟩⟩
  · rintro ⟨s, w₁, w₂, rfl, word, ⟨hs, more⟩ | ⟨_, _, _, repeats, x, w', n, rfl, count, more⟩⟩
    · exact .length word hs more
    · exact .repeated word repeats count more

/-- What is written in an order is found where its place in the order is. -/
theorem map_find?_zip : ∀ (order read : List Nat), order.Nodup → read.length ≤ order.length →
    (order.take read.length).map (fun i => (((order.zip read).find? (·.1 == i)).map (·.2)).getD 0) = read ∧
      ∀ i ∈ order.drop read.length, (((order.zip read).find? (·.1 == i)).map (·.2)).getD 0 = 0
  | order, [], _, _ => by simp
  | [], v :: read, _, h => by simp at h
  | o :: order, v :: read, hnodup, h => by
    obtain ⟨hnot, hnodup⟩ := List.nodup_cons.1 hnodup
    obtain ⟨ih, ih'⟩ := map_find?_zip order read hnodup (Nat.le_of_succ_le_succ h)
    have hskip : ∀ i ∈ order, (((o :: order).zip (v :: read)).find? (·.1 == i)) = (order.zip read).find? (·.1 == i) := by
      intro i hi
      have hne : o ≠ i := by
        rintro rfl
        exact hnot hi
      rw [List.zip_cons_cons, List.find?_cons_of_neg (by simpa using hne)]
    constructor
    · rw [List.length_cons, List.take_succ_cons, List.map_cons]
      congr 1
      · simp
      · rw [List.map_congr_left fun i hi => by rw [hskip i (List.mem_of_mem_take hi)], ih]
    · intro i hi
      rw [List.length_cons, List.drop_succ_cons] at hi
      rw [hskip i (List.mem_of_mem_drop hi)]
      exact ih' i hi

theorem mem_lengthOrder_iff {i : Nat} : i ∈ lengthOrder ↔ i < 19 := by
  constructor
  · revert i
    decide
  · intro hi
    revert i
    decide

theorem eq_map_range_iff {lengths : List Nat} {n : Nat} (f : Nat → Nat) :
    lengths = (List.range n).map f ↔ lengths.length = n ∧ ∀ i < n, lengths.getD i 0 = f i := by
  constructor
  · rintro rfl
    refine ⟨by simp, fun i hi => ?_⟩
    simp [List.getD, hi]
  · rintro ⟨rfl, h⟩
    refine List.ext_getElem (by simp) fun i hi _ => ?_
    rw [List.getElem_map, List.getElem_range, ← h i hi, List.getD, List.getElem?_eq_getElem hi, Option.getD_some]

namespace BitReader

variable {α ι : Type} {r : BitReader α} {P : List Bool → α → Prop}

theorem Reads.mapM (hr : r.Reads P) : ∀ l : List ι, (l.mapM fun _ => r).Reads fun w read =>
    read.length = l.length ∧ ∃ words, w = words.flatten ∧ List.Forall₂ P words read
  | [] => by
    rw [List.mapM_nil]
    refine (Reads.pure []).congr fun w read => ⟨?_, ?_⟩
    · rintro ⟨hlength, words, rfl, hwords⟩
      obtain rfl := List.length_eq_zero_iff.1 hlength
      cases hwords
      exact ⟨rfl, rfl⟩
    · rintro ⟨rfl, rfl⟩
      exact ⟨rfl, [], rfl, .nil⟩
  | _ :: l => by
    rw [List.mapM_cons]
    refine (hr.bind fun _ a _ => (Reads.mapM hr l).map fun read => a :: read).congr fun w read => ⟨?_, ?_⟩
    · rintro ⟨hlength, words, rfl, hwords⟩
      cases hwords with
      | nil => cases hlength
      | @cons u a words read hP hwords =>
        exact ⟨a, u, words.flatten, rfl, hP, read, ⟨Nat.succ.inj hlength, words, rfl, hwords⟩, rfl⟩
    · rintro ⟨a, u, _, rfl, hP, read, ⟨hlength, words, rfl, hwords⟩, rfl⟩
      exact ⟨congrArg _ hlength, u :: words, rfl, .cons hP hwords⟩

theorem reads_codeLengthLengths {n : Nat} (hn : n ≤ 19) : (codeLengthLengths n).Reads (IsLengthCode n) := by
  refine ((Reads.mapM (reads_bits 3) (List.range n)).map _).congr fun w lengths => ?_
  rw [List.length_range]
  constructor
  · rintro ⟨hlength, hzeros, words, hw, hwords⟩
    have hread : ((lengthOrder.take n).map (lengths.getD · 0)).length = n := by
      rw [List.length_map, List.length_take]
      exact Nat.min_eq_left hn
    refine ⟨_, ⟨hread, words, hw, hwords⟩, (eq_map_range_iff _).2 ⟨hlength, fun i hi => ?_⟩⟩
    obtain ⟨htaken, hrest⟩ := map_find?_zip lengthOrder _ (by decide) (hread.symm ▸ hn)
    rw [hread] at htaken hrest
    have hmem : i ∈ lengthOrder.take n ++ lengthOrder.drop n := by
      rw [List.take_append_drop]
      exact mem_lengthOrder_iff.2 hi
    rcases List.mem_append.1 hmem with hi | hi
    · exact (List.map_inj_left.1 htaken i hi).symm
    · rw [hzeros i hi, hrest i hi]
  · rintro ⟨read, ⟨rfl, words, hw, hwords⟩, hlengths⟩
    obtain ⟨hlength, hvalues⟩ := (eq_map_range_iff _).1 hlengths
    obtain ⟨htaken, hrest⟩ := map_find?_zip lengthOrder read (by decide) hn
    have hlt : ∀ i ∈ lengthOrder, i < 19 := fun i => mem_lengthOrder_iff.1
    refine ⟨hlength, fun i hi => ?_, words, hw, ?_⟩
    · rw [hvalues i (hlt i (List.mem_of_mem_drop hi)), hrest i hi]
    · rw [List.map_congr_left fun i hi => hvalues i (hlt i (List.mem_of_mem_take hi)), htaken]
      exact hwords

/-- The `room` lengths that come behind those read before, which are told the last one first. -/
def Completes (code : List Nat) (room : Nat) (read : List Nat) (w : List Bool) (all : List Nat) : Prop :=
  all.length = read.length + room ∧ Runs code w read.reverse all

variable {code read : List Nat} {steps room : Nat}

/-- A repetition fits in what is left, or there are too many lengths. -/
theorem reads_repeated
    (ih : ∀ room' read', room' ≤ steps →
      (codeLengths (.ofLengths code) steps room' read').Reads (Completes code room' read'))
    (hroom : room ≤ steps + 1) (value width least : Nat) (hleast : 0 < least) :
    (bits width >>= fun n => if room < least + n then throw .corrupt
      else codeLengths (.ofLengths code) steps (room - (least + n))
        (List.replicate (least + n) value ++ read)).Reads fun w all =>
      all.length = read.length + room ∧ ∃ x w' n, w = x ++ w' ∧ IsNumber width x n ∧
        Runs code w' (read.reverse ++ List.replicate (least + n) value) all := by
  refine ((reads_bits width).bind (Q := fun n w all => all.length = read.length + room ∧
    Runs code w (read.reverse ++ List.replicate (least + n) value) all) fun x n _ => ?_).congr fun w all => ?_
  · by_cases hover : room < least + n
    · rw [if_pos hover]
      refine (Reads.throw .corrupt).congr fun w all => ⟨?_, False.elim⟩
      rintro ⟨hlength, hruns⟩
      have hle := hruns.length_le
      rw [List.length_append, List.length_reverse, List.length_replicate] at hle
      omega
    · rw [if_neg hover]
      refine (ih (room - (least + n)) _ (by omega)).congr fun w all => ?_
      rw [Completes, List.reverse_append, List.reverse_replicate, List.length_append, List.length_replicate]
      refine and_congr_left fun _ => ?_
      omega
  · constructor
    · rintro ⟨hlength, x, w', n, rfl, hcount, hruns⟩
      exact ⟨n, x, w', rfl, hcount, hlength, hruns⟩
    · rintro ⟨n, x, w', rfl, hcount, hlength, hruns⟩
      exact ⟨hlength, x, w', n, rfl, hcount, hruns⟩

theorem reads_codeLengths (hcode : code.length ≤ 19) : ∀ (steps room : Nat) (read : List Nat),
    room ≤ steps → (codeLengths (.ofLengths code) steps room read).Reads (Completes code room read)
  | steps, 0, read, _ => by
    have hdone : codeLengths (.ofLengths code) steps 0 read = pure read.reverse := by
      cases steps <;> rfl
    rw [hdone]
    refine (Reads.pure _).congr fun w all => ⟨?_, ?_⟩
    · rintro ⟨hlength, hruns⟩
      exact hruns.eq_of_length (by rw [hlength, List.length_reverse, Nat.add_zero])
    · rintro ⟨rfl, rfl⟩
      exact ⟨List.length_reverse, .done⟩
  | steps + 1, room + 1, read, hroom => by
    unfold codeLengths
    refine ((reads_symbol code).bind (Q := fun s w all => all.length = read.length + (room + 1) ∧
      Follows code read.reverse s w all) fun w s hword => ?_).congr fun w all => ?_
    · have hs : s < 19 := by
        obtain ⟨hlt, -⟩ := List.getElem?_eq_some_iff.1 hword.length_eq
        omega
      have hrepeats {value width least : Nat} (h : Repeats read.reverse s value width least) :=
        (reads_repeated (reads_codeLengths hcode steps) hroom value width least h.least_pos).congr fun w all =>
          and_congr_right fun _ => follows_iff_of_repeats h
      split
      · next hs' =>
        refine (reads_codeLengths hcode steps room (s :: read) (by omega)).congr fun w all => ?_
        rw [Completes, follows_iff_of_lt hs', List.reverse_cons, List.length_cons, Nat.add_assoc, Nat.add_comm 1]
      · next hs' =>
        split
        · next hs' =>
          subst hs'
          cases read with
          | nil =>
            refine (Reads.throw .corrupt).congr fun w all => ⟨?_, False.elim⟩
            rintro ⟨-, ⟨hlt, -⟩ | ⟨_, _, _, h, -⟩⟩
            · exact absurd hlt (Nat.lt_irrefl 16)
            · cases h with
              | last h => cases h
          | cons last read => exact hrepeats (.last (List.getLast?_reverse.trans rfl))
        · split
          · next hs' =>
            subst hs'
            exact hrepeats .zeros
          · obtain rfl : s = 18 := by omega
            exact hrepeats .manyZeros
    · rw [Completes]
      constructor
      · rintro ⟨hlength, hruns⟩
        obtain ⟨s, w₁, w₂, rfl, word, follows⟩ := (runs_iff (by rw [List.length_reverse]; omega)).1 hruns
        exact ⟨s, w₁, w₂, rfl, word, hlength, follows⟩
      · rintro ⟨s, w₁, w₂, rfl, word, hlength, follows⟩
        exact ⟨hlength, (runs_iff (by rw [List.length_reverse]; omega)).2 ⟨s, w₁, w₂, rfl, word, follows⟩⟩

/-- A reader that goes on unless something is wrong. -/
theorem Reads.guard {β : Type} {f : β → BitReader α} {flaw : Flaw} {p : Prop} [Decidable p]
    (hr : ¬ p → r.Reads P) : (if p then (MonadExcept.throw flaw : BitReader β) >>= f else r).Reads fun w a => ¬ p ∧ P w a := by
  by_cases hp : p
  · rw [if_pos hp]
    exact (Reads.throw flaw).congr fun w a => ⟨fun h => h.1 hp, False.elim⟩
  · rw [if_neg hp]
    exact (hr hp).congr fun w a => and_iff_right hp

theorem reads_ownCodes : ownCodes.Reads fun w codes =>
    ∃ literals distances, IsCodes w literals distances ∧ codes = (.ofLengths literals, .ofLengths distances) := by
  have hle : ∀ {c n}, IsNumber 4 c n → 4 + n ≤ 19 := by
    rintro c n ⟨hlength, rfl⟩
    have hlt := number_lt c
    rw [hlength] at hlt
    omega
  unfold ownCodes
  refine ((reads_bits 5).bind fun _ i _ => (reads_bits 5).bind fun _ j _ => (reads_bits 4).bind fun _ n hn =>
    (reads_codeLengthLengths (hle hn)).bind fun _ lengths hlengths => .guard fun _ =>
      (reads_codeLengths (Nat.le_of_eq hlengths.1) _ _ [] (Nat.le_refl _)).bind fun _ all _ => .guard fun _ =>
        .pure _).congr fun w codes => ?_
  simp only [Bool.or_eq_true, Bool.not_eq_true', not_or, Bool.not_eq_false, decide_eq_true_eq, Nat.not_lt]
  constructor
  · rintro ⟨literals, distances, h, rfl⟩
    cases h with
    | intro literalCount distanceCount lengthCount code complete runs length_literals length_distances literals_le
        distances_le literals_usable distances_usable =>
      refine ⟨_, _, _, rfl, literalCount, _, _, _, rfl, distanceCount, _, _, _, rfl, lengthCount, _, _, _, rfl, code,
        ⟨⟨length_literals ▸ literals_le, length_distances ▸ distances_le⟩, complete⟩, literals ++ distances, _, [],
        (List.append_nil _).symm, ⟨?_, runs⟩, ?_, rfl, ?_⟩
      · rw [List.length_append, length_literals, length_distances, List.length_nil, Nat.zero_add]
      · rw [List.take_left' length_literals, List.drop_left' length_literals]
        exact ⟨literals_usable, distances_usable⟩
      · rw [List.take_left' length_literals, List.drop_left' length_literals]
  · rintro ⟨i, a, _, rfl, literalCount, j, b, _, rfl, distanceCount, n, c, _, rfl, lengthCount, lengths, x, _, rfl, code,
      ⟨⟨literals_le, distances_le⟩, complete⟩, all, y, _, rfl, ⟨hlength, runs⟩, ⟨literals_usable, distances_usable⟩, rfl,
      rfl⟩
    rw [List.length_nil, Nat.zero_add] at hlength
    rw [← List.take_append_drop (257 + i) all] at runs
    have hliterals : (all.take (257 + i)).length = 257 + i := by
      rw [List.length_take]
      omega
    have hdistances : (all.drop (257 + i)).length = 1 + j := by
      rw [List.length_drop]
      omega
    rw [List.append_nil]
    exact ⟨_, _, .intro literalCount distanceCount lengthCount code complete runs hliterals hdistances
      (by omega) (by omega) literals_usable distances_usable, rfl⟩

end BitReader

end Hypertext.Gzip
