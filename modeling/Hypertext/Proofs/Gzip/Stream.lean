/-
Compressed streams. A stream is a sequence of blocks, the last of which is marked; a block is stored or coded, and its
items append to the content so far. Decoding finishes with a content exactly if there is such a stream in front.
-/
import Hypertext.Proofs.Gzip.Codes

namespace Hypertext.Gzip

open BitReader (IsNumber isNumber_iff bit bits)

/-! ## What items append -/

/-- The content grows by `n` bytes, each the same as the one `distance` before it; before the start there are zeros. -/
structure IsCopied (n distance : Nat) (before after : Bytes) : Prop where
  begins : before <+: after
  length_eq : after.length = before.length + n
  back : ∀ i, before.length ≤ i → i < after.length →
    after.getD i 0 = if distance ≤ i then after.getD (i - distance) 0 else 0

namespace Item

/-- What an item makes of the content so far. -/
def Appends : Item → (before after : Bytes) → Prop
  | literal b, before, after => after = before ++ [b]
  | copy n distance, before, after => IsCopied n distance before after
  | endOfBlock, _, _ => False

end Item

/-- The items of a coded block up to its end. -/
inductive IsCoded (literals distances : List Nat) : List Bool → (before after : Bytes) → Prop
  | done {w : List Bool} {content : Bytes} (last : IsItem literals distances w .endOfBlock) :
      IsCoded literals distances w content content
  | item {w w' : List Bool} {i : Item} {before between after : Bytes} (item : IsItem literals distances w i)
      (appends : i.Appends before between) (more : IsCoded literals distances w' between after) :
      IsCoded literals distances (w ++ w') before after

/-! ## Streams -/

/-- A block without its first bit; it begins `place` bits behind the start of the stream. A stored block begins with its
length at the next byte. -/
inductive IsBlock (place : Nat) : List Bool → (before after : Bytes) → Prop
  | stored {pad n m : List Bool} {before data : Bytes} (aligned : (place + 2 + pad.length) % 8 = 0)
      (pad_lt : pad.length < 8) (length : IsNumber 16 n data.length) (inverse : IsNumber 16 m (65535 - data.length)) :
      IsBlock place ([false, false] ++ (pad ++ (n ++ (m ++ bitsOf data)))) before (before ++ data)
  | fixed {w : List Bool} {before after : Bytes}
      (coded : IsCoded fixedLiteralLengths fixedDistanceLengths w before after) :
      IsBlock place ([true, false] ++ w) before after
  | own {w w' : List Bool} {literals distances : List Nat} {before after : Bytes} (codes : IsCodes w literals distances)
      (coded : IsCoded literals distances w' before after) : IsBlock place ([false, true] ++ (w ++ w')) before after

/-- Blocks up to the one that is marked as the last. -/
inductive IsBlocks : (place : Nat) → List Bool → (before after : Bytes) → Prop
  | last {place : Nat} {w : List Bool} {before after : Bytes} (block : IsBlock (place + 1) w before after) :
      IsBlocks place (true :: w) before after
  | more {place : Nat} {w w' : List Bool} {before between after : Bytes} (block : IsBlock (place + 1) w before between)
      (others : IsBlocks (place + 1 + w.length) w' between after) : IsBlocks place (false :: (w ++ w')) before after

/-- A compressed stream with this content; its last byte is filled up. -/
def IsStream (b content : Bytes) : Prop :=
  ∃ w pad, bitsOf b = w ++ pad ∧ pad.length < 8 ∧ IsBlocks 0 w [] content

/-! ## Copies -/

theorem getD_of_begins {a b : Bytes} (h : a <+: b) {i : Nat} (hi : i < a.length) : b.getD i 0 = a.getD i 0 := by
  obtain ⟨c, rfl⟩ := h
  rw [List.getD, List.getD, List.getElem?_append_left hi]

theorem IsCopied.unique {n distance : Nat} {before after after' : Bytes} (hpos : 0 < distance)
    (h : IsCopied n distance before after) (h' : IsCopied n distance before after') : after = after' := by
  have hlength : after.length = after'.length := h.length_eq.trans h'.length_eq.symm
  have hget : ∀ i, i < after.length → after.getD i 0 = after'.getD i 0 := by
    intro i
    induction i using Nat.strongRecOn with
    | ind i ih =>
      intro hi
      by_cases hbefore : i < before.length
      · rw [getD_of_begins h.begins hbefore, getD_of_begins h'.begins hbefore]
      · rw [h.back i (by omega) hi, h'.back i (by omega) (by omega)]
        split
        · exact ih (i - distance) (by omega) (by omega)
        · rfl
  refine List.ext_getElem hlength fun i hi hi' => ?_
  have heq := hget i hi
  rw [List.getD, List.getD, List.getElem?_eq_getElem hi, List.getElem?_eq_getElem hi'] at heq
  exact heq

theorem isCopied_copyBack {distance : Nat} (hpos : 0 < distance) : ∀ (n : Nat) (out : Array UInt8),
    IsCopied n distance out.toList (copyBack distance n out).toList
  | 0, out => ⟨List.prefix_rfl, rfl, fun i hle hlt => absurd hlt (Nat.not_lt.2 hle)⟩
  | n + 1, out => by
    rw [copyBack]
    generalize hb : (if distance ≤ out.size then out[out.size - distance]?.getD 0 else 0) = b
    have ih := isCopied_copyBack hpos n (out.push b)
    rw [Array.toList_push] at ih
    have hbegins : out.toList <+: (copyBack distance n (out.push b)).toList :=
      (List.prefix_append _ _).trans ih.begins
    refine ⟨hbegins, ?_, fun i hle hlt => ?_⟩
    · rw [ih.length_eq, List.length_append, List.length_singleton]
      omega
    · rcases Nat.lt_or_eq_of_le hle with hlt' | rfl
      · exact ih.back i (by rw [List.length_append, List.length_singleton]; exact hlt') hlt
      · -- the first byte of the copy
        have hnew : (out.toList ++ [b]).getD out.toList.length 0 = b := by simp
        rw [getD_of_begins ih.begins (by simp), hnew, Array.length_toList]
        by_cases hdistance : distance ≤ out.size
        · rw [if_pos hdistance] at hb ⊢
          rw [getD_of_begins hbegins (by rw [Array.length_toList]; omega), ← hb]
          simp
        · rw [if_neg hdistance] at hb ⊢
          exact hb.symm

/-- A copy begins at an earlier place. -/
theorem pos_of_isExtended {s distance : Nat} {w : List Bool} (h : IsExtended distanceTable s w distance) :
    0 < distance := by
  obtain ⟨entry, hentry, n, -, rfl⟩ := h
  have hall : ∀ entry ∈ distanceTable.toList, 0 < entry.1 := by decide
  have hpos := hall entry (Array.mem_toList_iff.2 (Array.mem_of_getElem? hentry))
  omega

/-! ## Decoding items -/

section Items

variable {literals distances : List Nat} {w : List Bool} {i : Item} {before between after : Bytes}

theorem IsItem.ne_nil (h : IsItem literals distances w i) : w ≠ [] := by
  cases h with
  | literal word => exact word.ne_nil
  | endOfBlock word => exact word.ne_nil
  | copy word extra word' extra' => exact List.append_ne_nil_of_left_ne_nil word.ne_nil _

theorem IsItem.distance_pos {n distance : Nat} (h : IsItem literals distances w (.copy n distance)) :
    0 < distance := by
  cases h with
  | copy word extra word' extra' => exact pos_of_isExtended extra'

theorem Item.Appends.length_le (h : i.Appends before after) : before.length ≤ after.length := by
  cases i with
  | literal b =>
    obtain rfl : after = _ := h
    rw [List.length_append]
    exact Nat.le_add_right _ _
  | copy n distance => exact h.begins.length_le
  | endOfBlock => exact h.elim

theorem IsCoded.length_le (h : IsCoded literals distances w before after) : before.length ≤ after.length := by
  induction h with
  | done last => exact Nat.le_refl _
  | item item appends more ih => exact Nat.le_trans appends.length_le ih

/-- An item in front of what follows it. -/
theorem exists_of_item {c c' : Cursor} {rest : List Bool} (hbits : c.bits = w ++ rest)
    (item : IsItem literals distances w i) (appends : i.Appends before between)
    (h : ∃ w' rest', (c.skip w.length).bits = w' ++ rest' ∧ IsCoded literals distances w' between after ∧
      c' = (c.skip w.length).skip w'.length) :
    ∃ w rest, c.bits = w ++ rest ∧ IsCoded literals distances w before after ∧ c' = c.skip w.length := by
  obtain ⟨w', rest', hbits', coded, rfl⟩ := h
  rw [Cursor.bits_skip_of_eq hbits] at hbits'
  refine ⟨w ++ w', rest', ?_, .item item appends coded, ?_⟩
  · rw [hbits, hbits', List.append_assoc]
  · rw [Cursor.skip_skip, List.length_append]

theorem exists_of_items {bound : Nat} : ∀ {steps : Nat} {c c' : Cursor} {out out' : Array UInt8}, c.Proper →
    items (.ofLengths literals) (.ofLengths distances) bound steps c out = .ok (c', out') →
    ∃ w rest, c.bits = w ++ rest ∧ IsCoded literals distances w out.toList out'.toList ∧ c' = c.skip w.length
  | 0, _, _, _, _, _, h => by cases h
  | steps + 1, c, c', out, out', hc, h => by
    unfold items at h
    split at h
    · cases h
    · split at h
      · cases h
      · next c₁ hitem =>
        cases h
        obtain ⟨w, rest, hbits, item, rfl⟩ := (BitReader.reads_item _ _ c hc _ _).1 hitem
        exact ⟨w, rest, hbits, .done item, rfl⟩
      · next b c₁ hitem =>
        obtain ⟨w, rest, hbits, item, rfl⟩ := (BitReader.reads_item _ _ c hc _ _).1 hitem
        exact exists_of_item hbits item Array.toList_push (exists_of_items (hc.skip_of_eq hbits) h)
      · next n distance c₁ hitem =>
        obtain ⟨w, rest, hbits, item, rfl⟩ := (BitReader.reads_item _ _ c hc _ _).1 hitem
        have appends : (Item.copy n distance).Appends out.toList (copyBack distance n out).toList :=
          isCopied_copyBack item.distance_pos n out
        exact exists_of_item hbits item appends (exists_of_items (hc.skip_of_eq hbits) h)

theorem items_of_coded (h : IsCoded literals distances w before after) {bound : Nat} (hbound : after.length < bound) :
    ∀ {steps : Nat} {c : Cursor} {rest : List Bool}, c.Proper → c.bits = w ++ rest → w.length < steps →
      items (.ofLengths literals) (.ofLengths distances) bound steps c before.toArray =
        .ok (c.skip w.length, after.toArray) := by
  induction h with
  | @done w content last =>
    rintro (_ | steps) c rest hc hbits hsteps
    · exact absurd hsteps (Nat.not_lt_zero _)
    have hitem : (item (.ofLengths literals) (.ofLengths distances)).run c = _ :=
      (BitReader.reads_item _ _ c hc _ _).2 ⟨w, rest, hbits, last, rfl⟩
    unfold items
    rw [if_neg (by rw [List.size_toArray]; exact Nat.not_le.2 hbound), hitem]
  | @item w w' i before between after item appends more ih =>
    rintro (_ | steps) c rest hc hbits hsteps
    · exact absurd hsteps (Nat.not_lt_zero _)
    rw [List.append_assoc] at hbits
    have hitem : (Gzip.item (.ofLengths literals) (.ofLengths distances)).run c = _ :=
      (BitReader.reads_item _ _ c hc _ _).2 ⟨w, _, hbits, item, rfl⟩
    have hpos := List.length_pos_iff.2 item.ne_nil
    have hle := appends.length_le
    have hle' := more.length_le
    rw [List.length_append] at hsteps ⊢
    have hmore := ih hbound (hc.skip_of_eq hbits) (Cursor.bits_skip_of_eq hbits) (by omega : w'.length < steps)
    rw [Cursor.skip_skip] at hmore
    unfold items
    rw [if_neg (by rw [List.size_toArray]; omega), hitem]
    cases i with
    | literal b =>
      obtain rfl : between = before ++ [b] := appends
      rw [← List.push_toArray] at hmore
      exact hmore
    | copy n distance =>
      obtain rfl : between = (copyBack distance n before.toArray).toList :=
        appends.unique item.distance_pos (isCopied_copyBack item.distance_pos n before.toArray)
      exact hmore
    | endOfBlock => exact appends.elim

end Items

/-! ## Decoding blocks -/

theorem bind_eq_ok_iff {ε α β : Type} {x : Except ε α} {f : α → Except ε β} {b : β} :
    x >>= f = .ok b ↔ ∃ a, x = .ok a ∧ f a = .ok b := by
  cases x with
  | error e =>
    constructor
    · intro h
      cases h
    · rintro ⟨a, h, -⟩
      cases h
  | ok a =>
    constructor
    · exact fun h => ⟨a, rfl, h⟩
    · rintro ⟨_, ⟨⟩, h⟩
      exact h

namespace BitReader

theorem align_eq {c : Cursor} (hc : c.Proper) : align c = .ok ((), c.skip ((8 - c.taken) % 8)) := by
  have hlt := hc.taken_lt
  rw [align]
  split
  · next h => rw [h, Nat.sub_zero, Nat.mod_self, Cursor.skip_zero hc]
  · next h => rw [Cursor.skip, Nat.mod_eq_of_lt (by omega), Nat.add_sub_of_le (by omega)]

/-- The length of a stored block and its inverse. -/
def storedLength : BitReader Nat := do
  let n ← bits 16
  let inverse ← bits 16
  if n + inverse ≠ 65535 then throw .corrupt
  return n

theorem reads_storedLength : storedLength.Reads fun w n =>
    ∃ x y, w = x ++ y ∧ IsNumber 16 x n ∧ IsNumber 16 y (65535 - n) := by
  unfold storedLength
  refine ((reads_bits 16).bind fun _ n _ => (reads_bits 16).bind fun _ m _ => .guard fun _ => .pure n).congr
    fun w n => ⟨?_, ?_⟩
  · rintro ⟨x, y, rfl, length, inverse⟩
    have hlt := number_lt x
    rw [length.1, length.2] at hlt
    exact ⟨n, x, y, rfl, length, 65535 - n, y, [], (List.append_nil y).symm, inverse, by omega, rfl, rfl⟩
  · rintro ⟨n, x, _, rfl, length, m, y, _, rfl, inverse, hsum, rfl, rfl⟩
    obtain rfl : m = 65535 - n := by omega
    rw [List.append_nil]
    exact ⟨x, y, rfl, length, inverse⟩

end BitReader

theorem stored_eq {c : Cursor} (hc : c.Proper) (out : Array UInt8) :
    stored c out = match BitReader.storedLength (c.skip ((8 - c.taken) % 8)) with
      | .error flaw => .error ⟨out, .flawed flaw⟩
      | .ok (n, c) =>
        if c.bytes.length < n then .error ⟨out ++ (c.bytes.take n).toArray, .flawed .truncated⟩
        else .ok (⟨c.bytes.drop n, 0⟩, out ++ (c.bytes.take n).toArray) := by
  have hrun : (do BitReader.align; BitReader.storedLength : BitReader Nat).run c =
      BitReader.storedLength (c.skip ((8 - c.taken) % 8)) := by
    show (BitReader.align c >>= fun p => BitReader.storedLength p.2) = _
    rw [BitReader.align_eq hc]
    rfl
  rw [← hrun]
  rfl

section Blocks

variable {bound steps place : Nat} {c c' : Cursor} {out out' : Array UInt8} {w : List Bool} {before after : Bytes}

/-- At the start of a byte there are the bytes that are left. -/
theorem bits_of_taken (h : c.taken = 0) (n : Nat) :
    c.bits = bitsOf (c.bytes.take n) ++ bitsOf (c.bytes.drop n) := by
  rw [Cursor.bits, h, List.drop_zero, ← bitsOf_append, List.take_append_drop]

theorem take_of_bits {data : Bytes} {rest : List Bool} (h : c.taken = 0) (hbits : c.bits = bitsOf data ++ rest) :
    data.length ≤ c.bytes.length ∧ c.bytes.take data.length = data := by
  have hlength := congrArg List.length hbits
  rw [Cursor.length_bits, h, List.length_append, length_bitsOf] at hlength
  have hle : data.length ≤ c.bytes.length := by omega
  rw [bits_of_taken h data.length] at hbits
  obtain ⟨hdata, -⟩ := List.append_inj hbits (by rw [length_bitsOf, length_bitsOf, List.length_take_of_le hle])
  exact ⟨hle, bitsOf_injective hdata⟩

theorem skip_bytes (h : c.taken = 0) (n : Nat) : c.skip (8 * n) = ⟨c.bytes.drop n, 0⟩ := by
  rw [Cursor.skip, h, Nat.zero_add, Nat.mul_div_cancel_left n (by decide), Nat.mul_mod_right]

theorem exists_of_stored (hc : c.Proper) (hplace : (place + 2) % 8 = c.taken)
    (h : stored c out = .ok (c', out')) :
    ∃ w rest, c.bits = w ++ rest ∧ IsBlock place ([false, false] ++ w) out.toList out'.toList ∧ c' = c.skip w.length := by
  have hlt := hc.taken_lt
  have hle := hc.taken_le
  have hpad : (8 - c.taken) % 8 ≤ c.bits.length := by
    rw [Cursor.length_bits]
    omega
  rw [stored_eq hc] at h
  split at h
  · cases h
  · next n c₂ hheader =>
    obtain ⟨_, rest, hbits, ⟨x, y, rfl, length, inverse⟩, rfl⟩ :=
      (BitReader.reads_storedLength _ (hc.skip hpad) _ _).1 hheader
    have hheaderLength : (x ++ y).length = 32 := by rw [List.length_append, length.1, inverse.1]
    rw [hheaderLength, Cursor.skip_skip] at h
    have hrest : (c.skip ((8 - c.taken) % 8 + 32)).bits = rest := by
      rw [← hheaderLength, ← Cursor.skip_skip]
      exact Cursor.bits_skip_of_eq hbits
    have htaken : (c.skip ((8 - c.taken) % 8 + 32)).taken = 0 := by
      show (c.taken + _) % 8 = 0
      omega
    generalize hc₂ : c.skip ((8 - c.taken) % 8 + 32) = c₂ at h hrest htaken
    split at h
    · cases h
    · next hfits =>
      cases h
      have hdata : (c₂.bytes.take n).length = n := List.length_take_of_le (Nat.le_of_not_lt hfits)
      have hpadLength : (c.bits.take ((8 - c.taken) % 8)).length = (8 - c.taken) % 8 := List.length_take_of_le hpad
      rw [← hdata] at length inverse
      refine ⟨c.bits.take ((8 - c.taken) % 8) ++ (x ++ (y ++ bitsOf (c₂.bytes.take n))), bitsOf (c₂.bytes.drop n),
        ?_, ?_, ?_⟩
      · rw [bits_of_taken htaken n] at hrest
        rw [Cursor.bits_skip, ← hrest] at hbits
        simp only [List.append_assoc] at hbits ⊢
        rw [← hbits, List.take_append_drop]
      · rw [Array.toList_append]
        exact .stored (by rw [hpadLength]; omega) (by rw [hpadLength]; omega) length inverse
      · rw [← List.append_assoc x, List.length_append, hpadLength, List.length_append, hheaderLength, length_bitsOf,
          hdata, ← skip_bytes htaken, ← hc₂, Cursor.skip_skip, Nat.add_assoc]

theorem stored_of_bits {pad n m rest : List Bool} {data : Bytes} (hc : c.Proper)
    (hbits : c.bits = pad ++ (n ++ (m ++ (bitsOf data ++ rest)))) (aligned : (c.taken + pad.length) % 8 = 0)
    (pad_lt : pad.length < 8) (length : IsNumber 16 n data.length) (inverse : IsNumber 16 m (65535 - data.length)) :
    stored c before.toArray =
      .ok (c.skip (pad ++ (n ++ (m ++ bitsOf data))).length, (before ++ data).toArray) := by
  have hlt := hc.taken_lt
  have hpad : (8 - c.taken) % 8 = pad.length := by omega
  have hheaderLength : (n ++ m).length = 32 := by rw [List.length_append, length.1, inverse.1]
  rw [← List.append_assoc n m] at hbits
  have hheader : BitReader.storedLength (c.skip pad.length) = _ :=
    (BitReader.reads_storedLength _ (hc.skip_of_eq hbits) _ _).2
      ⟨n ++ m, _, Cursor.bits_skip_of_eq hbits, ⟨n, m, rfl, length, inverse⟩, rfl⟩
  have hrest : (c.skip (pad.length + 32)).bits = bitsOf data ++ rest := by
    rw [← hheaderLength, ← Cursor.skip_skip]
    exact Cursor.bits_skip_of_eq (Cursor.bits_skip_of_eq hbits)
  have htaken : (c.skip (pad.length + 32)).taken = 0 := by
    show (c.taken + _) % 8 = 0
    omega
  obtain ⟨hfits, hdata⟩ := take_of_bits htaken hrest
  have hnext := skip_bytes htaken data.length
  rw [stored_eq hc, hpad, hheader, hheaderLength, Cursor.skip_skip]
  dsimp only
  rw [if_neg (Nat.not_lt.2 hfits), ← hnext, hdata, Cursor.skip_skip, ← List.append_assoc n, List.length_append,
    List.length_append, hheaderLength, length_bitsOf, Nat.add_assoc, List.append_toArray]

theorem mapError_eq_ok {α : Type} {x : Except Flaw α} {g : Flaw → Inflated} {a : α}
    (h : x.mapError g = .ok a) : x = .ok a := by
  cases x with
  | error flaw => cases h
  | ok a =>
    cases h
    rfl

/-- Whether a block is the last, and its kind. -/
def blockHead : BitReader (Nat × Nat) := do
  let last ← bit
  return (last, ← bits 2)

theorem reads_blockHead : blockHead.Reads fun w head =>
    ∃ (last : Bool) (kind : Nat), kind < 4 ∧ w = last :: lowBits 2 kind ∧ head = (last.toNat, kind) := by
  refine (BitReader.Reads.bit_bind fun last => (BitReader.reads_bits 2).map fun kind => (last.toNat, kind)).congr
    fun w head => ⟨?_, ?_⟩
  · rintro ⟨last, kind, hlt, rfl, rfl⟩
    exact ⟨last, _, rfl, kind, isNumber_iff.2 ⟨hlt, rfl⟩, rfl⟩
  · rintro ⟨last, w, rfl, kind, hnumber, rfl⟩
    obtain ⟨hlt, rfl⟩ := isNumber_iff.1 hnumber
    exact ⟨last, kind, hlt, rfl, rfl⟩

/-- What follows the head of a block. -/
def blockContent (bound steps kind : Nat) (c : Cursor) (out : Array UInt8) : Except Inflated (Cursor × Array UInt8) :=
  match kind with
  | 0 => stored c out
  | 1 => items fixedLiterals fixedDistances bound steps c out
  | 2 => do
    let ((literals, distances), c) ← (ownCodes.run c).mapError fun flaw => ⟨out, .flawed flaw⟩
    items literals distances bound steps c out
  | _ => .error ⟨out, .flawed .corrupt⟩

theorem block_eq (bound steps : Nat) (c : Cursor) (out : Array UInt8) :
    block bound steps c out = ((blockHead.run c).mapError fun flaw => ⟨out, .flawed flaw⟩) >>= fun head =>
      blockContent bound steps head.1.2 head.2 out >>= fun content => pure (head.1.1 == 1, content.1, content.2) := by
  have hhead : blockHead.run c = bit.run c >>= fun p => (bits 2).run p.2 >>= fun q => .ok ((p.1, q.1), q.2) := rfl
  rw [hhead, block]
  cases bit.run c with
  | error flaw => rfl
  | ok p =>
    show (((bits 2).run p.2).mapError _ >>= _) = (((bits 2).run p.2 >>= _).mapError _ >>= _)
    cases (bits 2).run p.2 with
    | error flaw => rfl
    | ok q =>
      obtain ⟨kind, c⟩ := q
      match kind with
      | 0 => rfl
      | 1 => rfl
      | 2 =>
        show ((ownCodes.run c).mapError _ >>= _) = ((ownCodes.run c).mapError _ >>= _) >>= _
        cases ownCodes.run c <;> rfl
      | kind + 3 => rfl

theorem exists_of_content {kind : Nat} (hc : c.Proper) (hplace : (place + 2) % 8 = c.taken)
    (h : blockContent bound steps kind c out = .ok (c', out')) :
    ∃ w rest, c.bits = w ++ rest ∧ IsBlock place (lowBits 2 kind ++ w) out.toList out'.toList ∧
      c' = c.skip w.length := by
  unfold blockContent at h
  split at h
  · exact exists_of_stored hc hplace h
  · obtain ⟨w, rest, hbits, coded, rfl⟩ := exists_of_items hc h
    exact ⟨w, rest, hbits, .fixed coded, rfl⟩
  · obtain ⟨⟨_, c₁⟩, hcodes, h⟩ := bind_eq_ok_iff.1 h
    obtain ⟨w, rest, hbits, ⟨literals, distances, codes, rfl⟩, rfl⟩ :=
      (BitReader.reads_ownCodes _ hc _ _).1 (mapError_eq_ok hcodes)
    obtain ⟨w', rest', hbits', coded, rfl⟩ := exists_of_items (hc.skip_of_eq hbits) h
    rw [Cursor.bits_skip_of_eq hbits] at hbits'
    refine ⟨w ++ w', rest', ?_, .own codes coded, ?_⟩
    · rw [hbits, hbits', List.append_assoc]
    · rw [Cursor.skip_skip, List.length_append]
  · cases h

theorem exists_of_block {last : Bool} (hc : c.Proper) (hplace : place % 8 = c.taken)
    (h : block bound steps c out = .ok (last, c', out')) :
    ∃ w rest, c.bits = last :: (w ++ rest) ∧ IsBlock (place + 1) w out.toList out'.toList ∧
      c' = c.skip (w.length + 1) := by
  rw [block_eq] at h
  obtain ⟨⟨_, c₁⟩, hhead, h⟩ := bind_eq_ok_iff.1 h
  obtain ⟨⟨c₂, out₂⟩, hcontent, h⟩ := bind_eq_ok_iff.1 h
  obtain ⟨_, rest₁, hbits₁, ⟨b, kind, -, rfl, rfl⟩, rfl⟩ := (reads_blockHead c hc _ _).1 (mapError_eq_ok hhead)
  have hplace₁ : (place + 1 + 2) % 8 = (c.skip (b :: lowBits 2 kind).length).taken := by
    show _ = (c.taken + 3) % 8
    omega
  obtain ⟨w, rest, hbits, block, rfl⟩ := exists_of_content (hc.skip_of_eq hbits₁) hplace₁ hcontent
  rw [Cursor.bits_skip_of_eq hbits₁] at hbits
  have hlast : (b.toNat == 1) = b := by cases b <;> rfl
  cases h
  rw [hlast]
  refine ⟨lowBits 2 kind ++ w, rest, ?_, block, ?_⟩
  · rw [hbits₁, hbits, List.cons_append, List.append_assoc]
  · rw [Cursor.skip_skip, List.length_append, List.length_cons, Nat.add_right_comm]

theorem content_of_isBlock (h : IsBlock place w before after) (hbound : after.length < bound) :
    ∃ kind w', kind < 4 ∧ w = lowBits 2 kind ++ w' ∧ ∀ {steps : Nat} {c : Cursor} {rest : List Bool},
      c.Proper → (place + 2) % 8 = c.taken → c.bits = w' ++ rest → w'.length < steps →
      blockContent bound steps kind c before.toArray = .ok (c.skip w'.length, after.toArray) := by
  cases h with
  | @stored pad n m before data aligned pad_lt length inverse =>
    refine ⟨0, _, by decide, rfl, fun {steps c rest} hc hplace hbits _ => ?_⟩
    simp only [List.append_assoc] at hbits
    exact stored_of_bits hc hbits (by omega) pad_lt length inverse
  | @fixed w before after coded =>
    exact ⟨1, w, by decide, rfl, fun hc _ hbits hsteps => items_of_coded coded hbound hc hbits hsteps⟩
  | @own w w' literals distances before after codes coded =>
    refine ⟨2, w ++ w', by decide, rfl, fun {steps c rest} hc _ hbits hsteps => ?_⟩
    rw [List.append_assoc] at hbits
    rw [List.length_append] at hsteps
    have hcodes : ownCodes.run c = .ok ((.ofLengths literals, .ofLengths distances), _) :=
      (BitReader.reads_ownCodes _ hc _ _).2 ⟨w, _, hbits, ⟨literals, distances, codes, rfl⟩, rfl⟩
    have hitems := items_of_coded coded hbound (hc.skip_of_eq hbits) (Cursor.bits_skip_of_eq hbits)
      (show w'.length < steps by omega)
    rw [Cursor.skip_skip, ← List.length_append] at hitems
    unfold blockContent
    rw [hcodes]
    exact hitems

theorem block_of_isBlock {last : Bool} {rest : List Bool} (h : IsBlock (place + 1) w before after) (hc : c.Proper)
    (hplace : place % 8 = c.taken) (hbits : c.bits = last :: (w ++ rest)) (hbound : after.length < bound)
    (hsteps : w.length < steps) :
    block bound steps c before.toArray = .ok (last, c.skip (w.length + 1), after.toArray) := by
  obtain ⟨kind, w', hkind, rfl, hcontent⟩ := content_of_isBlock h hbound
  have hbits₁ : c.bits = (last :: lowBits 2 kind) ++ (w' ++ rest) := by
    rw [hbits, List.cons_append, List.append_assoc]
  have hhead : blockHead.run c = .ok ((last.toNat, kind), _) :=
    (reads_blockHead c hc _ _).2 ⟨_, _, hbits₁, ⟨last, kind, hkind, rfl, rfl⟩, rfl⟩
  have hplace₁ : (place + 1 + 2) % 8 = (c.skip (last :: lowBits 2 kind).length).taken := by
    show _ = (c.taken + 3) % 8
    omega
  rw [List.length_append] at hsteps ⊢
  have hend := hcontent (hc.skip_of_eq hbits₁) hplace₁ (Cursor.bits_skip_of_eq hbits₁)
    (show w'.length < steps by omega)
  have hlast : (last.toNat == 1) = last := by cases last <;> rfl
  rw [block_eq, hhead]
  show (blockContent bound steps kind _ before.toArray >>= _) = _
  rw [hend, Cursor.skip_skip, List.length_cons, Nat.add_right_comm]
  show Except.ok (last.toNat == 1, _, _) = _
  rw [hlast]

/-! ## Decoding streams -/

theorem IsBlock.length_le (h : IsBlock place w before after) : before.length ≤ after.length := by
  cases h with
  | stored aligned pad_lt length inverse =>
    rw [List.length_append]
    exact Nat.le_add_right _ _
  | fixed coded => exact coded.length_le
  | own codes coded => exact coded.length_le

theorem IsBlocks.length_le (h : IsBlocks place w before after) : before.length ≤ after.length := by
  induction h with
  | last block => exact block.length_le
  | more block others ih => exact Nat.le_trans block.length_le ih

/-- A part of a stream does not finish the decoding. -/
def Unfinished {α : Type} (x : Except Inflated α) : Prop := ∀ r rest, x = .error r → r.ending ≠ .finished rest

theorem Unfinished.bind {α β : Type} {x : Except Inflated α} {f : α → Except Inflated β} (hx : Unfinished x)
    (hf : ∀ a, Unfinished (f a)) : Unfinished (x >>= f) := by
  cases x with
  | error r => exact fun r' rest h => by cases h; exact hx _ rest rfl
  | ok a => exact hf a

theorem unfinished_mapError {α : Type} (x : Except Flaw α) (out : Array UInt8) :
    Unfinished (x.mapError fun flaw => ⟨out, .flawed flaw⟩) := by
  intro r rest h
  cases x with
  | error flaw =>
    cases h
    nofun
  | ok a => cases h

theorem items_unfinished {literals distances : Code} : ∀ (steps : Nat) (c : Cursor) (out : Array UInt8),
    Unfinished (items literals distances bound steps c out)
  | 0, c, out => fun r rest h => by
    cases h
    nofun
  | steps + 1, c, out => by
    intro r rest h
    unfold items at h
    split at h
    · cases h
      nofun
    · split at h
      · cases h
        nofun
      · cases h
      · exact items_unfinished steps _ _ r rest h
      · exact items_unfinished steps _ _ r rest h

theorem stored_unfinished (c : Cursor) (out : Array UInt8) : Unfinished (stored c out) := by
  intro r rest h
  unfold stored at h
  dsimp only at h
  split at h
  · cases h
    nofun
  · split at h
    · cases h
      nofun
    · cases h

theorem block_unfinished (bound steps : Nat) (c : Cursor) (out : Array UInt8) :
    Unfinished (block bound steps c out) := by
  unfold block
  refine .bind (unfinished_mapError _ _) fun first => .bind (unfinished_mapError _ _) fun second => ?_
  dsimp only
  split
  · exact .bind (stored_unfinished _ _) fun _ => nofun
  · exact .bind (items_unfinished _ _ _) fun _ => nofun
  · exact .bind (unfinished_mapError _ _) fun codes => .bind (items_unfinished _ _ _) fun _ => nofun
  · intro r rest h
    cases h
    nofun

/-- The bytes behind the one in which a cursor stands. -/
def Cursor.behind (c : Cursor) : Bytes := if c.taken = 0 then c.bytes else c.bytes.drop 1

theorem behind_skip (b : Bytes) (n : Nat) : (Cursor.skip n ⟨b, 0⟩).behind = b.drop ((n + 7) / 8) := by
  show (if (0 + n) % 8 = 0 then b.drop ((0 + n) / 8) else (b.drop ((0 + n) / 8)).drop 1) = _
  rw [Nat.zero_add, List.drop_drop]
  split
  · next h => rw [show (n + 7) / 8 = n / 8 by omega]
  · next h => rw [show (n + 7) / 8 = n / 8 + 1 by omega]

theorem exists_of_blocks {bitCount : Nat} {rest : Bytes} : ∀ {steps place : Nat} {c : Cursor} {out : Array UInt8},
    c.Proper → place % 8 = c.taken → blocks bound bitCount steps c out = ⟨out', .finished rest⟩ →
    ∃ w later, c.bits = w ++ later ∧ IsBlocks place w out.toList out'.toList ∧ rest = (c.skip w.length).behind
  | 0, _, _, _, _, _, h => by cases h
  | steps + 1, place, c, out, hc, hplace, h => by
    unfold blocks at h
    split at h
    · cases h
    · split at h
      · next r hblock => exact absurd (congrArg Inflated.ending h) (block_unfinished _ _ _ _ _ rest hblock)
      · next c₁ out₁ hblock =>
        cases h
        obtain ⟨w, later, hbits, block, rfl⟩ := exists_of_block hc hplace hblock
        exact ⟨true :: w, later, hbits, .last block, rfl⟩
      · next c₁ out₁ hblock =>
        obtain ⟨w, later, hbits, block, rfl⟩ := exists_of_block hc hplace hblock
        have hbits' : c.bits = (false :: w) ++ later := hbits
        have hplace' : (place + 1 + w.length) % 8 = (c.skip (w.length + 1)).taken := by
          show _ = (c.taken + (w.length + 1)) % 8
          omega
        obtain ⟨w', later', hlater, others, rfl⟩ := exists_of_blocks (hc.skip_of_eq hbits') hplace' h
        rw [Cursor.bits_skip_of_eq hbits'] at hlater
        refine ⟨false :: (w ++ w'), later', ?_, .more block others, ?_⟩
        · rw [hbits, hlater, List.cons_append, List.append_assoc]
        · rw [Cursor.skip_skip, ← List.length_append, List.cons_append]

theorem blocks_of_isBlocks (h : IsBlocks place w before after) (hbound : after.length < bound) {bitCount : Nat} :
    ∀ {steps : Nat} {c : Cursor} {later : List Bool}, c.Proper → place % 8 = c.taken → c.bits = w ++ later →
      w.length < steps → w.length ≤ bitCount →
      blocks bound bitCount steps c before.toArray = ⟨after.toArray, .finished (c.skip w.length).behind⟩ := by
  induction h with
  | @last place w before after block =>
    rintro (_ | steps) c later hc hplace hbits hsteps hcount
    · exact absurd hsteps (Nat.not_lt_zero _)
    have hle := block.length_le
    rw [List.length_cons] at hcount
    have hblock := block_of_isBlock block hc hplace hbits hbound (show w.length < bitCount + 1 by omega)
    unfold blocks
    rw [if_neg (by rw [List.size_toArray]; omega), hblock]
    rfl
  | @more place w w' before between after block others ih =>
    rintro (_ | steps) c later hc hplace hbits hsteps hcount
    · exact absurd hsteps (Nat.not_lt_zero _)
    have hle := block.length_le
    have hle' := others.length_le
    rw [List.length_cons, List.length_append] at hsteps hcount
    rw [List.cons_append, List.append_assoc] at hbits
    have hblock := block_of_isBlock block hc hplace hbits (Nat.lt_of_le_of_lt hle' hbound)
      (show w.length < bitCount + 1 by omega)
    have hplace' : (place + 1 + w.length) % 8 = (c.skip (w.length + 1)).taken := by
      show _ = (c.taken + (w.length + 1)) % 8
      omega
    have hbits' : c.bits = (false :: w) ++ (w' ++ later) := hbits
    have hothers := ih hbound (hc.skip_of_eq hbits') hplace' (Cursor.bits_skip_of_eq hbits')
      (show w'.length < steps by omega) (by omega : w'.length ≤ bitCount)
    rw [Cursor.skip_skip, ← List.length_append] at hothers
    unfold blocks
    rw [if_neg (by rw [List.size_toArray]; omega), hblock]
    exact hothers

end Blocks

/-- Decoding finishes with a content within the bound exactly if a stream with this content comes first; what follows
the stream is left. -/
theorem inflate_eq_finished_iff {b content rest : Bytes} {bound : Nat} (hbound : content.length < bound) :
    inflate bound b = ⟨content.toArray, .finished rest⟩ ↔ ∃ stream, b = stream ++ rest ∧ IsStream stream content := by
  have hc := Cursor.proper_start b
  constructor
  · intro h
    obtain ⟨w, later, hbits, hblocks, rfl⟩ := exists_of_blocks hc (show 0 % 8 = 0 from rfl) h
    rw [Cursor.bits_start] at hbits
    have hlength := congrArg List.length hbits
    rw [length_bitsOf, List.length_append] at hlength
    rw [behind_skip]
    have htake : (b.take ((w.length + 7) / 8)).length = (w.length + 7) / 8 := List.length_take_of_le (by omega)
    have hbegins : w <+: bitsOf (b.take ((w.length + 7) / 8)) := by
      refine List.prefix_of_prefix_length_le ⟨later, hbits.symm⟩ ?_ (by rw [length_bitsOf, htake]; omega)
      rw [← List.take_append_drop ((w.length + 7) / 8) b, bitsOf_append, List.take_append_drop]
      exact List.prefix_append _ _
    refine ⟨b.take ((w.length + 7) / 8), (List.take_append_drop _ b).symm, w,
      (bitsOf (b.take ((w.length + 7) / 8))).drop w.length, ?_, ?_, hblocks⟩
    · obtain ⟨pad, hpad⟩ := hbegins
      rw [← hpad, List.drop_left]
    · rw [List.length_drop, length_bitsOf, htake]
      omega
  · rintro ⟨stream, rfl, w, pad, hbits, hpad, hblocks⟩
    have hlength := congrArg List.length hbits
    rw [length_bitsOf, List.length_append] at hlength
    have hall : Cursor.bits ⟨stream ++ rest, 0⟩ = w ++ (pad ++ bitsOf rest) := by
      rw [Cursor.bits_start, bitsOf_append, hbits, List.append_assoc]
    have hle : w.length ≤ 8 * (stream ++ rest).length := by
      rw [List.length_append]
      omega
    have hfound := blocks_of_isBlocks hblocks hbound hc rfl hall (Nat.lt_succ_of_le hle) hle
    have hend : (w.length + 7) / 8 = stream.length := by omega
    rw [behind_skip, hend, List.drop_left] at hfound
    exact hfound

end Hypertext.Gzip
