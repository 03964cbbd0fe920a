/-
The limit of decompression. Content that is decompressed is within the limit, and every limit that it is within gives
it, with its checksum and its length compared; every other one fails for this reason. The bound of the output only stops
the decoding, and where it has not done so it has no say.
-/
import Hypertext.Proofs.Gzip.Grammar

namespace Hypertext.Gzip

/-! ## The bound of the output -/

/-- The first decoding stopped at its bound, or the second one comes to the same. -/
def Outlasts {α : Type} (x x' : Except Inflated α) : Prop := (∀ r, x = .error r → r.ending ≠ .full) → x' = x

namespace Outlasts

variable {α β : Type}

theorem refl (x : Except Inflated α) : Outlasts x x := fun _ => rfl

theorem bind {x x' : Except Inflated α} {f f' : α → Except Inflated β} (hx : Outlasts x x')
    (hf : ∀ a, Outlasts (f a) (f' a)) : Outlasts (x >>= f) (x' >>= f') := by
  intro h
  cases x with
  | error r =>
    rw [hx fun r' hr' => h r' (congrArg (· >>= f) hr')]
    rfl
  | ok a =>
    rw [hx nofun]
    exact hf a h

end Outlasts

variable {bound bound' : Nat}

/-- A bound that has not stopped a decoding has no say in it. -/
theorem items_outlasts (hle : bound ≤ bound') (literals distances : Code) :
    ∀ (steps : Nat) (c : Cursor) (out : Array UInt8),
      Outlasts (items literals distances bound steps c out) (items literals distances bound' steps c out)
  | 0, _, _ => .refl _
  | k + 1, c, out => by
    intro h
    unfold items at h ⊢
    by_cases hfull : bound ≤ out.size
    · rw [if_pos hfull] at h
      exact absurd rfl (h _ rfl)
    · rw [if_neg hfull] at h ⊢
      rw [if_neg (by omega)]
      split at h
      · rfl
      · rfl
      · exact items_outlasts hle literals distances k _ _ h
      · exact items_outlasts hle literals distances k _ _ h

theorem block_outlasts (hle : bound ≤ bound') (steps : Nat) (c : Cursor) (out : Array UInt8) :
    Outlasts (block bound steps c out) (block bound' steps c out) := by
  unfold block
  refine .bind (.refl _) fun first => .bind (.refl _) fun second => ?_
  -- only a block of items looks at the bound
  dsimp only
  split
  · exact .refl _
  · exact .bind (items_outlasts hle _ _ _ _ _) fun _ => .refl _
  · exact .bind (.refl _) fun codes => .bind (items_outlasts hle _ _ _ _ _) fun _ => .refl _
  · exact .refl _

theorem blocks_outlasts (hle : bound ≤ bound') (bitCount : Nat) :
    ∀ (steps : Nat) (c : Cursor) (out : Array UInt8), (blocks bound bitCount steps c out).ending ≠ .full →
      blocks bound' bitCount steps c out = blocks bound bitCount steps c out
  | 0, _, _, _ => rfl
  | k + 1, c, out, h => by
    unfold blocks at h ⊢
    by_cases hfull : bound ≤ out.size
    · rw [if_pos hfull] at h
      exact absurd rfl h
    · rw [if_neg hfull] at h ⊢
      rw [if_neg (by omega)]
      have hblock := block_outlasts hle (bitCount + 1) c out
      cases hb : block bound (bitCount + 1) c out with
      | error r =>
        rw [hb] at h hblock
        rw [hblock fun r' hr' => by cases hr'; exact h]
      | ok next =>
        obtain ⟨last, c', out'⟩ := next
        rw [hb] at h hblock
        rw [hblock fun r hr => by cases hr]
        cases last with
        | true => rfl
        | false => exact blocks_outlasts hle bitCount k c' out' h

theorem inflate_outlasts (hle : bound ≤ bound') (b : Bytes) (h : (inflate bound b).ending ≠ .full) :
    inflate bound' b = inflate bound b :=
  blocks_outlasts hle (8 * b.length) (8 * b.length + 1) ⟨b, 0⟩ #[] h

/-! ## Members -/

variable {b content content' rest : Bytes} {limit limit' : Nat}

theorem length_le_of_gunzip (h : gunzip b limit = .ok content) : content.length ≤ limit := (gunzip_eq_ok_iff.1 h).1

/-- The content of a member does not depend on the limit within which it is decompressed. -/
theorem gunzip_unique (h : gunzip b limit = .ok content) (h' : gunzip b limit' = .ok content') :
    content = content' := by
  obtain ⟨-, rest, hleads⟩ := gunzip_eq_ok_iff.1 h
  obtain ⟨-, rest', hleads'⟩ := gunzip_eq_ok_iff.1 h'
  exact (hleads.unique hleads').1

/-- A content that is longer than the limit fails for this reason, even if the decoding was stopped in its midst. -/
theorem gunzip_of_longer (h : Leads b content rest) (hlong : limit < content.length) :
    gunzip b limit = .error (.tooLong limit) := by
  have hbound : maxOutput limit ≤ maxOutput content.length :=
    Nat.mul_le_mul_right _ (Nat.succ_le_succ (Nat.div_le_div_right (Nat.le_of_lt hlong)))
  obtain ⟨stream, tail, hheader, hinflate, -⟩ := (leads_iff (lt_maxOutput content.length)).1 h
  have hrun : gunzip b limit = Except.ok stream >>= _ := congrArg (· >>= _) hheader
  rw [hrun]
  by_cases hfull : (inflate (maxOutput limit) stream).ending = .full
  · rw [maxOutput] at hfull
    simp only [bind, Except.bind, hfull]
    rfl
  · have hfinished := (inflate_outlasts hbound stream hfull).symm.trans hinflate
    rw [maxOutput] at hfinished
    simp only [bind, Except.bind, hfinished]
    exact if_pos (by rw [List.size_toArray]; exact hlong)

/-! ## Main result -/

/-- Of two limits the larger one decompresses what the smaller one does, and the same; the smaller one decompresses what
the larger one does if it is not longer than that, and otherwise fails for this reason. Behind the stream of all content
that is decompressed, even if it is as long as it may be, stand its checksum and its length. -/
theorem gunzip_within_limits (hle : limit ≤ limit') (b content : Bytes) :
    (gunzip b limit = .ok content → content.length ≤ limit ∧ gunzip b limit' = .ok content ∧
      ∃ header stream trailer rest, b = header ++ (stream ++ (trailer ++ rest)) ∧ IsHeader header ∧
        IsStream stream content ∧ IsTrailer content trailer) ∧
    (gunzip b limit' = .ok content → content.length ≤ limit → gunzip b limit = .ok content) ∧
    (gunzip b limit' = .ok content → limit < content.length → gunzip b limit = .error (.tooLong limit)) := by
  refine ⟨fun h => ?_, fun h hlength => ?_, fun h hlength => ?_⟩
  · obtain ⟨hlength, rest, hleads⟩ := gunzip_eq_ok_iff.1 h
    refine ⟨hlength, gunzip_eq_ok_iff.2 ⟨Nat.le_trans hlength hle, rest, hleads⟩, ?_⟩
    obtain ⟨_, rfl, form⟩ := hleads
    cases form with
    | @intro header stream trailer content header_form stream_form trailer_form =>
    exact ⟨header, stream, trailer, rest, by simp only [List.append_assoc], header_form, stream_form, trailer_form⟩
  · exact gunzip_eq_ok_iff.2 ⟨hlength, (gunzip_eq_ok_iff.1 h).2⟩
  · obtain ⟨-, rest, hleads⟩ := gunzip_eq_ok_iff.1 h
    exact gunzip_of_longer hleads hlength

/-- One byte, compressed, is within a limit of one byte and not of none. -/
theorem gunzip_within_limits_of_letter :
    let member : Bytes :=
      [31, 139, 8, 0, 0, 0, 0, 0, 0, 255, 1, 1, 0, 254, 255, 97, 67, 190, 183, 232, 1, 0, 0, 0]
    gunzip member 1 = .ok [97] ∧ gunzip member 100 = .ok [97] ∧ gunzip member 0 = .error (.tooLong 0) := by
  intro member
  have hletter : gunzip member 1 = .ok [97] := by decide +kernel
  obtain ⟨hlarger, -, -⟩ := gunzip_within_limits (show 1 ≤ 100 by decide) member [97]
  obtain ⟨-, -, hsmaller⟩ := gunzip_within_limits (show 0 ≤ 1 by decide) member [97]
  exact ⟨hletter, (hlarger hletter).2.1, hsmaller hletter (by decide)⟩

end Hypertext.Gzip
