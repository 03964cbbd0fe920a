/-
How a reader of responses comes to an outcome. It waits after reads that each bring some bytes, no more than its buffer
has room for, until one of them makes it done or the bytes are at their end. Pieces are read in this way however they
are cut.
-/
import Hypertext.Client.Incoming

namespace Hypertext

namespace ResponseReader

variable {first : ResponseReader}

/-- A reader that waits after these reads: each of them has brought something, and no more than there was room for. -/
inductive Waits (first : ResponseReader) : List Bytes → ResponseReader → Prop
  | start : Waits first [] first
  | read {reads : List Bytes} {r next : ResponseReader} {read : Bytes} (before : Waits first reads r) (some : read ≠ [])
      (fits : read.length ≤ r.buffer.room) (waits : r.feed read = .waiting next) : Waits first (reads ++ [read]) next

/-- An outcome of reading these bytes: that of the last read, or, when all bytes have been read, that of the end. -/
inductive Comes (first : ResponseReader) (ending : Ending) (bytes : Bytes) : Except ClientError Received → Prop
  | read {reads : List Bytes} {r : ResponseReader} {read : Bytes} {outcome : Except ClientError Received}
      (before : Waits first reads r) (part : reads.flatten ++ read <+: bytes) (fits : read.length ≤ r.buffer.room)
      (done : r.feed read = .done outcome) : Comes first ending bytes outcome
  | ended {reads : List Bytes} {r : ResponseReader} (before : Waits first reads r) (all : reads.flatten = bytes) :
      Comes first ending bytes (r.readAll ending [])

/-- A piece is read in as many reads as it takes, until the reader is done or waits after all of it. -/
theorem Waits.feedPiece (ending : Ending) (later : Bytes) : ∀ (steps : Nat) (piece : Bytes) {reads : List Bytes}
    {r : ResponseReader}, piece.length ≤ steps → Waits first reads r →
    match r.feedPiece steps piece with
    | .done outcome => Comes first ending (reads.flatten ++ (piece ++ later)) outcome
    | .waiting next => ∃ reads', reads'.flatten = reads.flatten ++ piece ∧ Waits first reads' next
  | 0, piece, reads, r, hsteps, h => by
    obtain rfl : piece = [] := List.eq_nil_of_length_eq_zero (Nat.le_zero.1 hsteps)
    exact ⟨reads, (List.append_nil _).symm, h⟩
  | steps + 1, [], reads, r, _, h => ⟨reads, (List.append_nil _).symm, h⟩
  | steps + 1, b :: bs, reads, r, hsteps, h => by
    have hroom := r.buffer.room_pos
    have hsplit := List.take_append_drop r.buffer.room (b :: bs)
    have hfits : ((b :: bs).take r.buffer.room).length ≤ r.buffer.room := List.length_take_le _ _
    rw [ResponseReader.feedPiece, if_neg (by simp)]
    cases hfeed : r.feed ((b :: bs).take r.buffer.room) with
    | done outcome =>
      refine .read h ?_ hfits hfeed
      rw [List.prefix_append_right_inj, ← hsplit, List.append_assoc]
      simp
    | waiting next =>
      have hsome : (b :: bs).take r.buffer.room ≠ [] := by simp; omega
      have hrest := (h.read hsome hfits hfeed).feedPiece ending later steps ((b :: bs).drop r.buffer.room)
        (by rw [List.length_drop]; omega)
      have hread : (reads ++ [(b :: bs).take r.buffer.room]).flatten ++ (b :: bs).drop r.buffer.room =
          reads.flatten ++ (b :: bs) := by
        rw [List.flatten_concat, List.append_assoc, hsplit]
      rw [← List.append_assoc, hread, List.append_assoc] at hrest
      exact hrest

/-- Reading from pieces is reading in reads of the same bytes. -/
theorem Waits.readAll (ending : Ending) : ∀ (pieces : List Bytes) {reads : List Bytes} {r : ResponseReader},
    Waits first reads r → Comes first ending (reads.flatten ++ pieces.flatten) (r.readAll ending pieces)
  | [], reads, r, h => .ended h (List.append_nil _).symm
  | piece :: pieces, reads, r, h => by
    have hpiece := h.feedPiece ending pieces.flatten piece.length piece (Nat.le_refl _)
    rw [ResponseReader.readAll, List.flatten_cons]
    cases hfeed : r.feedPiece piece.length piece with
    | done outcome =>
      rw [hfeed] at hpiece
      exact hpiece
    | waiting next =>
      rw [hfeed] at hpiece
      obtain ⟨reads', hflat, hnext⟩ := hpiece
      rw [← List.append_assoc, ← hflat]
      exact hnext.readAll ending pieces

/-- What is read from pieces comes of reading their bytes. -/
theorem comes_read (toHead : Bool) (maxBody : Nat) (pieces : List Bytes) (ending : Ending) :
    Comes (new toHead maxBody) ending pieces.flatten (ClientResponse.read toHead maxBody pieces ending) := by
  have hstart : Waits (new toHead maxBody) [] (new toHead maxBody) := .start
  exact hstart.readAll ending pieces

end ResponseReader

end Hypertext
