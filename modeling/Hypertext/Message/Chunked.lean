/-
The chunked coding: each chunk is a line with its size, the data and an empty line; after a chunk of size zero
come trailer lines up to an empty one.
-/
import Hypertext.Message.Framing
import Hypertext.Message.Scan

namespace Hypertext

/-- What is found at the front of a buffer: a whole body and the bytes after it, or only a beginning. -/
abbrev Decoded := Except BodyError (Option (Bytes × Bytes))

namespace Chunked

/-- At most `room` hexadecimal digits that continue a number. -/
def sizeDigits : (room : Nat) → Nat → Scanner Unit Nat
  | _, _, [] => .more
  | room, n, b :: rest =>
    match Bytes.hexValue? b, room with
    | none, _ => .done n (b :: rest)
    | some _, 0 => .bad ()
    | some d, room + 1 => sizeDigits room (16 * n + d) rest

/-- The line that opens a chunk: its size in hexadecimal digits, blanks, and after a semicolon anything up to the
end of the line. -/
def sizeLine : Scanner Unit Nat := do
  let n ← sizeDigits 16 0
  let _ ← Scanner.span fun b => b == 32 || b == 9
  let mark ← Scanner.byte (fun b => b == 13 || b == 59) ()
  if mark == 59 then
    let _ ← Scanner.span (· != 13)
    let _ ← Scanner.next
  let _ ← Scanner.byte (· == 10) ()
  return n

theorem length_sizeDigits_le {room n : Nat} {s : Bytes} {m : Nat} {rest : Bytes}
    (h : sizeDigits room n s = .done m rest) : rest.length ≤ s.length := by
  induction s generalizing room n with
  | nil => simp [sizeDigits] at h
  | cons b s ih =>
    unfold sizeDigits at h
    split at h
    · cases h; simp
    · cases h
    · have := ih h; simp; omega

theorem length_sizeLine_le {s : Bytes} {n : Nat} {rest : Bytes} (h : sizeLine s = .done n rest) :
    rest.length ≤ s.length := by
  have hd : Scanner.Shrinks (sizeDigits 16 0) := fun _ _ _ h => length_sizeDigits_le h
  refine Scanner.Shrinks.bind hd (fun n => ?_) s n rest h
  refine Scanner.Shrinks.bind (Scanner.span_shrinks _) fun _ => ?_
  refine Scanner.Shrinks.bind (Scanner.byte_shrinks _ _) fun mark => ?_
  have hend : Scanner.Shrinks (Scanner.bind (Scanner.byte (· == 10) ()) fun _ => Scanner.pure n) :=
    Scanner.Shrinks.bind (Scanner.byte_shrinks _ _) fun _ => Scanner.pure_shrinks _
  by_cases hm : (mark == 59) = true
  · rw [if_pos hm]
    exact Scanner.Shrinks.bind (Scanner.span_shrinks _) fun _ =>
      Scanner.Shrinks.bind Scanner.next_shrinks fun _ => hend
  · rw [if_neg hm]
    exact hend

/-- A body of which only a beginning is there: once that is longer than allowed, so is the body. -/
def unfinished (total limit : Nat) : Decoded := if limit < total then .error (.tooLarge limit) else .ok none

/-- Passes the trailer lines and the empty line at the end. `total` bytes are in the buffer; at each start of a
line those before it may not be more than the limit. -/
def trailers (total limit : Nat) : (lineStart : Bool) → Bytes → Decoded
  | true, s =>
    if limit < total - s.length then .error (.tooLarge limit)
    else match s with
      | 13 :: 10 :: rest => .ok (some ([], rest))
      | _ :: rest => trailers total limit false rest
      | [] => unfinished total limit
  | false, 13 :: 10 :: rest => trailers total limit true rest
  | false, _ :: rest => trailers total limit false rest
  | false, [] => unfinished total limit

/-- The chunks from here on. A chunk whose data would end past the limit is refused before its data is there. -/
def chunks (total limit : Nat) (s : Bytes) : Decoded :=
  match h : sizeLine s with
  | .bad _ => .error .invalidChunk
  | .more => unfinished total limit
  | .done 0 rest => trailers total limit true rest
  | .done size rest =>
    if limit < total - rest.length + size then .error (.tooLarge limit)
    else if hlen : rest.length < size + 2 then unfinished total limit
    else if (rest.drop size).take 2 != Bytes.crlf then .error .invalidChunk
    else (chunks total limit (rest.drop (size + 2))).map (·.map fun p => (rest.take size ++ p.1, p.2))
termination_by s.length
decreasing_by
  have := length_sizeLine_le h
  simp
  omega

/-- A chunked body at the front of a buffer. The limit counts all bytes of its framing. -/
def decode (limit : Nat) (buffer : Bytes) : Decoded := chunks buffer.length limit buffer

end Chunked

end Hypertext
