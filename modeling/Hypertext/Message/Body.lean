/-
Taking a message body off the front of a buffer.
-/
import Hypertext.Message.Chunked

namespace Hypertext.Framing

/-- The body at the front of a buffer if all of it is there. A body that lasts until the connection closes never
is, before it does. -/
def decode (f : Framing) (limit : Nat) (buffer : Bytes) : Decoded :=
  match f with
  | .empty => .ok (some ([], buffer))
  | .length n =>
    if limit < n then .error (.tooLarge limit)
    else if buffer.length < n then .ok none
    else .ok (some (buffer.take n, buffer.drop n))
  | .chunked => Chunked.decode limit buffer
  | .untilClose => if limit < buffer.length then .error (.tooLarge limit) else .ok none

/-- Takes the body off the front of a buffer: what was found, and what the buffer holds then. Where there is no whole
body the buffer stays as it is. -/
def take (f : Framing) (limit : Nat) (buffer : Bytes) : Except BodyError (Option Bytes) × Bytes :=
  match f.decode limit buffer with
  | .ok (some (body, rest)) => (.ok (some body), rest)
  | .ok none => (.ok none, buffer)
  | .error e => (.error e, buffer)

variable {f : Framing} {limit : Nat} {buffer body rest : Bytes}

theorem take_eq_some_iff :
    f.take limit buffer = (.ok (some body), rest) ↔ f.decode limit buffer = .ok (some (body, rest)) := by
  unfold take
  rcases f.decode limit buffer with e | _ | ⟨b, r⟩ <;> simp

theorem take_of_none (h : f.decode limit buffer = .ok none) : f.take limit buffer = (.ok none, buffer) := by
  simp only [take, h]

theorem take_of_error {e : BodyError} (h : f.decode limit buffer = .error e) :
    f.take limit buffer = (.error e, buffer) := by
  simp only [take, h]

/-- Where there is no whole body nothing is taken. -/
theorem take_of_ne_some (h : ∀ body, (f.take limit buffer).1 ≠ .ok (some body)) :
    (f.take limit buffer).2 = buffer := by
  rcases hd : f.decode limit buffer with e | _ | ⟨b, r⟩
  · rw [take_of_error hd]
  · rw [take_of_none hd]
  · rw [take_eq_some_iff.2 hd] at h
    exact absurd rfl (h b)

end Hypertext.Framing
