/-
Pipes. A pipe carries bytes in one direction and holds a limited number of them; its writer waits while it is full,
and its reader while it is empty. Either side can close it: nothing more goes in then, and what is inside can still be
read.
-/
import Hypertext.Bytes

namespace Hypertext

/-- The bytes inside, and the bytes that their writer could not put in yet. -/
structure Pipe where
  capacity : Nat
  bytes : Bytes
  waiting : Bytes
  closed : Bool
  deriving DecidableEq, Repr

namespace Pipe

def ofCapacity (capacity : Nat) : Pipe := ⟨capacity, [], [], false⟩

/-- How many bytes can be put in. -/
def room (p : Pipe) : Nat := p.capacity - p.bytes.length

/-- Moves waiting bytes in while there is room. -/
def refill (p : Pipe) : Pipe :=
  if p.closed then p
  else { p with bytes := p.bytes ++ p.waiting.take p.room, waiting := p.waiting.drop p.room }

/-- Has bytes written by a writer that waits for room. -/
def send (bytes : Bytes) (p : Pipe) : Pipe :=
  if p.closed then { p with waiting := bytes } else refill { p with waiting := p.waiting ++ bytes }

/-- Puts in as many bytes as there is room for; gives the others back. -/
def write (bytes : Bytes) (p : Pipe) : Bytes × Pipe :=
  (bytes.drop p.room, { p with bytes := p.bytes ++ bytes.take p.room })

/-- Takes at most so many bytes out. -/
def read (most : Nat) (p : Pipe) : Bytes × Pipe :=
  (p.bytes.take most, refill { p with bytes := p.bytes.drop most })

def close (p : Pipe) : Pipe := { p with closed := true }

/-- Whether nothing will come out any more. -/
def isExhausted (p : Pipe) : Bool := p.closed && p.bytes.isEmpty

/-- Whether the pipe was closed before its writer was done. -/
def cutsOff (p : Pipe) : Bool := p.closed && !p.waiting.isEmpty

/-! ## No byte is lost -/

/-- The bytes on their way, those that wait included. -/
def contents (p : Pipe) : Bytes := p.bytes ++ p.waiting

@[simp]
theorem contents_refill (p : Pipe) : p.refill.contents = p.contents := by
  unfold refill contents
  split
  · rfl
  · simp

theorem contents_send {p : Pipe} (h : p.closed = false) (bytes : Bytes) :
    (p.send bytes).contents = p.contents ++ bytes := by
  rw [send, if_neg (by simp [h]), contents_refill]
  simp [contents]

/-- What is read and what stays is what there was. -/
theorem read_contents (most : Nat) (p : Pipe) : (p.read most).1 ++ (p.read most).2.contents = p.contents := by
  simp only [read, contents_refill]
  simp [contents, ← List.append_assoc]

/-- What goes in and what is given back is what was to be written. -/
theorem write_bytes (bytes : Bytes) (p : Pipe) : (p.write bytes).2.bytes ++ (p.write bytes).1 = p.bytes ++ bytes := by
  simp [write]

/-- A pipe holds no more than its capacity. -/
theorem length_write_le {p : Pipe} (h : p.bytes.length ≤ p.capacity) (bytes : Bytes) :
    (p.write bytes).2.bytes.length ≤ p.capacity := by
  simp only [write, room, List.length_append, List.length_take]
  omega

end Pipe

end Hypertext
