/-
Buffers for bytes that have been read and not used yet. A buffer has a fixed place in a block of memory, used bytes
leave a gap before it, and one read brings at most as many bytes as there is room behind it.
-/
import Hypertext.Bytes

namespace Hypertext

/-- Bytes in a block: `gap` bytes before them have been used. -/
structure ReadBuffer where
  capacity : Nat
  gap : Nat
  bytes : Bytes

namespace ReadBuffer

def empty (capacity : Nat) : ReadBuffer := ⟨capacity, 0, []⟩

def minRoom : Nat := 64

/-- Makes room if there is none: the bytes move to the front of the block if the gap can hold them, and otherwise
the block grows to twice its size or as much as is needed. -/
def makeRoom (b : ReadBuffer) : ReadBuffer :=
  let size := b.bytes.length
  if b.gap + size < b.capacity then b
  else if size ≤ b.gap && size + minRoom ≤ b.capacity then { b with gap := 0 }
  else { b with capacity := max (2 * b.capacity) (b.gap + size + minRoom) }

/-- How many bytes the next read may bring. -/
def room (b : ReadBuffer) : Nat := b.makeRoom.capacity - b.makeRoom.gap - b.bytes.length

def append (read : Bytes) (b : ReadBuffer) : ReadBuffer := { b.makeRoom with bytes := b.bytes ++ read }

/-- The buffer after all but the last bytes have been used. -/
def keep (rest : Bytes) (b : ReadBuffer) : ReadBuffer :=
  { b with gap := b.gap + (b.bytes.length - rest.length), bytes := rest }

theorem room_pos (b : ReadBuffer) : 0 < b.room := by
  unfold room makeRoom minRoom
  simp only []
  split
  · omega
  · split
    · next h =>
      simp only [Bool.and_eq_true, decide_eq_true_eq] at h
      simp only []
      omega
    · simp only []
      omega

@[simp]
theorem bytes_append (read : Bytes) (b : ReadBuffer) : (b.append read).bytes = b.bytes ++ read := rfl

@[simp]
theorem bytes_keep (rest : Bytes) (b : ReadBuffer) : (b.keep rest).bytes = rest := rfl

end ReadBuffer

end Hypertext
