/-
Looking for a piece of grammar at the front of bytes of which more may still arrive. A scanner either takes its
piece and leaves the rest, or finds that the bytes so far are a beginning of it, or finds that they are not.
-/
import Hypertext.Bytes

namespace Hypertext

/-- What a scanner finds. -/
inductive Scan (ε α : Type)
  | done (value : α) (rest : Bytes)
  | more
  | bad (error : ε)
  deriving Repr

/-- Takes a value off the front of a byte string. -/
def Scanner (ε α : Type) := Bytes → Scan ε α

namespace Scanner

variable {ε α β : Type}

/-- Takes nothing. -/
def pure (a : α) : Scanner ε α := fun s => .done a s

/-- One scanner after another. -/
def bind (p : Scanner ε α) (f : α → Scanner ε β) : Scanner ε β := fun s =>
  match p s with
  | .done a rest => f a rest
  | .more => .more
  | .bad e => .bad e

instance : Monad (Scanner ε) where
  pure := pure
  bind := bind

def fail (e : ε) : Scanner ε α := fun _ => .bad e

/-- The next byte. -/
def next : Scanner ε UInt8
  | [] => .more
  | b :: rest => .done b rest

/-- Looks at the next byte without taking it. -/
def peek : Scanner ε UInt8
  | [] => .more
  | b :: rest => .done b (b :: rest)

/-- The next byte if it is of this kind. -/
def byte (p : UInt8 → Bool) (e : ε) : Scanner ε UInt8 := do
  let b ← next
  if p b then return b else fail e

/-- All bytes of a kind up to the first of another kind. -/
def span (p : UInt8 → Bool) : Scanner ε Bytes := fun s =>
  match s.dropWhile p with
  | [] => .more
  | rest => .done (s.takeWhile p) rest

/-- The given bytes. -/
def literal (e : ε) : Bytes → Scanner ε Unit
  | [] => pure ()
  | c :: cs => do
    let _ ← byte (· == c) e
    literal e cs

/-- The end of a line: a line feed, after a carriage return or alone. -/
def newline (e : ε) : Scanner ε Unit := do
  let b ← next
  if b == 13 then
    let _ ← byte (· == 10) e
  else if b != 10 then fail e

/-! ## What is left -/

/-- A scanner that leaves no more than it was given. -/
def Shrinks (p : Scanner ε α) : Prop := ∀ s a rest, p s = .done a rest → rest.length ≤ s.length

theorem pure_shrinks (a : α) : Shrinks (pure a : Scanner ε α) := by
  intro s b rest h
  cases h
  exact Nat.le_refl _

theorem fail_shrinks (e : ε) : Shrinks (fail e : Scanner ε α) := by
  intro s b rest h
  cases h

theorem Shrinks.bind {p : Scanner ε α} {f : α → Scanner ε β} (hp : Shrinks p) (hf : ∀ a, Shrinks (f a)) :
    Shrinks (Scanner.bind p f) := by
  intro s b rest h
  unfold Scanner.bind at h
  split at h
  · next a mid e => exact Nat.le_trans (hf a _ _ _ h) (hp _ _ _ e)
  · cases h
  · cases h

theorem next_shrinks : Shrinks (next : Scanner ε UInt8) := by
  intro s b rest h
  cases s with
  | nil => cases h
  | cons c s => cases h; simp

theorem byte_shrinks (p : UInt8 → Bool) (e : ε) : Shrinks (byte p e) := by
  refine next_shrinks.bind fun b => ?_
  by_cases h : p b = true
  · rw [if_pos h]
    exact pure_shrinks b
  · rw [if_neg h]
    exact fail_shrinks e

theorem span_shrinks (p : UInt8 → Bool) : Shrinks (span p : Scanner ε Bytes) := by
  intro s b rest h
  unfold span at h
  split at h
  · cases h
  · cases h
    exact (List.dropWhile_sublist p).length_le

end Scanner

end Hypertext
