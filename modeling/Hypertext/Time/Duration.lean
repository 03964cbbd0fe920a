/-
Spans of time, counted in nanoseconds.
-/
import Hypertext.Text.Integer

namespace Hypertext

structure Duration where
  nanos : Nat
  deriving DecidableEq, Repr

namespace Duration

def ofMillis (ms : Nat) : Duration := ⟨ms * 1000000⟩

/-- Seconds and a part of a second in nanoseconds. -/
def ofParts (secs nanos : Nat) : Duration := ⟨secs * 1000000000 + nanos⟩

/-- Whole milliseconds; what is left is dropped. -/
def millis (d : Duration) : Nat := d.nanos / 1000000

/-- Whole milliseconds, at most as many as 64 bits hold. -/
def wordMillis (d : Duration) : Nat := min d.millis Text.maxWord

/-- A quantity with `places` decimal places, zeros at the end of the fraction left out. -/
def decimalText (whole frac places : Nat) : String :=
  let digits := (Nat.toDigits 10 frac).leftpad places '0'
  let kept := (digits.reverse.dropWhile (· == '0')).reverse
  if kept.isEmpty then toString whole else toString whole ++ "." ++ String.ofList kept

/-- The span in its largest fitting unit of seconds, milliseconds, microseconds and nanoseconds. -/
def text (d : Duration) : String :=
  if 1000000000 ≤ d.nanos then decimalText (d.nanos / 1000000000) (d.nanos % 1000000000) 9 ++ "s"
  else if 1000000 ≤ d.nanos then decimalText (d.nanos / 1000000) (d.nanos % 1000000) 6 ++ "ms"
  else if 1000 ≤ d.nanos then decimalText (d.nanos / 1000) (d.nanos % 1000) 3 ++ "µs"
  else toString d.nanos ++ "ns"

@[simp]
theorem millis_ofMillis (ms : Nat) : (ofMillis ms).millis = ms := by simp [millis, ofMillis]

end Duration

end Hypertext
