/-
Reading decimal integers of a bounded size, with the reason a text is refused.
-/
import Hypertext.Text.Ascii

namespace Hypertext.Text

/-- Why a text is no integer of the wanted size. -/
inductive IntegerError
  | empty
  | invalidDigit
  | tooLarge
  deriving DecidableEq, Repr

def IntegerError.message : IntegerError → String
  | .empty => "cannot parse integer from empty string"
  | .invalidDigit => "invalid digit found in string"
  | .tooLarge => "number too large to fit in target type"

/-- Reads on from a value, refusing the first character at which the text is no digit or the value too large. -/
def readDigits (max : Nat) : Nat → List Char → Except IntegerError Nat
  | n, [] => .ok n
  | n, c :: rest =>
    if isDigit c then
      let m := 10 * n + (c.toNat - '0'.toNat)
      if m ≤ max then readDigits max m rest else .error .tooLarge
    else .error .invalidDigit

/-- Reads an unsigned integer of at most `max`: decimal digits, optionally after a plus sign. -/
def readNat (max : Nat) (s : String) : Except IntegerError Nat :=
  match s.toList with
  | [] => .error .empty
  | '+' :: c :: rest => readDigits max 0 (c :: rest)
  | cs => readDigits max 0 cs

/-- The value of a run of decimal digits. -/
def digitsValue (cs : List Char) : Nat := cs.foldl (fun n c => 10 * n + (c.toNat - '0'.toNat)) 0

def maxWord : Nat := 18446744073709551615

end Hypertext.Text
